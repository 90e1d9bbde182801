import DirectiveFlow.Step.Arguments
import DirectiveFlow.Step.Schema

namespace DirectiveFlow

/-- How a call of a step's code ended; a crash is no answer at all. -/
inductive Ending (α : Type) where
  | done (result : α)
  | failed (fault : StepFault)
  | crashed

/-- What a call printed and how it ended. -/
structure Reply (α : Type) where
  printed : String
  ending : Ending α

def Reply.done {α : Type} (result : α) : Reply α :=
  ⟨"", .done result⟩

def Reply.ofExcept {α : Type} : Except StepFault α → Reply α
  | .ok result => ⟨"", .done result⟩
  | .error fault => ⟨"", .failed fault⟩

/-- The code of a serial or parallel step. It is prepared once, before the flow starts. -/
structure Operation where
  prepare : Reply Unit
  act : List Value → Reply Value

def Operation.pure (act : List Value → Except StepFault Value) : Operation where
  prepare := .done ()
  act inputs := .ofExcept (act inputs)

/-- The code of a reducer: `combine item held` is held next, `finish` makes the result of it. -/
structure Reduction where
  combine : Value → Value → Except StepFault Value
  finish : Value → Except StepFault Value

inductive Body where
  | task (operation : Operation)
  | fold (reduction : Reduction)

def Body.label : Body → String
  | .task _ => "task"
  | .fold _ => "fold"

structure StepType where
  schema : Schema
  build : Arguments → Except StepFault Body

end DirectiveFlow
