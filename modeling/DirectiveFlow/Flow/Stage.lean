import DirectiveFlow.Environment
import DirectiveFlow.Step.Body
import DirectiveFlow.Text.Quoted

namespace DirectiveFlow

/-- A step that runs once against the environment. -/
structure Serial where
  name : String
  inputs : List String
  outputs : List String
  operation : Operation

/-- A step within a group. A fold leaves what a worker holds under the key `partials`. -/
inductive Member where
  | task (name : String) (inputs outputs : List String) (operation : Operation)
  | fold (name item partials : String) (reduction : Reduction)

namespace Member

def name : Member → String
  | .task name .. => name
  | .fold name .. => name

def inputs : Member → List String
  | .task _ inputs .. => inputs
  | .fold _ item .. => [item]

def outputs : Member → List String
  | .task _ _ outputs _ => outputs
  | .fold _ item .. => [item]

def partials? : Member → Option String
  | .task .. => none
  | .fold _ _ partials _ => some partials

end Member

/-- A run of parallel and reducer steps. Only gathered names leave it. -/
structure Group where
  members : List Member
  /-- The names read from the environment. A name may stand here more than once. -/
  requests : List String
  gathered : List String

namespace Group

def empty : Group := ⟨[], [], []⟩

def name (g : Group) : String :=
  "[" ++ " ".intercalate (g.members.map Member.name) ++ "]"

def offers (g : Group) : List String :=
  g.members.flatMap Member.outputs

/-- The keys under which the folds of the group leave what their workers hold. -/
def partials (g : Group) : List String :=
  g.members.filterMap Member.partials?

def gather (g : Group) (item : String) : Group :=
  if item ∈ g.gathered then g else { g with gathered := g.gathered ++ [item] }

end Group

/-- The second half of a reducer, which folds what the workers held. -/
structure Combine where
  name : String
  item : String
  partials : String
  output : String
  reduction : Reduction

/-- Another fold of the group uses the name of the item, so the key is this reducer's own. -/
def Combine.isPrivate (c : Combine) : Bool :=
  c.partials != c.item

inductive Stage where
  | serial (step : Serial)
  | group (group : Group)
  | combine (combine : Combine)

namespace Stage

def name : Stage → String
  | .serial s => s.name
  | .group g => g.name
  | .combine c => c.name

def inputs : Stage → List String
  | .serial s => s.inputs
  | .group g => g.requests
  | .combine c => [c.partials]

def outputs : Stage → List String
  | .serial s => s.outputs
  | .group g => g.gathered
  | .combine c => [c.output]

def operations : Stage → List (String × Operation)
  | .serial s => [(s.name, s.operation)]
  | .group g => g.members.filterMap fun
    | .task name _ _ operation => some (name, operation)
    | .fold .. => none
  | .combine _ => []

def summary (stage : Stage) : String :=
  let kind := match stage with
    | .serial _ => "Serial"
    | .group _ => "Group"
    | .combine _ => "Combine"
  kind ++ " \x7b name: " ++ Text.quoted stage.name
    ++ ", inputs: " ++ Text.quotedList stage.inputs
    ++ ", outputs: " ++ Text.quotedList stage.outputs ++ " \x7d"

end Stage

/-- Stages in the order of their run, and the names that they will provide. -/
structure Flow where
  stages : List Stage
  declared : Environment

end DirectiveFlow
