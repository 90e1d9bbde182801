import DirectiveFlow.Flow.Fault
import DirectiveFlow.Step.Body

namespace DirectiveFlow

inductive Event where
  | started (stage : String)
  | finished (stage : String)
  | progress (stage : String) (done total : Nat)
  deriving DecidableEq, Repr

/-- What a part of a run printed and reported, and what came of it. -/
structure Run (ε α : Type) where
  printed : String
  events : List Event
  result : Except ε α

namespace Run

variable {ε ε' α β : Type}

def ok (a : α) : Run ε α := ⟨"", [], .ok a⟩

def ofExcept (result : Except ε α) : Run ε α := ⟨"", [], result⟩

def report (event : Event) : Run ε Unit := ⟨"", [event], .ok ()⟩

/-- One part after another; nothing follows a fault. -/
def bind (x : Run ε α) (f : α → Run ε β) : Run ε β :=
  match x.result with
  | .error fault => ⟨x.printed, x.events, .error fault⟩
  | .ok a =>
    let y := f a
    ⟨x.printed ++ y.printed, x.events ++ y.events, y.result⟩

instance : Monad (Run ε) where
  pure := ok
  bind := bind

def mapError (f : ε → ε') (x : Run ε α) : Run ε' α :=
  ⟨x.printed, x.events, x.result.mapError f⟩

/-- The same part with nobody to report to. -/
def unobserved (x : Run ε α) : Run ε α :=
  { x with events := [] }

/-- A call of a step's code. -/
def ofReply (step : String) (reply : Reply α) : Run RunFault α :=
  ⟨reply.printed, [], match reply.ending with
    | .done a => .ok a
    | .failed cause => .error (.failed step cause)
    | .crashed => .error (.crashed step)⟩

end Run

end DirectiveFlow
