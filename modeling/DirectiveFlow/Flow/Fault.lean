import DirectiveFlow.Directive
import DirectiveFlow.Step.Signature

namespace DirectiveFlow

/-- A step asks for an item that nothing in the flow can provide yet. -/
structure OutOfScope where
  item : String
  step : String
  deriving DecidableEq, Repr

def OutOfScope.message (fault : OutOfScope) : String :=
  aboutStep ("requests \"" ++ fault.item ++ "\" which is not in scope yet") fault.step

/-- Why the run of a flow stopped. A crash outside the workers ends the whole program. -/
inductive RunFault where
  | noValue (item step : String)
  | notAList (item step found : String)
  | resultCount (step : String) (expected received : Nat)
  | nothingToReduce (step : String)
  | failed (step : String) (cause : StepFault)
  | workerCrashed (worker : Nat)
  | crashed (step : String)
  deriving DecidableEq, Repr

def RunFault.message : RunFault → String
  | .noValue item step => aboutStep ("item \"" ++ item ++ "\" has no value at run time") step
  | .notAList item step found =>
    aboutStep ("item \"" ++ item ++ "\" must be a list to be processed per item, got " ++ found)
      step
  | .resultCount step expected received =>
    aboutStep ("step produced " ++ received.repr ++ " results for " ++ expected.repr ++ " outputs")
      step
  | .nothingToReduce step => aboutStep "nothing to reduce" step
  | .failed step cause => aboutStep cause.message step
  | .workerCrashed worker => "worker " ++ worker.repr ++ " failed"
  | .crashed step => aboutStep "step crashed" step

inductive FlowFault where
  | badSyntax (line : Nat) (cause : Directive.SyntaxFault)
  | badCall (line : Nat) (cause : CallFault)
  | outOfScope (line : Nat) (cause : OutOfScope)
  | setup (step : String) (cause : StepFault)
  | run (cause : RunFault)
  deriving DecidableEq, Repr

namespace FlowFault

def kind : FlowFault → String
  | .badSyntax .. => "syntax"
  | .badCall .. => "construction"
  | .outOfScope .. => "scope"
  | .setup .. => "setup"
  | .run _ => "runtime"

def onLine (line : Nat) (text : String) : String :=
  "line " ++ line.repr ++ ": " ++ text

def message : FlowFault → String
  | .badSyntax line cause => onLine line cause.message
  | .badCall line cause => onLine line cause.message
  | .outOfScope line cause => onLine line cause.message
  | .setup step cause => aboutStep cause.message step
  | .run cause => cause.message

/-- The message; for a syntax error with the line and a mark below the offending column. -/
def render : FlowFault → String
  | .badSyntax line cause => onLine line cause.render
  | fault => fault.message

end FlowFault

end DirectiveFlow
