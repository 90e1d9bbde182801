import DirectiveFlow.Decimal.Reading

namespace DirectiveFlow.CommandLine

structure Options where
  script : Option String
  workers : Option Nat
  debug : Bool
  reportStep : Option Float
  settingsPath : Option String

def Options.none : Options := ⟨.none, .none, false, .none, .none⟩

inductive OptionFault where
  | workersMissing
  | workersInvalid (value : String) (cause : IntegerFault)
  | reportStepMissing
  | reportStepInvalid (value : String) (cause : FloatFault)
  | settingsMissing
  | unknown (option : String)
  | secondScript
  deriving DecidableEq, Repr

def OptionFault.message : OptionFault → String
  | .workersMissing => "--workers requires a number"
  | .workersInvalid value _ => "invalid worker count: " ++ value
  | .reportStepMissing => "--report-step requires a number"
  | .reportStepInvalid value _ => "invalid report step: " ++ value
  | .settingsMissing => "--config requires a path"
  | .unknown option => "unknown option: " ++ option ++ " (run 'sluice --help' for usage)"
  | .secondScript => "only one script may be given"

def OptionFault.cause? : OptionFault → Option String
  | .workersInvalid _ cause => some cause.message
  | .reportStepInvalid _ cause => some cause.message
  | _ => Option.none

/-- Reads arguments from the left. The value of an option is never taken for an option. -/
def Options.readFrom (o : Options) : List String → Except OptionFault Options
  | [] => .ok o
  | arg :: rest =>
    if arg = "-n" ∨ arg = "--workers" then
      match rest with
      | [] => .error .workersMissing
      | value :: rest =>
        match Integer.readUnsigned value with
        | .error cause => .error (.workersInvalid value cause)
        | .ok n => { o with workers := some n }.readFrom rest
    else if arg = "-r" ∨ arg = "--report-step" then
      match rest with
      | [] => .error .reportStepMissing
      | value :: rest =>
        match Decimal.readFloat value with
        | .error cause => .error (.reportStepInvalid value cause)
        | .ok x => { o with reportStep := some x }.readFrom rest
    else if arg = "--config" then
      match rest with
      | [] => .error .settingsMissing
      | value :: rest => { o with settingsPath := some value }.readFrom rest
    else if arg = "--debug" then { o with debug := true }.readFrom rest
    else if arg.toList.head? = some '-' then .error (.unknown arg)
    else if o.script.isSome then .error .secondScript
    else { o with script := some arg }.readFrom rest

def Options.ofArguments (args : List String) : Except OptionFault Options :=
  Options.none.readFrom args

end DirectiveFlow.CommandLine
