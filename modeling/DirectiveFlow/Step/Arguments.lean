import Std.Data.ExtTreeMap
import DirectiveFlow.Value

namespace DirectiveFlow

inductive StepFault where
  | missingArgument (name : String)
  | argumentType (name expected : String)
  | inputType (expected found : String)
  | failed (message : String)
  deriving DecidableEq, Repr

def StepFault.message : StepFault → String
  | .missingArgument name => "missing parameter '" ++ name ++ "'"
  | .argumentType name expected => "parameter '" ++ name ++ "' is not a " ++ expected
  | .inputType expected found => "expected " ++ expected ++ " input, got " ++ found
  | .failed message => message

/-- The values that a call gives to the parameters of a step. -/
abbrev Arguments := Std.ExtTreeMap String Value

namespace Arguments

/-- The argument as seen through `view`, which accepts the values of one type. -/
def typed {α : Type} (arguments : Arguments) (expected : String) (view : Value → Option α)
    (name : String) : Except StepFault α :=
  match arguments[name]? with
  | none => .error (.missingArgument name)
  | some value =>
    match view value with
    | some a => .ok a
    | none => .error (.argumentType name expected)

def int (arguments : Arguments) (name : String) : Except StepFault Int64 :=
  arguments.typed "int" Value.int? name

def float (arguments : Arguments) (name : String) : Except StepFault Float :=
  arguments.typed "float" Value.float? name

def string (arguments : Arguments) (name : String) : Except StepFault String :=
  arguments.typed "string" Value.string? name

def bool (arguments : Arguments) (name : String) : Except StepFault Bool :=
  arguments.typed "bool" Value.bool? name

end Arguments

end DirectiveFlow
