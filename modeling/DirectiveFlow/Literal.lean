import DirectiveFlow.Decimal.Reading
import DirectiveFlow.Integer
import DirectiveFlow.Text.Quoted
import DirectiveFlow.Value

namespace DirectiveFlow

inductive LiteralFault where
  | unknownType (typeName : String)
  | invalid (expected : String) (text : String)
  deriving DecidableEq, Repr

def LiteralFault.message : LiteralFault → String
  | .unknownType typeName => "unknown parameter type '" ++ typeName ++ "'"
  | .invalid expected text => "cannot read " ++ Text.quoted text ++ " as " ++ expected

inductive LiteralType where
  | int
  | float
  | string
  | bool
  deriving DecidableEq, Repr

namespace LiteralType

def name : LiteralType → String
  | .int => "int"
  | .float => "float"
  | .string => "string"
  | .bool => "bool"

def ofName? (name : String) : Option LiteralType :=
  match name with
  | "int" => some .int
  | "float" => some .float
  | "string" => some .string
  | "bool" => some .bool
  | _ => none

def read? (type : LiteralType) (text : String) : Option Value :=
  match type with
  | .int => (Integer.readSigned text).toOption.map .int
  | .float => (Decimal.readFloat text).toOption.map .float
  | .string => some (.string text)
  | .bool =>
    match text with
    | "true" | "yes" | "1" => some (.bool true)
    | "false" | "no" | "0" => some (.bool false)
    | _ => none

end LiteralType

def Value.ofLiteral (typeName text : String) : Except LiteralFault Value :=
  match LiteralType.ofName? typeName with
  | none => .error (.unknownType typeName)
  | some type =>
    match type.read? text with
    | some value => .ok value
    | none => .error (.invalid typeName text)

end DirectiveFlow
