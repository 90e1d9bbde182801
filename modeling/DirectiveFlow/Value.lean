import DirectiveFlow.Integer
import DirectiveFlow.Decimal.Layout
import DirectiveFlow.Json.Rendering

namespace DirectiveFlow

inductive Value where
  | null
  | bool (b : Bool)
  | int (n : Int64)
  | float (x : Float)
  | string (s : String)
  | list (items : List Value)

namespace Value

instance : Inhabited Value := ⟨.null⟩

def typeName : Value → String
  | .null => "null"
  | .bool _ => "bool"
  | .int _ => "int"
  | .float _ => "float"
  | .string _ => "string"
  | .list _ => "list"

def widen (n : Int64) : Float :=
  Float.ofInt n.toInt

def int? : Value → Option Int64
  | .int n => some n
  | _ => none

def float? : Value → Option Float
  | .int n => some (widen n)
  | .float x => some x
  | _ => none

def string? : Value → Option String
  | .string s => some s
  | _ => none

def bool? : Value → Option Bool
  | .bool b => some b
  | _ => none

def list? : Value → Option (List Value)
  | .list items => some items
  | _ => none

mutual

/-- Equality within the program: a NaN differs from itself, and the two zeros are equal. -/
def same : Value → Value → Bool
  | .null, .null => true
  | .bool a, .bool b => a == b
  | .int a, .int b => a == b
  | .float a, .float b => a == b
  | .string a, .string b => a == b
  | .list a, .list b => sameAll a b
  | _, _ => false

def sameAll : List Value → List Value → Bool
  | [], [] => true
  | a :: as, b :: bs => same a b && sameAll as bs
  | _, _ => false

end

instance : BEq Value := ⟨same⟩

def renderFloat (x : Float) : String :=
  if x.isNaN then "NaN"
  else if x.isFinite then Decimal.shown.render x
  else if x < 0.0 then "-inf"
  else "inf"

mutual

def render : Value → String
  | .null => "null"
  | .bool b => if b then "true" else "false"
  | .int n => Integer.render n.toInt
  | .float x => renderFloat x
  | .string s => s
  | .list items => "[" ++ ", ".intercalate (renderAll items) ++ "]"

def renderAll : List Value → List String
  | [] => []
  | item :: rest => item.render :: renderAll rest

end

mutual

/-- A float that is not finite has no JSON form but null. -/
def toJson : Value → Json
  | .null => .null
  | .bool b => .bool b
  | .int n => if n < 0 then .number (.negative n) else .number (.natural n.toUInt64)
  | .float x => .ofFloat x
  | .string s => .string s
  | .list items => .array (toJsonAll items)

def toJsonAll : List Value → List Json
  | [] => []
  | item :: rest => item.toJson :: toJsonAll rest

end

mutual

/-- An object becomes its JSON text, and a number beyond the signed range a float. -/
def ofJson : Json → Value
  | .null => .null
  | .bool b => .bool b
  | .number (.natural n) =>
    if n.toNat < Integer.signedBound then .int n.toInt64 else .float n.toFloat
  | .number (.negative n) => .int n
  | .number (.fractional x _) => .float x
  | .string s => .string s
  | .array items => .list (ofJsonAll items)
  | .object fields => .string (Json.compact (.object fields))

def ofJsonAll : List Json → List Value
  | [] => []
  | item :: rest => ofJson item :: ofJsonAll rest

end

end Value

end DirectiveFlow
