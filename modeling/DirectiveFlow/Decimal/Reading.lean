import DirectiveFlow.Integer
import DirectiveFlow.Decimal.Shortest

namespace DirectiveFlow

inductive FloatFault where
  | empty
  | invalid
  deriving DecidableEq, Repr

def FloatFault.message : FloatFault → String
  | .empty => "cannot parse float from empty string"
  | .invalid => "invalid float literal"

namespace Decimal

def isDigit (c : Char) : Bool :=
  (Integer.digit? c).isSome

def digitsValue (digits : List Char) : Nat :=
  digits.foldl (fun n c => n * 10 + (Integer.digit? c).getD 0) 0

def infinity : Float := 1.0 / 0.0

def notANumber : Float := 0.0 / 0.0

/-- The float nearest to `significand × 10 ^ exponent`. Exponents that decide
alone are cut off. -/
def nearestFloat (significand : Nat) (exponent : Int) : Float :=
  if significand = 0 then 0.0
  else
    let top := (digitCount significand : Int) + exponent
    if 400 < top then infinity
    else if top < -400 then 0.0
    else Float.ofScientific significand (decide (exponent < 0)) exponent.natAbs

def readExponent : List Char → Option Int
  | [] => some 0
  | mark :: rest =>
    if mark = 'e' ∨ mark = 'E' then
      let (negative, digits) := match rest with
        | '-' :: digits => (true, digits)
        | '+' :: digits => (false, digits)
        | digits => (false, digits)
      if digits.isEmpty || !digits.all isDigit then none
      else
        let n : Int := digitsValue digits
        some (if negative then -n else n)
    else none

/-- Digits with an optional point among them, then an optional exponent. -/
def readUnsigned (text : List Char) : Option Float :=
  let whole := text.takeWhile isDigit
  let (fraction, rest) := match text.dropWhile isDigit with
    | '.' :: rest => (rest.takeWhile isDigit, rest.dropWhile isDigit)
    | rest => ([], rest)
  if whole.isEmpty && fraction.isEmpty then none
  else
    (readExponent rest).map fun exponent =>
      nearestFloat (digitsValue (whole ++ fraction)) (exponent - fraction.length)

def readNamed (text : List Char) : Option Float :=
  match String.ofList (text.map Char.toLower) with
  | "inf" => some infinity
  | "infinity" => some infinity
  | "nan" => some notANumber
  | _ => none

def readMagnitude (text : List Char) : Except FloatFault Float :=
  match readNamed text with
  | some x => .ok x
  | none =>
    match readUnsigned text with
    | some x => .ok x
    | none => .error .invalid

/-- A floating-point number with an optional sign, rounded to the nearest float. -/
def readFloat (text : String) : Except FloatFault Float :=
  match text.toList with
  | [] => .error .empty
  | '-' :: rest => (readMagnitude rest).map fun x => -x
  | '+' :: rest => readMagnitude rest
  | rest => readMagnitude rest

end Decimal

end DirectiveFlow
