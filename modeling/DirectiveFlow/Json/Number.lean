import DirectiveFlow.Decimal.Reading

namespace DirectiveFlow

/-- A whole number is held in 64 bits, without a sign unless it is negative. -/
inductive Json.Number where
  | natural (n : UInt64)
  | negative (n : Int64)
  | fractional (x : Float) (finite : x.isFinite)

/-- A JSON document. Fields stand in the order of their names, each name once. -/
inductive Json where
  | null
  | bool (b : Bool)
  | number (n : Json.Number)
  | string (s : String)
  | array (items : List Json)
  | object (fields : List (String × Json))

def Json.ofFloat (x : Float) : Json :=
  if h : x.isFinite then .number (.fractional x h) else .null

def Json.setField (name : String) (value : Json) : List (String × Json) → List (String × Json)
  | [] => [(name, value)]
  | (other, kept) :: rest =>
    if name < other then (name, value) :: (other, kept) :: rest
    else if name = other then (name, value) :: rest
    else (other, kept) :: setField name value rest

namespace Json

/-- The digits of a number that fit into 64 bits, and the power of ten they are still to get. -/
structure Scanned where
  significand : Nat
  exponent : Int

def powerOfTen (k : Nat) : Float :=
  Float.ofScientific 1 false k

/-- Divides by `10 ^ 308` until the rest of the exponent is within the powers that
a float holds. -/
def scaleDown (fuel : Nat) (f : Float) (down : Nat) : Float :=
  match fuel with
  | 0 => f
  | fuel + 1 =>
    if down ≤ 308 then f / powerOfTen down
    else if f == 0.0 then f
    else scaleDown fuel (f / 1e308) (down - 308)

/-- One multiplication or division by a power of ten; nothing if the number is too large. -/
def Scanned.magnitude? (s : Scanned) : Option Float :=
  let f := (UInt64.ofNat s.significand).toFloat
  if s.exponent < 0 then some (scaleDown 4 f s.exponent.natAbs)
  else if s.exponent ≤ 308 then
    let scaled := f * powerOfTen s.exponent.toNat
    if scaled.isFinite then some scaled else none
  else if f == 0.0 then some f
  else none

/-- Adds whole digits while they fit into 64 bits. Later ones only raise the exponent. -/
def scanWhole (s : Scanned) : List Char → Scanned
  | [] => s
  | c :: rest =>
    let next := s.significand * 10 + (Integer.digit? c).getD 0
    if next < Integer.unsignedBound then scanWhole ⟨next, s.exponent⟩ rest
    else ⟨s.significand, s.exponent + (rest.length + 1 : Nat)⟩

/-- Adds digits after the point while they fit into 64 bits. Later ones are dropped. -/
def scanFraction (s : Scanned) : List Char → Scanned
  | [] => s
  | c :: rest =>
    let next := s.significand * 10 + (Integer.digit? c).getD 0
    if next < Integer.unsignedBound then scanFraction ⟨next, s.exponent - 1⟩ rest else s

def signed (minus : Bool) (magnitude : Float) : Json :=
  .ofFloat (if minus then -magnitude else magnitude)

def whole (minus : Bool) (n : Nat) : Json :=
  if minus then
    if 0 < n ∧ n ≤ Integer.signedBound then .number (.negative (Int64.ofInt (-n)))
    else signed minus (UInt64.ofNat n).toFloat
  else .number (.natural (UInt64.ofNat n))

/-- The value of an exponent part; one beyond 32 bits makes any number but zero too large. -/
def withExponent (minus : Bool) (s : Scanned) (down : Bool) (digits : List Char) : Option Json :=
  let n := Decimal.digitsValue digits
  if n < 0x80000000 then
    let exponent := s.exponent + (if down then -(n : Int) else n)
    (Scanned.magnitude? ⟨s.significand, exponent⟩).map (signed minus)
  else if s.significand ≠ 0 ∧ !down then none
  else some (signed minus 0.0)

def readExponentPart (minus : Bool) (s : Scanned) (text : List Char) :
    Option (Json × List Char) :=
  let (down, rest) := match text with
    | '-' :: rest => (true, rest)
    | '+' :: rest => (false, rest)
    | rest => (false, rest)
  let digits := rest.takeWhile Decimal.isDigit
  if digits.isEmpty then none
  else (withExponent minus s down digits).map fun json => (json, rest.dropWhile Decimal.isDigit)

def readFractional (minus : Bool) (s : Scanned) (text : List Char) : Option (Json × List Char) :=
  match text with
  | 'e' :: rest => readExponentPart minus s rest
  | 'E' :: rest => readExponentPart minus s rest
  | rest => s.magnitude?.map fun magnitude => (signed minus magnitude, rest)

def readNumber (minus : Bool) (text : List Char) : Option (Json × List Char) :=
  let digits := text.takeWhile Decimal.isDigit
  let rest := text.dropWhile Decimal.isDigit
  if digits.isEmpty || digits.head? == some '0' && 1 < digits.length then none
  else
    let s := scanWhole ⟨0, 0⟩ digits
    match rest with
    | '.' :: after =>
      let fraction := after.takeWhile Decimal.isDigit
      if fraction.isEmpty then none
      else readFractional minus (scanFraction s fraction) (after.dropWhile Decimal.isDigit)
    | 'e' :: _ => readFractional minus s rest
    | 'E' :: _ => readFractional minus s rest
    | _ => if s.exponent = 0 then some (whole minus s.significand, rest) else
      readFractional minus s rest

end Json

end DirectiveFlow
