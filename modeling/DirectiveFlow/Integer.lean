namespace DirectiveFlow

inductive IntegerFault where
  | empty
  | invalidDigit
  | tooLarge
  | tooSmall
  deriving DecidableEq, Repr

def IntegerFault.message : IntegerFault → String
  | .empty => "cannot parse integer from empty string"
  | .invalidDigit => "invalid digit found in string"
  | .tooLarge => "number too large to fit in target type"
  | .tooSmall => "number too small to fit in target type"

namespace Integer

/-- One more than the largest signed 64-bit integer, and the distance of the
smallest from zero. -/
abbrev signedBound : Nat := 0x8000000000000000

abbrev unsignedBound : Nat := 0x10000000000000000

abbrev IsSigned (n : Int) : Prop :=
  -(signedBound : Int) ≤ n ∧ n < signedBound

def digit? (c : Char) : Option Nat :=
  if '0' ≤ c ∧ c ≤ '9' then some (c.toNat - '0'.toNat) else none

/-- Reads digits from the left; the first bad digit or the first excess over `limit` decides. -/
def readDigits (limit : Nat) (excess : IntegerFault) (value : Nat) :
    List Char → Except IntegerFault Nat
  | [] => .ok value
  | c :: rest =>
    match digit? c with
    | none => .error .invalidDigit
    | some d =>
      if value * 10 + d ≤ limit then readDigits limit excess (value * 10 + d) rest
      else .error excess

def readMagnitude (limit : Nat) (excess : IntegerFault) (digits : List Char) :
    Except IntegerFault Nat :=
  if digits.isEmpty then .error .invalidDigit else readDigits limit excess 0 digits

def readSigned (text : String) : Except IntegerFault Int64 :=
  match text.toList with
  | [] => .error .empty
  | '+' :: digits => (readMagnitude (signedBound - 1) .tooLarge digits).map fun n => Int64.ofNat n
  | '-' :: digits => (readMagnitude signedBound .tooSmall digits).map fun n => Int64.ofInt (-n)
  | digits => (readMagnitude (signedBound - 1) .tooLarge digits).map fun n => Int64.ofNat n

/-- An unsigned 64-bit integer; only a plus sign may stand before it. -/
def readUnsigned (text : String) : Except IntegerFault Nat :=
  match text.toList with
  | [] => .error .empty
  | '+' :: digits => readMagnitude (unsignedBound - 1) .tooLarge digits
  | digits => readMagnitude (unsignedBound - 1) .tooLarge digits

def render (n : Int) : String :=
  match n with
  | .ofNat m => m.repr
  | .negSucc m => "-" ++ (m + 1).repr

end Integer

end DirectiveFlow
