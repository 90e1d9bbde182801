namespace DirectiveFlow

/-- The positive number `d₁.d₂d₃… × 10 ^ exponent` for `digits = [d₁, d₂, d₃, …]`. -/
structure Decimal where
  digits : List Nat
  exponent : Int
  deriving DecidableEq, Repr

namespace Decimal

inductive Tie where
  | even
  | away
  deriving DecidableEq, Repr

/-- The number `significand × 2 ^ exponent` held by the bits of a finite float. -/
structure Binary where
  significand : Nat
  exponent : Int
  deriving DecidableEq, Repr

/-- The top bit of a significand, which the bits of a float leave out. -/
abbrev hiddenBit : Nat := 0x10000000000000

def Binary.ofBits (bits : Nat) : Binary :=
  let biased : Nat := bits / hiddenBit % 0x800
  let fraction : Nat := bits % hiddenBit
  if biased = 0 then ⟨fraction, -1074⟩ else ⟨fraction + hiddenBit, (biased : Int) - 1075⟩

/-- The numbers that read as one float: from `low` to `high`, over `unit`, around `value`. -/
structure Interval where
  low : Nat
  value : Nat
  high : Nat
  unit : Nat
  closed : Bool

/-- Below a power of two the floats lie twice as dense as above it. -/
def Binary.interval (b : Binary) : Interval :=
  let below := if b.significand = hiddenBit ∧ -1074 < b.exponent then 1 else 2
  let scale := Nat.pow 2 (b.exponent - 2).toNat
  { low := (4 * b.significand - below) * scale
    value := 4 * b.significand * scale
    high := (4 * b.significand + 2) * scale
    unit := Nat.pow 2 (2 - b.exponent).toNat
    closed := b.significand % 2 = 0 }

def digitCount (n : Nat) : Nat :=
  (Nat.toDigits 10 n).length

def leadingExponent (value unit : Nat) : Int :=
  if unit ≤ value then (digitCount (value / unit) : Int) - 1
  else -(digitCount ((unit - 1) / value) : Int)

/-- The multiple of `10 ^ step` within the interval that is nearest to its value. -/
def Interval.nearest? (i : Interval) (tie : Tie) (step : Int) : Option Nat :=
  let scale := Nat.pow 10 (-step).toNat
  let unit := i.unit * Nat.pow 10 step.toNat
  let low := i.low * scale
  let value := i.value * scale
  let high := i.high * scale
  let down := value / unit
  let rest := value % unit
  let downFits := low < down * unit || i.closed && low = down * unit
  let upFits := (down + 1) * unit < high || i.closed && (down + 1) * unit = high
  if downFits then
    if upFits then
      if 2 * rest < unit then some down
      else if unit < 2 * rest then some (down + 1)
      else match tie with
        | .even => some (if down % 2 = 0 then down else down + 1)
        | .away => some (down + 1)
    else some down
  else if upFits then some (down + 1)
  else none

def ofScaled (n : Nat) (step : Int) : Decimal :=
  let digits := (Nat.toDigits 10 n).map fun c => c.toNat - '0'.toNat
  { digits := (digits.reverse.dropWhile (· = 0)).reverse
    exponent := (digits.length : Int) - 1 + step }

/-- The fewest digits that read back as the float with these bits, and the
nearest such digits. -/
def shortest (tie : Tie) (bits : Nat) : Decimal :=
  let interval := (Binary.ofBits bits).interval
  let leading := leadingExponent interval.value interval.unit
  let found := (List.range 17).findSome? fun (n : Nat) =>
    let step := leading - (n : Int)
    (interval.nearest? tie step).map fun m => ofScaled m step
  found.getD ⟨[0], 0⟩

end Decimal

end DirectiveFlow
