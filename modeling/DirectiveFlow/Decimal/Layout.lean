import DirectiveFlow.Decimal.Shortest

namespace DirectiveFlow.Decimal

structure Layout where
  tie : Tie
  /-- Whether a number whose first digit has this power of ten is written without an exponent. -/
  positional : Int → Bool
  /-- What stands before an exponent that is not negative. -/
  plus : String

def digitText (digits : List Nat) : String :=
  String.ofList (digits.map Nat.digitChar)

/-- A point always has a digit on both of its sides. -/
def renderPositional (d : Decimal) : String :=
  if d.exponent < 0 then
    "0." ++ digitText (List.replicate (-d.exponent - 1).toNat 0 ++ d.digits)
  else
    let whole := d.exponent.toNat + 1
    let padded := d.digits ++ List.replicate (whole - d.digits.length) 0
    let fraction := padded.drop whole
    digitText (padded.take whole) ++ "." ++ digitText (if fraction.isEmpty then [0] else fraction)

def renderScientific (plus : String) (d : Decimal) : String :=
  let fraction := d.digits.drop 1
  digitText (d.digits.take 1)
    ++ (if fraction.isEmpty then "" else "." ++ digitText fraction)
    ++ "e"
    ++ (if d.exponent < 0 then "-" ++ d.exponent.natAbs.repr else plus ++ d.exponent.natAbs.repr)

def Layout.magnitude (layout : Layout) (bits : Nat) : String :=
  if bits = 0 then "0.0"
  else
    let d := shortest layout.tie bits
    if layout.positional d.exponent then renderPositional d else renderScientific layout.plus d

abbrev signBit : Nat := 0x8000000000000000

/-- The text of a finite float; a zero keeps its sign. -/
def Layout.render (layout : Layout) (x : Float) : String :=
  let bits := x.toBits.toNat
  let magnitude := layout.magnitude (bits % signBit)
  if bits < signBit then magnitude else "-" ++ magnitude

/-- Values are shown without an exponent from 0.0001 up to, but without, 10 ^ 16. -/
def shown : Layout where
  tie := .away
  positional e := -4 ≤ e && e < 16
  plus := ""

/-- JSON numbers have an exponent with its sign below 0.00001 and from 10 ^ 16 on. -/
def json : Layout where
  tie := .even
  positional e := -5 ≤ e && e < 16
  plus := "+"

/-- Configuration numbers never have an exponent. -/
def plain : Layout where
  tie := .away
  positional _ := true
  plus := ""

end DirectiveFlow.Decimal
