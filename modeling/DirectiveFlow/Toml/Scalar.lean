import DirectiveFlow.Decimal.Reading
import DirectiveFlow.Toml.Table
import DirectiveFlow.Toml.Text

namespace DirectiveFlow.Toml

def readDigits (isDigit : Char → Bool) (text : List Char) : Option (List Char × List Char) :=
  match text with
  | [] => none
  | c :: rest =>
    if isDigit c then
      match rest with
      | '_' :: next => (readDigits isDigit next).map fun (digits, rest) => (c :: digits, rest)
      | next =>
        match readDigits isDigit next with
        | some (digits, rest) => some (c :: digits, rest)
        | none => some ([c], next)
    else none

/-- A whole number without a superfluous zero in front. -/
def readWhole (text : List Char) : Option (List Char × List Char) :=
  match text with
  | '0' :: rest => some (['0'], rest)
  | _ => readDigits Decimal.isDigit text

def withinSigned (n : Int) : Option Toml :=
  if Integer.IsSigned n then some (.integer n) else none

def readBased (base : Nat) (text : List Char) : Option (Toml × List Char) := do
  let isDigit c := match Json.hexDigit? c with
    | some d => decide (d < base)
    | none => false
  let (digits, rest) ← readDigits isDigit text
  let n := digits.foldl (fun n c => n * base + (Json.hexDigit? c).getD 0) 0
  let entry ← withinSigned n
  return (entry, rest)

def readExponent (text : List Char) : Option (Option Int × List Char) :=
  match text with
  | [] => some (none, [])
  | mark :: rest =>
    if mark = 'e' ∨ mark = 'E' then
      let (negative, rest) := match rest with
        | '-' :: rest => (true, rest)
        | '+' :: rest => (false, rest)
        | rest => (false, rest)
      (readDigits Decimal.isDigit rest).map fun (digits, rest) =>
        let n : Int := Decimal.digitsValue digits
        (some (if negative then -n else n), rest)
    else some (none, text)

def readFraction (text : List Char) : Option (Option (List Char) × List Char) :=
  match text with
  | '.' :: rest =>
    (readDigits Decimal.isDigit rest).map fun (digits, rest) => (some digits, rest)
  | _ => some (none, text)

/-- An integer, or a float if a point or an exponent follows. A float must not
exceed its range. -/
def readUnsigned (negative : Bool) (text : List Char) : Option (Toml × List Char) := do
  let (digits, rest) ← readWhole text
  let (fraction, rest) ← readFraction rest
  let (exponent, rest) ← readExponent rest
  if fraction.isNone ∧ exponent.isNone then
    let n : Int := Decimal.digitsValue digits
    let entry ← withinSigned (if negative then -n else n)
    return (entry, rest)
  else
    let after := fraction.getD []
    let x := Decimal.nearestFloat (Decimal.digitsValue (digits ++ after))
      (exponent.getD 0 - after.length)
    if !negative && !x.isFinite then none
    else return (.float (if negative then -x else x), rest)

def readSigned (negative : Bool) (text : List Char) : Option (Toml × List Char) :=
  match text with
  | 'i' :: 'n' :: 'f' :: rest =>
    some (.float (if negative then -Decimal.infinity else Decimal.infinity), rest)
  | 'n' :: 'a' :: 'n' :: rest => some (.float Decimal.notANumber, rest)
  | _ => readUnsigned negative text

def readPair (limit : Nat) (text : List Char) : Option (Nat × List Char) :=
  match text with
  | a :: b :: rest => do
    let a ← Integer.digit? a
    let b ← Integer.digit? b
    if a * 10 + b ≤ limit then return (a * 10 + b, rest) else none
  | _ => none

def expect (c : Char) (text : List Char) : Option (List Char) :=
  match text with
  | d :: rest => if d = c then some rest else none
  | [] => none

def readTime (text : List Char) : Option (List Char) := do
  let (_, rest) ← readPair 23 text
  let rest ← expect ':' rest
  let (_, rest) ← readPair 59 rest
  let rest ← expect ':' rest
  let (_, rest) ← readPair 60 rest
  match rest with
  | '.' :: next =>
    if (next.head?.map Decimal.isDigit).getD false then return next.dropWhile Decimal.isDigit
    else return rest
  | _ => return rest

def readOffset (text : List Char) : Option (List Char) :=
  match text with
  | [] => some []
  | c :: rest =>
    if c = 'Z' ∨ c = 'z' then some rest
    else if c = '+' ∨ c = '-' then do
      let (_, rest) ← readPair 23 rest
      let rest ← expect ':' rest
      let (_, rest) ← readPair 59 rest
      return rest
    else some text

def daysIn (year month : Nat) : Nat :=
  if month = 2 then
    if year % 4 = 0 ∧ (year % 100 ≠ 0 ∨ year % 400 = 0) then 29 else 28
  else if month = 4 ∨ month = 6 ∨ month = 9 ∨ month = 11 then 30
  else 31

def readDate (text : List Char) : Option (List Char) := do
  let (century, rest) ← readPair 99 text
  let (year, rest) ← readPair 99 rest
  let rest ← expect '-' rest
  let (month, rest) ← readPair 12 rest
  let rest ← expect '-' rest
  let (day, rest) ← readPair 31 rest
  if 1 ≤ month ∧ 1 ≤ day ∧ day ≤ daysIn (century * 100 + year) month then return rest else none

/-- A date, a time, or both with or without an offset. -/
def readDateTime (text : List Char) : Option (Toml × List Char) :=
  match readDate text with
  | none => (readTime text).map (Toml.dateTime, ·)
  | some rest =>
    match rest with
    | c :: next =>
      if c = 'T' ∨ c = 't' then
        ((readTime next).bind readOffset).map (Toml.dateTime, ·)
      else if c = ' ' then
        match readTime next with
        | some after => (readOffset after).map (Toml.dateTime, ·)
        | none => some (.dateTime, rest)
      else some (.dateTime, rest)
    | [] => some (.dateTime, [])

def readNumeric (text : List Char) : Option (Toml × List Char) :=
  match readDateTime text with
  | some result => some result
  | none =>
    match text with
    | '0' :: 'x' :: rest => readBased 16 rest
    | '0' :: 'o' :: rest => readBased 8 rest
    | '0' :: 'b' :: rest => readBased 2 rest
    | _ => readUnsigned false text

end DirectiveFlow.Toml
