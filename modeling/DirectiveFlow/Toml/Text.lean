import DirectiveFlow.Json.Reading

namespace DirectiveFlow.Toml

/-- Characters that text may hold as they are: no controls but the tab. -/
def isTextChar (c : Char) : Bool :=
  c = '\t' || 0x20 ≤ c.toNat && c.toNat ≠ 0x7f

def isBlank (c : Char) : Bool :=
  c = ' ' || c = '\t'

def skipBlanks (text : List Char) : List Char :=
  text.dropWhile isBlank

/-- The text behind a line feed, which may have a carriage return before it. -/
def newline? : List Char → Option (List Char)
  | '\n' :: rest => some rest
  | '\r' :: '\n' :: rest => some rest
  | _ => none

def skipComment : List Char → List Char
  | '#' :: rest => rest.dropWhile isTextChar
  | text => text

/-- The text behind the rest of a line, which may only hold a comment. -/
def endOfLine? (text : List Char) : Option (List Char) :=
  let rest := skipComment (skipBlanks text)
  if rest.isEmpty then some [] else newline? rest

def hexValue? (digits : List Char) : Option Nat :=
  digits.foldlM (fun n c => (Json.hexDigit? c).map fun d => n * 16 + d) 0

def scalar? (digits : List Char) : Option Char := do
  let n ← hexValue? digits
  if n < 0xd800 ∨ 0xe000 ≤ n ∧ n < 0x110000 then return Char.ofNat n else none

def plainEscape? (c : Char) : Option Char :=
  match c with
  | 'b' => some '\x08'
  | 't' => some '\t'
  | 'n' => some '\n'
  | 'f' => some '\x0c'
  | 'r' => some '\r'
  | '"' => some '"'
  | '\\' => some '\\'
  | _ => none

def readEscape : List Char → Option (Char × List Char)
  | 'u' :: a :: b :: c :: d :: rest => (scalar? [a, b, c, d]).map (·, rest)
  | 'U' :: a :: b :: c :: d :: e :: f :: g :: h :: rest =>
    (scalar? [a, b, c, d, e, f, g, h]).map (·, rest)
  | c :: rest => (plainEscape? c).map (·, rest)
  | [] => none

def readBasic (fuel : Nat) (reversed : List Char) (text : List Char) :
    Option (String × List Char) :=
  match fuel, text with
  | _, '"' :: rest => some (String.ofList reversed.reverse, rest)
  | fuel + 1, '\\' :: rest => do
    let (c, rest) ← readEscape rest
    readBasic fuel (c :: reversed) rest
  | fuel + 1, c :: rest => if isTextChar c then readBasic fuel (c :: reversed) rest else none
  | _, _ => none

/-- A text on one line without escapes, after its opening quote. -/
def readLiteral (text : List Char) : Option (String × List Char) :=
  match text.dropWhile fun c => isTextChar c && c ≠ '\'' with
  | '\'' :: rest =>
    some (String.ofList (text.takeWhile fun c => isTextChar c && c ≠ '\''), rest)
  | _ => none

def skipFirstNewline (text : List Char) : List Char :=
  (newline? text).getD text

def skipBlankLines : List Char → List Char
  | ' ' :: rest => skipBlankLines rest
  | '\t' :: rest => skipBlankLines rest
  | '\n' :: rest => skipBlankLines rest
  | '\r' :: '\n' :: rest => skipBlankLines rest
  | text => text

/-- The text behind an escaped end of line and all blank text after it. -/
def continued? (text : List Char) : Option (List Char) :=
  (newline? (skipBlanks text)).map skipBlankLines

/-- A text over several lines, up to three closing quotes; two more may belong to the text. -/
def readLong (quote : Char) (escapes : Bool) (fuel : Nat) (reversed : List Char)
    (text : List Char) : Option (String × List Char) :=
  match fuel with
  | 0 => none
  | fuel + 1 =>
    match text with
    | [] => none
    | c :: rest =>
      if c = quote then
        let quotes := min 5 (text.takeWhile (· = quote)).length
        if quotes < 3 then readLong quote escapes fuel (c :: reversed) rest
        else
          some (String.ofList (List.replicate (quotes - 3) quote ++ reversed).reverse,
            text.drop quotes)
      else if escapes && c = '\\' then
        match continued? rest with
        | some rest => readLong quote escapes fuel reversed rest
        | none =>
          match readEscape rest with
          | some (c, rest) => readLong quote escapes fuel (c :: reversed) rest
          | none => none
      else match newline? text with
        | some rest => readLong quote escapes fuel ('\n' :: reversed) rest
        | none => if isTextChar c then readLong quote escapes fuel (c :: reversed) rest else none

def readText : List Char → Option (String × List Char)
  | '"' :: '"' :: '"' :: rest =>
    readLong '"' true (rest.length + 1) [] (skipFirstNewline rest)
  | '\'' :: '\'' :: '\'' :: rest =>
    readLong '\'' false (rest.length + 1) [] (skipFirstNewline rest)
  | '"' :: rest => readBasic (rest.length + 1) [] rest
  | '\'' :: rest => readLiteral rest
  | _ => none

def isKeyChar (c : Char) : Bool :=
  c.isAlphanum || c = '-' || c = '_'

def readKeyPart (text : List Char) : Option (String × List Char) :=
  match text with
  | '"' :: rest => readBasic (rest.length + 1) [] rest
  | '\'' :: rest => readLiteral rest
  | _ =>
    let key := text.takeWhile isKeyChar
    if key.isEmpty then none else some (String.ofList key, text.dropWhile isKeyChar)

/-- At most `limit` parts of a key with points between them. -/
def readParts (limit : Nat) (text : List Char) : Option (List String × List Char) :=
  match limit with
  | 0 => none
  | limit + 1 => do
    let (part, rest) ← readKeyPart (skipBlanks text)
    match skipBlanks rest with
    | '.' :: rest =>
      let (parts, rest) ← readParts limit rest
      return (part :: parts, rest)
    | rest => return ([part], rest)

/-- A key of fewer than 80 parts: the path to it, its last part, and the text behind it. -/
def readKey (text : List Char) : Option (List String × String × List Char) := do
  let (parts, rest) ← readParts 79 text
  let last ← parts.getLast?
  return (parts.dropLast, last, rest)

end DirectiveFlow.Toml
