import DirectiveFlow.Toml.Scalar

namespace DirectiveFlow.Toml

def skipFiller (fuel : Nat) (text : List Char) : List Char :=
  match fuel with
  | 0 => text
  | fuel + 1 =>
    let rest := skipComment (skipBlanks text)
    match newline? rest with
    | some rest => skipFiller fuel rest
    | none => rest

mutual

/-- A value with fewer than `depth` brackets around its parts, and the text behind it. -/
def readValue (fuel depth : Nat) (text : List Char) : Option (Toml × List Char) :=
  match fuel with
  | 0 => none
  | fuel + 1 =>
    match text with
    | 't' :: 'r' :: 'u' :: 'e' :: rest => some (.boolean true, rest)
    | 'f' :: 'a' :: 'l' :: 's' :: 'e' :: rest => some (.boolean false, rest)
    | '"' :: _ => (readText text).map fun (s, rest) => (.string s, rest)
    | '\'' :: _ => (readText text).map fun (s, rest) => (.string s, rest)
    | '+' :: rest => readSigned false rest
    | '-' :: rest => readSigned true rest
    | 'i' :: _ => readSigned false text
    | 'n' :: _ => readSigned false text
    | '[' :: rest =>
      match depth with
      | 0 => none
      | depth + 1 =>
        (readItems fuel depth rest).map fun (items, rest) => (.array items, rest)
    | '\x7b' :: rest =>
      match depth, skipBlanks rest with
      | 0, _ => none
      | _ + 1, '\x7d' :: rest => some (.inlineTable .defined [], rest)
      | depth + 1, rest =>
        (readFields fuel depth [] rest).map fun (fields, rest) =>
          (.inlineTable .defined fields, rest)
    | _ => readNumeric text

/-- Items up to the closing bracket; a comma may follow the last one. -/
def readItems (fuel depth : Nat) (text : List Char) : Option (List Toml × List Char) :=
  match fuel with
  | 0 => none
  | fuel + 1 =>
    match skipFiller text.length text with
    | ']' :: rest => some ([], rest)
    | start => do
      let (item, rest) ← readValue fuel depth start
      match skipFiller rest.length rest with
      | ',' :: rest =>
        let (items, rest) ← readItems fuel depth rest
        return (item :: items, rest)
      | ']' :: rest => return ([item], rest)
      | _ => none

/-- At least one field, up to the closing brace on the same line. -/
def readFields (fuel depth : Nat) (fields : Fields) (text : List Char) :
    Option (Fields × List Char) :=
  match fuel with
  | 0 => none
  | fuel + 1 => do
    let (path, key, rest) ← readKey text
    let rest ← expect '=' rest
    let (value, rest) ← readValue fuel depth (skipBlanks rest)
    let fields ← fields.addInline path key value
    match skipBlanks rest with
    | ',' :: rest => readFields fuel depth fields rest
    | '\x7d' :: rest => return (fields, rest)
    | _ => none

end

/-- A file that is partly read: its entries and the path of the last header. -/
structure Unfinished where
  root : Fields
  path : List String

def readHeader (text : List Char) (d : Unfinished) : Option (Unfinished × List Char) := do
  let (path, key, rest) ← readKey text
  let rest ← expect ']' rest
  let root ← Fields.changeAt (Fields.define key) path d.root
  return (⟨root, path ++ [key]⟩, rest)

def readArrayHeader (text : List Char) (d : Unfinished) : Option (Unfinished × List Char) := do
  let (path, key, rest) ← readKey text
  let rest ← expect ']' rest
  let rest ← expect ']' rest
  let root ← Fields.changeAt (Fields.extend key) path d.root
  return (⟨root, path ++ [key]⟩, rest)

def readField (text : List Char) (d : Unfinished) : Option (Unfinished × List Char) := do
  let (path, key, rest) ← readKey text
  let rest ← expect '=' rest
  let (value, rest) ← readValue (2 * rest.length + 2) 79 (skipBlanks rest)
  let root ← Fields.changeAt (Fields.add path key value) d.path d.root
  return ({ d with root := root }, rest)

/-- The rest of a file, one header or field at a time, each with a line of its own. -/
def readRest (fuel : Nat) (d : Unfinished) (text : List Char) : Option Fields :=
  match fuel with
  | 0 => none
  | fuel + 1 =>
    match skipFiller text.length text with
    | [] => some d.root
    | '[' :: '[' :: rest => do
      let (d, rest) ← readArrayHeader rest d
      readRest fuel d (← endOfLine? rest)
    | '[' :: rest => do
      let (d, rest) ← readHeader rest d
      readRest fuel d (← endOfLine? rest)
    | start => do
      let (d, rest) ← readField start d
      readRest fuel d (← endOfLine? rest)

/-- The entries of a configuration file, which may start with a byte order mark. -/
def read (text : String) : Option Fields :=
  let chars := match text.toList with
    | '\ufeff' :: rest => rest
    | chars => chars
  readRest (chars.length + 1) ⟨[], []⟩ chars

end DirectiveFlow.Toml
