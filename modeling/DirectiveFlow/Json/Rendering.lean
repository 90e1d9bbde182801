import DirectiveFlow.Integer
import DirectiveFlow.Decimal.Layout
import DirectiveFlow.Json.Number

namespace DirectiveFlow.Json

def escapedChar (c : Char) : List Char :=
  match c with
  | '"' => ['\\', '"']
  | '\\' => ['\\', '\\']
  | '\x08' => ['\\', 'b']
  | '\t' => ['\\', 't']
  | '\n' => ['\\', 'n']
  | '\x0c' => ['\\', 'f']
  | '\r' => ['\\', 'r']
  | _ =>
    if c.toNat < 0x20 then
      ['\\', 'u', '0', '0', Nat.digitChar (c.toNat / 16), Nat.digitChar (c.toNat % 16)]
    else [c]

def quotedText (s : String) : String :=
  String.ofList ('"' :: (s.toList.flatMap escapedChar ++ ['"']))

def Number.render : Number → String
  | .natural n => n.toNat.repr
  | .negative n => Integer.render n.toInt
  | .fractional x _ => Decimal.json.render x

mutual

def compact : Json → String
  | .null => "null"
  | .bool b => if b then "true" else "false"
  | .number n => n.render
  | .string s => quotedText s
  | .array items => "[" ++ ",".intercalate (compactItems items) ++ "]"
  | .object fields => "\x7b" ++ ",".intercalate (compactFields fields) ++ "\x7d"

def compactItems : List Json → List String
  | [] => []
  | item :: rest => item.compact :: compactItems rest

def compactFields : List (String × Json) → List String
  | [] => []
  | (name, value) :: rest => (quotedText name ++ ":" ++ value.compact) :: compactFields rest

end

/-- Entries between brackets, one a line and two blanks deeper than the brackets. -/
def block (opening closing : String) (depth : Nat) (entries : List String) : String :=
  if entries.isEmpty then opening ++ closing
  else
    let margin := "\n" ++ "".pushn ' ' (2 * (depth + 1))
    opening ++ margin ++ ("," ++ margin).intercalate entries
      ++ "\n" ++ "".pushn ' ' (2 * depth) ++ closing

mutual

/-- The text of a document with one entry a line, two blanks for each level. -/
def pretty (depth : Nat) : Json → String
  | .array items => block "[" "]" depth (prettyItems (depth + 1) items)
  | .object fields => block "\x7b" "\x7d" depth (prettyFields (depth + 1) fields)
  | other => other.compact

def prettyItems (depth : Nat) : List Json → List String
  | [] => []
  | item :: rest => item.pretty depth :: prettyItems depth rest

def prettyFields (depth : Nat) : List (String × Json) → List String
  | [] => []
  | (name, value) :: rest =>
    (quotedText name ++ ": " ++ value.pretty depth) :: prettyFields depth rest

end

end DirectiveFlow.Json
