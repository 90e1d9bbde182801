namespace DirectiveFlow

namespace Text

/-- The text of a line given backwards, less a carriage return right before its line feed. -/
def closeLine (reversed : List Char) : String :=
  match reversed with
  | '\r' :: rest => String.ofList rest.reverse
  | rest => String.ofList rest.reverse

def linesFrom (reversed : List Char) : List Char → List String
  | [] => if reversed.isEmpty then [] else [String.ofList reversed.reverse]
  | '\n' :: rest => closeLine reversed :: linesFrom [] rest
  | c :: rest => linesFrom (c :: reversed) rest

/-- Lines end at a line feed. What follows the last one is a line only if it is not empty. -/
def lines (text : String) : List String :=
  linesFrom [] text.toList

end Text

inductive Symbol where
  | literal (text : String)
  | openBracket
  | closeBracket
  | arrow
  | lineEnd
  deriving DecidableEq, Repr

/-- A piece of a line and the number of characters before it. -/
structure Token where
  symbol : Symbol
  column : Nat
  deriving DecidableEq, Repr

def Symbol.mention : Symbol → String
  | .literal text => "literal \"" ++ text ++ "\""
  | .openBracket => "\"(\""
  | .closeBracket => "\")\""
  | .arrow => "\">\""
  | .lineEnd => "end of line"

namespace Token

def mention (t : Token) : String :=
  t.symbol.mention

def control? (c : Char) : Option Symbol :=
  match c with
  | '(' => some .openBracket
  | ')' => some .closeBracket
  | '>' => some .arrow
  | _ => none

def isSeparator (c : Char) : Bool :=
  c = ' ' || c = '\t' || c = ','

/-- The symbol of a collected text. A control character alone is a control even if quoted. -/
def symbolOf (text : List Char) : Symbol :=
  match text with
  | [c] => (control? c).getD (.literal (String.ofList [c]))
  | _ => .literal (String.ofList text)

/-- The token of a collected text, given backwards. There is none for an empty text. -/
def collected (start : Nat) (reversed : List Char) : List Token :=
  if reversed.isEmpty then [] else [⟨symbolOf reversed.reverse, start⟩]

/-- Where a scan stands: between words, within one, or behind an opening quote. -/
inductive Mode where
  | between
  | word (start : Nat) (reversed : List Char)
  | quoted (start : Nat) (reversed : List Char)

def Mode.pending : Mode → List Token
  | .between => []
  | .word start reversed => collected start reversed
  | .quoted start reversed => collected start reversed

/-- A character outside quotes continues the word before it or starts one. -/
def Mode.extend (mode : Mode) (column : Nat) (c : Char) : Mode :=
  match mode with
  | .word start reversed => .word start (c :: reversed)
  | _ => .word column [c]

/-- Splits the rest of a line, which starts at `column`. Outside quotes a `#` ends the line. -/
def scan (mode : Mode) (column : Nat) : List Char → List Token
  | [] => mode.pending ++ [⟨.lineEnd, column⟩]
  | c :: rest =>
    match mode with
    | .quoted start reversed =>
      if c = '"' then mode.pending ++ scan .between (column + 1) rest
      else scan (.quoted start (c :: reversed)) (column + 1) rest
    | mode =>
      if c = '"' then mode.pending ++ scan (.quoted column []) (column + 1) rest
      else if c = '#' then mode.pending ++ [⟨.lineEnd, column⟩]
      else if isSeparator c then mode.pending ++ scan .between (column + 1) rest
      else match control? c with
        | some kind => mode.pending ++ ⟨kind, column⟩ :: scan .between (column + 1) rest
        | none => scan (mode.extend column c) (column + 1) rest

def ofLine (line : String) : List Token :=
  scan .between 0 line.toList

end Token

end DirectiveFlow
