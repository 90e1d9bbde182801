import DirectiveFlow.Text.Lines

namespace DirectiveFlow

/-- One call of a step. The name is empty if the line calls none. -/
structure Directive where
  name : String
  inputs : List String
  outputs : List String
  params : List String
  deriving DecidableEq, Repr

def Directive.blank : Directive := ⟨"", [], [], []⟩

namespace Directive

/-- The text `name (inputs > outputs) params`, with brackets only if they hold a name. -/
def render (d : Directive) : String :=
  let names := " ".intercalate d.inputs ++ " > " ++ " ".intercalate d.outputs
  let io := if d.inputs.isEmpty && d.outputs.isEmpty then "" else " (" ++ names ++ ")"
  d.name ++ io ++ String.join (d.params.map fun param => " " ++ param)

inductive Position where
  | name
  | afterName
  | input
  | output
  | param
  | nothing
  deriving DecidableEq, Repr

def Position.label : Position → String
  | .name => "a step name"
  | .afterName => "an IO spec or a parameter"
  | .input => "an input name"
  | .output => "an output name"
  | .param => "a parameter"
  | .nothing => "nothing"

structure SyntaxFault where
  found : Token
  expected : Position
  line : String
  deriving DecidableEq, Repr

def SyntaxFault.message (e : SyntaxFault) : String :=
  "unexpected " ++ e.found.mention ++ " when scanning for " ++ e.expected.label

def SyntaxFault.mark (e : SyntaxFault) : String :=
  String.ofList (List.replicate e.found.column ' ') ++ "^"

def SyntaxFault.render (e : SyntaxFault) : String :=
  e.message ++ "\n" ++ e.line ++ "\n" ++ e.mark

/-- The grammar `name [ '(' [input ...] ['>' output ...] ')' ] [param ...]`, one
token at a time. -/
def advance? (position : Position) (d : Directive) (symbol : Symbol) :
    Option (Position × Directive) :=
  match position, symbol with
  | .name, .literal text => some (.afterName, { d with name := text })
  | .afterName, .openBracket => some (.input, d)
  | .afterName, .literal text => some (.param, { d with params := d.params ++ [text] })
  | .param, .literal text => some (.param, { d with params := d.params ++ [text] })
  | .input, .literal text => some (.input, { d with inputs := d.inputs ++ [text] })
  | .input, .arrow => some (.output, d)
  | .output, .literal text => some (.output, { d with outputs := d.outputs ++ [text] })
  | .input, .closeBracket => some (.param, d)
  | .output, .closeBracket => some (.param, d)
  | .name, .lineEnd => some (.nothing, d)
  | .afterName, .lineEnd => some (.nothing, d)
  | .param, .lineEnd => some (.nothing, d)
  | _, _ => none

def readFrom (line : String) (position : Position) (d : Directive) :
    List Token → Except SyntaxFault Directive
  | [] => .ok d
  | token :: rest =>
    match advance? position d token.symbol with
    | some (next, d) => readFrom line next d rest
    | none => .error ⟨token, position, line⟩

/-- The directive that tokens spell; the line is only kept for the error. -/
def ofTokens (tokens : List Token) (line : String) : Except SyntaxFault Directive :=
  readFrom line .name blank tokens

def ofLine (line : String) : Except SyntaxFault Directive :=
  ofTokens (Token.ofLine line) line

end Directive

end DirectiveFlow
