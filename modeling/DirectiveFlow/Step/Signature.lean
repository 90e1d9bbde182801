import DirectiveFlow.Literal
import DirectiveFlow.Step.Arguments
import DirectiveFlow.Step.Schema

namespace DirectiveFlow

def aboutStep (message step : String) : String :=
  message ++ " (" ++ step ++ ")"

inductive Rejection where
  | unnamed
  | reducerItems (step : String)
  | reservedName (step param : String)
  | repeatedParam (step param : String)
  | unknownType (step param typeName : String)
  | lacksDefault (step param : String)
  | badDefault (step param : String) (cause : LiteralFault)
  | nameTaken (step : String)
  deriving DecidableEq, Repr

def Rejection.message : Rejection → String
  | .unnamed => "step name must not be empty"
  | .reducerItems step => aboutStep "reducers can only take and produce a single item" step
  | .reservedName step param =>
    aboutStep ("parameter '" ++ param ++ "' overrides a reserved name") step
  | .repeatedParam step param => aboutStep ("parameter '" ++ param ++ "' is declared twice") step
  | .unknownType step param typeName =>
    aboutStep ("parameter '" ++ param ++ "' has unknown type '" ++ typeName ++ "'") step
  | .lacksDefault step param =>
    aboutStep ("parameter '" ++ param ++ "' misses a default value") step
  | .badDefault step param cause =>
    aboutStep ("parameter '" ++ param ++ "' has a bad default value: " ++ cause.message) step
  | .nameTaken step => "step '" ++ step ++ "' is already registered"

inductive CallFault where
  | unknownStep (step : String)
  | inputCount (step : String) (expected received : Nat)
  | outputCount (step : String) (expected received : Nat)
  | tooFewLiterals (step : String) (required received : Nat)
  | tooManyLiterals (step : String) (maximum received : Nat)
  | badLiteral (step param expected : String)
  | wrongBody (step declared built : String)
  | notBuilt (step : String) (cause : StepFault)
  deriving DecidableEq, Repr

def CallFault.message : CallFault → String
  | .unknownStep step => "no such step '" ++ step ++ "'"
  | .inputCount step expected received =>
    aboutStep ("input spec length mismatch: expected " ++ expected.repr
      ++ ", received " ++ received.repr) step
  | .outputCount step expected received =>
    aboutStep ("output spec length mismatch: expected " ++ expected.repr
      ++ ", received " ++ received.repr) step
  | .tooFewLiterals step required received =>
    aboutStep ("not enough parameters: expected at least " ++ required.repr
      ++ ", received " ++ received.repr) step
  | .tooManyLiterals step maximum received =>
    aboutStep ("too many parameters: expected at most " ++ maximum.repr
      ++ ", received " ++ received.repr) step
  | .badLiteral step param expected =>
    aboutStep ("bad type for parameter '" ++ param ++ "': expected a " ++ expected) step
  | .wrongBody step declared built =>
    aboutStep ("step factory declared " ++ declared ++ " but built a " ++ built ++ " body") step
  | .notBuilt step cause => aboutStep cause.message step

/-- An accepted schema with the number of parameters that need a literal and of
all parameters. -/
structure Signature where
  schema : Schema
  required : Nat
  maximum : Nat
  deriving DecidableEq, Repr

namespace Signature

/-- Parameter names that would hide a part of a step. -/
def reserved : List String :=
  ["name", "description", "kind", "params", "inputs", "outputs", "setup", "action"]

def reducerMark : String := "reduce_"

def markReducer (name : String) : String :=
  if reducerMark.toList.isPrefixOf name.toList then name else reducerMark ++ name

/-- Checks the parameters in order and counts those without a default. -/
def countRequired (step : String) (seen : List String) (optional : Bool) (required : Nat) :
    List Param → Except Rejection Nat
  | [] => .ok required
  | p :: rest =>
    if p.name ∈ reserved then .error (.reservedName step p.name)
    else if p.name ∈ seen then .error (.repeatedParam step p.name)
    else if LiteralType.ofName? p.typeName = none then
      .error (.unknownType step p.name p.typeName)
    else match p.default with
      | none =>
        if optional then .error (.lacksDefault step p.name)
        else countRequired step (p.name :: seen) optional (required + 1) rest
      | some text =>
        match Value.ofLiteral p.typeName text with
        | .error cause => .error (.badDefault step p.name cause)
        | .ok _ => countRequired step (p.name :: seen) true required rest

/-- Accepts a well-formed schema. A reducer gets its mark if its name lacks it. -/
def ofSchema (s : Schema) : Except Rejection Signature :=
  if s.name = "" then .error .unnamed
  else if s.kind = .reducer ∧ (s.inputs.length ≠ 1 ∨ s.outputs.length ≠ 1) then
    .error (.reducerItems s.name)
  else
    let name := if s.kind = .reducer then markReducer s.name else s.name
    match countRequired name [] false 0 s.params with
    | .error rejection => .error rejection
    | .ok required => .ok ⟨{ s with name := name }, required, s.params.length⟩

def name (s : Signature) : String :=
  s.schema.name

def inPlace (s : Signature) : Bool :=
  s.schema.inputs = s.schema.outputs

def readFrom (step : String) (arguments : Arguments) :
    List Param → List String → Except CallFault Arguments
  | [], _ => .ok arguments
  | p :: rest, literals =>
    match literals.head? <|> p.default with
    | none => readFrom step arguments rest literals.tail
    | some text =>
      match Value.ofLiteral p.typeName text with
      | .error _ => .error (.badLiteral step p.name p.typeName)
      | .ok value => readFrom step (arguments.insert p.name value) rest literals.tail

/-- Reads literals in the order of the parameters; defaults stand in for those left out. -/
def arguments (s : Signature) (literals : List String) : Except CallFault Arguments :=
  if literals.length < s.required then
    .error (.tooFewLiterals s.name s.required literals.length)
  else if s.maximum < literals.length then
    .error (.tooManyLiterals s.name s.maximum literals.length)
  else readFrom s.name ∅ s.schema.params literals

def paramHelp (p : Param) : String :=
  let value := match p.default with
    | some text => " = " ++ Text.quoted text
    | none => ""
  "  " ++ p.name ++ ": " ++ p.typeName ++ value ++ "  " ++ p.description ++ "\n"

def help (s : Signature) : String :=
  s.name ++ " (" ++ s.schema.kind.name ++ ")\n"
    ++ (if s.schema.description = "" then "" else "  " ++ s.schema.description ++ "\n")
    ++ "  io: (" ++ ", ".intercalate s.schema.inputs
    ++ " > " ++ ", ".intercalate s.schema.outputs ++ ")\n"
    ++ String.join (s.schema.params.map paramHelp)

end Signature

end DirectiveFlow
