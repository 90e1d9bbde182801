namespace DirectiveFlow

/-- How a step takes part in a flow: once, once per item, or by folding items. -/
inductive StepKind where
  | serial
  | parallel
  | reducer
  deriving DecidableEq, Repr

def StepKind.name : StepKind → String
  | .serial => "serial"
  | .parallel => "parallel"
  | .reducer => "reducer"

/-- A positional parameter. Its default is a literal, read like any other. -/
structure Param where
  name : String
  typeName : String
  default : Option String
  description : String
  deriving DecidableEq, Repr

structure Schema where
  name : String
  kind : StepKind
  description : String
  params : List Param
  inputs : List String
  outputs : List String
  deriving DecidableEq, Repr

def Schema.bare (name : String) (kind : StepKind) (description : String) : Schema :=
  ⟨name, kind, description, [], [], []⟩

def Schema.param (s : Schema) (p : Param) : Schema :=
  { s with params := s.params ++ [p] }

def Schema.input (s : Schema) (item : String) : Schema :=
  { s with inputs := s.inputs ++ [item] }

def Schema.output (s : Schema) (item : String) : Schema :=
  { s with outputs := s.outputs ++ [item] }

def Schema.inPlace (s : Schema) (item : String) : Schema :=
  (s.input item).output item

end DirectiveFlow
