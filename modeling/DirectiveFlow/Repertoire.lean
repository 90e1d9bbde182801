import DirectiveFlow.Directive
import DirectiveFlow.Step.Body
import DirectiveFlow.Step.Signature

namespace DirectiveFlow

/-- A called step with its effective item names, ready to be linked into a flow. -/
structure Step where
  name : String
  kind : StepKind
  inputs : List String
  outputs : List String
  body : Body

def Step.summary (s : Step) : String :=
  let kind := match s.kind with
    | .serial => "Serial"
    | .parallel => "Parallel"
    | .reducer => "Reducer"
  "StepInstance \x7b name: " ++ Text.quoted s.name
    ++ ", kind: " ++ kind
    ++ ", inputs: " ++ Text.quotedList s.inputs
    ++ ", outputs: " ++ Text.quotedList s.outputs
    ++ ", body: " ++ Text.quoted s.body.label ++ " \x7d"

structure Repertoire.Entry where
  signature : Signature
  build : Arguments → Except StepFault Body

structure Repertoire where
  entries : Std.ExtTreeMap String Repertoire.Entry

namespace Repertoire

def empty : Repertoire := ⟨∅⟩

def find? (r : Repertoire) (name : String) : Option Signature :=
  (r.entries[name]?).map (·.signature)

def contains (r : Repertoire) (name : String) : Bool :=
  r.entries.contains name

def names (r : Repertoire) : List String :=
  r.entries.keys

def size (r : Repertoire) : Nat :=
  r.entries.size

/-- Adds a step type under its accepted name unless the name is taken. -/
def add (r : Repertoire) (type : StepType) : Except Rejection (Repertoire × Signature) :=
  match Signature.ofSchema type.schema with
  | .error rejection => .error rejection
  | .ok signature =>
    if r.contains signature.name then .error (.nameTaken signature.name)
    else .ok (⟨r.entries.insert signature.name ⟨signature, type.build⟩⟩, signature)

structure Batch where
  repertoire : Repertoire
  accepted : Nat
  rejections : List Rejection

/-- Adds the step types that are accepted and passes over the others. -/
def addAll (r : Repertoire) : List StepType → Batch
  | [] => ⟨r, 0, []⟩
  | type :: rest =>
    match r.add type with
    | .ok (r, _) =>
      let batch := r.addAll rest
      { batch with accepted := batch.accepted + 1 }
    | .error rejection =>
      let batch := r.addAll rest
      { batch with rejections := rejection :: batch.rejections }

def rejectionNotice (rejection : Rejection) : String :=
  "skipping step type: " ++ rejection.message

def help? (r : Repertoire) (name : String) : Option String :=
  (r.find? name).map Signature.help

def fits : StepKind → Body → Bool
  | .reducer, .fold _ => true
  | .serial, .task _ => true
  | .parallel, .task _ => true
  | _, _ => false

/-- The inputs of a call: those of the directive, or the declared ones if it names none. -/
def callInputs (s : Signature) (d : Directive) : List String :=
  if d.inputs.isEmpty then s.schema.inputs else d.inputs

/-- The outputs of a call. A step in place writes to what it reads. -/
def callOutputs (s : Signature) (d : Directive) : List String :=
  if !d.outputs.isEmpty then d.outputs
  else if s.inPlace && !d.inputs.isEmpty then d.inputs
  else s.schema.outputs

def call (r : Repertoire) (d : Directive) : Except CallFault Step :=
  match r.entries[d.name]? with
  | none => .error (.unknownStep d.name)
  | some entry =>
    let s := entry.signature
    if !d.inputs.isEmpty && d.inputs.length != s.schema.inputs.length then
      .error (.inputCount s.name s.schema.inputs.length d.inputs.length)
    else if !d.outputs.isEmpty && d.outputs.length != s.schema.outputs.length then
      .error (.outputCount s.name s.schema.outputs.length d.outputs.length)
    else match s.arguments d.params with
      | .error fault => .error fault
      | .ok arguments =>
        match entry.build arguments with
        | .error cause => .error (.notBuilt s.name cause)
        | .ok body =>
          if fits s.schema.kind body then
            .ok ⟨s.name, s.schema.kind, callInputs s d, callOutputs s d, body⟩
          else .error (.wrongBody s.name s.schema.kind.name body.label)

end Repertoire

end DirectiveFlow
