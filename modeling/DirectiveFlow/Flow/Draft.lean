import DirectiveFlow.Flow.Fault
import DirectiveFlow.Flow.Stage
import DirectiveFlow.Repertoire

namespace DirectiveFlow

/-- Several groups could provide an item; the first of them does. -/
structure Ambiguity where
  item : String
  step : String
  chosen : Nat
  others : List Nat
  deriving DecidableEq, Repr

def Ambiguity.message : String :=
  "several micro-groups can produce this item; gathering from the first"

def Ambiguity.othersText (a : Ambiguity) : String :=
  "[" ++ ", ".intercalate (a.others.map Nat.repr) ++ "]"

namespace Group

/-- Requests the items that no member provides, up to the first one that is out of scope. -/
def request (g : Group) (env : Environment) (step : String) :
    List String → Group × Except OutOfScope Unit
  | [] => (g, .ok ())
  | item :: rest =>
    if item ∈ g.offers then g.request env step rest
    else if env.contains item then
      { g with requests := g.requests ++ [item] }.request env step rest
    else (g, .error ⟨item, step⟩)

/-- Adds a member. The requests made before a fault stay. -/
def add (g : Group) (env : Environment) (m : Member) : Group × Except OutOfScope Unit :=
  match g.request env m.name m.inputs with
  | (g, .error fault) => (g, .error fault)
  | (g, .ok ()) =>
    let g := match m.partials? with
      | some key => g.gather key
      | none => g
    ({ g with members := g.members ++ [m] }, .ok ())

end Group

namespace Stage

def provides (item : String) : Stage → Bool
  | .group g => item ∈ g.offers
  | _ => false

def gather (item : String) : Stage → Stage
  | .group g => .group (g.gather item)
  | stage => stage

end Stage

/-- A group that still takes members, and the combines that follow it. -/
structure GroupDraft where
  group : Group
  combines : List Combine

def GroupDraft.empty : GroupDraft := ⟨.empty, []⟩

structure Draft where
  stages : List Stage
  declared : Environment
  current : Option GroupDraft
  line : Nat
  ambiguities : List Ambiguity

namespace Draft

def empty : Draft := ⟨[], .empty, none, 0, []⟩

def providers (d : Draft) (item : String) : List Nat :=
  d.stages.zipIdx.filterMap fun (stage, i) => if stage.provides item then some i else none

/-- Lets a group gather an item, and notes it if there is a choice. -/
def gatherFrom (d : Draft) (item step : String) (chosen : Nat) (others : List Nat) : Draft :=
  { d with
    stages := d.stages.modify chosen (Stage.gather item)
    declared := d.declared.declare item
    ambiguities :=
      if others.isEmpty then d.ambiguities else d.ambiguities ++ [⟨item, step, chosen, others⟩] }

/-- Finds an item: with the first group that could provide it, or else among the
declared ones. -/
def locate (d : Draft) (item step : String) : Draft × Except OutOfScope Unit :=
  match d.providers item with
  | chosen :: others => (d.gatherFrom item step chosen others, .ok ())
  | [] => if d.declared.contains item then (d, .ok ()) else (d, .error ⟨item, step⟩)

def locateAll (d : Draft) (step : String) : List String → Draft × Except OutOfScope Unit
  | [] => (d, .ok ())
  | item :: rest =>
    match d.locate item step with
    | (d, .ok ()) => d.locateAll step rest
    | (d, .error fault) => (d, .error fault)

/-- A combine takes its item's name for what the workers held unless it has a key of its own. -/
def declareCombine (env : Environment) (c : Combine) : Environment :=
  (if c.isPrivate then env else env.declare c.item).declare c.output

/-- Puts the open group, if there is one, and its combines behind the other stages. -/
def closeGroup (d : Draft) : Draft × Except OutOfScope Unit :=
  match d.current with
  | none => (d, .ok ())
  | some o =>
    match { d with current := none }.locateAll o.group.name o.group.requests with
    | (d, .error fault) => (d, .error fault)
    | (d, .ok ()) =>
      ({ d with
          stages := d.stages ++ .group o.group :: o.combines.map .combine
          declared := o.combines.foldl declareCombine d.declared }, .ok ())

/-- Closes the open group, then locates the inputs of the step and declares its outputs. -/
def addSerial (d : Draft) (s : Serial) : Draft × Except OutOfScope Unit :=
  match d.closeGroup with
  | (d, .error fault) => (d, .error fault)
  | (d, .ok ()) =>
    match d.locateAll s.name s.inputs with
    | (d, .error fault) => (d, .error fault)
    | (d, .ok ()) =>
      ({ d with
          stages := d.stages ++ [.serial s]
          declared := d.declared.declareAll s.outputs }, .ok ())

def groupDraft (d : Draft) : GroupDraft :=
  d.current.getD .empty

/-- Adds a member to the open group, which is opened for it if there is none. -/
def addMember (d : Draft) (m : Member) : Draft × Except OutOfScope Unit :=
  let o := d.groupDraft
  let (group, result) := o.group.add d.declared m
  ({ d with current := some { o with group := group } }, result)

/-- A key for what the workers hold that no other fold of the group has. -/
def freePartials (g : Group) (c : Combine) : String :=
  if c.partials ∈ g.partials then c.item ++ "#" ++ g.members.length.repr else c.partials

/-- Adds the fold of a reducer to the open group and keeps its combine until the
group is closed. -/
def addReducer (d : Draft) (c : Combine) : Draft × Except OutOfScope Unit :=
  let c := { c with partials := freePartials d.groupDraft.group c }
  match d.addMember (.fold c.name c.item c.partials c.reduction) with
  | (d, .error fault) => (d, .error fault)
  | (d, .ok ()) =>
    let o := d.groupDraft
    ({ d with current := some { o with combines := o.combines ++ [c] } }, .ok ())

def addStep (d : Draft) (s : Step) : Draft × Except OutOfScope Unit :=
  match s.body with
  | .fold reduction =>
    let item := s.inputs.head?.getD ""
    d.addReducer ⟨s.name, item, item, s.outputs.head?.getD "", reduction⟩
  | .task operation =>
    if s.kind = .serial then d.addSerial ⟨s.name, s.inputs, s.outputs, operation⟩
    else d.addMember (.task s.name s.inputs s.outputs operation)

/-- Reads a directive line and links the step that it calls. A blank line adds nothing. -/
def addLine (d : Draft) (r : Repertoire) (line : Nat) (text : String) :
    Draft × Except FlowFault Unit :=
  let d := { d with line := line }
  match Directive.ofLine text with
  | .error fault => (d, .error (.badSyntax line fault))
  | .ok directive =>
    if directive.name = "" then (d, .ok ())
    else match r.call directive with
      | .error fault => (d, .error (.badCall line fault))
      | .ok step =>
        let (d, result) := d.addStep step
        (d, result.mapError (.outOfScope line))

/-- Links lines, numbered from `line` on, up to the first fault. -/
def addLines (d : Draft) (r : Repertoire) (line : Nat) :
    List String → Draft × Except FlowFault Unit
  | [] => (d, .ok ())
  | text :: rest =>
    match d.addLine r line text with
    | (d, .error fault) => (d, .error fault)
    | (d, .ok ()) => d.addLines r (line + 1) rest

def complete (d : Draft) : Draft × Except FlowFault Flow :=
  match d.closeGroup with
  | (d, .error fault) => (d, .error (.outOfScope d.line fault))
  | (d, .ok ()) => (d, .ok ⟨d.stages, d.declared⟩)

/-- The draft and the flow of a script, whose lines are numbered from 1. -/
def ofLines (r : Repertoire) (lines : List String) : Draft × Except FlowFault Flow :=
  match empty.addLines r 1 lines with
  | (d, .error fault) => (d, .error fault)
  | (d, .ok ()) => d.complete

end Draft

def Flow.ofLines (r : Repertoire) (lines : List String) : Except FlowFault Flow :=
  (Draft.ofLines r lines).2

end DirectiveFlow
