import DirectiveFlow.Flow.Stage
import DirectiveFlow.Run.Items
import DirectiveFlow.Run.Trace

namespace DirectiveFlow

abbrev Locals := Std.ExtTreeMap String Value

namespace Locals

def valueFor (locals : Locals) (step item : String) : Except RunFault Value :=
  match locals[item]? with
  | some value => .ok value
  | none => .error (.noValue item step)

def setAll (locals : Locals) (results : List (String × Value)) : Locals :=
  results.foldl (fun locals (name, value) => locals.insert name value) locals

end Locals

/-- The first item is held as it is; any other is combined with what is held. -/
def Reduction.take (r : Reduction) (step : String) (held : Option Value) (item : Value) :
    Except RunFault Value :=
  match held with
  | none => .ok item
  | some held => (r.combine item held).mapError (.failed step)

/-- A member at a worker and, if it is a fold, what it holds after the rows so far. -/
structure Station where
  member : Member
  held : Option Value

def Station.pass (s : Station) (locals : Locals) : Run RunFault (Station × Locals) :=
  match s.member with
  | .task name inputs outputs operation => do
    let values ← .ofExcept (inputs.mapM (locals.valueFor name))
    let result ← .ofReply name (operation.act values)
    let results ← .ofExcept (namedResults name outputs result)
    return (s, locals.setAll results)
  | .fold name item _ reduction => do
    let value ← .ofExcept (locals.valueFor name item)
    let held ← .ofExcept (reduction.take name s.held value)
    return ({ s with held := some held }, locals)

def passAll (locals : Locals) : List Station → Run RunFault (List Station × Locals)
  | [] => .ok ([], locals)
  | s :: rest => do
    let (s, locals) ← s.pass locals
    let (rest, locals) ← passAll locals rest
    return (s :: rest, locals)

namespace Group

def perRow (g : Group) : List String :=
  g.gathered.filter fun name => name ∉ g.partials

/-- Passes rows through the members. The result has the private items of each row at its end. -/
def passRows (g : Group) (label : String) (total : Nat) (stations : List Station) (done : Nat) :
    List Row → Run RunFault (List Station × List Locals)
  | [] => .ok (stations, [])
  | row :: rest => do
    let (stations, locals) ← passAll (Locals.setAll ∅ (g.requests.zip row)) stations
    let _ ← .ofExcept (g.perRow.mapM (locals.valueFor label))
    .report (.progress label (done + 1) total)
    let (stations, others) ← g.passRows label total stations (done + 1) rest
    return (stations, locals :: others)

def collect (g : Group) (rows : List Locals) : Yield :=
  g.gathered.foldl
    (fun yield name => yield.insert name
      (if name ∈ g.perRow then rows.filterMap fun locals => locals[name]? else [])) ∅

end Group

/-- What each fold made of what it held, under its key; nothing if there was no row. -/
def finishAll (yield : Yield) : List Station → Run RunFault Yield
  | [] => .ok yield
  | s :: rest =>
    match s.member with
    | .task .. => finishAll yield rest
    | .fold name _ partials reduction =>
      match s.held with
      | none => finishAll (yield.insert partials []) rest
      | some held => do
        let result ← .ofExcept ((reduction.finish held).mapError (.failed name))
        finishAll (yield.insert partials [result]) rest

/-- The work of one worker: its rows in order, then the results of its folds. -/
def Group.work (g : Group) (label : String) (rows : List Row) : Run RunFault Yield := do
  let (stations, ended) ←
    g.passRows label rows.length (g.members.map fun m => ⟨m, none⟩) 0 rows
  finishAll (g.collect ended) stations

end DirectiveFlow
