import DirectiveFlow.Environment
import DirectiveFlow.Flow.Fault

namespace DirectiveFlow

abbrev Row := List Value

/-- The values that a worker hands back, by name. -/
abbrev Yield := Std.ExtTreeMap String (List Value)

/-- A result under the names of the outputs: whole for one name, split for several. -/
def namedResults (step : String) (outputs : List String) (result : Value) :
    Except RunFault (List (String × Value)) :=
  match outputs with
  | [] => .ok []
  | [single] => .ok [(single, result)]
  | outputs =>
    match result.list? with
    | none => .error (.resultCount step outputs.length 1)
    | some values =>
      if values.length = outputs.length then .ok (outputs.zip values)
      else .error (.resultCount step outputs.length values.length)

namespace Environment

def valueFor (env : Environment) (step item : String) : Except RunFault Value :=
  match env.value? item with
  | some value => .ok value
  | none => .error (.noValue item step)

def listFor (env : Environment) (step item : String) : Except RunFault (List Value) :=
  match env.valueFor step item with
  | .error fault => .error fault
  | .ok value =>
    match value.list? with
    | some items => .ok items
    | none => .error (.notAList item step value.typeName)

/-- Rows across lists, as many as the shortest list has values. -/
def zipRows (columns : List (List Value)) : List Row :=
  let count := ((columns.map List.length).min?).getD 0
  (List.range count).map fun i => columns.map fun column => column.getD i .null

/-- The rows of a group, from the lists that it requests. -/
def rowsFor (env : Environment) (group : String) (requests : List String) :
    Except RunFault (List Row) :=
  (requests.mapM (env.listFor group)).map zipRows

end Environment

def shareOut {α : Type} (size : Nat) : Nat → List α → List (List α)
  | 0, _ => []
  | workers + 1, items => items.take size :: shareOut size workers (items.drop size)

/-- The share of each worker: `⌈n / workers⌉` consecutive items while they last. -/
def shares {α : Type} (items : List α) (workers : Nat) : List (List α) :=
  let count := max workers 1
  shareOut ((items.length + count - 1) / count) count items

/-- Takes the values of each name out of a yield. A name taken before has none left. -/
def takeAll (yield : Yield) : List String → List (List Value)
  | [] => []
  | name :: rest => yield.getD name [] :: takeAll (yield.erase name) rest

/-- Joins yields in the order of the workers: nothing, a list, or a list for each name. -/
def joinYields (gathered : List String) (yields : List Yield) : Value :=
  let joined := yields.foldl
    (fun joined yield => List.zipWith (· ++ ·) joined (takeAll yield gathered))
    (List.replicate gathered.length [])
  match joined with
  | [] => .null
  | [single] => .list single
  | several => .list (several.map .list)

end DirectiveFlow
