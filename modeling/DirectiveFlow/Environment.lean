import Std.Data.ExtTreeMap
import DirectiveFlow.Value

namespace DirectiveFlow

/-- The items of a flow by name. A declared item has no value before some step sets it. -/
structure Environment where
  items : Std.ExtTreeMap String (Option Value)

namespace Environment

def empty : Environment := ⟨∅⟩

def contains (env : Environment) (name : String) : Bool :=
  env.items.contains name

def value? (env : Environment) (name : String) : Option Value :=
  (env.items[name]?).join

/-- Adds a name without a value. An item that is there already stays as it is. -/
def declare (env : Environment) (name : String) : Environment :=
  ⟨env.items.insertIfNew name none⟩

def declareAll (env : Environment) (names : List String) : Environment :=
  names.foldl declare env

def set (env : Environment) (name : String) (value : Value) : Environment :=
  ⟨env.items.insert name (some value)⟩

def setAll (env : Environment) (results : List (String × Value)) : Environment :=
  results.foldl (fun env (name, value) => env.set name value) env

def erase (env : Environment) (name : String) : Environment :=
  ⟨env.items.erase name⟩

def names (env : Environment) : List String :=
  env.items.keys

def size (env : Environment) : Nat :=
  env.items.size

def bindings (env : Environment) : List (String × Value) :=
  env.items.toList.filterMap fun (name, value?) => value?.map fun value => (name, value)

def toJson (env : Environment) : Json :=
  .object (env.bindings.map fun (name, value) => (name, value.toJson))

@[simp] theorem value?_empty (name : String) : empty.value? name = none := by
  simp [empty, value?]

@[simp] theorem contains_empty (name : String) : empty.contains name = false := by
  simp [empty, contains]

@[simp] theorem value?_declare (env : Environment) (name other : String) :
    (env.declare name).value? other = env.value? other := by
  simp only [declare, value?, Std.ExtTreeMap.getElem?_insertIfNew]
  split
  · rename_i h
    obtain ⟨he, hm⟩ := h
    rw [Std.compare_eq_iff_eq] at he
    subst other
    rw [Std.ExtTreeMap.getElem?_eq_none hm]
    rfl
  · rfl

@[simp] theorem contains_declare (env : Environment) (name other : String) :
    (env.declare name).contains other ↔ name = other ∨ env.contains other := by
  simp [declare, contains]

@[simp] theorem value?_set (env : Environment) (name other : String) (value : Value) :
    (env.set name value).value? other = if name = other then some value else env.value? other := by
  by_cases h : name = other <;> simp [set, value?, Std.ExtTreeMap.getElem?_insert, h]

@[simp] theorem contains_set (env : Environment) (name other : String) (value : Value) :
    (env.set name value).contains other ↔ name = other ∨ env.contains other := by
  simp [set, contains]

@[simp] theorem value?_erase (env : Environment) (name other : String) :
    (env.erase name).value? other = if name = other then none else env.value? other := by
  by_cases h : name = other <;> simp [erase, value?, Std.ExtTreeMap.getElem?_erase, h]

@[simp] theorem contains_erase (env : Environment) (name other : String) :
    (env.erase name).contains other ↔ name ≠ other ∧ env.contains other := by
  simp [erase, contains]

theorem contains_of_value? {env : Environment} {name : String} {value : Value}
    (h : env.value? name = some value) : env.contains name := by
  cases hn : env.items[name]? with
  | none => simp [value?, hn] at h
  | some => exact Std.ExtTreeMap.mem_iff_isSome_getElem?.mpr (hn ▸ rfl)

end Environment

end DirectiveFlow
