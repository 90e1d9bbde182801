import DirectiveFlow.Run.Flow

namespace DirectiveFlow

namespace Environment

variable {env env' : Environment} {name : String}

theorem eq_of_values (hc : ∀ name, env.contains name = env'.contains name)
    (hv : ∀ name, env.value? name = env'.value? name) : env = env' := by
  have he : env.items = env'.items := by
    apply Std.ExtTreeMap.ext_getElem?
    intro name
    have hcn := hc name
    have hvn := hv name
    simp only [contains, Std.ExtTreeMap.contains_eq_isSome_getElem?] at hcn
    simp only [value?] at hvn
    cases h : env.items[name]? <;> cases h' : env'.items[name]? <;> simp_all
  cases env
  cases env'
  exact congrArg mk he

theorem setAll_cons (env : Environment) (name : String) (value : Value)
    (results : List (String × Value)) :
    env.setAll ((name, value) :: results) = (env.set name value).setAll results := rfl

theorem value?_setAll_of_notMem {results : List (String × Value)}
    (h : name ∉ results.map Prod.fst) : (env.setAll results).value? name = env.value? name := by
  induction results generalizing env with
  | nil => rfl
  | cons result results ih =>
    obtain ⟨hn, ht⟩ := not_or.mp (fun hm => h (List.mem_cons.mpr hm))
    rw [setAll_cons, ih ht, value?_set, if_neg (Ne.symm hn)]

theorem value?_setAll_of_mem {results : List (String × Value)} {value : Value}
    (hn : (results.map Prod.fst).Nodup) (h : (name, value) ∈ results) :
    (env.setAll results).value? name = some value := by
  induction results generalizing env with
  | nil => cases h
  | cons result results ih =>
    rw [List.map_cons, List.nodup_cons] at hn
    rcases List.mem_cons.mp h with he | ht
    · subst he
      rw [setAll_cons, value?_setAll_of_notMem hn.1, value?_set, if_pos rfl]
    · rw [setAll_cons, ih hn.2 ht]

theorem contains_setAll {results : List (String × Value)} :
    (env.setAll results).contains name ↔ name ∈ results.map Prod.fst ∨ env.contains name := by
  induction results generalizing env with
  | nil => exact ⟨.inr, fun h => h.resolve_left List.not_mem_nil⟩
  | cons result results ih =>
    rw [setAll_cons, ih, contains_set, List.map_cons, List.mem_cons]
    grind

theorem isSome_setAll {results : List (String × Value)}
    (h : name ∈ results.map Prod.fst ∨ (env.value? name).isSome) :
    ((env.setAll results).value? name).isSome := by
  induction results generalizing env with
  | nil => exact h.resolve_left List.not_mem_nil
  | cons result results ih =>
    rw [setAll_cons]
    apply ih
    rw [value?_set]
    by_cases he : result.1 = name
    · exact .inr (by simp [he])
    · rw [if_neg he]
      rw [List.map_cons, List.mem_cons] at h
      exact h.imp_left fun hm => hm.resolve_left (Ne.symm he)

theorem contains_declareAll {names : List String} :
    (env.declareAll names).contains name ↔ name ∈ names ∨ env.contains name := by
  induction names generalizing env with
  | nil => exact ⟨.inr, fun h => h.resolve_left List.not_mem_nil⟩
  | cons other names ih =>
    change ((env.declare other).declareAll names).contains name ↔ _
    rw [ih, contains_declare, List.mem_cons]
    grind

theorem valueFor_eq_ok {step : String} {value : Value} :
    env.valueFor step name = .ok value ↔ env.value? name = some value := by
  unfold valueFor
  cases env.value? name with
  | none => simp
  | some v => simp

theorem listFor_eq_ok {step : String} {items : List Value} :
    env.listFor step name = .ok items ↔ env.value? name = some (.list items) := by
  unfold listFor valueFor
  cases env.value? name with
  | none => simp
  | some v => cases v <;> simp [Value.list?]

end Environment

namespace Locals

variable {locals : Locals} {name : String}

theorem mem_setAll {results : List (String × Value)} :
    name ∈ locals.setAll results ↔ name ∈ results.map Prod.fst ∨ name ∈ locals := by
  induction results generalizing locals with
  | nil => exact ⟨.inr, fun h => h.resolve_left List.not_mem_nil⟩
  | cons result results ih =>
    change name ∈ Locals.setAll (locals.insert result.1 result.2) results ↔ _
    rw [ih, Std.ExtTreeMap.mem_insert, Std.compare_eq_iff_eq, List.map_cons, List.mem_cons]
    grind

theorem valueFor_eq_ok {step : String} {value : Value} :
    locals.valueFor step name = .ok value ↔ locals[name]? = some value := by
  unfold valueFor
  cases locals[name]? with
  | none => simp
  | some v => simp

end Locals

/-- The finished left fold of values, of which there has to be one. -/
def Reduction.Gives (r : Reduction) (values : List Value) (result : Value) : Prop :=
  ∃ first rest held, values = first :: rest ∧ r.foldFrom first rest = .ok held ∧
    r.finish held = .ok result

theorem namedResults_names {step : String} {outputs : List String} {result : Value}
    {results : List (String × Value)} (h : namedResults step outputs result = .ok results) :
    results.map Prod.fst = outputs := by
  unfold namedResults at h
  split at h
  · cases h
    rfl
  · cases h
    rfl
  · split at h
    · cases h
    · split at h
      · rename_i hl
        cases h
        exact List.map_fst_zip (Nat.le_of_eq hl.symm)
      · cases h

end DirectiveFlow
