import DirectiveFlow.Proofs.Outcome
import DirectiveFlow.Proofs.Values

namespace DirectiveFlow

variable {settings : Settings} {env env' : Environment} {name : String}

namespace Combine

variable {c : Combine}

/-- The environment behind a combine: with its result, without a key of its own. -/
def settle (c : Combine) (env : Environment) (result : Value) : Environment :=
  (if c.isPrivate then env.erase c.partials else env).set c.output result

theorem value?_settle (c : Combine) (env : Environment) (result : Value) (name : String) :
    (c.settle env result).value? name =
      if c.output = name then some result
      else if c.isPrivate ∧ c.partials = name then none
      else env.value? name := by
  rw [settle, Environment.value?_set]
  by_cases hp : c.isPrivate
  · simp only [hp, if_true, true_and, Environment.value?_erase]
  · simp only [hp, if_false, false_and, Bool.false_eq_true]

theorem contains_settle (c : Combine) (env : Environment) (result : Value) (name : String) :
    (c.settle env result).contains name ↔
      c.output = name ∨ (¬ (c.isPrivate ∧ c.partials = name) ∧ env.contains name) := by
  rw [settle, Environment.contains_set]
  by_cases hp : c.isPrivate
  · simp only [hp, if_true, true_and, Environment.contains_erase, ne_eq]
  · simp only [hp, if_false, false_and, not_false_eq_true, true_and, Bool.false_eq_true]

theorem run_eq_ok (h : c.run env = .ok env') :
    ∃ values result, env.value? c.partials = some (.list values) ∧
      c.reduction.Gives values result ∧ env' = c.settle env result := by
  unfold run at h
  cases hl : env.listFor c.name c.partials with
  | error e => rw [hl] at h; cases h
  | ok items =>
    rw [hl] at h
    cases items with
    | nil => cases h
    | cons first rest =>
      cases hf : c.reduction.foldFrom first rest with
      | error e => simp only [hf] at h; cases h
      | ok held =>
        cases hr : c.reduction.finish held with
        | error e => simp only [hf, hr] at h; cases h
        | ok result =>
          simp only [hf, hr] at h
          cases h
          exact ⟨first :: rest, result, Environment.listFor_eq_ok.mp hl,
            ⟨first, rest, held, rfl, hf, hr⟩, rfl⟩

theorem run_of_nil (hv : env.value? c.partials = some (.list [])) :
    c.run env = .error (.nothingToReduce c.name) := by
  rw [run, Environment.listFor_eq_ok.mpr hv]

theorem run_of_gives {values : List Value} {result : Value}
    (hv : env.value? c.partials = some (.list values)) (hg : c.reduction.Gives values result) :
    c.run env = .ok (c.settle env result) := by
  obtain ⟨first, rest, held, rfl, hf, hr⟩ := hg
  rw [run, Environment.listFor_eq_ok.mpr hv]
  simp only [hf, hr, settle]

theorem value?_run (h : c.run env = .ok env') (ho : name ≠ c.output)
    (hk : c.isPrivate → name ≠ c.partials) : env'.value? name = env.value? name := by
  obtain ⟨values, result, -, -, rfl⟩ := run_eq_ok h
  rw [value?_settle, if_neg (Ne.symm ho), if_neg]
  exact fun hp => hk hp.1 hp.2.symm

theorem value?_output (h : c.run env = .ok env') :
    ∃ values result, env.value? c.partials = some (.list values) ∧
      c.reduction.Gives values result ∧ env'.value? c.output = some result := by
  obtain ⟨values, result, hv, hg, rfl⟩ := run_eq_ok h
  exact ⟨values, result, hv, hg, by rw [value?_settle, if_pos rfl]⟩

end Combine

theorem Serial.run_eq_setAll {s : Serial} (h : (s.run env).result = .ok env') :
    ∃ results : List (String × Value), results.map Prod.fst = s.outputs ∧
      env' = env.setAll results := by
  simp only [run, Run.bind_eq_ok, Run.result_ofExcept] at h
  obtain ⟨values, -, result, -, results, hr, he⟩ := h
  cases he
  exact ⟨results, namedResults_names hr, rfl⟩

theorem Group.run_eq_setAll {g : Group} (h : (g.run settings env).result = .ok env') :
    ∃ results : List (String × Value), results.map Prod.fst = g.gathered ∧
      env' = env.setAll results := by
  simp only [run, Run.bind_eq_ok, Run.result_ofExcept] at h
  obtain ⟨rows, -, yields, -, results, hr, he⟩ := h
  cases he
  exact ⟨results, namedResults_names hr, rfl⟩

namespace Stage

variable {stage : Stage}

/-- A stage gives its outputs a value and leaves others theirs, apart from the key of its own
that a combine drops. -/
theorem isSome_run (h : (stage.run settings env).result = .ok env')
    (hk : ∀ c, stage = .combine c → c.isPrivate → name ≠ c.partials)
    (hn : name ∈ stage.outputs ∨ (env.value? name).isSome) : (env'.value? name).isSome := by
  cases stage with
  | serial s =>
    obtain ⟨results, hr, rfl⟩ := Serial.run_eq_setAll h
    exact Environment.isSome_setAll (hr ▸ hn)
  | group g =>
    obtain ⟨results, hr, rfl⟩ := Group.run_eq_setAll h
    exact Environment.isSome_setAll (hr ▸ hn)
  | combine c =>
    by_cases ho : name = c.output
    · subst ho
      obtain ⟨values, result, -, -, hv⟩ := Combine.value?_output h
      rw [hv]
      rfl
    · rw [Combine.value?_run h ho (hk c rfl)]
      exact hn.resolve_left fun hm => ho (List.mem_singleton.mp hm)

end Stage

theorem runStages_cons (settings : Settings) (env : Environment) (stage : Stage)
    (rest : List Stage) :
    (runStages settings env (stage :: rest)).result = (do
      let env' ← (stage.run settings env).result.mapError .run
      (runStages settings env' rest).result) := by
  simp only [runStages, Run.result_bind, Run.result_report, Run.result_mapError, ok_bind]

theorem runStages_append (settings : Settings) (env : Environment) (as bs : List Stage) :
    (runStages settings env (as ++ bs)).result = (do
      let env' ← (runStages settings env as).result
      (runStages settings env' bs).result) := by
  induction as generalizing env with
  | nil => rfl
  | cons stage as ih =>
    rw [List.cons_append, runStages_cons, runStages_cons]
    cases (stage.run settings env).result with
    | error e => rfl
    | ok env' => exact ih env'

theorem runStages_cons_eq_ok {stage : Stage} {rest : List Stage} :
    (runStages settings env (stage :: rest)).result = .ok env' ↔
      ∃ mid, (stage.run settings env).result = .ok mid ∧
        (runStages settings mid rest).result = .ok env' := by
  rw [runStages_cons, bind_eq_ok]
  simp only [mapError_eq_ok]

theorem value?_runCombines {combines : List Combine}
    (h : (runStages settings env (combines.map .combine)).result = .ok env')
    (ho : ∀ c ∈ combines, name ≠ c.output) (hk : ∀ c ∈ combines, name ≠ c.partials) :
    env'.value? name = env.value? name := by
  induction combines generalizing env with
  | nil =>
    cases h
    rfl
  | cons c combines ih =>
    obtain ⟨ho₁, ho⟩ := List.forall_mem_cons.mp ho
    obtain ⟨hk₁, hk⟩ := List.forall_mem_cons.mp hk
    obtain ⟨mid, hc, hr⟩ := runStages_cons_eq_ok.mp h
    rw [ih hr ho hk, Combine.value?_run hc ho₁ fun _ => hk₁]

theorem isSome_runStages {stages : List Stage}
    (h : (runStages settings env stages).result = .ok env')
    (hk : ∀ c, .combine c ∈ stages → c.isPrivate → name ≠ c.partials)
    (hn : name ∈ stages.flatMap Stage.outputs ∨ (env.value? name).isSome) :
    (env'.value? name).isSome := by
  induction stages generalizing env with
  | nil =>
    cases h
    exact hn.resolve_left List.not_mem_nil
  | cons stage rest ih =>
    obtain ⟨mid, hs, hr⟩ := runStages_cons_eq_ok.mp h
    apply ih hr fun c hc => hk c (List.mem_cons_of_mem stage hc)
    rw [List.flatMap_cons, List.mem_append] at hn
    rcases hn with (hn | hn) | hn
    · exact .inr (Stage.isSome_run hs (fun c hc => hk c (hc ▸ List.mem_cons_self)) (.inl hn))
    · exact .inl hn
    · exact .inr (Stage.isSome_run hs (fun c hc => hk c (hc ▸ List.mem_cons_self)) (.inr hn))

theorem ends_runStages {fault : FlowFault → Prop} {stages : List Stage}
    (h : ∀ before stage after mid, stages = before ++ stage :: after →
      (runStages settings env before).result = .ok mid →
      Ends (fun e => fault (.run e)) (fun _ => True) (stage.run settings mid).result) :
    Ends fault (fun _ => True) (runStages settings env stages).result := by
  induction stages generalizing env with
  | nil => trivial
  | cons stage rest ih =>
    have hs := h [] stage rest env rfl rfl
    rw [runStages_cons]
    cases hr : (stage.run settings env).result with
    | error e =>
      rw [hr] at hs
      exact hs
    | ok mid =>
      apply ih
      intro before stage' after last he hb
      apply h (stage :: before) stage' after last (congrArg (stage :: ·) he)
      exact runStages_cons_eq_ok.mpr ⟨mid, hr, hb⟩

end DirectiveFlow
