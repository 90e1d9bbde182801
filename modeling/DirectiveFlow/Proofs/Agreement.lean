import DirectiveFlow.Proofs.Extending
import DirectiveFlow.Proofs.Joining
import DirectiveFlow.Proofs.Stages

namespace DirectiveFlow

variable {settings : Settings} {env env' last' : Environment}

theorem Environment.value?_setAll_congr {results : List (String × Value)} {x : String}
    (h : x ∈ results.map Prod.fst ∨ env.value? x = env'.value? x) :
    (env.setAll results).value? x = (env'.setAll results).value? x := by
  induction results generalizing env env' with
  | nil => exact h.resolve_left List.not_mem_nil
  | cons result results ih =>
    rw [setAll_cons, setAll_cons]
    apply ih
    rw [value?_set, value?_set]
    by_cases he : result.1 = x
    · exact .inr (by rw [if_pos he, if_pos he])
    · rw [if_neg he, if_neg he]
      exact h.imp_left fun hm => (List.mem_cons.mp hm).resolve_left (Ne.symm he)

theorem Environment.valueFor_congr {step x : String} (h : env.value? x = env'.value? x) :
    env.valueFor step x = env'.valueFor step x := by
  unfold valueFor
  rw [h]

theorem Environment.rowsFor_congr {group : String} {requests : List String}
    (h : ∀ x ∈ requests, env.value? x = env'.value? x) :
    env.rowsFor group requests = env'.rowsFor group requests := by
  unfold rowsFor
  have hlist : ∀ x ∈ requests, env.listFor group x = env'.listFor group x := by
    intro x hx
    unfold listFor
    rw [valueFor_congr (h x hx)]
  rw [mapM_congr hlist]

theorem Serial.run_agrees {s : Serial} (hi : ∀ x ∈ s.inputs, env.value? x = env'.value? x)
    (h : (s.run env').result = .ok last') :
    ∃ last, (s.run env).result = .ok last ∧ ∀ x,
      x ∈ s.outputs ∨ env.value? x = env'.value? x → last.value? x = last'.value? x := by
  simp only [run, Run.bind_eq_ok, Run.result_ofExcept] at h ⊢
  obtain ⟨values, hv, result, hr, results, hs, he⟩ := h
  cases he
  have hv' : s.inputs.mapM (env.valueFor s.name) = .ok values := by
    rw [← hv]
    exact mapM_congr fun x hx => Environment.valueFor_congr (hi x hx)
  refine ⟨_, ⟨values, hv', result, hr, results, hs, rfl⟩, fun x hx => ?_⟩
  exact Environment.value?_setAll_congr (hx.imp_left fun hm => namedResults_names hs ▸ hm)

theorem Combine.run_agrees {c : Combine} (hi : env.value? c.partials = env'.value? c.partials)
    (h : c.run env' = .ok last') :
    ∃ last, c.run env = .ok last ∧ ∀ x,
      x = c.output ∨ env.value? x = env'.value? x → last.value? x = last'.value? x := by
  obtain ⟨values, result, hv, hg, rfl⟩ := Combine.run_eq_ok h
  refine ⟨_, Combine.run_of_gives (hi.trans hv) hg, fun x hx => ?_⟩
  rw [value?_settle, value?_settle]
  by_cases ho : c.output = x
  · rw [if_pos ho, if_pos ho]
  · rw [if_neg ho, if_neg ho, hx.resolve_left (Ne.symm ho)]

theorem finishAll_agrees (yield : Yield) {yield' handed' : Yield} {stations : List Station}
    (h : (finishAll yield' stations).result = .ok handed') :
    ∃ handed, (finishAll yield stations).result = .ok handed ∧
      ∀ name : String, yield[name]? = yield'[name]? → handed[name]? = handed'[name]? := by
  induction stations generalizing yield yield' with
  | nil =>
    cases h
    exact ⟨yield, rfl, fun _ => id⟩
  | cons s rest ih =>
    have hinsert (key : String) (results : List Value) (name : String)
        (hn : yield[name]? = yield'[name]?) :
        (yield.insert key results)[name]? = (yield'.insert key results)[name]? := by
      rw [Std.ExtTreeMap.getElem?_insert, Std.ExtTreeMap.getElem?_insert, hn]
    obtain ⟨m, held⟩ := s
    cases m with
    | task step inputs outputs operation => exact ih yield h
    | fold step item key reduction =>
      cases held with
      | none =>
        obtain ⟨handed, hf, ha⟩ := ih (yield.insert key []) h
        exact ⟨handed, hf, fun name hn => ha name (hinsert key [] name hn)⟩
      | some held =>
        obtain ⟨result, hr, hf⟩ := Run.bind_eq_ok.mp h
        obtain ⟨handed, hf', ha⟩ := ih (yield.insert key [result]) hf
        exact ⟨handed, Run.bind_eq_ok.mpr ⟨result, hr, hf'⟩,
          fun name hn => ha name (hinsert key [result] name hn)⟩

namespace Group

variable {g : Group} {more : List String} {label : String} {total done : Nat}
  {stations stations' : List Station} {rows : List Row} {ended : List Locals} {yield' : Yield}

theorem mem_perRow_gatherMore {name : String} (h : name ∈ g.perRow) :
    name ∈ (g.gatherMore more).perRow := by
  obtain ⟨hg, hp⟩ := List.mem_filter.mp h
  exact List.mem_filter.mpr ⟨List.mem_append_left more hg, hp⟩

theorem passRows_of_gatherMore
    (h : ((g.gatherMore more).passRows label total stations done rows).result =
      .ok (stations', ended)) :
    (g.passRows label total stations done rows).result = .ok (stations', ended) := by
  induction rows generalizing stations done ended with
  | nil => exact h
  | cons row rows ih =>
    obtain ⟨mid, locals, values, others, hp, hv, hr, rfl⟩ := passRows_cons_eq_ok h
    obtain ⟨found, hfound⟩ : ∃ found, g.perRow.mapM (locals.valueFor label) = .ok found :=
      exists_mapM_eq_ok.mpr fun name hn =>
        exists_mapM_eq_ok.mp ⟨values, hv⟩ name (mem_perRow_gatherMore hn)
    simp only [passRows, Run.bind_eq_ok, Run.result_ofExcept, Run.result_report]
    exact ⟨(mid, locals), hp, found, hfound, (), trivial, (stations', others), ih hr, rfl⟩

/-- A worker that has more to collect hands back the same under the other names. -/
theorem work_of_gatherMore (h : ((g.gatherMore more).work label rows).result = .ok yield') :
    ∃ yield, (g.work label rows).result = .ok yield ∧
      ∀ name ∈ g.gathered, yield[name]? = yield'[name]? := by
  obtain ⟨stations, ended, hp, hf⟩ := work_eq_ok h
  obtain ⟨yield, hy, ha⟩ := finishAll_agrees (g.collect ended) hf
  refine ⟨yield, Run.bind_eq_ok.mpr ⟨(stations, ended), passRows_of_gatherMore hp, hy⟩,
    fun name hn => ha name ?_⟩
  have hrow : name ∈ (g.gatherMore more).perRow ↔ name ∈ g.perRow := by
    refine ⟨fun hm => ?_, mem_perRow_gatherMore⟩
    exact List.mem_filter.mpr ⟨hn, (List.mem_filter.mp hm).2⟩
  have hmore : name ∈ (g.gatherMore more).gathered := List.mem_append_left more hn
  rw [getElem?_collect, getElem?_collect, if_pos hn, if_pos hmore]
  simp only [hrow]

theorem works_of_gatherMore {parts : List (List Row)} {yields' : List Yield}
    (h : List.Forall₂ (fun part yield' => ((g.gatherMore more).work label part).result = .ok yield')
      parts yields') :
    ∃ yields, List.Forall₂ (fun part yield => (g.work label part).result = .ok yield) parts yields ∧
      ∀ name ∈ g.gathered, joined yields name = joined yields' name := by
  induction h with
  | nil => exact ⟨[], .nil, fun _ _ => rfl⟩
  | cons hw _ ih =>
    obtain ⟨yield, hy, ha⟩ := work_of_gatherMore hw
    obtain ⟨yields, hys, has⟩ := ih
    refine ⟨yield :: yields, .cons hy hys, fun name hn => ?_⟩
    rw [joined_cons, joined_cons, has name hn, Std.ExtTreeMap.getD_eq_getD_getElem?, ha name hn,
      Std.ExtTreeMap.getD_eq_getD_getElem?]

theorem workAll_of_forall₂ {worker : Nat} {parts : List (List Row)} {yields : List Yield}
    (h : List.Forall₂ (fun part yield => (g.work label part).result = .ok yield) parts yields) :
    (g.workAll label worker parts).result = .ok yields := by
  induction h generalizing worker with
  | nil => rfl
  | cons hw _ ih =>
    rw [workAll_cons, hw, mapError_ok, ok_bind, ih]
    rfl

theorem run_of_yields {yields : List Yield} (hn : g.gathered.Nodup)
    (hr : env.rowsFor g.name g.requests = .ok rows)
    (hy : List.Forall₂ (fun share yield => (g.work g.name share).result = .ok yield)
      (shares (settings.rowsOf rows) settings.workerCount) yields) :
    (g.run settings env).result = .ok (env.join g.gathered yields) := by
  simp only [run, Run.bind_eq_ok, Run.result_ofExcept]
  exact ⟨rows, hr, yields, workAll_of_forall₂ hy, _, namedResults_joinYields hn _ yields, rfl⟩

theorem run_agrees (hn : (g.gatherMore more).gathered.Nodup)
    (hi : ∀ x ∈ g.requests, env.value? x = env'.value? x)
    (h : ((g.gatherMore more).run settings env').result = .ok last') :
    ∃ last, (g.run settings env).result = .ok last ∧ ∀ x,
      x ∈ g.gathered ∨ (env.value? x = env'.value? x ∧ x ∉ (g.gatherMore more).gathered) →
        last.value? x = last'.value? x := by
  have hn₀ : g.gathered.Nodup := List.Nodup.sublist (List.sublist_append_left _ more) hn
  obtain ⟨rows, yields', hr, hy', rfl⟩ := run_eq_ok (g := g.gatherMore more) hn h
  obtain ⟨yields, hy, ha⟩ := works_of_gatherMore hy'
  refine ⟨_, run_of_yields hn₀ ((Environment.rowsFor_congr hi).trans hr) hy, fun x hx => ?_⟩
  by_cases hg : x ∈ g.gathered
  · have hmore : x ∈ (g.gatherMore more).gathered := List.mem_append_left more hg
    rw [Environment.value?_join_of_mem hn₀ hg, Environment.value?_join_of_mem hn hmore, ha x hg]
  · obtain ⟨hv, hmore⟩ := hx.resolve_left hg
    rw [Environment.value?_join_of_notMem hg, Environment.value?_join_of_notMem hmore, hv]

end Group

/-- A stage that grew reads and writes what it did before, given the same to read. Other names
keep what they have, apart from those that it writes besides. -/
theorem Stage.Grown.run_agrees {stage stage' : Stage} (h : stage.Grown stage')
    (hn : ∀ g, stage' = .group g → g.gathered.Nodup)
    (hi : ∀ x ∈ stage.inputs, env.value? x = env'.value? x)
    (hr : (stage'.run settings env').result = .ok last') :
    ∃ last, (stage.run settings env).result = .ok last ∧ ∀ x,
      x ∈ stage.outputs ∨ (env.value? x = env'.value? x ∧ x ∉ stage'.outputs) →
        last.value? x = last'.value? x := by
  cases h with
  | group g more => exact g.run_agrees (hn _ rfl) hi hr
  | refl =>
    cases stage with
    | serial s =>
      obtain ⟨last, hl, ha⟩ := s.run_agrees hi hr
      exact ⟨last, hl, fun x hx => ha x (hx.imp_right And.left)⟩
    | combine c =>
      obtain ⟨last, hl, ha⟩ := Combine.run_agrees (hi c.partials List.mem_cons_self) hr
      exact ⟨last, hl, fun x hx => ha x (hx.imp List.mem_singleton.mp And.left)⟩
    | group g =>
      have hagrees := @Group.run_agrees settings env env' last' g []
      rw [g.gatherMore_nil] at hagrees
      exact hagrees (hn g rfl) hi hr

end DirectiveFlow
