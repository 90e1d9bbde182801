import DirectiveFlow.Proofs.Row

namespace DirectiveFlow

namespace Reduction

def takeAll (r : Reduction) (step : String) (held : Option Value) :
    List Value → Except RunFault (Option Value)
  | [] => .ok held
  | value :: rest => do r.takeAll step (some (← r.take step held value)) rest

theorem takeAll_some {r : Reduction} {step : String} {held : Value} {values : List Value}
    {last : Option Value} (h : r.takeAll step (some held) values = .ok last) :
    ∃ value, r.foldFrom held values = .ok value ∧ last = some value := by
  induction values generalizing held with
  | nil =>
    cases h
    exact ⟨held, rfl, rfl⟩
  | cons value rest ih =>
    obtain ⟨held', hh, hr⟩ := bind_eq_ok.mp h
    have hc : r.combine value held = .ok held' := mapError_eq_ok.mp hh
    obtain ⟨last', hl, rfl⟩ := ih hr
    exact ⟨last', by rw [foldFrom, hc]; exact hl, rfl⟩

def finishHeld (r : Reduction) : Option Value → Except StepFault (List Value)
  | none => .ok []
  | some held => do return [← r.finish held]

end Reduction

/-- The rows fold to a result: a left fold over the values that the item of each row has in front
of the member, and its finish. -/
def Group.FoldsTo (g : Group) (place : Nat) (item : String) (reduction : Reduction)
    (rows : List Row) (result : Value) : Prop :=
  ∃ values, rows.map (g.itemAt place item) = values.map some ∧ reduction.Gives values result

theorem Group.exists_valueParts {g : Group} {place : Nat} {item : String} {reduction : Reduction}
    {parts : List (List Row)} {results : List Value}
    (h : List.Forall₂ (g.FoldsTo place item reduction) parts results) :
    ∃ valueParts, List.Forall₂ reduction.Gives valueParts results ∧
      parts.flatten.map (g.itemAt place item) = valueParts.flatten.map some := by
  induction h with
  | nil => exact ⟨[], .nil, rfl⟩
  | cons hf _ ih =>
    obtain ⟨values, hv, hg⟩ := hf
    obtain ⟨valueParts, hgs, he⟩ := ih
    refine ⟨values :: valueParts, .cons hg hgs, ?_⟩
    rw [List.flatten_cons, List.flatten_cons, List.map_append, List.map_append, hv, he]

theorem itemAt_eq_some {g : Group} {place : Nat} {item : String} {row : Row} {locals : Locals}
    {value : Value} (hl : g.localsAt place row = .ok locals) (hv : locals[item]? = some value) :
    g.itemAt place item row = some value := by
  rw [Group.itemAt, hl]
  exact hv

namespace Group

variable {g : Group} {label : String} {total done : Nat} {row : Row} {rows : List Row}
  {stations stations' : List Station} {ended : List Locals}

theorem passRows_cons_eq_ok
    (h : (g.passRows label total stations done (row :: rows)).result = .ok (stations', ended)) :
    ∃ mid locals values others, (passAll (g.start row) stations).result = .ok (mid, locals) ∧
      g.perRow.mapM (locals.valueFor label) = .ok values ∧
      (g.passRows label total mid (done + 1) rows).result = .ok (stations', others) ∧
      ended = locals :: others := by
  simp only [passRows, Run.bind_eq_ok, Run.result_ofExcept] at h
  obtain ⟨⟨mid, locals⟩, hp, values, hv, _, _, ⟨last, others⟩, hr, he⟩ := h
  cases he
  exact ⟨mid, locals, values, others, hp, hv, hr, rfl⟩

theorem passRows_members
    (h : (g.passRows label total stations done rows).result = .ok (stations', ended)) :
    stations'.map Station.member = stations.map Station.member := by
  induction rows generalizing stations done ended with
  | nil =>
    cases h
    rfl
  | cons row rows ih =>
    obtain ⟨mid, locals, values, others, hp, _, hr, rfl⟩ := passRows_cons_eq_ok h
    rw [ih hr, passAll_members hp]

theorem passRows_locals (hm : stations.map Station.member = g.members)
    (h : (g.passRows label total stations done rows).result = .ok (stations', ended)) :
    List.Forall₂ (fun row locals => g.rowLocals row = .ok locals ∧
      ∀ name ∈ g.perRow, ∃ value, locals[name]? = some value) rows ended := by
  induction rows generalizing stations done ended with
  | nil =>
    cases h
    exact .nil
  | cons row rows ih =>
    obtain ⟨mid, locals, values, others, hp, hv, hr, rfl⟩ := passRows_cons_eq_ok h
    refine .cons ⟨?_, fun name hn => ?_⟩ (ih ((passAll_members hp).trans hm) hr)
    · rw [rowLocals, ← hm]
      exact passAll_locals hp
    · obtain ⟨value, hvalue⟩ := exists_mapM_eq_ok.mp ⟨values, hv⟩ name hn
      exact ⟨value, Locals.valueFor_eq_ok.mp hvalue⟩

/-- A fold takes, row by row, the value that its item has in front of it. -/
theorem passRows_takes (hm : stations.map Station.member = g.members)
    (h : (g.passRows label total stations done rows).result = .ok (stations', ended))
    {place : Nat} {name item key : String} {reduction : Reduction} {held : Option Value}
    (hs : stations[place]? = some ⟨.fold name item key reduction, held⟩) :
    ∃ values last, stations'[place]? = some ⟨.fold name item key reduction, last⟩ ∧
      rows.map (g.itemAt place item) = values.map some ∧
      reduction.takeAll name held values = .ok last := by
  induction rows generalizing stations done ended held with
  | nil =>
    cases h
    exact ⟨[], held, hs, rfl, rfl⟩
  | cons row rows ih =>
    obtain ⟨mid, locals, _, others, hp, _, hr, rfl⟩ := passRows_cons_eq_ok h
    obtain ⟨front, s', hl, hs', ht⟩ := passAll_takes hp hs
    obtain ⟨value, held', hv, hh, rfl⟩ := ht
    obtain ⟨values, last, hlast, hvs, hall⟩ := ih ((passAll_members hp).trans hm) hr hs'
    rw [hm] at hl
    refine ⟨value :: values, last, hlast, ?_, ?_⟩
    · rw [List.map_cons, List.map_cons, hvs, itemAt_eq_some hl hv]
    · rw [Reduction.takeAll, hh]
      exact hall

end Group

theorem finishAll_of_notMem {yield yield' : Yield} {stations : List Station} {name : String}
    (h : (finishAll yield stations).result = .ok yield')
    (hn : name ∉ (stations.map Station.member).filterMap Member.partials?) :
    yield'[name]? = yield[name]? := by
  induction stations generalizing yield with
  | nil =>
    cases h
    rfl
  | cons s rest ih =>
    obtain ⟨m, held⟩ := s
    cases m with
    | task step inputs outputs operation => exact ih h hn
    | fold step item key reduction =>
      obtain ⟨hk, hr⟩ : name ≠ key ∧
          name ∉ (rest.map Station.member).filterMap Member.partials? := by
        simpa [Member.partials?, not_or] using hn
      cases held with
      | none =>
        rw [ih h hr, Std.ExtTreeMap.getElem?_insert, if_neg]
        exact fun hc => hk (Std.compare_eq_iff_eq.mp hc).symm
      | some held =>
        obtain ⟨result, _, hf⟩ := Run.bind_eq_ok.mp h
        rw [ih hf hr, Std.ExtTreeMap.getElem?_insert, if_neg]
        exact fun hc => hk (Std.compare_eq_iff_eq.mp hc).symm

theorem finishAll_of_fold {yield yield' : Yield} {stations : List Station} {place : Nat}
    {name item key : String} {reduction : Reduction} {held : Option Value}
    (h : (finishAll yield stations).result = .ok yield')
    (hk : ((stations.map Station.member).filterMap Member.partials?).Nodup)
    (hs : stations[place]? = some ⟨.fold name item key reduction, held⟩) :
    ∃ results, reduction.finishHeld held = .ok results ∧ yield'[key]? = some results := by
  induction stations generalizing yield place with
  | nil => cases hs
  | cons s rest ih =>
    cases place with
    | zero =>
      cases hs
      obtain ⟨hn, _⟩ := List.nodup_cons.mp hk
      cases held with
      | none =>
        have hf : (finishAll (yield.insert key []) rest).result = .ok yield' := h
        refine ⟨[], rfl, ?_⟩
        rw [finishAll_of_notMem hf hn, Std.ExtTreeMap.getElem?_insert_self]
      | some held =>
        obtain ⟨result, hr, hf⟩ := Run.bind_eq_ok.mp h
        refine ⟨[result], ?_, ?_⟩
        · rw [Reduction.finishHeld, mapError_eq_ok.mp hr]
          rfl
        · rw [finishAll_of_notMem hf hn, Std.ExtTreeMap.getElem?_insert_self]
    | succ place =>
      obtain ⟨m, held'⟩ := s
      cases m with
      | task step inputs outputs operation => exact ih h hk hs
      | fold step item' key' reduction' =>
        have hk' := (List.nodup_cons.mp hk).2
        cases held' with
        | none => exact ih h hk' hs
        | some held' =>
          obtain ⟨result, _, hf⟩ := Run.bind_eq_ok.mp h
          exact ih hf hk' hs

namespace Group

variable {g : Group} {label name : String} {rows : List Row} {yield : Yield}

theorem getElem?_collect (g : Group) (ended : List Locals) (name : String) :
    (g.collect ended)[name]? =
      if name ∈ g.gathered then
        some (if name ∈ g.perRow then ended.filterMap fun locals => locals[name]? else [])
      else none := by
  have hfold (names : List String) (yield : Yield) :
      (names.foldl (fun yield name => yield.insert name
        (if name ∈ g.perRow then ended.filterMap fun locals => locals[name]? else [])) yield)[name]?
      = if name ∈ names then
          some (if name ∈ g.perRow then ended.filterMap fun locals => locals[name]? else [])
        else yield[name]? := by
    induction names generalizing yield with
    | nil => rfl
    | cons other names ih =>
      rw [List.foldl_cons, ih]
      by_cases hm : name ∈ names
      · rw [if_pos hm, if_pos (List.mem_cons_of_mem other hm)]
      · rw [if_neg hm, Std.ExtTreeMap.getElem?_insert]
        by_cases he : other = name
        · subst he
          simp
        · rw [if_neg (fun hc => he (Std.compare_eq_iff_eq.mp hc)), if_neg]
          exact fun hc => (List.mem_cons.mp hc).elim (fun h => he h.symm) hm
  exact (hfold g.gathered ∅).trans (by simp)

theorem work_eq_ok (h : (g.work label rows).result = .ok yield) :
    ∃ stations ended,
      (g.passRows label rows.length (g.members.map fun m => ⟨m, none⟩) 0 rows).result
        = .ok (stations, ended) ∧
      (finishAll (g.collect ended) stations).result = .ok yield := by
  obtain ⟨⟨stations, ended⟩, hp, hf⟩ := Run.bind_eq_ok.mp h
  exact ⟨stations, ended, hp, hf⟩

theorem stations_members (ms : List Member) :
    (ms.map fun m => (⟨m, none⟩ : Station)).map Station.member = ms := by
  rw [List.map_map]
  exact List.map_id ms

/-- A worker hands back, row by row, the last values of the names that no fold keeps. -/
theorem work_perRow (h : (g.work label rows).result = .ok yield) (hg : name ∈ g.gathered)
    (hn : name ∉ g.partials) :
    rows.map (g.finalValue name) = (yield.getD name []).map some := by
  obtain ⟨stations, ended, hp, hf⟩ := work_eq_ok h
  have hm := stations_members g.members
  have hr : name ∈ g.perRow := List.mem_filter.mpr ⟨hg, decide_eq_true hn⟩
  have hy : yield.getD name [] = ended.filterMap fun locals => locals[name]? := by
    rw [Std.ExtTreeMap.getD_eq_getD_getElem?, finishAll_of_notMem hf, getElem?_collect,
      if_pos hg, if_pos hr]
    · rfl
    · rw [passRows_members hp, hm]
      exact hn
  rw [hy]
  have hl := passRows_locals hm hp
  clear hp hf hy h
  induction hl with
  | nil => rfl
  | @cons row locals _ _ hh _ ih =>
    obtain ⟨value, hv⟩ := hh.2 name hr
    have hfv : g.finalValue name row = some value := by
      rw [finalValue, hh.1]
      exact hv
    rw [List.map_cons, ih, List.filterMap_cons, hv, hfv]
    rfl

/-- A worker hands back the result of each fold over its rows, or nothing if it had no row. -/
theorem work_fold (h : (g.work label rows).result = .ok yield) (hk : g.partials.Nodup)
    {place : Nat} {step item key : String} {reduction : Reduction}
    (hm : g.members[place]? = some (.fold step item key reduction)) :
    (rows = [] ∧ yield.getD key [] = []) ∨
      ∃ result, g.FoldsTo place item reduction rows result ∧ yield.getD key [] = [result] := by
  obtain ⟨stations, ended, hp, hf⟩ := work_eq_ok h
  have hs := stations_members g.members
  have hs₀ : (g.members.map fun m => (⟨m, none⟩ : Station))[place]? =
      some ⟨.fold step item key reduction, none⟩ := by
    rw [List.getElem?_map, hm]
    rfl
  obtain ⟨values, last, hlast, hvs, hall⟩ := passRows_takes hs hp hs₀
  obtain ⟨results, hr, hy⟩ := finishAll_of_fold hf (by rw [passRows_members hp, hs]; exact hk) hlast
  rw [Std.ExtTreeMap.getD_eq_getD_getElem?, hy]
  cases values with
  | nil =>
    cases hall
    cases hr
    exact .inl ⟨List.map_eq_nil_iff.mp hvs, rfl⟩
  | cons first rest =>
    obtain ⟨held, hh, rfl⟩ := Reduction.takeAll_some hall
    obtain ⟨result, hres, he⟩ := bind_eq_ok.mp hr
    cases he
    exact .inr ⟨result, ⟨first :: rest, hvs, first, rest, held, rfl, hh, hres⟩, rfl⟩

end Group

end DirectiveFlow
