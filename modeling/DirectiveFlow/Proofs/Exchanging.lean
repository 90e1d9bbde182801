import DirectiveFlow.Proofs.Agreement

namespace DirectiveFlow

/-- The same list, or one in which two neighbours that are free to do so have changed places. -/
inductive Exchanged {α : Type} (free : α → α → Prop) : List α → List α → Prop
  | refl (as : List α) : Exchanged free as as
  | cons (a : α) {as bs : List α} : Exchanged free as bs → Exchanged free (a :: as) (a :: bs)
  | swap {a b : α} (as : List α) : free a b → Exchanged free (a :: b :: as) (b :: a :: as)

namespace Exchanged

variable {α β : Type} {free : α → α → Prop} {as bs : List α}

theorem perm (h : Exchanged free as bs) : as.Perm bs := by
  induction h with
  | refl as => exact .refl as
  | cons a _ ih => exact ih.cons a
  | swap as _ => exact .swap _ _ as

theorem map {free' : β → β → Prop} {f : α → β} (h : Exchanged free as bs)
    (hf : ∀ a b, free a b → free' (f a) (f b)) : Exchanged free' (as.map f) (bs.map f) := by
  induction h with
  | refl as => exact .refl _
  | cons a _ ih => exact .cons (f a) ih
  | swap as hab => exact .swap (as.map f) (hf _ _ hab)

theorem append (h : Exchanged free as bs) (back : List α) :
    Exchanged free (as ++ back) (bs ++ back) := by
  induction h with
  | refl as => exact .refl _
  | cons a _ ih => exact .cons a ih
  | swap as hab => exact .swap (as ++ back) hab

theorem behind (front : List α) (h : Exchanged free as bs) :
    Exchanged free (front ++ as) (front ++ bs) := by
  induction front with
  | nil => exact h
  | cons a front ih => exact .cons a ih

end Exchanged

/-- Two tasks of which neither writes what the other reads or writes. -/
structure Member.Independent (m m' : Member) : Prop where
  tasks : m.partials? = none ∧ m'.partials? = none
  left : ∀ x ∈ m.outputs, x ∉ m'.inputs ∧ x ∉ m'.outputs
  right : ∀ x ∈ m'.outputs, x ∉ m.inputs ∧ x ∉ m.outputs

theorem Exchanged.partials_eq {ms ms' : List Member} (h : Exchanged Member.Independent ms ms') :
    ms'.filterMap Member.partials? = ms.filterMap Member.partials? := by
  induction h with
  | refl ms => rfl
  | cons m _ ih => rw [List.filterMap_cons, List.filterMap_cons, ih]
  | swap ms hab => simp only [List.filterMap_cons, hab.tasks]

namespace Locals

variable {locals other : Locals} {results results' : List (String × Value)} {x : String}

theorem getElem?_setAll_of_notMem (h : x ∉ results.map Prod.fst) :
    (locals.setAll results)[x]? = locals[x]? := by
  induction results generalizing locals with
  | nil => rfl
  | cons result results ih =>
    rw [List.map_cons, List.mem_cons, not_or] at h
    change (Locals.setAll (locals.insert result.1 result.2) results)[x]? = _
    rw [ih h.2, Std.ExtTreeMap.getElem?_insert, if_neg]
    exact fun he => h.1 (Std.compare_eq_iff_eq.mp he).symm

theorem getElem?_setAll_congr (h : x ∈ results.map Prod.fst ∨ locals[x]? = other[x]?) :
    (locals.setAll results)[x]? = (other.setAll results)[x]? := by
  induction results generalizing locals other with
  | nil => exact h.resolve_left List.not_mem_nil
  | cons result results ih =>
    apply ih
    rw [Std.ExtTreeMap.getElem?_insert, Std.ExtTreeMap.getElem?_insert]
    by_cases he : compare result.1 x = .eq
    · exact .inr (by rw [if_pos he, if_pos he])
    · rw [if_neg he, if_neg he]
      apply h.imp_left
      intro hm
      apply (List.mem_cons.mp hm).resolve_left
      exact fun hx => he (Std.compare_eq_iff_eq.mpr hx.symm)

theorem setAll_comm (h : ∀ x ∈ results.map Prod.fst, x ∉ results'.map Prod.fst) :
    (locals.setAll results).setAll results' = (locals.setAll results').setAll results := by
  apply Std.ExtTreeMap.ext_getElem?
  intro x
  by_cases hx : x ∈ results.map Prod.fst
  · rw [getElem?_setAll_of_notMem (h x hx)]
    exact getElem?_setAll_congr (.inl hx)
  · have hkept : ((locals.setAll results').setAll results)[x]? = (locals.setAll results')[x]? :=
      getElem?_setAll_of_notMem hx
    rw [hkept]
    exact getElem?_setAll_congr (.inr (getElem?_setAll_of_notMem hx))

end Locals

namespace Member

variable {m m' : Member} {locals mid last : Locals}

/-- A task sets its outputs to what it makes of its inputs, whatever else is there. -/
theorem pass_task (ht : m.partials? = none) (h : m.pass locals = .ok last) :
    ∃ results : List (String × Value), results.map Prod.fst = m.outputs ∧
      last = locals.setAll results ∧
      ∀ other : Locals, (∀ x ∈ m.inputs, other[x]? = locals[x]?) →
        m.pass other = .ok (other.setAll results) := by
  cases m with
  | fold => cases ht
  | task name inputs outputs operation =>
    simp only [pass, bind_eq_ok] at h
    obtain ⟨values, hv, result, hr, results, hs, he⟩ := h
    cases he
    refine ⟨results, namedResults_names hs, rfl, ?_⟩
    intro other ho
    have hv' : inputs.mapM (other.valueFor name) = .ok values := by
      rw [← hv]
      apply mapM_congr
      intro x hx
      rw [Locals.valueFor, Locals.valueFor, ho x hx]
    simp only [pass, bind_eq_ok]
    exact ⟨values, hv', result, hr, results, hs, rfl⟩

theorem Independent.pass (h : m.Independent m') (hm : m.pass locals = .ok mid)
    (hm' : m'.pass mid = .ok last) :
    ∃ mid', m'.pass locals = .ok mid' ∧ m.pass mid' = .ok last := by
  obtain ⟨results, hn, rfl, hpass⟩ := pass_task h.tasks.1 hm
  obtain ⟨results', hn', rfl, hpass'⟩ := pass_task h.tasks.2 hm'
  refine ⟨locals.setAll results', ?_, ?_⟩
  · apply hpass'
    intro x hx
    rw [Locals.getElem?_setAll_of_notMem]
    rw [hn]
    exact fun hm => (h.left x hm).1 hx
  · have hswap : (locals.setAll results).setAll results' =
        (locals.setAll results').setAll results := by
      apply Locals.setAll_comm
      rw [hn, hn']
      exact fun x hx => (h.left x hx).2
    rw [hswap]
    apply hpass
    intro x hx
    rw [Locals.getElem?_setAll_of_notMem]
    rw [hn']
    exact fun hm => (h.right x hm).1 hx

end Member

namespace Station

variable {s s' : Station} {locals last : Locals}

/-- Stations are as free to change places as their members. -/
def Independent (s s' : Station) : Prop :=
  s.member.Independent s'.member

theorem pass_task (ht : s.member.partials? = none) :
    (s.pass locals).result = .ok (s', last) ↔ s' = s ∧ s.member.pass locals = .ok last := by
  obtain ⟨m, held⟩ := s
  cases m with
  | fold => cases ht
  | task name inputs outputs operation =>
    simp only [Station.pass, Member.pass, Run.bind_eq_ok, bind_eq_ok, Run.result_ofExcept]
    constructor
    · rintro ⟨values, hv, result, hr, results, hs, he⟩
      cases he
      exact ⟨rfl, values, hv, result, hr, results, hs, rfl⟩
    · rintro ⟨rfl, values, hv, result, hr, results, hs, he⟩
      cases he
      exact ⟨values, hv, result, hr, results, hs, rfl⟩

end Station

section Stations

variable {stations others stations' : List Station} {locals mid last : Locals}

theorem passAll_cons_of_ok {s s' : Station} {rest rest' : List Station}
    (hs : (s.pass locals).result = .ok (s', mid))
    (hr : (passAll mid rest).result = .ok (rest', last)) :
    (passAll locals (s :: rest)).result = .ok (s' :: rest', last) := by
  simp only [passAll, Run.bind_eq_ok]
  exact ⟨(s', mid), hs, (rest', last), hr, rfl⟩

theorem passAll_exchanged (h : Exchanged Station.Independent stations others)
    (hp : (passAll locals stations).result = .ok (stations', last)) :
    ∃ others', (passAll locals others).result = .ok (others', last) ∧
      Exchanged Station.Independent stations' others' := by
  induction h generalizing locals stations' with
  | refl stations => exact ⟨stations', hp, .refl _⟩
  | cons s _ ih =>
    obtain ⟨s', mid, rest', hs, hr, rfl⟩ := passAll_cons_eq_ok hp
    obtain ⟨others', ho, he⟩ := ih hr
    exact ⟨s' :: others', passAll_cons_of_ok hs ho, .cons s' he⟩
  | @swap s t rest hst =>
    obtain ⟨s', mid, _, hs, hp', rfl⟩ := passAll_cons_eq_ok hp
    obtain ⟨t', mid', rest', ht, hr, rfl⟩ := passAll_cons_eq_ok hp'
    obtain ⟨hst₁, hst₂⟩ := hst.tasks
    obtain ⟨rfl, hs⟩ := (Station.pass_task hst₁).mp hs
    obtain ⟨rfl, ht⟩ := (Station.pass_task hst₂).mp ht
    obtain ⟨between, ht', hs'⟩ := hst.pass hs ht
    refine ⟨t' :: s' :: rest', ?_, .swap rest' hst⟩
    apply passAll_cons_of_ok ((Station.pass_task hst₂).mpr ⟨rfl, ht'⟩)
    exact passAll_cons_of_ok ((Station.pass_task hst₁).mpr ⟨rfl, hs'⟩) hr

theorem finishAll_of_task {s : Station} (hs : s.member.partials? = none) (yield : Yield)
    (rest : List Station) : finishAll yield (s :: rest) = finishAll yield rest := by
  obtain ⟨m, held⟩ := s
  cases m with
  | task => rfl
  | fold => cases hs

theorem finishAll_exchanged (h : Exchanged Station.Independent stations others) (yield : Yield) :
    finishAll yield others = finishAll yield stations := by
  induction h generalizing yield with
  | refl stations => rfl
  | cons s _ ih =>
    obtain ⟨m, held⟩ := s
    cases m with
    | task => exact ih yield
    | fold name item key reduction =>
      cases held with
      | none => exact ih _
      | some held => simp only [finishAll, ih]
  | @swap s t rest hst =>
    obtain ⟨hs, ht⟩ := hst.tasks
    rw [finishAll_of_task hs, finishAll_of_task ht, finishAll_of_task ht, finishAll_of_task hs]

end Stations

section Shares

variable {α β : Type} {R : α → β → Prop} {as : List α} {bs : List β}

theorem forall₂_shareOut (h : List.Forall₂ R as bs) (size count : Nat) :
    List.Forall₂ (List.Forall₂ R) (shareOut size count as) (shareOut size count bs) := by
  induction count generalizing as bs with
  | zero => exact .nil
  | succ count ih => exact .cons (List.forall₂_take size h) (ih (List.forall₂_drop size h))

theorem forall₂_shares (h : List.Forall₂ R as bs) (workers : Nat) :
    List.Forall₂ (List.Forall₂ R) (shares as workers) (shares bs workers) := by
  rw [shares, shares, h.length_eq]
  exact forall₂_shareOut h _ _

end Shares

section Rows

variable {env : Environment} {group group' : String} {requests requests' : List String}
  {rows : List Row}

theorem Locals.getElem?_setAll_zip (locals : Locals) (names : List String) (h : String → Value)
    (x : String) : (locals.setAll (names.zip (names.map h)))[x]? =
      if x ∈ names then some (h x) else locals[x]? := by
  induction names generalizing locals with
  | nil => rfl
  | cons name names ih =>
    change (Locals.setAll (locals.insert name (h name)) (names.zip (names.map h)))[x]? = _
    rw [ih, Std.ExtTreeMap.getElem?_insert]
    by_cases hx : x ∈ names
    · rw [if_pos hx, if_pos (List.mem_cons_of_mem name hx)]
    · rw [if_neg hx]
      by_cases he : name = x
      · subst he
        rw [if_pos (Std.compare_eq_iff_eq.mpr rfl), if_pos List.mem_cons_self]
      · rw [if_neg (mt Std.compare_eq_iff_eq.mp he), if_neg]
        exact fun hm => (List.mem_cons.mp hm).elim (fun hxe => he hxe.symm) hx

theorem min?_congr {as bs : List Nat} (h : ∀ n, n ∈ as ↔ n ∈ bs) : as.min? = bs.min? := by
  cases hm : bs.min? with
  | none =>
    rw [List.min?_eq_none_iff] at hm ⊢
    subst hm
    exact List.eq_nil_iff_forall_not_mem.mpr fun n hn => absurd ((h n).mp hn) List.not_mem_nil
  | some least =>
    obtain ⟨hl, hle⟩ := List.min?_eq_some_iff.mp hm
    exact List.min?_eq_some_iff.mpr ⟨(h least).mpr hl, fun n hn => hle n ((h n).mp hn)⟩

/-- The items of a name that has a list for its value. -/
def Environment.itemsOf (env : Environment) (name : String) : List Value :=
  match env.value? name with
  | some (.list items) => items
  | _ => []

theorem Environment.columns_eq {columns : List (List Value)}
    (h : List.Forall₂ (fun name column => env.value? name = some (.list column))
      requests columns) :
    columns = requests.map env.itemsOf ∧
      ∀ x ∈ requests, env.value? x = some (.list (env.itemsOf x)) := by
  induction h with
  | nil => exact ⟨rfl, nofun⟩
  | @cons name column requests columns hv _ ih =>
    have hitems : env.itemsOf name = column := by
      rw [itemsOf, hv]
    constructor
    · rw [List.map_cons, hitems, ← ih.1]
    · intro x hx
      rcases List.mem_cons.mp hx with rfl | hx
      · rw [hitems, hv]
      · exact ih.2 x hx

/-- The names from which rows are zipped may stand in any order, and repeatedly: there are as
many rows, and from each of them the members start with the same private items. -/
theorem Environment.rowsFor_congr_set (hm : ∀ x, x ∈ requests' ↔ x ∈ requests)
    (hr : env.rowsFor group requests = .ok rows) :
    ∃ rows', env.rowsFor group' requests' = .ok rows' ∧
      List.Forall₂ (fun row row' => Locals.setAll ∅ (requests'.zip row') =
        Locals.setAll ∅ (requests.zip row)) rows rows' := by
  obtain ⟨columns, hc, rfl⟩ := Environment.rowsFor_eq_ok.mp hr
  obtain ⟨rfl, hitems⟩ := Environment.columns_eq hc
  have hc' : List.Forall₂ (fun name column => env.value? name = some (.list column)) requests'
      (requests'.map env.itemsOf) := by
    apply List.forall₂_map_right_iff.mpr
    apply List.forall₂_same.mpr
    exact fun x hx => hitems x ((hm x).mp hx)
  refine ⟨_, Environment.rowsFor_eq_ok.mpr ⟨_, hc', rfl⟩, ?_⟩
  have hcount : ((requests'.map env.itemsOf).map List.length).min? =
      ((requests.map env.itemsOf).map List.length).min? := by
    apply min?_congr
    intro n
    simp only [List.mem_map, hm]
  rw [Environment.zipRows, Environment.zipRows, hcount]
  simp only [List.map_map]
  rw [List.forall₂_map_left_iff, List.forall₂_map_right_iff]
  apply List.forall₂_same.mpr
  intro i _
  apply Std.ExtTreeMap.ext_getElem?
  intro x
  rw [Locals.getElem?_setAll_zip, Locals.getElem?_setAll_zip]
  simp only [hm]

end Rows

namespace Group

variable {g g' : Group} {label label' : String} {total total' done done' : Nat}
  {stations others stations' : List Station} {rows rows' : List Row} {ended : List Locals}
  {yield : Yield} {settings : Settings} {env env' : Environment}

/-- Two groups with the same members, but for an exchange of independent neighbours, and the same
requests in whatever order. -/
structure Twin (g g' : Group) : Prop where
  members : Exchanged Member.Independent g.members g'.members
  requests : ∀ x, x ∈ g'.requests ↔ x ∈ g.requests

theorem Twin.partials_eq (h : g.Twin g') : g'.partials = g.partials :=
  h.members.partials_eq

/-- Twins that gather the same names, in whatever order. -/
structure Mirrors (g g' : Group) : Prop extends Twin g g' where
  gathered : ∀ x, x ∈ g'.gathered ↔ x ∈ g.gathered

namespace Mirrors

theorem mem_perRow (h : g.Mirrors g') (x : String) : x ∈ g'.perRow ↔ x ∈ g.perRow := by
  rw [perRow, perRow, List.mem_filter, List.mem_filter, h.gathered, h.partials_eq]

theorem collect_eq (h : g.Mirrors g') (ended : List Locals) :
    g'.collect ended = g.collect ended := by
  apply Std.ExtTreeMap.ext_getElem?
  intro x
  rw [getElem?_collect, getElem?_collect]
  simp only [h.gathered, h.mem_perRow]

theorem passRows (h : g.Mirrors g')
    (hr : List.Forall₂ (fun row row' => g'.start row' = g.start row) rows rows')
    (hs : Exchanged Station.Independent stations others)
    (hp : (g.passRows label total stations done rows).result = .ok (stations', ended)) :
    ∃ others', (g'.passRows label' total' others done' rows').result = .ok (others', ended) ∧
      Exchanged Station.Independent stations' others' := by
  induction hr generalizing stations others done done' ended with
  | nil =>
    cases hp
    exact ⟨others, rfl, hs⟩
  | @cons row row' rows rows' hrow _ ih =>
    obtain ⟨mid, locals, values, rest, hpass, hv, hrest, rfl⟩ := passRows_cons_eq_ok hp
    obtain ⟨mid', hpass', hmid⟩ := passAll_exchanged hs hpass
    obtain ⟨values', hv'⟩ : ∃ values', g'.perRow.mapM (locals.valueFor label') = .ok values' := by
      apply exists_mapM_eq_ok.mpr
      intro x hx
      obtain ⟨value, hx⟩ := exists_mapM_eq_ok.mp ⟨values, hv⟩ x ((h.mem_perRow x).mp hx)
      exact ⟨value, Locals.valueFor_eq_ok.mpr (Locals.valueFor_eq_ok.mp hx)⟩
    obtain ⟨others', ho, he⟩ := ih hmid hrest
    refine ⟨others', ?_, he⟩
    simp only [Group.passRows, Run.bind_eq_ok, Run.result_ofExcept, Run.result_report]
    refine ⟨(mid', locals), ?_, values', hv', (), trivial, (others', rest), ho, rfl⟩
    rw [← hpass', ← hrow]
    rfl

theorem work (h : g.Mirrors g')
    (hr : List.Forall₂ (fun row row' => g'.start row' = g.start row) rows rows')
    (hw : (g.work label rows).result = .ok yield) :
    (g'.work label' rows').result = .ok yield := by
  obtain ⟨stations, ended, hp, hf⟩ := work_eq_ok hw
  have hs : Exchanged Station.Independent (g.members.map fun m => ⟨m, none⟩)
      (g'.members.map fun m => ⟨m, none⟩) := h.members.map fun _ _ hab => hab
  obtain ⟨others, hp', ho⟩ := h.passRows hr hs hp
  rw [← finishAll_exchanged ho, ← h.collect_eq] at hf
  exact Run.bind_eq_ok.mpr ⟨(others, ended), hp', hf⟩

theorem works (h : g.Mirrors g') {parts parts' : List (List Row)} {yields : List Yield}
    (hp : List.Forall₂ (List.Forall₂ fun row row' => g'.start row' = g.start row) parts parts')
    (hw : List.Forall₂ (fun part yield => (g.work label part).result = .ok yield) parts yields) :
    List.Forall₂ (fun part yield => (g'.work label' part).result = .ok yield) parts' yields := by
  induction hp generalizing yields with
  | nil =>
    cases hw
    exact .nil
  | cons hr _ ih =>
    cases hw with
    | cons hwork hw => exact .cons (h.work hr hwork) (ih hw)

theorem join_eq (h : g.Mirrors g') (hn : g.gathered.Nodup) (hn' : g'.gathered.Nodup)
    (env : Environment) (yields : List Yield) :
    env.join g'.gathered yields = env.join g.gathered yields := by
  apply Environment.eq_of_values
  · intro x
    rw [Bool.eq_iff_iff, Environment.contains_join, Environment.contains_join, h.gathered]
  · intro x
    by_cases hx : x ∈ g.gathered
    · rw [Environment.value?_join_of_mem hn hx,
        Environment.value?_join_of_mem hn' ((h.gathered x).mpr hx)]
    · rw [Environment.value?_join_of_notMem hx,
        Environment.value?_join_of_notMem (mt (h.gathered x).mp hx)]

theorem run (h : g.Mirrors g') (hn : g.gathered.Nodup) (hn' : g'.gathered.Nodup)
    (hr : (g.run settings env).result = .ok env') :
    (g'.run settings env).result = .ok env' := by
  obtain ⟨rows, yields, hrows, hy, rfl⟩ := run_eq_ok hn hr
  obtain ⟨rows', hrows', hstart⟩ := Environment.rowsFor_congr_set h.requests hrows
  have hgiven : List.Forall₂ (fun row row' => g'.start row' = g.start row)
      (settings.rowsOf rows) (settings.rowsOf rows') := by
    rw [Settings.rowsOf, Settings.rowsOf]
    split
    · exact List.forall₂_take 1 hstart
    · exact hstart
  have hworks : List.Forall₂ (fun share yield => (g'.work g'.name share).result = .ok yield)
      (shares (settings.rowsOf rows') settings.workerCount) yields :=
    h.works (forall₂_shares hgiven settings.workerCount) hy
  rw [run_of_yields hn' hrows' hworks, h.join_eq hn hn']

end Mirrors

end Group

/-- The same stages, but for groups that are related. -/
inductive Stage.Matches (R : Group → Group → Prop) : Stage → Stage → Prop
  | serial (s : Serial) : Matches R (.serial s) (.serial s)
  | group {g g' : Group} : R g g' → Matches R (.group g) (.group g')
  | combine (c : Combine) : Matches R (.combine c) (.combine c)

section Stages

variable {settings : Settings} {env env' : Environment} {stage stage' : Stage}
  {stages stages' : List Stage}

theorem Stage.Matches.run (h : stage.Matches Group.Mirrors stage')
    (hn : ∀ g, stage = .group g → g.gathered.Nodup)
    (hn' : ∀ g, stage' = .group g → g.gathered.Nodup)
    (hr : (stage.run settings env).result = .ok env') :
    (stage'.run settings env).result = .ok env' := by
  cases h with
  | serial s => exact hr
  | group hg => exact hg.run (hn _ rfl) (hn' _ rfl) hr
  | combine c => exact hr

theorem runStages_matches (h : List.Forall₂ (Stage.Matches Group.Mirrors) stages stages')
    (hn : ∀ g, .group g ∈ stages → g.gathered.Nodup)
    (hn' : ∀ g, .group g ∈ stages' → g.gathered.Nodup)
    (hr : (runStages settings env stages).result = .ok env') :
    (runStages settings env stages').result = .ok env' := by
  induction h generalizing env with
  | nil => exact hr
  | cons hs _ ih =>
    obtain ⟨mid, hstage, hrest⟩ := runStages_cons_eq_ok.mp hr
    apply runStages_cons_eq_ok.mpr
    refine ⟨mid, ?_, ?_⟩
    · exact hs.run (fun g hg => hn g (hg ▸ List.mem_cons_self))
        (fun g hg => hn' g (hg ▸ List.mem_cons_self)) hstage
    · exact ih (fun g hg => hn g (List.mem_cons_of_mem _ hg))
        (fun g hg => hn' g (List.mem_cons_of_mem _ hg)) hrest

end Stages

end DirectiveFlow
