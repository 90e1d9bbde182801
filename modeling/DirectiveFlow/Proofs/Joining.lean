import DirectiveFlow.Proofs.Sharing
import DirectiveFlow.Proofs.Worker

namespace DirectiveFlow

theorem takeAll_eq_map {names : List String} (hn : names.Nodup) (yield : Yield) :
    takeAll yield names = names.map fun name => yield.getD name [] := by
  induction names generalizing yield with
  | nil => rfl
  | cons name names ih =>
    obtain ⟨hname, hn⟩ := List.nodup_cons.mp hn
    rw [takeAll, ih hn, List.map_cons]
    congr 1
    apply List.map_congr_left
    intro other ho
    rw [Std.ExtTreeMap.getD_erase, if_neg]
    exact fun hc => hname (Std.compare_eq_iff_eq.mp hc ▸ ho)

/-- The lists that workers hand back for a name, one after another. -/
def joined (yields : List Yield) (name : String) : List Value :=
  yields.flatMap fun yield => yield.getD name []

theorem joined_cons (yield : Yield) (yields : List Yield) (name : String) :
    joined (yield :: yields) name = yield.getD name [] ++ joined yields name :=
  List.flatMap_cons

theorem foldl_takeAll {names : List String} (hn : names.Nodup) (yields : List Yield)
    (front : String → List Value) :
    yields.foldl (fun lists yield => List.zipWith (· ++ ·) lists (takeAll yield names))
      (names.map front) = names.map fun name => front name ++ joined yields name := by
  induction yields generalizing front with
  | nil =>
    apply List.map_congr_left
    intro name _
    exact (List.append_nil _).symm
  | cons yield yields ih =>
    have hz : List.zipWith (· ++ ·) (names.map front) (takeAll yield names) =
        names.map fun name => front name ++ yield.getD name [] := by
      rw [takeAll_eq_map hn, List.zipWith_map, List.zipWith_self]
    rw [List.foldl_cons, hz, ih]
    apply List.map_congr_left
    intro name _
    rw [List.append_assoc, joined_cons]

/-- A group leaves under each gathered name the lists of its workers, one after another. -/
theorem namedResults_joinYields {names : List String} (hn : names.Nodup) (step : String)
    (yields : List Yield) :
    namedResults step names (joinYields names yields) =
      .ok (names.map fun name => (name, .list (joined yields name))) := by
  have hj : yields.foldl (fun lists yield => List.zipWith (· ++ ·) lists (takeAll yield names))
      (List.replicate names.length []) = names.map (joined yields) := by
    rw [← List.map_const']
    exact foldl_takeAll hn yields fun _ => []
  have hz (names : List String) : names.zip ((names.map (joined yields)).map Value.list) =
      names.map fun name => (name, Value.list (joined yields name)) := by
    induction names with
    | nil => rfl
    | cons name names ih => rw [List.map_cons, List.map_cons, List.zip_cons_cons, ih]; rfl
  unfold joinYields
  rw [hj]
  match names with
  | [] => rfl
  | [name] => rfl
  | first :: second :: names =>
    have hl : (((first :: second :: names).map (joined yields)).map Value.list).length =
        (first :: second :: names).length := by
      rw [List.length_map, List.length_map]
    exact (if_pos hl).trans (congrArg Except.ok (hz (first :: second :: names)))

namespace Environment

/-- The environment with what workers hand back for names. -/
def join (env : Environment) (names : List String) (yields : List Yield) : Environment :=
  env.setAll (names.map fun name => (name, .list (joined yields name)))

theorem map_fst_joined (names : List String) (yields : List Yield) :
    (names.map fun name => (name, Value.list (joined yields name))).map Prod.fst = names := by
  rw [List.map_map]
  exact List.map_id names

theorem value?_join_of_mem {env : Environment} {names : List String} (hn : names.Nodup)
    {name : String} (h : name ∈ names) (yields : List Yield) :
    (env.join names yields).value? name = some (.list (joined yields name)) := by
  apply value?_setAll_of_mem
  · rw [map_fst_joined]
    exact hn
  · exact List.mem_map_of_mem (f := fun name => (name, Value.list (joined yields name))) h

theorem value?_join_of_notMem {env : Environment} {names : List String} {name : String}
    (h : name ∉ names) (yields : List Yield) :
    (env.join names yields).value? name = env.value? name := by
  apply value?_setAll_of_notMem
  rw [map_fst_joined]
  exact h

theorem contains_join {env : Environment} {names : List String} {name : String}
    (yields : List Yield) :
    (env.join names yields).contains name ↔ name ∈ names ∨ env.contains name := by
  rw [join, contains_setAll, map_fst_joined]

theorem rowsFor_eq_ok {env : Environment} {group : String} {requests : List String}
    {rows : List Row} :
    env.rowsFor group requests = .ok rows ↔ ∃ columns,
      List.Forall₂ (fun name column => env.value? name = some (.list column)) requests columns ∧
      rows = zipRows columns := by
  unfold rowsFor
  constructor
  · intro h
    cases hm : requests.mapM (env.listFor group) with
    | error e => rw [hm] at h; cases h
    | ok columns =>
      rw [hm] at h
      cases h
      exact ⟨columns, (mapM_eq_ok.mp hm).imp fun _ _ => listFor_eq_ok.mp, rfl⟩
  · rintro ⟨columns, hc, rfl⟩
    rw [mapM_eq_ok.mpr (hc.imp fun _ _ => listFor_eq_ok.mpr)]
    rfl

theorem length_zipRows (columns : List (List Value)) :
    (zipRows columns).length = ((columns.map List.length).min?).getD 0 := by
  rw [zipRows, List.length_map, List.length_range]

theorem zipRows_singleton (values : List Value) :
    zipRows [values] = values.map fun v => [v] := by
  apply List.ext_getElem
  · rw [length_zipRows, List.length_map]
    rfl
  · intro i hi hi'
    rw [List.length_map] at hi'
    simp [zipRows, List.getD_eq_getElem?_getD, hi']

theorem getElem?_zipRows {columns : List (List Value)} {i : Nat} {row : Row}
    (h : (zipRows columns)[i]? = some row) :
    List.Forall₂ (fun column value => column[i]? = some value) columns row := by
  have hi : i < (zipRows columns).length := (List.getElem?_eq_some_iff.mp h).1
  rw [length_zipRows] at hi
  have hle : ∀ column ∈ columns, i < column.length := by
    intro column hc
    cases hm : (columns.map List.length).min? with
    | none => rw [hm] at hi; exact absurd hi (Nat.not_lt_zero i)
    | some count =>
      rw [hm] at hi
      exact Nat.lt_of_lt_of_le hi
        ((List.min?_eq_some_iff.mp hm).2 _ (List.mem_map_of_mem hc))
  have hr : row = columns.map fun column => column.getD i .null := by
    simp only [zipRows, List.getElem?_map] at h
    obtain ⟨j, hj, rfl⟩ := Option.map_eq_some_iff.mp h
    rw [(List.getElem?_eq_some_iff.mp hj).2.symm, List.getElem_range]
  subst hr
  rw [List.forall₂_map_right_iff]
  apply List.forall₂_same.mpr
  intro column hc
  rw [List.getD_eq_getElem?_getD, List.getElem?_eq_getElem (hle column hc)]
  rfl

end Environment

/-- The rows that are handed to the workers: all of them, or the first one. -/
def Settings.rowsOf (s : Settings) (rows : List Row) : List Row :=
  if s.debug then rows.take 1 else rows

namespace Group

variable {g : Group} {label : String} {settings : Settings} {env env' : Environment}

theorem workAll_cons (g : Group) (label : String) (worker : Nat) (part : List Row)
    (parts : List (List Row)) :
    (g.workAll label worker (part :: parts)).result = (do
      let yield ← (g.work label part).result.mapError (RunFault.atWorker worker)
      let yields ← (g.workAll label (worker + 1) parts).result
      return yield :: yields) := by
  simp only [workAll]
  split <;> simp only [Run.result_bind, Run.result_mapError, Run.result_unobserved] <;> rfl

theorem workAll_eq_ok {worker : Nat} {parts : List (List Row)} {yields : List Yield}
    (h : (g.workAll label worker parts).result = .ok yields) :
    List.Forall₂ (fun part yield => (g.work label part).result = .ok yield) parts yields := by
  induction parts generalizing worker yields with
  | nil =>
    cases h
    exact .nil
  | cons part parts ih =>
    simp only [workAll_cons, bind_eq_ok] at h
    obtain ⟨yield, hy, others, ho, he⟩ := h
    cases he
    exact .cons (mapError_eq_ok.mp hy) (ih ho)

theorem run_eq_ok (hn : g.gathered.Nodup) (h : (g.run settings env).result = .ok env') :
    ∃ rows yields, env.rowsFor g.name g.requests = .ok rows ∧
      List.Forall₂ (fun share yield => (g.work g.name share).result = .ok yield)
        (shares (settings.rowsOf rows) settings.workerCount) yields ∧
      env' = env.join g.gathered yields := by
  simp only [run, Run.bind_eq_ok, Run.result_ofExcept] at h
  obtain ⟨rows, hr, yields, hy, results, hs, he⟩ := h
  rw [namedResults_joinYields hn] at hs
  cases hs
  cases he
  exact ⟨rows, yields, hr, workAll_eq_ok hy, rfl⟩

theorem joined_perRow {parts : List (List Row)} {yields : List Yield} {name : String}
    (h : List.Forall₂ (fun part yield => (g.work label part).result = .ok yield) parts yields)
    (hg : name ∈ g.gathered) (hp : name ∉ g.partials) :
    parts.flatten.map (g.finalValue name) = (joined yields name).map some := by
  induction h with
  | nil => rfl
  | cons hw _ ih =>
    rw [List.flatten_cons, List.map_append, ih, work_perRow hw hg hp, joined_cons, List.map_append]

theorem joined_fold {parts : List (List Row)} {yields : List Yield}
    (h : List.Forall₂ (fun part yield => (g.work label part).result = .ok yield) parts yields)
    (hk : g.partials.Nodup) {place : Nat} {step item key : String} {reduction : Reduction}
    (hm : g.members[place]? = some (.fold step item key reduction)) :
    List.Forall₂ (g.FoldsTo place item reduction) (parts.filter fun part => !part.isEmpty)
      (joined yields key) := by
  have hparts : List.Forall₂ (fun part bs => (part = [] ∧ bs = []) ∨
      ∃ b, g.FoldsTo place item reduction part b ∧ bs = [b]) parts
      (yields.map fun yield => yield.getD key []) :=
    List.forall₂_map_right_iff.mpr (h.imp fun _ _ hw => work_fold hw hk hm)
  have hempty (b : Value) : ¬ g.FoldsTo place item reduction [] b := by
    rintro ⟨values, he, first, rest, _, rfl, _⟩
    cases he
  have hj := forall₂_nonempty hparts hempty
  rw [joined, List.flatMap_def]
  exact hj

end Group

end DirectiveFlow
