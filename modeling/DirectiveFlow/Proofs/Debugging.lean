import DirectiveFlow.Proofs.Agreement
import DirectiveFlow.Proofs.GroupRun

namespace DirectiveFlow

theorem mapM_map {ε α β γ : Type} (f : α → Except ε β) (g : β → γ) (as : List α) :
    (as.mapM fun a => (f a).map g) = (as.mapM f).map (List.map g) := by
  induction as with
  | nil => rfl
  | cons a as ih =>
    rw [List.mapM_cons, List.mapM_cons, ih]
    cases f a with
    | error e => rfl
    | ok b =>
      cases as.mapM f with
      | error e => rfl
      | ok bs => rfl

/-- A list cut to its first item. -/
def Value.cut : Value → Value
  | .list items => .list (items.take 1)
  | value => value

theorem Value.cut_cut (value : Value) : value.cut.cut = value.cut := by
  cases value with
  | list items =>
    rw [cut, cut, List.take_take]
    rfl
  | _ => rfl

namespace Environment

variable {env : Environment} {name other : String}

def cutOne (env : Environment) (name : String) : Environment :=
  match env.value? name with
  | some value => env.set name value.cut
  | none => env

/-- The environment with the lists of some names cut to their first item. -/
def cut (env : Environment) (names : List String) : Environment :=
  names.foldl cutOne env

theorem value?_cutOne (env : Environment) (name other : String) :
    (env.cutOne name).value? other =
      if name = other then (env.value? other).map Value.cut else env.value? other := by
  rw [cutOne]
  cases hv : env.value? name with
  | none =>
    by_cases he : name = other
    · rw [if_pos he, ← he, hv]
      rfl
    · rw [if_neg he]
  | some value =>
    by_cases he : name = other
    · rw [value?_set, if_pos he, if_pos he, ← he, hv]
      rfl
    · rw [value?_set, if_neg he, if_neg he]

theorem value?_cut (env : Environment) (names : List String) (other : String) :
    (env.cut names).value? other =
      if other ∈ names then (env.value? other).map Value.cut else env.value? other := by
  induction names generalizing env with
  | nil => rfl
  | cons name names ih =>
    have htwice : ((env.value? other).map Value.cut).map Value.cut =
        (env.value? other).map Value.cut := by
      rw [Option.map_map]
      exact congrArg (Option.map · _) (funext Value.cut_cut)
    change ((env.cutOne name).cut names).value? other = _
    rw [ih, value?_cutOne]
    by_cases hn : name = other
    · subst hn
      rw [if_pos rfl, if_pos List.mem_cons_self, htwice]
      split <;> rfl
    · rw [if_neg hn]
      by_cases hm : other ∈ names
      · rw [if_pos hm, if_pos (List.mem_cons_of_mem name hm)]
      · rw [if_neg hm, if_neg]
        exact fun hm' => (List.mem_cons.mp hm').elim (fun he => hn he.symm) hm

theorem listFor_cut {names : List String} (hn : name ∈ names) (env : Environment) (step : String) :
    (env.cut names).listFor step name = (env.listFor step name).map (List.take 1) := by
  rw [listFor, listFor, valueFor, valueFor, value?_cut, if_pos hn]
  cases env.value? name with
  | none => rfl
  | some value => cases value <;> rfl

theorem min?_length_cut (columns : List (List Value)) :
    (((columns.map (List.take 1)).map List.length).min?).getD 0 =
      min 1 (((columns.map List.length).min?).getD 0) := by
  cases hm : (columns.map List.length).min? with
  | none =>
    rw [List.min?_eq_none_iff, List.map_eq_nil_iff] at hm
    rw [hm]
    rfl
  | some shortest =>
    obtain ⟨hmem, hle⟩ := List.min?_eq_some_iff.mp hm
    have hcut : ((columns.map (List.take 1)).map List.length).min? = some (min 1 shortest) := by
      rw [List.map_map]
      apply List.min?_eq_some_iff.mpr
      constructor
      · obtain ⟨column, hc, rfl⟩ := List.mem_map.mp hmem
        exact List.mem_map.mpr ⟨column, hc, List.length_take⟩
      · intro length hl
        obtain ⟨column, hc, rfl⟩ := List.mem_map.mp hl
        have hs := hle column.length (List.mem_map_of_mem hc)
        rw [Function.comp_apply, List.length_take]
        omega
    rw [hcut]
    rfl

theorem zipRows_cut (columns : List (List Value)) :
    zipRows (columns.map (List.take 1)) = (zipRows columns).take 1 := by
  rw [zipRows, zipRows, min?_length_cut, ← List.map_take, List.take_range]
  apply List.map_congr_left
  intro i hi
  rw [List.map_map]
  apply List.map_congr_left
  intro column _
  have h0 : i = 0 := by
    have := List.mem_range.mp hi
    omega
  rw [h0]
  cases column with
  | nil => rfl
  | cons first rest => rfl

theorem rowsFor_cut (env : Environment) (group : String) (requests : List String) :
    (env.cut requests).rowsFor group requests = (env.rowsFor group requests).map (List.take 1) := by
  have hlists : requests.mapM ((env.cut requests).listFor group) =
      (requests.mapM (env.listFor group)).map (List.map (List.take 1)) := by
    rw [← mapM_map]
    exact mapM_congr fun name hn => listFor_cut hn env group
  rw [rowsFor, rowsFor, hlists]
  cases requests.mapM (env.listFor group) with
  | error fault => rfl
  | ok columns => exact congrArg Except.ok (zipRows_cut columns)

end Environment

theorem shares_one {α : Type} (items : List α) : shares items 1 = [items] := by
  simp only [shares, Nat.max_self, Nat.add_sub_cancel, Nat.div_one, shareOut, List.take_length]

namespace Settings

variable {settings settings' : Settings}

theorem workerCount_of_debug (h : settings.debug) : settings.workerCount = 1 := by
  simp only [workerCount, chosenWorkers?, h, if_true, Option.getD_some]

theorem rowsOf_of_debug (h : settings.debug) (rows : List Row) :
    settings.rowsOf rows = rows.take 1 :=
  if_pos h

theorem rowsOf_of_not_debug (h : settings.debug = false) (rows : List Row) :
    settings.rowsOf rows = rows :=
  if_neg (by simp [h])

end Settings

namespace Group

variable {g : Group} {settings one : Settings} {env env' : Environment} {rows : List Row}

/-- What one worker makes of rows, under the names that are gathered. -/
def resultsOn (g : Group) (rows : List Row) : Run RunFault (List (String × Value)) := do
  let yields ← g.workAll g.name 0 [rows]
  .ofExcept (namedResults g.name g.gathered (joinYields g.gathered yields))

/-- Runs the members on rows, all of them at one worker. -/
def runOn (g : Group) (rows : List Row) (env : Environment) : Run RunFault Environment := do
  let results ← g.resultsOn rows
  return env.setAll results

theorem run_eq_runOn (hw : settings.workerCount = 1)
    (hr : env.rowsFor g.name g.requests = .ok rows) :
    g.run settings env = g.runOn (settings.rowsOf rows) env := by
  rw [run, hr, Run.ofExcept_ok_bind, hw]
  change (g.workAll g.name 0 (shares (settings.rowsOf rows) 1) >>= _) = _
  rw [shares_one, runOn, resultsOn, Run.bind_assoc]

theorem runOn_eq (g : Group) (rows : List Row) (env : Environment) :
    g.runOn rows env = ⟨(g.resultsOn rows).printed, (g.resultsOn rows).events,
      (g.resultsOn rows).result.map env.setAll⟩ := by
  rw [runOn]
  cases hr : (g.resultsOn rows).result with
  | error fault => rw [Run.bind_of_error hr]; rfl
  | ok results =>
    rw [Run.bind_of_ok hr]
    change Run.mk (_ ++ "") (_ ++ []) _ = _
    rw [String.append_empty, List.append_nil]
    rfl

theorem names_resultsOn {results : List (String × Value)}
    (h : (g.resultsOn rows).result = .ok results) : results.map Prod.fst = g.gathered := by
  obtain ⟨yields, -, hr⟩ := Run.bind_eq_ok.mp h
  exact namedResults_names hr

/-- With its lists cut, one worker makes of a group what debugging makes of it. -/
theorem run_cut (hd : settings.debug) (ho : one.debug = false) (hw : one.workers = 1)
    (g : Group) (env : Environment) :
    ∃ x : Run RunFault (List (String × Value)),
      (∀ results, x.result = .ok results → results.map Prod.fst = g.gathered) ∧
      g.run settings env = ⟨x.printed, x.events, x.result.map env.setAll⟩ ∧
      g.run one (env.cut g.requests) =
        ⟨x.printed, x.events, x.result.map (env.cut g.requests).setAll⟩ := by
  have hcut := env.rowsFor_cut g.name g.requests
  cases hr : env.rowsFor g.name g.requests with
  | error fault =>
    rw [hr] at hcut
    refine ⟨⟨"", [], .error fault⟩, nofun, ?_, ?_⟩
    · rw [run, hr]
      rfl
    · rw [run, hcut]
      rfl
  | ok rows =>
    rw [hr] at hcut
    refine ⟨g.resultsOn (rows.take 1), fun _ => names_resultsOn, ?_, ?_⟩
    · rw [run_eq_runOn (Settings.workerCount_of_debug hd) hr, Settings.rowsOf_of_debug hd, runOn_eq]
    · have hone : one.workerCount = 1 := by
        rw [Settings.workerCount_of_workers ho (by omega), hw]
      rw [run_eq_runOn hone hcut, Settings.rowsOf_of_not_debug ho, runOn_eq]

end Group

theorem Stage.run_of_debug {settings settings' : Settings} (h : settings.debug)
    (h' : settings'.debug) (stage : Stage) (env : Environment) :
    stage.run settings env = stage.run settings' env := by
  cases stage with
  | serial s => rfl
  | combine c => rfl
  | group g =>
    rw [run, run, Group.run, Group.run, Settings.workerCount_of_debug h,
      Settings.workerCount_of_debug h', h, h']

theorem runStages_of_debug {settings settings' : Settings} (h : settings.debug)
    (h' : settings'.debug) (stages : List Stage) (env : Environment) :
    runStages settings env stages = runStages settings' env stages := by
  induction stages generalizing env with
  | nil => rfl
  | cons stage rest ih =>
    rw [runStages, runStages, Stage.run_of_debug h h' stage env]
    simp only [ih]

/-- Debugging is a run on one item. Whatever the number of workers, a group passes the first
row, if there is one, through its members at one worker; and it fails or stores what it would
fail with or store as the only worker on lists that end with their first item. -/
theorem Flow.run_debug {f : Flow} {settings : Settings} (hd : settings.debug) :
    (∀ settings' : Settings, settings'.debug → f.run settings' = f.run settings) ∧
    ∀ g, .group g ∈ f.stages → ∀ env : Environment,
      (∀ columns, List.Forall₂ (fun name column => env.value? name = some (.list column))
          g.requests columns →
        ∃ rows : List Row, rows.length = min 1 (((columns.map List.length).min?).getD 0) ∧
          (∀ (i : Nat) row, rows[i]? = some row →
            List.Forall₂ (fun column value => column[i]? = some value) columns row) ∧
          g.run settings env = g.runOn rows env) ∧
      ∀ one : Settings, one.debug = false → one.workers = 1 →
        (g.run settings env).printed = (g.run one (env.cut g.requests)).printed ∧
        (g.run settings env).events = (g.run one (env.cut g.requests)).events ∧
        (∀ fault, (g.run settings env).result = .error fault ↔
          (g.run one (env.cut g.requests)).result = .error fault) ∧
        ∀ after, (g.run settings env).result = .ok after →
          ∃ after', (g.run one (env.cut g.requests)).result = .ok after' ∧
            (∀ name ∈ g.gathered, after.value? name = after'.value? name) ∧
            ∀ name ∉ g.gathered, after.value? name = env.value? name := by
  constructor
  · intro settings' hd'
    rw [run, run, runStages_of_debug hd' hd]
  intro g _ env
  constructor
  · intro columns hc
    have hr : env.rowsFor g.name g.requests = .ok (Environment.zipRows columns) :=
      Environment.rowsFor_eq_ok.mpr ⟨columns, hc, rfl⟩
    refine ⟨(Environment.zipRows columns).take 1, ?_, ?_, ?_⟩
    · rw [List.length_take, Environment.length_zipRows]
    · intro i row hi
      rw [List.getElem?_take] at hi
      split at hi
      · exact Environment.getElem?_zipRows hi
      · cases hi
    · rw [Group.run_eq_runOn (Settings.workerCount_of_debug hd) hr, Settings.rowsOf_of_debug hd]
  · intro one ho hw
    obtain ⟨x, hnames, hrun, hone⟩ := Group.run_cut hd ho hw g env
    rw [hrun, hone]
    refine ⟨rfl, rfl, ?_, ?_⟩
    · intro fault
      cases x.result with
      | error fault' => exact Iff.rfl
      | ok results => exact ⟨nofun, nofun⟩
    · intro after ha
      obtain ⟨results, hx, rfl⟩ := map_eq_ok ha
      refine ⟨(env.cut g.requests).setAll results, by rw [hx]; rfl, ?_, ?_⟩
      · intro name hn
        exact Environment.value?_setAll_congr (.inl (hnames results hx ▸ hn))
      · intro name hn
        exact Environment.value?_setAll_of_notMem (hnames results hx ▸ hn)

/-- Three items are cut to one, for the folds as well. -/
theorem Flow.run_debug_of_three : ∃ f g env after after',
    Flow.ofLines Standard.repertoire ["lst (> a) 3", "incr (a > b)", "reduce_sum (a > s)"] =
      .ok f ∧
    f.run ⟨5, true, 0⟩ = f.run ⟨2, true, 0⟩ ∧ .group g ∈ f.stages ∧
    env.value? "a" = some (.list [.int 4, .int 5, .int 6]) ∧
    (g.run ⟨2, true, 0⟩ env).result = .ok after ∧
    (g.run ⟨1, false, 0⟩ (env.cut g.requests)).result = .ok after' ∧
    ∀ name ∈ g.gathered, after.value? name = after'.value? name := by
  obtain ⟨f, g, env, after, hf, hg, ha, hr⟩ : ∃ f g env after,
      Flow.ofLines Standard.repertoire ["lst (> a) 3", "incr (a > b)", "reduce_sum (a > s)"] =
        .ok f ∧
      .group g ∈ f.stages ∧ env.value? "a" = some (.list [.int 4, .int 5, .int 6]) ∧
      (g.run ⟨2, true, 0⟩ env).result = .ok after :=
    ⟨_, _, Environment.empty.set "a" (.list [.int 4, .int 5, .int 6]), _, rfl,
      List.mem_cons_of_mem _ List.mem_cons_self, rfl, rfl⟩
  have hd : (⟨2, true, 0⟩ : Settings).debug := rfl
  obtain ⟨hworkers, hgroups⟩ := Flow.run_debug (f := f) hd
  obtain ⟨-, hone⟩ := hgroups g hg env
  obtain ⟨-, -, -, hok⟩ := hone ⟨1, false, 0⟩ rfl rfl
  obtain ⟨after', hr', hvalues, -⟩ := hok after hr
  exact ⟨f, g, env, after, after', hf, hworkers ⟨5, true, 0⟩ rfl, hg, ha, hr, hr', hvalues⟩

end DirectiveFlow
