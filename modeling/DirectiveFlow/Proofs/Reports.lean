import DirectiveFlow.Flow.Draft
import DirectiveFlow.Proofs.Joining
import DirectiveFlow.Proofs.Preparing
import DirectiveFlow.Proofs.Stages
import DirectiveFlow.Standard

namespace DirectiveFlow

namespace Run

variable {ε ε' α β : Type} {x : Run ε α} {f : α → Run ε β} {events : List Event}

/-- A part of a run that reports these events, or the first of them if it ends in a fault. -/
structure Reports (x : Run ε α) (events : List Event) : Prop where
  some_of : x.events <+: events
  all_of_ok : ∀ a, x.result = .ok a → x.events = events

namespace Reports

theorem silent (h : x.events = []) : x.Reports [] where
  some_of := h ▸ List.nil_prefix
  all_of_ok _ _ := h

theorem report (event : Event) : (Run.report event : Run ε Unit).Reports [event] where
  some_of := List.prefix_rfl
  all_of_ok _ _ := rfl

theorem mapError (h : x.Reports events) (g : ε → ε') : (x.mapError g).Reports events where
  some_of := h.some_of
  all_of_ok a ha := h.all_of_ok a (mapError_eq_ok.mp ha)

theorem bind {others : List Event} (h : x.Reports events)
    (hf : ∀ a, x.result = .ok a → (f a).Reports others) : (x >>= f).Reports (events ++ others) := by
  cases hx : x.result with
  | error fault =>
    rw [bind_of_error hx]
    exact ⟨h.some_of.trans (List.prefix_append _ _), nofun⟩
  | ok a =>
    have ha := hf a hx
    rw [bind_of_ok hx, ← h.all_of_ok a hx]
    constructor
    · exact (List.prefix_append_right_inj _).mpr ha.some_of
    · intro b hb
      exact congrArg (x.events ++ ·) (ha.all_of_ok b hb)

theorem after_silent (hx : x.Reports []) (hf : ∀ a, x.result = .ok a → (f a).Reports events) :
    (x >>= f).Reports events :=
  hx.bind hf

theorem before_silent (h : x.Reports events) (hf : ∀ a, x.result = .ok a → (f a).Reports []) :
    (x >>= f).Reports events := by
  have hb := h.bind hf
  rwa [List.append_nil] at hb

end Reports

end Run

open Run (Reports)

theorem passAll_silent (locals : Locals) (stations : List Station) :
    (passAll locals stations).Reports [] := by
  have hpass (s : Station) (locals : Locals) : (s.pass locals).Reports [] := by
    obtain ⟨m, held⟩ := s
    cases m with
    | task name inputs outputs operation =>
      apply (Reports.silent rfl).after_silent
      intro values _
      apply (Reports.silent rfl).after_silent
      intro result _
      apply (Reports.silent rfl).after_silent
      intro results _
      exact .silent rfl
    | fold name item key reduction =>
      apply (Reports.silent rfl).after_silent
      intro value _
      apply (Reports.silent rfl).after_silent
      intro held _
      exact .silent rfl
  induction stations generalizing locals with
  | nil => exact .silent rfl
  | cons s rest ih =>
    apply (hpass s locals).after_silent
    rintro ⟨s, locals⟩ _
    apply (ih locals).after_silent
    intro passed _
    exact .silent rfl

theorem finishAll_silent (yield : Yield) (stations : List Station) :
    (finishAll yield stations).Reports [] := by
  induction stations generalizing yield with
  | nil => exact .silent rfl
  | cons s rest ih =>
    obtain ⟨m, held⟩ := s
    cases m with
    | task => exact ih yield
    | fold name item key reduction =>
      cases held with
      | none => exact ih _
      | some held =>
        apply (Reports.silent rfl).after_silent
        intro result _
        exact ih _

theorem prepareAll_silent (operations : List (String × Operation)) :
    (prepareAll operations).Reports [] := by
  induction operations with
  | nil => exact .silent rfl
  | cons first rest ih =>
    obtain ⟨name, operation⟩ := first
    apply (Reports.silent rfl).after_silent
    intro _ _
    exact ih

/-- The reports of a worker on the rows behind those that are done, one for each. -/
def progressOn (label : String) (total done count : Nat) : List Event :=
  (List.range' (done + 1) count).map fun i => .progress label i total

namespace Group

variable {g : Group} {label : String}

theorem passRows_reports (total done : Nat) (stations : List Station) (rows : List Row) :
    (g.passRows label total stations done rows).Reports
      (progressOn label total done rows.length) := by
  induction rows generalizing stations done with
  | nil => exact .silent rfl
  | cons row rows ih =>
    apply (passAll_silent _ stations).after_silent
    rintro ⟨stations, locals⟩ _
    apply (Reports.silent rfl).after_silent
    intro values _
    apply (Reports.report _).bind
    intro _ _
    apply (ih (done + 1) stations).before_silent
    intro ended _
    exact .silent rfl

theorem work_reports (rows : List Row) :
    (g.work label rows).Reports (progressOn label rows.length 0 rows.length) := by
  apply (passRows_reports _ _ _ rows).before_silent
  intro ended _
  exact finishAll_silent _ _

theorem workAll_silent (worker : Nat) (parts : List (List Row)) :
    (g.workAll label (worker + 1) parts).Reports [] := by
  induction parts generalizing worker with
  | nil => exact .silent rfl
  | cons part parts ih =>
    apply (Reports.silent rfl).after_silent
    intro yield _
    apply (ih (worker + 1)).after_silent
    intro yields _
    exact .silent rfl

theorem workAll_reports (part : List Row) (parts : List (List Row)) :
    (g.workAll label 0 (part :: parts)).Reports (progressOn label part.length 0 part.length) := by
  apply ((work_reports part).mapError _).before_silent
  intro yield _
  apply (workAll_silent 0 parts).after_silent
  intro yields _
  exact .silent rfl

end Group

theorem Settings.one_le_of_chosen {settings : Settings} {workers : Nat}
    (h : settings.chosenWorkers? = some workers) : 1 ≤ workers := by
  rw [chosenWorkers?] at h
  split at h
  · cases h
    exact Nat.le_refl 1
  split at h
  · cases h
  · rename_i hw
    cases h
    exact Nat.one_le_iff_ne_zero.mpr hw

theorem shares_eq_cons {α : Type} (items : List α) {workers : Nat} (hw : 1 ≤ workers) :
    ∃ share rest, shares items workers = share :: rest ∧
      share.length = (items.length + workers - 1) / workers := by
  obtain ⟨others, rfl⟩ := Nat.exists_eq_add_of_le' hw
  have hle : (items.length + (others + 1) - 1) / (others + 1) ≤ items.length := by
    apply Nat.le_of_lt_succ
    rw [Nat.div_lt_iff_lt_mul (Nat.succ_pos others), Nat.succ_mul, Nat.mul_succ]
    omega
  refine ⟨items.take ((items.length + (others + 1) - 1) / (others + 1)),
    shareOut ((items.length + (others + 1) - 1) / (others + 1)) others
      (items.drop ((items.length + (others + 1) - 1) / (others + 1))), ?_, ?_⟩
  · simp only [shares, Nat.max_eq_left hw, shareOut]
  · rw [List.length_take, Nat.min_eq_left hle]

namespace Stage

variable {settings : Settings} {workers : Nat} {env : Environment}

/-- The progress reports of a stage: of a group that gets its rows, one for each row of
a full share. -/
def progress (settings : Settings) (workers : Nat) (env : Environment) : Stage → List Event
  | .group g =>
    match env.rowsFor g.name g.requests with
    | .error _ => []
    | .ok rows =>
      let share := ((settings.rowsOf rows).length + workers - 1) / workers
      (List.range' 1 share).map fun i => .progress g.name i share
  | _ => []

theorem reports_run (hw : settings.chosenWorkers? = some workers) (stage : Stage) :
    (stage.run settings env).Reports (stage.progress settings workers env) := by
  cases stage with
  | serial s =>
    apply (Reports.silent rfl).after_silent
    intro values _
    apply (Reports.silent rfl).after_silent
    intro result _
    apply (Reports.silent rfl).after_silent
    intro results _
    exact .silent rfl
  | combine c => exact .silent rfl
  | group g =>
    have hcount : settings.workerCount = workers := by
      rw [Settings.workerCount, hw]
      rfl
    rw [progress]
    cases hr : env.rowsFor g.name g.requests with
    | error fault =>
      apply (Reports.silent rfl).after_silent
      intro rows hrows
      cases hr.symm.trans hrows
    | ok rows =>
      apply (Reports.silent rfl).after_silent
      intro rows' hrows
      cases hr.symm.trans hrows
      obtain ⟨share, rest, he, hl⟩ :=
        shares_eq_cons (settings.rowsOf rows) (Settings.one_le_of_chosen hw)
      change (g.workAll g.name 0 (shares (settings.rowsOf rows) _) >>= _).Reports _
      rw [hcount, he]
      simp only [← hl]
      apply (Group.workAll_reports share rest).before_silent
      intro yields _
      apply (Reports.silent rfl).after_silent
      intro results _
      exact .silent rfl

/-- The reports of a stage that ends well. -/
def reports (settings : Settings) (workers : Nat) (env : Environment) (stage : Stage) :
    List Event :=
  .started stage.name :: (stage.progress settings workers env ++ [.finished stage.name])

end Stage

/-- The reports of stages that all end well. -/
def trace (settings : Settings) (workers : Nat) (env : Environment) : List Stage → List Event
  | [] => []
  | stage :: rest =>
    stage.reports settings workers env ++
      trace settings workers (stage.environmentAfter settings env) rest

section RunStages

variable {settings : Settings} {workers : Nat} {env mid : Environment} {stage : Stage}
  {rest stages : List Stage}

theorem runStages_of_ok (rest : List Stage)
    (h : (stage.run settings env).result = .ok mid) :
    (runStages settings env (stage :: rest)).events =
        .started stage.name :: ((stage.run settings env).events ++
          .finished stage.name :: (runStages settings mid rest).events) ∧
      (runStages settings env (stage :: rest)).result = (runStages settings mid rest).result := by
  have hs : ((stage.run settings env).mapError FlowFault.run).result = .ok mid :=
    mapError_eq_ok.mpr h
  rw [runStages, Run.bind_of_ok rfl, Run.bind_of_ok hs, Run.bind_of_ok rfl]
  exact ⟨rfl, rfl⟩

theorem runStages_of_error (rest : List Stage) {cause : RunFault}
    (h : (stage.run settings env).result = .error cause) :
    (runStages settings env (stage :: rest)).events =
        .started stage.name :: (stage.run settings env).events ∧
      (runStages settings env (stage :: rest)).result = .error (.run cause) := by
  have hs : ((stage.run settings env).mapError FlowFault.run).result = .error (.run cause) := by
    rw [Run.result_mapError, h]
    rfl
  rw [runStages, Run.bind_of_ok rfl, Run.bind_of_error hs]
  exact ⟨rfl, rfl⟩

theorem trace_cons_of_ok (h : (stage.run settings env).result = .ok mid) :
    trace settings workers env (stage :: rest) =
      stage.reports settings workers env ++ trace settings workers mid rest := by
  rw [trace, Stage.environmentAfter, h]

theorem events_of_runStages_ok (hw : settings.chosenWorkers? = some workers) {env' : Environment}
    (h : (runStages settings env stages).result = .ok env') :
    (runStages settings env stages).events = trace settings workers env stages := by
  induction stages generalizing env with
  | nil => rfl
  | cons stage rest ih =>
    obtain ⟨mid, hs, hr⟩ := runStages_cons_eq_ok.mp h
    rw [(runStages_of_ok rest hs).1, ih hr, (Stage.reports_run hw stage).all_of_ok mid hs,
      trace_cons_of_ok hs, Stage.reports, List.cons_append, List.append_assoc,
      List.singleton_append]

theorem events_of_runStages_error (hw : settings.chosenWorkers? = some workers) {fault : FlowFault}
    (h : (runStages settings env stages).result = .error fault) :
    ∃ before stage after mid cause part, stages = before ++ stage :: after ∧
      (runStages settings env before).result = .ok mid ∧
      (stage.run settings mid).result = .error cause ∧ fault = .run cause ∧
      part <+: stage.progress settings workers mid ∧
      (runStages settings env stages).events =
        trace settings workers env before ++ .started stage.name :: part := by
  induction stages generalizing env with
  | nil => cases h
  | cons stage rest ih =>
    cases hs : (stage.run settings env).result with
    | error cause =>
      obtain ⟨hevents, hresult⟩ := runStages_of_error rest hs
      cases hresult.symm.trans h
      exact ⟨[], stage, rest, env, cause, _, rfl, rfl, hs, rfl,
        (Stage.reports_run hw stage).some_of, hevents⟩
    | ok mid =>
      obtain ⟨hevents, hresult⟩ := runStages_of_ok rest hs
      obtain ⟨before, stage', after, last, cause, part, rfl, hb, hs', hf, hpart, hrest⟩ :=
        ih (hresult.symm.trans h)
      refine ⟨stage :: before, stage', after, last, cause, part, rfl,
        runStages_cons_eq_ok.mpr ⟨mid, hs, hb⟩, hs', hf, hpart, ?_⟩
      rw [hevents, hrest, (Stage.reports_run hw stage).all_of_ok mid hs, trace_cons_of_ok hs,
        Stage.reports]
      simp only [List.cons_append, List.append_assoc, List.nil_append]

end RunStages

namespace Flow

variable {f : Flow} {settings : Settings} {workers : Nat}

theorem prepare_silent (f : Flow) : f.prepare.events = [] :=
  List.prefix_nil.mp (prepareAll_silent _).some_of

/-- What is reported of a run. Nothing before all operations are prepared, and if one of them is
not, no stage is run. Otherwise the stages follow one another, each started, then in progress,
then finished; and the stage that ends in a fault ends the reports somewhere in its progress. -/
theorem run_reports (hw : settings.chosenWorkers? = some workers) :
    (¬ f.Prepares →
      (f.run settings).events = [] ∧ (∃ fault, (f.run settings).result = .error fault) ∧
        ∀ f' : Flow, f'.setups = f.setups → f'.run settings = f.run settings) ∧
    (f.Prepares →
      (∀ env, (f.run settings).result = .ok env →
        (f.run settings).events = trace settings workers f.declared f.stages) ∧
      ∀ fault, (f.run settings).result = .error fault →
        ∃ before stage after mid cause part, f.stages = before ++ stage :: after ∧
          (runStages settings f.declared before).result = .ok mid ∧
          (stage.run settings mid).result = .error cause ∧ fault = .run cause ∧
          part <+: stage.progress settings workers mid ∧
          (f.run settings).events =
            trace settings workers f.declared before ++ .started stage.name :: part) := by
  constructor
  · intro hp
    cases hr : f.prepare.result with
    | ok prepared => exact absurd (prepare_eq_ok.mp hr) hp
    | error fault =>
      have hrun {f' : Flow} (hs : f'.setups = f.setups) :
          f'.run settings = ⟨f.prepare.printed, f.prepare.events, .error fault⟩ := by
        rw [run, prepare_congr hs]
        exact Run.bind_of_error hr
      refine ⟨?_, ⟨fault, ?_⟩, fun f' hs => (hrun hs).trans (hrun rfl).symm⟩
      · rw [hrun rfl]
        exact f.prepare_silent
      · rw [hrun rfl]
  · intro hp
    have hrun : f.run settings =
        ⟨f.prepare.printed ++ (runStages settings f.declared f.stages).printed,
          (runStages settings f.declared f.stages).events,
          (runStages settings f.declared f.stages).result⟩ := by
      rw [run, Run.bind_of_ok (prepare_eq_ok.mpr hp), prepare_silent, List.nil_append]
    rw [hrun]
    exact ⟨fun env => events_of_runStages_ok hw, fun fault => events_of_runStages_error hw⟩

/-- Three items on two workers: the first of them reports two rows. -/
theorem run_reports_of_two_workers : ∃ f env,
    Flow.ofLines Standard.repertoire ["lst (> a) 3", "incr (a)", "print (a)"] = .ok f ∧
    (f.run ⟨2, false, 0⟩).result = .ok env ∧
    (f.run ⟨2, false, 0⟩).events =
      [.started "lst", .finished "lst",
        .started "[incr]", .progress "[incr]" 1 2, .progress "[incr]" 2 2, .finished "[incr]",
        .started "print", .finished "print"] := by
  obtain ⟨f, env, hf, hp, hr, ht⟩ : ∃ f env,
      Flow.ofLines Standard.repertoire ["lst (> a) 3", "incr (a)", "print (a)"] = .ok f ∧
      f.prepare.result = .ok () ∧ (f.run ⟨2, false, 0⟩).result = .ok env ∧
      trace ⟨2, false, 0⟩ 2 f.declared f.stages =
        [.started "lst", .finished "lst",
          .started "[incr]", .progress "[incr]" 1 2, .progress "[incr]" 2 2, .finished "[incr]",
          .started "print", .finished "print"] :=
    ⟨_, _, rfl, rfl, rfl, rfl⟩
  have hw : (⟨2, false, 0⟩ : Settings).chosenWorkers? = some 2 := rfl
  obtain ⟨-, hrun⟩ := run_reports (f := f) hw
  exact ⟨f, env, hf, hr, ((hrun (prepare_eq_ok.mp hp)).1 env hr).trans ht⟩

end Flow

end DirectiveFlow
