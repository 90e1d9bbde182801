import DirectiveFlow.Proofs.Drafting
import DirectiveFlow.Proofs.Joining
import DirectiveFlow.Proofs.Keys
import DirectiveFlow.Proofs.Stages
import DirectiveFlow.Standard

namespace DirectiveFlow

/-- A fault that is not about an item without a value. -/
def RunFault.Resolved : RunFault → Prop
  | .noValue .. => False
  | _ => True

def FlowFault.Resolved : FlowFault → Prop
  | .run fault => fault.Resolved
  | _ => True

/-- Every item that a row looks up has a value: those that a member reads when the row comes to
it, and those to be gathered when the row is through. -/
def Group.RowResolves (g : Group) (row : Row) : Prop :=
  (∀ (place : Nat) m locals, g.members[place]? = some m → g.localsAt place row = .ok locals →
    ∀ x ∈ m.inputs, x ∈ locals) ∧
  ∀ locals, g.rowLocals row = .ok locals → ∀ x ∈ g.perRow, x ∈ locals

/-- Every item that a stage looks up in an environment, or a worker in a row, has a value. -/
def Stage.Resolves (env : Environment) : Stage → Prop
  | .serial s => ∀ x ∈ s.inputs, (env.value? x).isSome
  | .group g => (∀ x ∈ g.requests, (env.value? x).isSome) ∧
      ∀ rows, env.rowsFor g.name g.requests = .ok rows → ∀ row ∈ rows, g.RowResolves row
  | .combine c => (env.value? c.partials).isSome

section Faults

variable {env : Environment} {locals : Locals} {step item : String}

theorem Environment.ends_valueFor (h : (env.value? item).isSome) :
    Ends RunFault.Resolved (fun _ => True) (env.valueFor step item) := by
  obtain ⟨value, hv⟩ := Option.isSome_iff_exists.mp h
  rw [Environment.valueFor_eq_ok.mpr hv]
  trivial

theorem Environment.ends_listFor (h : (env.value? item).isSome) :
    Ends RunFault.Resolved (fun _ => True) (env.listFor step item) := by
  obtain ⟨value, hv⟩ := Option.isSome_iff_exists.mp h
  rw [listFor, Environment.valueFor_eq_ok.mpr hv]
  dsimp only
  cases value.list? with
  | none => trivial
  | some items => trivial

theorem Locals.ends_valueFor (h : item ∈ locals) :
    Ends RunFault.Resolved (fun _ => True) (locals.valueFor step item) := by
  obtain ⟨value, hv⟩ := Option.isSome_iff_exists.mp (Std.ExtTreeMap.mem_iff_isSome_getElem?.mp h)
  rw [Locals.valueFor_eq_ok.mpr hv]
  trivial

theorem ends_failed {α : Type} (step : String) (x : Except StepFault α) :
    Ends RunFault.Resolved (fun _ => True) (x.mapError (.failed step)) := by
  cases x with
  | ok a => trivial
  | error cause => trivial

end Faults

namespace Group

variable {g : Group} {label : String} {rows : List Row} {env : Environment}

theorem RowResolves.ends_passAll {row : Row} (h : g.RowResolves row) {stations : List Station}
    (hs : stations.map Station.member = g.members) :
    Ends RunFault.Resolved (fun _ => True) (passAll (g.start row) stations).result := by
  rcases passAll_alone (g.start row) stations with ha | ⟨s, -, fault, hf, ha⟩
  · have hp : Ends RunFault.Resolved (fun _ => True) (passAlone (g.start row) g.members) :=
      ends_passAlone fun place m mid hm hmid => Member.ends_pass
        (fun x hx => Locals.ends_valueFor (h.1 place m mid hm hmid x hx))
        (fun _ _ => trivial) (fun _ => trivial) (fun _ => trivial)
    rw [← hs, ← ha] at hp
    cases hr : (passAll (g.start row) stations).result with
    | ok => trivial
    | error fault =>
      rw [hr] at hp
      exact hp
  · obtain ⟨name, item, key, reduction, value, held, cause, -, -, rfl⟩ := hf
    rw [ha]
    trivial

theorem ends_passRows (h : ∀ row ∈ rows, g.RowResolves row) {total done : Nat}
    {stations : List Station} (hs : stations.map Station.member = g.members) :
    Ends RunFault.Resolved (fun _ => True)
      (g.passRows label total stations done rows).result := by
  induction rows generalizing stations done with
  | nil => trivial
  | cons row rows ih =>
    obtain ⟨hrow, hrest⟩ := List.forall_mem_cons.mp h
    simp only [passRows, Run.result_bind, Run.result_ofExcept, Run.result_report, ok_bind]
    change Ends _ _ ((passAll (g.start row) stations).result >>= _)
    have hp := hrow.ends_passAll hs
    cases hr : (passAll (g.start row) stations).result with
    | error fault =>
      rw [hr] at hp
      exact hp
    | ok passed =>
      obtain ⟨mid, locals⟩ := passed
      have hl : g.rowLocals row = .ok locals := by
        rw [rowLocals, ← hs]
        exact passAll_locals hr
      refine (Ends.mapM fun x hx => Locals.ends_valueFor (hrow.2 locals hl x hx)).bind fun _ _ => ?_
      exact (ih hrest ((passAll_members hr).trans hs)).bind fun _ _ => trivial

theorem ends_finishAll (yield : Yield) (stations : List Station) :
    Ends RunFault.Resolved (fun _ => True) (finishAll yield stations).result := by
  induction stations generalizing yield with
  | nil => trivial
  | cons s rest ih =>
    obtain ⟨m, held⟩ := s
    cases m with
    | task => exact ih yield
    | fold name item key reduction =>
      cases held with
      | none => exact ih _
      | some held =>
        simp only [finishAll, Run.result_bind, Run.result_ofExcept]
        exact (ends_failed name (reduction.finish held)).bind fun _ _ => ih _

theorem ends_work (h : ∀ row ∈ rows, g.RowResolves row) :
    Ends RunFault.Resolved (fun _ => True) (g.work label rows).result := by
  rw [work, Run.result_bind]
  exact (ends_passRows h (stations_members g.members)).bind fun _ _ => ends_finishAll _ _

theorem ends_workAll {parts : List (List Row)} (h : ∀ part ∈ parts, ∀ row ∈ part, g.RowResolves row)
    (worker : Nat) :
    Ends RunFault.Resolved (fun _ => True) (g.workAll label worker parts).result := by
  induction parts generalizing worker with
  | nil => trivial
  | cons part parts ih =>
    obtain ⟨hpart, hrest⟩ := List.forall_mem_cons.mp h
    rw [workAll_cons]
    have hw : Ends RunFault.Resolved (fun _ => True)
        ((g.work label part).result.mapError (RunFault.atWorker worker)) := by
      have hw : Ends RunFault.Resolved (fun _ => True) (g.work label part).result := ends_work hpart
      cases hr : (g.work label part).result with
      | ok yield => trivial
      | error fault =>
        rw [hr] at hw
        cases fault with
        | noValue item step => exact hw
        | _ => trivial
    exact hw.bind fun _ _ => (ih hrest (worker + 1)).bind fun _ _ => trivial

end Group

theorem Environment.ends_rowsFor {env : Environment} {requests : List String} (group : String)
    (h : ∀ x ∈ requests, (env.value? x).isSome) :
    Ends RunFault.Resolved (fun _ => True) (env.rowsFor group requests) := by
  have hm : Ends RunFault.Resolved _ (requests.mapM (env.listFor group)) :=
    Ends.mapM fun x hx => ends_listFor (h x hx)
  unfold rowsFor
  cases hc : requests.mapM (env.listFor group) with
  | ok columns => trivial
  | error fault =>
    rw [hc] at hm
    exact hm

theorem Settings.mem_of_mem_rowsOf {settings : Settings} {rows : List Row} {row : Row}
    (h : row ∈ settings.rowsOf rows) : row ∈ rows := by
  unfold rowsOf at h
  by_cases hd : settings.debug
  · rw [if_pos hd] at h
    exact List.mem_of_mem_take h
  · rw [if_neg hd] at h
    exact h

variable {settings : Settings} {env : Environment}

theorem Serial.ends_run {s : Serial} (h : ∀ x ∈ s.inputs, (env.value? x).isSome) :
    Ends RunFault.Resolved (fun _ => True) (s.run env).result := by
  simp only [run, Run.result_bind, Run.result_ofExcept]
  refine (Ends.mapM fun x hx => Environment.ends_valueFor (h x hx)).bind fun values _ => ?_
  refine (ends_ofReply (fun _ => trivial) fun _ => trivial).bind fun result _ => ?_
  exact (ends_namedResults (fun _ _ => trivial) s.outputs result).bind fun results _ => trivial

theorem Group.ends_run {g : Group} (hq : ∀ x ∈ g.requests, (env.value? x).isSome)
    (h : ∀ rows, env.rowsFor g.name g.requests = .ok rows → ∀ row ∈ rows, g.RowResolves row) :
    Ends RunFault.Resolved (fun _ => True) (g.run settings env).result := by
  simp only [run, Run.result_bind, Run.result_ofExcept]
  have hrows := Environment.ends_rowsFor g.name hq
  cases hr : env.rowsFor g.name g.requests with
  | error fault =>
    rw [hr] at hrows
    exact hrows
  | ok rows =>
    have hparts : ∀ part ∈ shares (settings.rowsOf rows) settings.workerCount,
        ∀ row ∈ part, g.RowResolves row := by
      intro part hp row hm
      apply h rows hr
      apply Settings.mem_of_mem_rowsOf
      rw [← flatten_shares (settings.rowsOf rows) settings.workerCount]
      exact List.mem_flatten.mpr ⟨part, hp, hm⟩
    refine (ends_workAll hparts 0).bind fun yields _ => ?_
    exact (ends_namedResults (fun _ _ => trivial) g.gathered _).bind fun results _ => trivial

theorem Combine.ends_run {c : Combine} (h : (env.value? c.partials).isSome) :
    Ends RunFault.Resolved (fun _ => True) (c.run env) := by
  have hl : Ends RunFault.Resolved _ (env.listFor c.name c.partials) := Environment.ends_listFor h
  unfold run
  cases hv : env.listFor c.name c.partials with
  | error fault =>
    rw [hv] at hl
    exact hl
  | ok values =>
    cases values with
    | nil => trivial
    | cons first rest =>
      cases hf : c.reduction.foldFrom first rest with
      | error cause =>
        simp only [hf]
        trivial
      | ok held =>
        simp only [hf]
        cases c.reduction.finish held with
        | error cause => trivial
        | ok result => trivial

theorem Stage.Resolves.ends_run {stage : Stage} (h : stage.Resolves env) (settings : Settings) :
    Ends RunFault.Resolved (fun _ => True) (stage.run settings env).result := by
  cases stage with
  | serial s => exact Serial.ends_run h
  | group g => exact Group.ends_run h.1 h.2
  | combine c => exact Combine.ends_run h

section Formed

variable {steps : List Step} {env env' : Environment} {locals locals' : Locals} {name : String}

theorem Member.mem_pass {m : Member} (h : m.pass locals = .ok locals')
    (hn : name ∈ m.outputs ∨ name ∈ locals) : name ∈ locals' := by
  cases m with
  | task step inputs outputs operation =>
    simp only [pass, bind_eq_ok] at h
    obtain ⟨values, -, result, -, results, hr, he⟩ := h
    cases he
    exact Locals.mem_setAll.mpr (by rw [namedResults_names hr]; exact hn)
  | fold step item key reduction =>
    simp only [pass, bind_eq_ok] at h
    obtain ⟨value, hv, he⟩ := h
    cases he
    refine hn.elim (fun hm => ?_) id
    rw [List.mem_singleton.mp hm, Std.ExtTreeMap.mem_iff_isSome_getElem?,
      Locals.valueFor_eq_ok.mp hv]
    rfl

theorem mem_passAlone {ms : List Member} (h : passAlone locals ms = .ok locals')
    (hn : name ∈ ms.flatMap Member.outputs ∨ name ∈ locals) : name ∈ locals' := by
  induction ms generalizing locals with
  | nil =>
    cases h
    exact hn.resolve_left List.not_mem_nil
  | cons m ms ih =>
    obtain ⟨mid, hm, hr⟩ := bind_eq_ok.mp h
    rw [List.flatMap_cons, List.mem_append] at hn
    rcases hn with (hn | hn) | hn
    · exact ih hr (.inr (Member.mem_pass hm (.inl hn)))
    · exact ih hr (.inl hn)
    · exact ih hr (.inr (Member.mem_pass hm (.inr hn)))

theorem Environment.length_of_mem_rowsFor {group : String} {requests : List String}
    {rows : List Row} (h : env.rowsFor group requests = .ok rows) {row : Row} (hr : row ∈ rows) :
    row.length = requests.length := by
  obtain ⟨columns, hc, rfl⟩ := rowsFor_eq_ok.mp h
  obtain ⟨i, hi⟩ := List.mem_iff_getElem?.mp hr
  rw [hc.length_eq, (getElem?_zipRows hi).length_eq]

theorem Group.Formed.rowResolves {g : Group} {combines : List Combine}
    (h : g.Formed steps combines) {row : Row} (hl : row.length = g.requests.length) :
    g.RowResolves row := by
  have hstart (x : String) (hx : x ∈ g.requests) : x ∈ g.start row := by
    refine Locals.mem_setAll.mpr (.inl ?_)
    rw [List.map_fst_zip (Nat.le_of_eq hl.symm)]
    exact hx
  constructor
  · intro place m locals hm hp x hx
    have hk := h.supplied.getElem? hm x hx
    exact mem_passAlone hp ((List.mem_append.mp hk).symm.imp_right (hstart x))
  · intro locals hp x hx
    obtain ⟨hg, hn⟩ := List.mem_filter.mp hx
    exact mem_passAlone hp (.inl ((h.offered x hg).resolve_left (of_decide_eq_true hn)))

variable {settings : Settings} {stages before after : List Stage} {stage : Stage}

theorem FormedStages.plain_needs (h : FormedStages steps stages) (hp : ∀ s ∈ steps, s.NamesPlain)
    (hm : stage ∈ stages) : ∀ x ∈ stage.needs, Plain x := by
  have hreads : ∀ x, (∃ s ∈ steps, x ∈ s.reads) → Plain x := by
    rintro x ⟨s, hs, hx⟩
    exact (hp s hs).reads x hx
  cases stage with
  | serial s => exact fun x hx => hreads x ((h.serial hm).reads x hx)
  | group g =>
    obtain ⟨combines, hg⟩ := h.group hm
    exact fun x hx => hreads x (hg.requested x hx)
  | combine c => exact nofun

theorem FormedStages.resolves (h : FormedStages steps stages)
    (hs : Supplied Stage.needs Stage.outputs [] stages) (hp : ∀ s ∈ steps, s.NamesPlain)
    (he : stages = before ++ stage :: after)
    (hr : (runStages settings env before).result = .ok env') : stage.Resolves env' := by
  have hm : stage ∈ stages := he ▸ List.mem_append_right _ List.mem_cons_self
  rw [he, Supplied.append] at hs
  have hneeds : ∀ x ∈ stage.needs, (env'.value? x).isSome := by
    intro x hx
    refine isSome_runStages hr (fun c hc hpriv hxc => ?_) (.inl (hs.2.1 x hx))
    have hc' : .combine c ∈ stages := he ▸ List.mem_append_left _ hc
    exact h.not_plain_of_private hc' hpriv (hxc ▸ h.plain_needs hp hm x hx)
  cases stage with
  | serial s => exact hneeds
  | group g =>
    refine ⟨hneeds, fun rows hrows row hrow => ?_⟩
    obtain ⟨combines, hg⟩ := h.group hm
    exact hg.rowResolves (Environment.length_of_mem_rowsFor hrows hrow)
  | combine c =>
    obtain ⟨front, g, earlier, later, rfl, hg⟩ := h.combine he
    rw [runStages_append, bind_eq_ok] at hr
    obtain ⟨mid, -, hr⟩ := hr
    refine isSome_runStages hr (fun c' hc _ => ?_) (.inl ?_)
    · have hc' : c' ∈ earlier := by simpa using hc
      have ha := hg.combines_apart fun c hc => ((hg.called c hc).plain hp).1
      exact Ne.symm ((List.pairwise_append.mp ha).2.2 c' hc' c List.mem_cons_self).1
    · rw [List.flatMap_cons]
      refine List.mem_append_left _ (hg.keys _ (hg.mem_partials ?_))
      exact List.mem_append_right _ List.mem_cons_self

end Formed

theorem ends_prepareAll (operations : List (String × Operation)) :
    Ends FlowFault.Resolved (fun _ => True) (prepareAll operations).result := by
  induction operations with
  | nil => trivial
  | cons operation rest ih =>
    obtain ⟨name, operation⟩ := operation
    simp only [prepareAll, Run.result_bind, Run.result_mapError, Run.ofReply]
    cases operation.prepare.ending with
    | done => exact ih
    | failed cause => trivial
    | crashed => trivial

/-- The flow of a draft exists whatever lines the draft was given and whatever came of them, and
a run of it looks up only items that have a value. -/
theorem Draft.complete_resolves {r : Repertoire} {lines : List (Nat × String)}
    (hp : ∀ s ∈ r.steps (lines.map Prod.snd), s.NamesPlain) :
    ∃ f : Flow, (empty.feed r lines).complete.2 = .ok f ∧ ∀ settings : Settings,
      (∀ item step, (f.run settings).result ≠ .error (.run (.noValue item step))) ∧
      ∀ before stage after env, f.stages = before ++ stage :: after →
        (runStages settings f.declared before).result = .ok env → stage.Resolves env := by
  obtain ⟨f, hc, hf, hs⟩ := (linked_feed r lines).complete
  refine ⟨f, hc, fun settings => ⟨fun item step he => ?_, ?_⟩⟩
  · have hrun : Ends FlowFault.Resolved (fun _ => True) (f.run settings).result := by
      rw [Flow.run, Run.result_bind]
      refine (ends_prepareAll _).bind fun _ _ => ends_runStages ?_
      intro before stage after env hsplit hr
      exact (hf.resolves hs hp hsplit hr).ends_run settings
    rw [he] at hrun
    exact hrun
  · exact fun before stage after env hsplit hr => hf.resolves hs hp hsplit hr

/-- A refused parallel step opens the group of two reducers, one of which has a
key of its own. -/
theorem Draft.complete_resolves_of_refused :
    (∀ s ∈ Standard.repertoire.steps ([(1, "lst (> a) 3"), (2, "incr (z > b)"),
      (3, "reduce_sum (a > c)"), (4, "halve (a)"), (5, "reduce_max (a > d)")].map Prod.snd),
      s.NamesPlain) ∧
    ∃ f : Flow, (empty.feed Standard.repertoire [(1, "lst (> a) 3"), (2, "incr (z > b)"),
      (3, "reduce_sum (a > c)"), (4, "halve (a)"), (5, "reduce_max (a > d)")]).complete.2 = .ok f ∧
      f.stages.map Stage.inputs = [[], ["a"], ["a"], ["a#1"]] ∧
      ∀ settings item step, (f.run settings).result ≠ .error (.run (.noValue item step)) := by
  have hp : ∀ s ∈ Standard.repertoire.steps ([(1, "lst (> a) 3"), (2, "incr (z > b)"),
      (3, "reduce_sum (a > c)"), (4, "halve (a)"), (5, "reduce_max (a > d)")].map Prod.snd),
      s.NamesPlain := by
    decide +kernel
  obtain ⟨f, hc, hrun⟩ := Draft.complete_resolves hp
  refine ⟨hp, f, hc, ?_, fun settings => (hrun settings).1⟩
  have hi : (empty.feed Standard.repertoire [(1, "lst (> a) 3"), (2, "incr (z > b)"),
      (3, "reduce_sum (a > c)"), (4, "halve (a)"),
      (5, "reduce_max (a > d)")]).complete.2.toOption.map (fun f => f.stages.map Stage.inputs)
        = some [[], ["a"], ["a"], ["a#1"]] := by
    decide +kernel
  rw [hc] at hi
  exact Option.some.inj hi

end DirectiveFlow
