import DirectiveFlow.Proofs.Joining
import DirectiveFlow.Proofs.Reducing

namespace DirectiveFlow

/-- A task that never crashes, or a fold that never fails. -/
def Member.Steady (m : Member) : Prop :=
  m.NeverCrashes ∧ ∀ name item key reduction, m = .fold name item key reduction → reduction.Lawful

theorem Member.Steady.combine_ok {m : Member} (h : m.Steady) (fault : RunFault) :
    ¬ m.CombineFails fault := by
  rintro ⟨name, item, key, reduction, value, held, cause, rfl, hc, -⟩
  obtain ⟨op, fin, hl⟩ := h.2 name item key reduction rfl
  rw [hl.combine] at hc
  cases hc

theorem finishAll_total {stations : List Station}
    (h : ∀ m ∈ stations.map Station.member, m.Steady) (yield : Yield) :
    fault? (finishAll yield stations).result = none := by
  induction stations generalizing yield with
  | nil => rfl
  | cons s rest ih =>
    obtain ⟨m, held⟩ := s
    obtain ⟨hm, hrest⟩ := List.forall_mem_cons.mp h
    cases m with
    | task => exact ih hrest yield
    | fold name item key reduction =>
      cases held with
      | none => exact ih hrest _
      | some held =>
        obtain ⟨op, fin, hl⟩ := hm.2 name item key reduction rfl
        simp only [finishAll, Run.result_bind, Run.result_ofExcept, hl.finish]
        exact ih hrest _

theorem fault?_mapError_of_ends {ε α : Type} {x : Except ε α} {f : ε → ε}
    (h : Ends (fun e => f e = e) (fun _ => True) x) : fault? (x.mapError f) = fault? x := by
  cases x with
  | ok a => rfl
  | error e => exact congrArg some h

theorem ends_of_fault? {ε α β : Type} {x : Except ε α} {y : Except ε β} {fault : ε → Prop}
    {post : β → Prop} (h : fault? x = fault? y) (hy : Ends fault post y) :
    Ends fault (fun _ => True) x := by
  cases x with
  | ok a => trivial
  | error e =>
    cases y with
    | ok b => cases h
    | error e' =>
      cases h
      exact hy

theorem RunFault.atWorker_of_ne {fault : RunFault} {worker : Nat}
    (h : ∀ step, fault ≠ .crashed step) : fault.atWorker worker = fault := by
  cases fault with
  | crashed step => exact absurd rfl (h step)
  | _ => rfl

namespace Group

variable {g : Group} {label : String} {rows : List Row}

/-- How a row fares on its own, up to the lookup of what is gathered. -/
def tryRow (g : Group) (label : String) (row : Row) : Except RunFault Unit := do
  let locals ← g.rowLocals row
  let _ ← g.perRow.mapM (locals.valueFor label)
  return ()

theorem passRows_fault? (hm : ∀ m ∈ g.members, m.Steady) {total done : Nat}
    {stations : List Station} (hs : stations.map Station.member = g.members) :
    fault? (g.passRows label total stations done rows).result =
      fault? (rows.mapM (g.tryRow label)) := by
  induction rows generalizing stations done with
  | nil => rfl
  | cons row rows ih =>
    rw [List.mapM_cons, tryRow]
    simp only [passRows, Run.result_bind, Run.result_ofExcept, Run.result_report, ok_bind]
    change fault? ((passAll (g.start row) stations).result >>= _) = _
    have ha : (passAll (g.start row) stations).result.map Prod.snd = g.rowLocals row := by
      rw [rowLocals, ← hs]
      refine (passAll_alone (g.start row) stations).resolve_right ?_
      rintro ⟨s, hmem, fault, hf, -⟩
      exact (hm s.member (hs ▸ List.mem_map_of_mem hmem)).combine_ok fault hf
    rw [← ha]
    cases hr : (passAll (g.start row) stations).result with
    | error e => rfl
    | ok passed =>
      obtain ⟨mid, locals⟩ := passed
      simp only [map_ok, ok_bind]
      cases g.perRow.mapM (locals.valueFor label) with
      | error e => rfl
      | ok values =>
        change fault? ((g.passRows label total mid (done + 1) rows).result >>= _) =
          fault? (rows.mapM (g.tryRow label) >>= fun units => pure (() :: units))
        rw [fault?_bind_of_total fun _ => rfl, fault?_bind_of_total fun _ => rfl,
          ih ((passAll_members hr).trans hs)]

theorem work_fault? (hm : ∀ m ∈ g.members, m.Steady) :
    fault? (g.work label rows).result = fault? (rows.mapM (g.tryRow label)) := by
  have hs := stations_members g.members
  rw [← passRows_fault? hm hs, work, Run.result_bind]
  cases hr : (g.passRows label rows.length (g.members.map fun m => ⟨m, none⟩) 0 rows).result with
  | error e => rfl
  | ok passed =>
    obtain ⟨stations, ended⟩ := passed
    exact finishAll_total (by rw [passRows_members hr, hs]; exact hm) _

theorem ends_tryRow (hm : ∀ m ∈ g.members, m.Steady) (row : Row) :
    Ends (fun e => ∀ step, e ≠ .crashed step) (fun _ => True) (g.tryRow label row) := by
  have hn (locals : Locals) (step item : String) :
      Ends (fun e => ∀ step, e ≠ .crashed step) (fun _ => True) (locals.valueFor step item) := by
    unfold Locals.valueFor
    split
    · trivial
    · exact nofun
  have hrow : Ends (fun e => ∀ step, e ≠ .crashed step) (fun _ => True) (g.rowLocals row) :=
    ends_passAlone fun place m mid hp _ => Member.ends_pass (fun x _ => hn mid m.name x)
      (fun _ _ => nofun) (fun _ => nofun)
      fun hc => absurd (hm m (List.mem_of_getElem? hp)).1 hc
  exact hrow.bind fun locals _ => (Ends.mapM fun x _ => hn locals label x).bind fun _ _ => trivial

/-- Workers end in the fault of the first row, in the order of all rows, that does
not fare well. -/
theorem workAll_fault? (hm : ∀ m ∈ g.members, m.Steady) (worker : Nat) (parts : List (List Row)) :
    fault? (g.workAll label worker parts).result =
      fault? (parts.flatten.mapM (g.tryRow label)) := by
  induction parts generalizing worker with
  | nil => rfl
  | cons part parts ih =>
    have hw : fault? ((g.work label part).result.mapError (RunFault.atWorker worker)) =
        fault? (part.mapM (g.tryRow label)) := by
      rw [← work_fault? hm]
      apply fault?_mapError_of_ends
      have hends : Ends (fun e => ∀ step, e ≠ .crashed step) (fun _ => True)
          (g.work label part).result :=
        ends_of_fault? (work_fault? hm) (Ends.mapM fun row _ => ends_tryRow hm row)
      exact hends.mono fun _ => RunFault.atWorker_of_ne
    rw [workAll_cons, List.flatten_cons, fault?_mapM_append, ← hw, ← ih (worker + 1)]
    cases (g.work label part).result.mapError (RunFault.atWorker worker) with
    | error e => rfl
    | ok yield =>
      simp only [ok_bind, fault?_ok, Option.none_or]
      exact fault?_bind_of_total fun _ => rfl

/-- How a group ends does not depend on the number of its workers. -/
theorem run_fault? (hm : ∀ m ∈ g.members, m.Steady) (hn : g.gathered.Nodup) (settings : Settings)
    (env : Environment) :
    fault? (g.run settings env).result =
      fault? (env.rowsFor g.name g.requests >>= fun rows =>
        (settings.rowsOf rows).mapM (g.tryRow g.name)) := by
  simp only [run, Run.result_bind, Run.result_ofExcept, namedResults_joinYields hn, ok_bind]
  cases env.rowsFor g.name g.requests with
  | error e => rfl
  | ok rows =>
    have hw : fault? (g.workAll g.name 0 _).result = _ :=
      workAll_fault? hm 0 (shares (settings.rowsOf rows) settings.workerCount)
    rw [flatten_shares] at hw
    simp only [ok_bind, ← hw]
    exact fault?_bind_of_total fun _ => rfl

end Group

end DirectiveFlow
