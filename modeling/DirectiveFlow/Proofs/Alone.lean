import DirectiveFlow.Proofs.Blocks
import DirectiveFlow.Proofs.Joining
import DirectiveFlow.Proofs.Stages

namespace DirectiveFlow

namespace Reduction

/-- What a fold hands back: its result, or nothing if there was no value. -/
def reduce (r : Reduction) : List Value → Except StepFault (List Value)
  | [] => .ok []
  | first :: rest => do return [← r.finish (← r.foldFrom first rest)]

/-- What comes of parts that are reduced on their own first. -/
def reduceParts (r : Reduction) (parts : List (List Value)) : Except StepFault (List Value) := do
  r.reduce (← parts.mapM r.reduce).flatten

variable {r : Reduction}

theorem foldFrom_cons (r : Reduction) (held value : Value) (values : List Value) :
    r.foldFrom held (value :: values) = (do r.foldFrom (← r.combine value held) values) := by
  rw [foldFrom]
  cases r.combine value held with
  | error cause => rfl
  | ok held' => rfl

theorem takeAll_some_eq (r : Reduction) (step : String) (held : Value) (values : List Value) :
    r.takeAll step (some held) values =
      ((r.foldFrom held values).map some).mapError (.failed step) := by
  induction values generalizing held with
  | nil => rfl
  | cons value values ih =>
    rw [takeAll, take, foldFrom_cons]
    cases r.combine value held with
    | error cause => rfl
    | ok held' => exact ih held'

theorem finish_takeAll (r : Reduction) (step : String) (values : List Value) :
    (do (r.finishHeld (← r.takeAll step none values)).mapError (.failed step)) =
      (r.reduce values).mapError (RunFault.failed step) := by
  cases values with
  | nil => rfl
  | cons first rest =>
    change (r.takeAll step (some first) rest >>= _) = _
    rw [takeAll_some_eq, reduce]
    cases r.foldFrom first rest with
    | error cause => rfl
    | ok held => rfl

theorem reduce_ne_nil {values results : List Value} (hv : values ≠ [])
    (h : r.reduce values = .ok results) : results ≠ [] := by
  cases values with
  | nil => exact absurd rfl hv
  | cons first rest =>
    rw [reduce] at h
    obtain ⟨held, -, h⟩ := bind_eq_ok.mp h
    obtain ⟨result, -, h⟩ := bind_eq_ok.mp h
    cases h
    exact List.cons_ne_nil result []

theorem reduce_parts_ne_nil {parts results : List (List Value)} (hp : parts.flatten ≠ [])
    (h : parts.mapM r.reduce = .ok results) : results.flatten ≠ [] := by
  induction mapM_eq_ok.mp h with
  | nil => exact hp
  | @cons part result parts results hr hrs ih =>
    intro he
    obtain ⟨hnil, he⟩ := List.append_eq_nil_iff.mp he
    apply ih ?_ (mapM_eq_ok.mpr hrs) he
    intro hf
    apply hp
    have hpart : part = [] := by
      by_contra hne
      exact reduce_ne_nil hne hr hnil
    rw [List.flatten_cons, hpart, hf]
    rfl

end Reduction

namespace Combine

/-- The group of a reducer's fold and of nothing else. -/
def group (c : Combine) : Group :=
  ⟨[c.member], [c.item], [c.partials]⟩

/-- What a reducer makes of an environment when no other step shares its group. -/
def runAlone (c : Combine) (settings : Settings) (env : Environment) :
    Except FlowFault (Option Value) :=
  (runStages settings env [.group c.group, .combine c]).result.map (·.value? c.output)

variable {c : Combine} {settings : Settings} {env : Environment}

theorem perRow_group (c : Combine) : c.group.perRow = [] := by
  simp [group, Group.perRow, Group.partials, member, Member.partials?]

theorem passAll_group (c : Combine) (held : Option Value) (value : Value) :
    (passAll (c.group.start [value]) [⟨c.member, held⟩]).result =
      (c.reduction.take c.name held value).map fun held =>
        ([⟨c.member, some held⟩], c.group.start [value]) := by
  have hv : (c.group.start [value]).valueFor c.name c.item = .ok value := by
    rw [Locals.valueFor_eq_ok]
    exact Std.ExtTreeMap.getElem?_insert_self
  simp only [passAll, Station.pass, member, Run.result_bind, Run.result_ofExcept, hv, ok_bind]
  cases c.reduction.take c.name held value with
  | error fault => rfl
  | ok held' => rfl

theorem passRows_group (c : Combine) (label : String) (total done : Nat) (held : Option Value)
    (values : List Value) :
    (c.group.passRows label total [⟨c.member, held⟩] done (values.map fun v => [v])).result.map
        Prod.fst =
      (c.reduction.takeAll c.name held values).map fun held => [⟨c.member, held⟩] := by
  induction values generalizing held done with
  | nil => rfl
  | cons value values ih =>
    rw [List.map_cons, Reduction.takeAll, Group.passRows]
    simp only [Run.result_bind, Run.result_ofExcept, Run.result_report]
    change ((passAll (c.group.start [value]) _).result >>= _).map _ = _
    rw [passAll_group, perRow_group]
    cases c.reduction.take c.name held value with
    | error fault => rfl
    | ok held' =>
      have htail := ih (done + 1) (some held')
      change ((c.group.passRows label total [⟨c.member, some held'⟩] (done + 1) _).result >>=
        fun passed => pure (passed.1, _ :: passed.2)).map Prod.fst = _
      rw [ok_bind, ← htail]
      cases (c.group.passRows label total [⟨c.member, some held'⟩] (done + 1) _).result with
      | error fault => rfl
      | ok passed => rfl

theorem finishAll_group (c : Combine) (held : Option Value) (yield : Yield) :
    (finishAll yield [⟨c.member, held⟩]).result.map (·.getD c.partials []) =
      (c.reduction.finishHeld held).mapError (.failed c.name) := by
  cases held with
  | none =>
    change Except.ok ((yield.insert c.partials []).getD c.partials []) = Except.ok []
    rw [Std.ExtTreeMap.getD_insert_self]
  | some held =>
    simp only [finishAll, member, Run.result_bind, Run.result_ofExcept, Reduction.finishHeld]
    cases c.reduction.finish held with
    | error cause => rfl
    | ok result =>
      change Except.ok ((yield.insert c.partials [result]).getD c.partials []) = Except.ok [result]
      rw [Std.ExtTreeMap.getD_insert_self]

theorem work_group (c : Combine) (label : String) (values : List Value) :
    (c.group.work label (values.map fun v => [v])).result.map (·.getD c.partials []) =
      (c.reduction.reduce values).mapError (.failed c.name) := by
  have hpass := c.passRows_group label (values.map fun v => [v]).length 0 none values
  rw [← Reduction.finish_takeAll, Group.work, Run.result_bind]
  change (((c.group.passRows label _ [⟨c.member, none⟩] 0 _).result >>= _).map _) = _
  cases ht : c.reduction.takeAll c.name none values with
  | error fault =>
    rw [ht] at hpass
    rw [map_eq_error hpass]
    rfl
  | ok held =>
    rw [ht] at hpass
    obtain ⟨⟨stations, ended⟩, hp, rfl⟩ := map_eq_ok hpass
    rw [hp]
    exact c.finishAll_group held (c.group.collect ended)

theorem workAll_group (c : Combine) (label : String) (worker : Nat) (parts : List (List Value)) :
    (c.group.workAll label worker (parts.map fun part => part.map fun v => [v])).result.map
        (joined · c.partials) =
      ((parts.mapM c.reduction.reduce).map List.flatten).mapError (.failed c.name) := by
  induction parts generalizing worker with
  | nil => rfl
  | cons part parts ih =>
    have hw := c.work_group label part
    have hall := ih (worker + 1)
    rw [List.map_cons, Group.workAll_cons, List.mapM_cons]
    cases hr : c.reduction.reduce part with
    | error cause =>
      rw [hr] at hw
      rw [map_eq_error hw]
      rfl
    | ok results =>
      rw [hr] at hw
      obtain ⟨yield, hy, rfl⟩ := map_eq_ok hw
      rw [hy, mapError_ok, ok_bind, ok_bind]
      cases hm : parts.mapM c.reduction.reduce with
      | error cause =>
        rw [hm] at hall
        rw [map_eq_error hall]
        rfl
      | ok others =>
        rw [hm] at hall
        obtain ⟨yields, hys, hj⟩ := map_eq_ok hall
        rw [hys, ok_bind, ok_bind]
        exact congrArg Except.ok ((joined_cons yield yields c.partials).trans
          (congrArg (yield.getD c.partials [] ++ ·) hj))

/-- A group of one fold leaves what the shares of its item reduce to. -/
theorem run_group (hd : settings.debug = false) {values : List Value}
    (hv : env.value? c.item = some (.list values)) :
    (c.group.run settings env).result =
      (((shares values settings.workerCount).mapM c.reduction.reduce).mapError
        (RunFault.failed c.name)).map fun results =>
          env.set c.partials (.list results.flatten) := by
  have hrows : env.rowsFor c.group.name c.group.requests = .ok (values.map fun v => [v]) := by
    rw [← Environment.zipRows_singleton]
    exact Environment.rowsFor_eq_ok.mpr ⟨[values], .cons hv .nil, rfl⟩
  have hn : c.group.gathered.Nodup := List.nodup_singleton c.partials
  have hall := c.workAll_group c.group.name 0 (shares values settings.workerCount)
  rw [← shares_map] at hall
  simp only [Group.run, Run.result_bind, Run.result_ofExcept, hrows, ok_bind, hd,
    namedResults_joinYields hn]
  cases hm : (shares values settings.workerCount).mapM c.reduction.reduce with
  | error cause =>
    rw [hm] at hall
    rw [if_neg Bool.false_ne_true, map_eq_error hall]
    rfl
  | ok results =>
    rw [hm] at hall
    obtain ⟨yields, hy, hj⟩ := map_eq_ok hall
    rw [if_neg Bool.false_ne_true, hy, mapError_ok, map_ok, ← hj]
    rfl

theorem run_set {values : List Value} (hne : values ≠ []) :
    (c.run (env.set c.partials (.list values))).map (·.value? c.output) =
      ((c.reduction.reduce values).map List.head?).mapError (RunFault.failed c.name) := by
  have hl : (env.set c.partials (.list values)).listFor c.name c.partials = .ok values := by
    rw [Environment.listFor_eq_ok, Environment.value?_set, if_pos rfl]
  cases values with
  | nil => exact absurd rfl hne
  | cons first rest =>
    rw [run, hl, Reduction.reduce]
    cases hf : c.reduction.foldFrom first rest with
    | error cause =>
      simp only [hf]
      rfl
    | ok held =>
      simp only [hf, ok_bind]
      cases c.reduction.finish held with
      | error cause => rfl
      | ok result =>
        exact congrArg Except.ok ((c.value?_settle _ result c.output).trans (if_pos rfl))

/-- A reducer on its own reduces the shares of its item and then what came of them. -/
theorem runAlone_eq (hd : settings.debug = false) {values : List Value} (hne : values ≠ [])
    (hv : env.value? c.item = some (.list values)) :
    c.runAlone settings env =
      ((c.reduction.reduceParts (shares values settings.workerCount)).map List.head?).mapError
        fun cause => .run (.failed c.name cause) := by
  have hg : (c.group.run settings env).result = _ := run_group hd hv
  rw [runAlone, runStages_cons, Stage.run, hg, Reduction.reduceParts]
  cases hm : (shares values settings.workerCount).mapM c.reduction.reduce with
  | error cause => rfl
  | ok results =>
    have hf : results.flatten ≠ [] := Reduction.reduce_parts_ne_nil (by rwa [flatten_shares]) hm
    have hc : (c.run (env.set c.partials (.list results.flatten))).map (·.value? c.output) = _ :=
      run_set hf
    simp only [mapError_ok, map_ok, ok_bind]
    rw [runStages_cons, Stage.run, Run.result_ofExcept]
    cases hr : c.reduction.reduce results.flatten with
    | error cause =>
      rw [hr] at hc
      rw [map_eq_error hc]
      rfl
    | ok held =>
      rw [hr] at hc
      obtain ⟨next, hn, hv⟩ := map_eq_ok hc
      rw [hn]
      exact congrArg Except.ok hv

end Combine

end DirectiveFlow
