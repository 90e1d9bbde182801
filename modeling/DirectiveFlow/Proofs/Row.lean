import DirectiveFlow.Proofs.Outcome
import DirectiveFlow.Proofs.Values

namespace DirectiveFlow

/-- Passes the private items of a row through a member, whatever a fold holds of other rows. -/
def Member.pass (m : Member) (locals : Locals) : Except RunFault Locals :=
  match m with
  | .task name inputs outputs operation => do
    let values ← inputs.mapM (locals.valueFor name)
    let result ← (Run.ofReply name (operation.act values)).result
    let results ← namedResults name outputs result
    return locals.setAll results
  | .fold name item _ _ => do
    let _ ← locals.valueFor name item
    return locals

def passAlone (locals : Locals) : List Member → Except RunFault Locals
  | [] => .ok locals
  | m :: rest => do passAlone (← m.pass locals) rest

/-- A fold fails to combine two values. -/
def Member.CombineFails (m : Member) (fault : RunFault) : Prop :=
  ∃ name item key reduction value held cause, m = .fold name item key reduction ∧
    reduction.combine value held = .error cause ∧ fault = .failed name cause

def Member.NeverCrashes : Member → Prop
  | .task _ _ _ operation => ∀ values, (operation.act values).ending ≠ .crashed
  | .fold .. => True

namespace Group

def start (g : Group) (row : Row) : Locals :=
  Locals.setAll ∅ (g.requests.zip row)

/-- The private items of a row in front of the member at a place. -/
def localsAt (g : Group) (place : Nat) (row : Row) : Except RunFault Locals :=
  passAlone (g.start row) (g.members.take place)

def rowLocals (g : Group) (row : Row) : Except RunFault Locals :=
  passAlone (g.start row) g.members

/-- The value that an item of a row has in front of the member at a place. -/
def itemAt (g : Group) (place : Nat) (item : String) (row : Row) : Option Value :=
  (g.localsAt place row).toOption.bind (·[item]?)

def finalValue (g : Group) (name : String) (row : Row) : Option Value :=
  (g.rowLocals row).toOption.bind (·[name]?)

end Group

section Faults

variable {fault : RunFault → Prop}

theorem ends_namedResults {step : String}
    (hr : ∀ expected received, fault (.resultCount step expected received))
    (outputs : List String) (result : Value) :
    Ends fault (fun _ => True) (namedResults step outputs result) := by
  unfold namedResults
  split
  · trivial
  · trivial
  · split
    · exact hr _ _
    · split
      · trivial
      · exact hr _ _

theorem ends_ofReply {α : Type} {step : String} {reply : Reply α}
    (hf : ∀ cause, fault (.failed step cause))
    (hc : reply.ending = .crashed → fault (.crashed step)) :
    Ends fault (fun _ => True) (Run.ofReply step reply).result := by
  unfold Run.ofReply
  cases he : reply.ending with
  | done a => trivial
  | failed cause => exact hf cause
  | crashed => exact hc he

theorem Member.ends_pass {m : Member} {locals : Locals}
    (hn : ∀ x ∈ m.inputs, Ends fault (fun _ => True) (locals.valueFor m.name x))
    (hr : ∀ expected received, fault (.resultCount m.name expected received))
    (hf : ∀ cause, fault (.failed m.name cause))
    (hc : ¬ m.NeverCrashes → fault (.crashed m.name)) :
    Ends fault (fun _ => True) (m.pass locals) := by
  cases m with
  | task name inputs outputs operation =>
    refine (Ends.mapM hn).bind fun values _ => ?_
    refine (ends_ofReply hf fun he => hc fun hnever => hnever values he).bind fun result _ => ?_
    exact (ends_namedResults hr outputs result).bind fun results _ => trivial
  | fold name item key reduction =>
    exact (hn item List.mem_cons_self).bind fun _ _ => trivial

theorem ends_passAlone {locals : Locals} {ms : List Member}
    (h : ∀ (place : Nat) m mid, ms[place]? = some m → passAlone locals (ms.take place) = .ok mid →
      Ends fault (fun _ => True) (m.pass mid)) :
    Ends fault (fun _ => True) (passAlone locals ms) := by
  induction ms generalizing locals with
  | nil => trivial
  | cons m ms ih =>
    rw [passAlone]
    have hm := h 0 m locals rfl rfl
    cases hp : m.pass locals with
    | error e =>
      rw [hp] at hm
      exact hm
    | ok mid =>
      apply ih
      intro place m' last hm' hl
      apply h (place + 1) m' last hm'
      rw [List.take_succ_cons, passAlone, hp]
      exact hl

end Faults

/-- What a station holds once a row with the given items in front of it has passed. -/
def Station.Takes (s : Station) (locals : Locals) (s' : Station) : Prop :=
  match s.member with
  | .task .. => s' = s
  | .fold name item _ reduction => ∃ value held, locals[item]? = some value ∧
      reduction.take name s.held value = .ok held ∧ s' = { s with held := some held }

theorem Station.Takes.member_eq {s s' : Station} {locals : Locals} (h : s.Takes locals s') :
    s'.member = s.member := by
  unfold Station.Takes at h
  split at h
  · rw [h]
  · obtain ⟨value, held, _, _, rfl⟩ := h
    rfl

theorem Station.pass_eq_ok {s s' : Station} {locals locals' : Locals}
    (h : (s.pass locals).result = .ok (s', locals')) :
    s.member.pass locals = .ok locals' ∧ s.Takes locals s' := by
  obtain ⟨m, held⟩ := s
  cases m with
  | task name inputs outputs operation =>
    simp only [Station.pass, Run.bind_eq_ok, Run.result_ofExcept] at h
    obtain ⟨values, hv, result, hr, results, hs, he⟩ := h
    cases he
    refine ⟨?_, rfl⟩
    simp only [Member.pass, bind_eq_ok]
    exact ⟨values, hv, result, hr, results, hs, rfl⟩
  | fold name item key reduction =>
    simp only [Station.pass, Run.bind_eq_ok, Run.result_ofExcept] at h
    obtain ⟨value, hv, held', hh, he⟩ := h
    cases he
    refine ⟨?_, value, held', Locals.valueFor_eq_ok.mp hv, hh, rfl⟩
    simp only [Member.pass, bind_eq_ok]
    exact ⟨value, hv, rfl⟩

/-- A row fares at a station as it does on its own, unless the fold cannot combine its item. -/
theorem Station.pass_alone (s : Station) (locals : Locals) :
    (s.pass locals).result.map Prod.snd = s.member.pass locals ∨
      ∃ fault, s.member.CombineFails fault ∧ (s.pass locals).result = .error fault := by
  obtain ⟨m, held⟩ := s
  cases m with
  | task name inputs outputs operation =>
    left
    simp only [Station.pass, Member.pass, Run.result_bind, Run.result_ofExcept]
    cases inputs.mapM (locals.valueFor name) with
    | error e => rfl
    | ok values =>
      simp only [ok_bind]
      cases (Run.ofReply name (operation.act values)).result with
      | error e => rfl
      | ok result =>
        simp only [ok_bind]
        cases namedResults name outputs result with
        | error e => rfl
        | ok results => rfl
  | fold name item key reduction =>
    simp only [Station.pass, Member.pass, Run.result_bind, Run.result_ofExcept]
    cases locals.valueFor name item with
    | error e => exact .inl rfl
    | ok value =>
      cases held with
      | none => exact .inl rfl
      | some held =>
        simp only [ok_bind, Reduction.take]
        cases hc : reduction.combine value held with
        | ok held' => exact .inl rfl
        | error cause =>
          exact .inr ⟨_, ⟨name, item, key, reduction, value, held, cause, rfl, hc, rfl⟩, rfl⟩

theorem passAll_cons_eq_ok {locals : Locals} {s : Station} {rest stations' : List Station}
    {locals' : Locals} (h : (passAll locals (s :: rest)).result = .ok (stations', locals')) :
    ∃ s' mid rest', (s.pass locals).result = .ok (s', mid) ∧
      (passAll mid rest).result = .ok (rest', locals') ∧ stations' = s' :: rest' := by
  simp only [passAll, Run.bind_eq_ok] at h
  obtain ⟨⟨s', mid⟩, hs, ⟨rest', last⟩, hr, he⟩ := h
  cases he
  exact ⟨s', mid, rest', hs, hr, rfl⟩

theorem passAll_members {locals locals' : Locals} {stations stations' : List Station}
    (h : (passAll locals stations).result = .ok (stations', locals')) :
    stations'.map Station.member = stations.map Station.member := by
  induction stations generalizing locals stations' with
  | nil =>
    cases h
    rfl
  | cons s rest ih =>
    obtain ⟨s', mid, rest', hs, hr, rfl⟩ := passAll_cons_eq_ok h
    rw [List.map_cons, List.map_cons, ih hr, (Station.pass_eq_ok hs).2.member_eq]

theorem passAll_locals {locals locals' : Locals} {stations stations' : List Station}
    (h : (passAll locals stations).result = .ok (stations', locals')) :
    passAlone locals (stations.map Station.member) = .ok locals' := by
  induction stations generalizing locals stations' with
  | nil =>
    cases h
    rfl
  | cons s rest ih =>
    obtain ⟨s', mid, rest', hs, hr, rfl⟩ := passAll_cons_eq_ok h
    rw [List.map_cons, passAlone, (Station.pass_eq_ok hs).1]
    exact ih hr

theorem passAll_takes {locals locals' : Locals} {stations stations' : List Station}
    (h : (passAll locals stations).result = .ok (stations', locals')) {place : Nat} {s : Station}
    (hs : stations[place]? = some s) :
    ∃ mid s', passAlone locals ((stations.map Station.member).take place) = .ok mid ∧
      stations'[place]? = some s' ∧ s.Takes mid s' := by
  induction stations generalizing locals stations' place with
  | nil => cases hs
  | cons s₀ rest ih =>
    obtain ⟨s', mid, rest', hp, hr, rfl⟩ := passAll_cons_eq_ok h
    obtain ⟨hm, ht⟩ := Station.pass_eq_ok hp
    cases place with
    | zero =>
      cases hs
      exact ⟨locals, s', rfl, rfl, ht⟩
    | succ place =>
      obtain ⟨mid', s'', hl, hs'', ht'⟩ := ih hr hs
      refine ⟨mid', s'', ?_, hs'', ht'⟩
      rw [List.map_cons, List.take_succ_cons, passAlone, hm]
      exact hl

/-- A row fares at a worker as it does on its own, unless some fold cannot combine its item. -/
theorem passAll_alone (locals : Locals) (stations : List Station) :
    (passAll locals stations).result.map Prod.snd = passAlone locals (stations.map Station.member) ∨
      ∃ s ∈ stations, ∃ fault, s.member.CombineFails fault ∧
        (passAll locals stations).result = .error fault := by
  induction stations generalizing locals with
  | nil => exact .inl rfl
  | cons s rest ih =>
    simp only [passAll, Run.result_bind, List.map_cons, passAlone]
    rcases s.pass_alone locals with hp | ⟨fault, hf, hp⟩
    · rw [← hp]
      cases (s.pass locals).result with
      | error e => exact .inl rfl
      | ok p =>
        obtain ⟨s', mid⟩ := p
        simp only [map_ok, ok_bind]
        rcases ih mid with hr | ⟨s₁, hs₁, fault, hf, hr⟩
        · left
          rw [← hr]
          cases (passAll mid rest).result with
          | error e => rfl
          | ok q => rfl
        · right
          refine ⟨s₁, List.mem_cons_of_mem s hs₁, fault, hf, ?_⟩
          rw [hr]
          rfl
    · right
      refine ⟨s, List.mem_cons_self, fault, hf, ?_⟩
      rw [hp]
      rfl

end DirectiveFlow
