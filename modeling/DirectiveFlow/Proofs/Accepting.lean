import DirectiveFlow.Proofs.Availability
import DirectiveFlow.Proofs.Keys
import DirectiveFlow.Standard

namespace DirectiveFlow

namespace Group

variable {g : Group} {env : Environment} {step x : String} {inputs pre post : List String}
  {m : Member}

theorem offers_withMember (g : Group) (m : Member) :
    (g.withMember m).offers = g.offers ++ m.outputs := by
  rw [offers, members_withMember, List.flatMap_append, List.flatMap_singleton]
  rfl

/-- A member of the group could read the name. -/
def Sees (g : Group) (env : Environment) (x : String) : Prop :=
  x ∈ g.offers ∨ env.contains x

/-- Names that the group sees are passed over, with requests for those that it does not
offer itself. -/
theorem request_append (h : ∀ x ∈ pre, g.Sees env x) (post : List String) :
    g.request env step (pre ++ post) =
      { g with requests := g.requests ++ pre.filter (· ∉ g.offers) }.request env step post := by
  induction pre generalizing g with
  | nil => rw [List.nil_append, List.filter_nil, List.append_nil]
  | cons item rest ih =>
    obtain ⟨hi, h⟩ := List.forall_mem_cons.mp h
    rw [List.cons_append, request]
    by_cases ho : item ∈ g.offers
    · rw [if_pos ho, ih h, List.filter_cons_of_neg (by simpa using ho)]
    · have hrest := @ih { g with requests := g.requests ++ [item] } h
      rw [if_neg ho, if_pos (hi.resolve_left ho), hrest,
        List.filter_cons_of_pos (by simpa using ho), List.append_assoc]
      rfl

theorem request_found (h : ∀ x ∈ inputs, g.Sees env x) :
    g.request env step inputs =
      ({ g with requests := g.requests ++ inputs.filter (· ∉ g.offers) }, .ok ()) := by
  have happend : g.request env step (inputs ++ []) = _ := request_append h []
  rw [List.append_nil, request] at happend
  exact happend

theorem request_missing (h : ∀ x ∈ pre, g.Sees env x) (hx : ¬ g.Sees env x) :
    g.request env step (pre ++ x :: post) =
      ({ g with requests := g.requests ++ pre.filter (· ∉ g.offers) }, .error ⟨x, step⟩) := by
  obtain ⟨ho, hc⟩ := not_or.mp hx
  rw [request_append h, request]
  exact (if_neg ho).trans (if_neg hc)

/-- The group behind a member that it accepts, with requests for what it does not
offer itself. -/
def accept (g : Group) (m : Member) : Group :=
  { g with requests := g.requests ++ m.inputs.filter (· ∉ g.offers) }.withMember m

theorem offers_accept (g : Group) (m : Member) : (g.accept m).offers = g.offers ++ m.outputs :=
  offers_withMember _ m

theorem add_found (h : ∀ x ∈ m.inputs, g.Sees env x) : g.add env m = (g.accept m, .ok ()) := by
  rw [add, request_found h]
  rfl

theorem add_missing (hm : m.inputs = pre ++ x :: post) (h : ∀ x ∈ pre, g.Sees env x)
    (hx : ¬ g.Sees env x) : g.add env m =
      ({ g with requests := g.requests ++ pre.filter (· ∉ g.offers) }, .error ⟨x, m.name⟩) := by
  unfold add
  rw [hm, request_missing h hx]

end Group

/-- The group requests those of the names that it does not offer itself. -/
def GroupDraft.requesting (o : GroupDraft) (names : List String) : GroupDraft :=
  { o with group := { o.group with
      requests := o.group.requests ++ names.filter (· ∉ o.group.offers) } }

namespace Draft

variable {d : Draft} {s : Step} {m : Member} {c : Combine} {x : String} {pre post : List String}

theorem addMember_found (h : ∀ x ∈ m.inputs, d.groupDraft.group.Sees d.declared x) :
    ∃ o, d.addMember m = ({ d with current := some o }, .ok ()) ∧
      o.group.offers = d.groupDraft.group.offers ++ m.outputs ∧
      o.combines = d.groupDraft.combines := by
  rw [addMember_eq, Group.add_found h]
  exact ⟨_, rfl, Group.offers_accept _ m, rfl⟩

theorem addMember_missing (hm : m.inputs = pre ++ x :: post)
    (h : ∀ y ∈ pre, d.groupDraft.group.Sees d.declared y)
    (hx : ¬ d.groupDraft.group.Sees d.declared x) :
    d.addMember m =
      ({ d with current := some (d.groupDraft.requesting pre) }, .error ⟨x, m.name⟩) := by
  rw [addMember_eq, Group.add_missing hm h hx]
  rfl

theorem addReducer_found (h : d.groupDraft.group.Sees d.declared c.item) :
    ∃ o, d.addReducer c = ({ d with current := some o }, .ok ()) ∧
      o.group.offers = d.groupDraft.group.offers ++ [c.item] ∧
      o.combines = d.groupDraft.combines ++ [keyed d.groupDraft.group c] := by
  obtain ⟨o, ha, ho, hc⟩ := addMember_found (d := d) (m := (keyed d.groupDraft.group c).member)
    fun x hx => List.mem_singleton.mp hx ▸ h
  rcases d.addReducer_cases c with ⟨d₁, fault, hb, -⟩ | ⟨d₁, hb, he⟩
  · cases ha.symm.trans hb
  · cases ha.symm.trans hb
    exact ⟨_, he, ho, congrArg (· ++ _) hc⟩

theorem addReducer_missing (h : ¬ d.groupDraft.group.Sees d.declared c.item) :
    d.addReducer c =
      ({ d with current := some (d.groupDraft.requesting []) }, .error ⟨c.item, c.name⟩) := by
  have hm : (keyed d.groupDraft.group c).member.inputs = [] ++ c.item :: [] := rfl
  have ha := addMember_missing hm nofun h
  rcases d.addReducer_cases c with ⟨d₁, fault, hb, he⟩ | ⟨d₁, hb, -⟩
  · cases ha.symm.trans hb
    exact he
  · cases ha.symm.trans hb

theorem addStep_found (hf : s.Fits) (hk : s.kind ≠ .serial)
    (h : ∀ x ∈ s.reads, d.groupDraft.group.Sees d.declared x) :
    ∃ o, d.addStep s = ({ d with current := some o }, .ok ()) ∧
      o.group.offers = d.groupDraft.group.offers ++ s.offers ∧
      ((s.kind = .parallel ∧ o.combines = d.groupDraft.combines) ∨
        (s.kind = .reducer ∧ ∃ c, o.combines = d.groupDraft.combines ++ [c] ∧
          s.reads = [c.item] ∧ s.writes = [c.output])) := by
  rcases parallel_or_reducer hk with hp | hr
  · obtain ⟨operation, hb⟩ := hf.task (by simp [hp])
    simp only [addStep, Step.reads, Step.offers, hb, if_neg hk] at h ⊢
    obtain ⟨o, ha, ho, hc⟩ := addMember_found (d := d)
      (m := .task s.name s.inputs s.outputs operation) h
    exact ⟨o, ha, ho, .inl ⟨hp, hc⟩⟩
  · obtain ⟨reduction, hb⟩ := hf.fold hr
    simp only [addStep, Step.reads, Step.offers, Step.writes, hb] at h ⊢
    obtain ⟨o, ha, ho, hc⟩ := addReducer_found (d := d)
      (c := ⟨s.name, s.inputs.head?.getD "", s.inputs.head?.getD "", s.outputs.head?.getD "",
        reduction⟩) (h _ List.mem_cons_self)
    exact ⟨o, ha, ho, .inr ⟨hr, _, hc, rfl, rfl⟩⟩

theorem addStep_missing (hf : s.Fits) (hk : s.kind ≠ .serial) (hs : s.reads = pre ++ x :: post)
    (h : ∀ y ∈ pre, d.groupDraft.group.Sees d.declared y)
    (hx : ¬ d.groupDraft.group.Sees d.declared x) :
    d.addStep s =
      ({ d with current := some (d.groupDraft.requesting pre) }, .error ⟨x, s.name⟩) := by
  rcases parallel_or_reducer hk with hp | hr
  · obtain ⟨operation, hb⟩ := hf.task (by simp [hp])
    simp only [addStep, Step.reads, hb, if_neg hk] at hs ⊢
    exact addMember_missing (m := .task s.name s.inputs s.outputs operation) hs h hx
  · obtain ⟨reduction, hb⟩ := hf.fold hr
    simp only [addStep, Step.reads, hb] at hs ⊢
    -- a reducer has one item, which is the missing one
    cases pre with
    | nil =>
      obtain ⟨rfl, -⟩ := List.cons.inj hs
      exact addReducer_missing hx
    | cons y pre => simp at hs

end Draft

namespace Draft

variable {d d₁ : Draft} {s : Serial} {x : String} {pre post : List String}

theorem addSerial_found (hc : d.closeGroup = (d₁, .ok ()))
    (h : ∀ x ∈ s.inputs, d₁.flow.Finds x) :
    ∃ d' f, d.addSerial s = (d', .ok ()) ∧ d₁.flow.Located s.inputs f ∧
      d'.flow = f.addSerial s ∧ d'.current = d₁.current := by
  obtain ⟨d₂, he, hl, hcur⟩ := locateAll_found h s.name
  unfold addSerial
  rw [hc]
  simp only [he]
  exact ⟨_, d₂.flow, rfl, hl, rfl, hcur⟩

theorem addSerial_missing (hc : d.closeGroup = (d₁, .ok ()))
    (hs : s.inputs = pre ++ x :: post) (h : ∀ y ∈ pre, d₁.flow.Finds y)
    (hx : ¬ d₁.flow.Finds x) :
    ∃ d', d₁.locateAll s.name pre = (d', .ok ()) ∧ d.addSerial s = (d', .error ⟨x, s.name⟩) := by
  obtain ⟨d₂, hpre, he⟩ := locateAll_missing h hx s.name post
  refine ⟨d₂, hpre, ?_⟩
  rw [← hs] at he
  unfold addSerial
  rw [hc]
  simp only [he]

end Draft

/-- A flow offers and declares what the steps linked into it let others have. -/
structure Flow.Covers (f : Flow) (steps : List Step) : Prop where
  offered : ∀ x, x ∈ f.stages.flatMap Stage.offers ↔
    ∃ e ∈ steps, e.kind ≠ .serial ∧ x ∈ e.offers
  declared : ∀ x, f.declared.contains x ↔
    ∃ e ∈ steps, e.kind ≠ .parallel ∧ (x ∈ e.reads ∨ x ∈ e.writes)

/-- A group under construction offers what the steps of its run do, and combines for the reducers
among them. -/
structure GroupDraft.Covers (o : GroupDraft) (run : List Step) : Prop where
  offered : ∀ x, x ∈ o.group.offers ↔ ∃ e ∈ run, x ∈ e.offers
  combined : ∀ x, (∃ c ∈ o.combines, x = c.output ∨ x = c.item) ↔
    ∃ e ∈ run, e.kind = .reducer ∧ (x ∈ e.reads ∨ x ∈ e.writes)

section Covers

variable {f f₁ : Flow} {o o' : GroupDraft} {steps run : List Step} {s : Step} {x : String}

theorem exists_mem_snoc {p : Step → Prop} :
    (∃ e ∈ steps ++ [s], p e) ↔ (∃ e ∈ steps, p e) ∨ p s := by
  simp [or_and_right, exists_or]

theorem GroupDraft.Covers.snoc (h : o.Covers run)
    (ho : o'.group.offers = o.group.offers ++ s.offers)
    (hc : (s.kind = .parallel ∧ o'.combines = o.combines) ∨
      (s.kind = .reducer ∧ ∃ c, o'.combines = o.combines ++ [c] ∧
        s.reads = [c.item] ∧ s.writes = [c.output])) : o'.Covers (run ++ [s]) where
  offered x := by rw [ho, List.mem_append, h.offered, exists_mem_snoc]
  combined x := by
    rw [exists_mem_snoc, ← h.combined]
    rcases hc with ⟨hk, hc⟩ | ⟨hk, c, hc, hr, hw⟩
    · rw [hc, hk]
      exact (or_iff_left nofun).symm
    · rw [hc, hr, hw, List.mem_singleton, List.mem_singleton, or_comm (a := x = c.item)]
      simp [hk, or_and_right, exists_or]

/-- Closing a group over plain items: one of the combines over an item declares it. -/
theorem Flow.Covers.addGroup (h : f.Covers steps) (ho : o.Covers run)
    (hl : f.Located o.group.requests f₁) (hr : ∀ x ∈ o.group.requests, f.declared.contains x)
    (hs : ∀ c ∈ o.combines, ∃ c' ∈ o.combines, c'.item = c.item ∧ c'.isPrivate = false)
    (hk : ∀ e ∈ run, e.kind ≠ .serial) : (f₁.addGroup o).Covers (steps ++ run) where
  offered x := by
    unfold Flow.addGroup
    rw [List.flatMap_append, List.flatMap_cons, flatMap_combines fun _ => rfl, List.append_nil,
      List.mem_append, hl.offers_eq, h.offered]
    change _ ∨ x ∈ o.group.offers ↔ _
    rw [ho.offered]
    constructor
    · rintro (⟨e, he, hx⟩ | ⟨e, he, hx⟩)
      · exact ⟨e, List.mem_append_left _ he, hx⟩
      · exact ⟨e, List.mem_append_right _ he, hk e he, hx⟩
    · rintro ⟨e, he, hx⟩
      exact (List.mem_append.mp he).imp (fun he => ⟨e, he, hx⟩) fun he => ⟨e, he, hx.2⟩
  declared x := by
    unfold Flow.addGroup
    rw [Draft.contains_declareCombines, hl.contains]
    have hdeclared : f.declared.contains x ∨ x ∈ o.group.requests ↔ f.declared.contains x :=
      or_iff_left_of_imp (hr x)
    have hcombined : (∃ c ∈ o.combines, x = c.output ∨ (c.isPrivate = false ∧ x = c.item)) ↔
        ∃ e ∈ run, e.kind = .reducer ∧ (x ∈ e.reads ∨ x ∈ e.writes) := by
      rw [← ho.combined]
      constructor
      · rintro ⟨c, hc, hx⟩
        exact ⟨c, hc, hx.imp_right And.right⟩
      · rintro ⟨c, hc, hx | rfl⟩
        · exact ⟨c, hc, .inl hx⟩
        · obtain ⟨c', hc', hi, hp⟩ := hs c hc
          exact ⟨c', hc', .inr ⟨hp, hi.symm⟩⟩
    rw [hdeclared, hcombined, h.declared]
    constructor
    · rintro (⟨e, he, hx⟩ | ⟨e, he, hr, hx⟩)
      · exact ⟨e, List.mem_append_left _ he, hx⟩
      · exact ⟨e, List.mem_append_right _ he, by rw [hr]; nofun, hx⟩
    · rintro ⟨e, he, hp, hx⟩
      refine (List.mem_append.mp he).imp (fun he => ⟨e, he, hp, hx⟩) fun he => ?_
      exact ⟨e, he, (parallel_or_reducer (hk e he)).resolve_left hp, hx⟩

theorem Flow.Covers.addSerial (h : f.Covers steps) (hk : s.kind = .serial) {operation : Operation}
    (hb : s.body = .task operation) (hl : f.Located s.inputs f₁) :
    (f₁.addSerial ⟨s.name, s.inputs, s.outputs, operation⟩).Covers (steps ++ [s]) where
  offered x := by
    unfold Flow.addSerial
    rw [List.flatMap_append, List.mem_append, hl.offers_eq, h.offered, exists_mem_snoc]
    exact or_congr_right ⟨fun hx => absurd hx List.not_mem_nil, fun hx => absurd hk hx.1⟩
  declared x := by
    unfold Flow.addSerial
    have hs : (s.kind ≠ .parallel ∧ (x ∈ s.reads ∨ x ∈ s.writes)) ↔
        x ∈ s.inputs ∨ x ∈ s.outputs := by
      rw [Step.reads, Step.writes, hb, hk]
      exact and_iff_right (by decide)
    rw [Environment.contains_declareAll, hl.contains, h.declared, exists_mem_snoc, hs]
    exact or_comm.trans or_assoc

theorem Flow.Covers.finds_iff (h : f.Covers steps) (ha : AllAvailable [] steps)
    (hf : ∀ e ∈ steps, e.Fits) : f.Finds x ↔ ∃ e ∈ steps, x ∈ e.writes := by
  unfold Flow.Finds
  rw [h.offered, h.declared]
  constructor
  · rintro (⟨e, he, hk, hx⟩ | ⟨e, he, hk, hx⟩)
    · rcases parallel_or_reducer hk with hp | hr
      · exact ⟨e, he, (hf e he).offers_of_parallel hp ▸ hx⟩
      · exact ha.written e he x ((hf e he).offers_of_reducer hr ▸ hx)
    · exact hx.elim (ha.written e he x) fun hw => ⟨e, he, hw⟩
  · rintro ⟨e, he, hx⟩
    by_cases hp : e.kind = .parallel
    · exact .inl ⟨e, he, by rw [hp]; nofun, (hf e he).offers_of_parallel hp ▸ hx⟩
    · exact .inr ⟨e, he, hp, .inr hx⟩

theorem GroupDraft.Covers.sees_iff (h : o.Covers (openRun steps)) (hf : f.Covers (beforeRun steps))
    (ha : AllAvailable [] steps) (hfit : ∀ e ∈ steps, e.Fits) :
    o.group.Sees f.declared x ↔ InReach steps x := by
  unfold Group.Sees
  rw [h.offered, hf.declared]
  constructor
  · rintro (⟨e, he, hx⟩ | ⟨e, he, hk, hx⟩)
    · have hmem := mem_iff_beforeRun_or_openRun.mpr (.inr he)
      rcases parallel_or_reducer (not_serial_of_mem_openRun he) with hp | hr
      · exact .inl ⟨e, he, hp, (hfit e hmem).offers_of_parallel hp ▸ hx⟩
      · exact ha.inReach e he x ((hfit e hmem).offers_of_reducer hr ▸ hx)
    · by_cases hs : e.kind = .serial
      · exact .inr (.inl ⟨e, mem_iff_beforeRun_or_openRun.mpr (.inl he), hs, hx⟩)
      · exact .inr (.inr ⟨e, he, (parallel_or_reducer hs).resolve_left hk, hx⟩)
  · rintro (⟨e, he, hp, hx⟩ | ⟨e, he, hs, hx⟩ | ⟨e, he, hr, hx⟩)
    · have hmem := mem_iff_beforeRun_or_openRun.mpr (.inr he)
      exact .inl ⟨e, he, (hfit e hmem).offers_of_parallel hp ▸ hx⟩
    · refine .inr ⟨e, ?_, by rw [hs]; nofun, hx⟩
      exact (mem_iff_beforeRun_or_openRun.mp he).resolve_right fun he =>
        not_serial_of_mem_openRun he hs
    · exact .inr ⟨e, he, by rw [hr]; nofun, hx⟩

end Covers

theorem GroupDraft.covers_empty : GroupDraft.empty.Covers [] := by
  constructor <;> simp [GroupDraft.empty, Group.offers, Group.empty]

namespace Draft

/-- A draft behind accepted steps of a script: its flow covers the runs that are closed, its
group the open one. -/
structure Tracks (d : Draft) (steps before : List Step) : Prop where
  linked : d.Linked steps
  mem : ∀ e ∈ before, e ∈ steps
  available : AllAvailable [] before
  closed : d.flow.Covers (beforeRun before)
  current : d.groupDraft.Covers (openRun before)

theorem tracks_empty (steps : List Step) : empty.Tracks steps [] where
  linked := linked_empty steps
  mem := nofun
  available := trivial
  closed := ⟨by simp [beforeRun, flow, empty], by simp [beforeRun, flow, empty]⟩
  current := GroupDraft.covers_empty

namespace Tracks

variable {d d' : Draft} {steps before : List Step} {s : Step} {x : String}

theorem line (h : d.Tracks steps before) (line : Nat) :
    { d with line := line }.Tracks steps before where
  linked := h.linked.line line
  mem := h.mem
  available := h.available
  closed := h.closed
  current := h.current

theorem closeGroup (h : d.Tracks steps before)
    (hp : ∀ s ∈ steps, s.kind = .reducer → ∀ x ∈ s.reads, Plain x) (hf : ∀ s ∈ steps, s.Fits) :
    ∃ d', d.closeGroup = (d', .ok ()) ∧ d'.flow.Covers before ∧ d'.current = none := by
  obtain ⟨d', hc, -, hn⟩ := h.linked.closeGroup
  refine ⟨d', hc, ?_, hn⟩
  rcases closeGroup_eq_ok hc with ⟨hcur, rfl⟩ | ⟨o, f, ho, hl, hflow, -⟩
  · have hopen : GroupDraft.empty.Covers (openRun before) := by
      have ho := h.current
      rw [groupDraft, hcur] at ho
      exact ho
    have hf := h.closed.addGroup hopen (.nil _) nofun nofun fun e => not_serial_of_mem_openRun
    rw [beforeRun_append_openRun] at hf
    refine ⟨fun x => ?_, hf.declared⟩
    rw [← hf.offered]
    simp [Flow.addGroup, GroupDraft.empty, Stage.offers, Group.offers, Group.empty]
  · obtain ⟨hformed, hr⟩ := h.linked.current o ho
    have hopen : o.Covers (openRun before) := by
      have ho' := h.current
      rw [groupDraft, ho] at ho'
      exact ho'
    have hplain : ∀ c ∈ o.combines, Plain c.item := by
      intro c hm
      obtain ⟨s, hs, -, hi, -, hb⟩ := hformed.called c hm
      refine hp s hs ((hf s hs).reducer hb) c.item ?_
      rw [Step.reads, hb, hi]
      exact List.mem_cons_self
    rw [hflow, ← beforeRun_append_openRun before]
    exact h.closed.addGroup hopen hl hr (fun c hm => hformed.exists_shared hplain hm)
      fun e he => not_serial_of_mem_openRun he

variable (h : d.Tracks steps before) (hs : s ∈ steps)
  (hp : ∀ s ∈ steps, s.kind = .reducer → ∀ x ∈ s.reads, Plain x) (hf : ∀ s ∈ steps, s.Fits)

include h hf in
theorem sees_iff (hk : s.kind ≠ .serial) :
    d.groupDraft.group.Sees d.declared x ↔ s.Available before x := by
  rw [Step.Available, if_neg hk]
  exact h.current.sees_iff h.closed h.available fun e he => hf e (h.mem e he)

include h hf in
theorem finds_iff (hk : s.kind = .serial) (hc : d'.flow.Covers before) :
    d'.flow.Finds x ↔ s.Available before x := by
  rw [Step.Available, if_pos hk]
  exact hc.finds_iff h.available fun e he => hf e (h.mem e he)

include h hs hp hf

theorem addStep_found (ha : ∀ x ∈ s.reads, s.Available before x) :
    ∃ d', d.addStep s = (d', .ok ()) ∧ d'.Tracks steps (before ++ [s]) := by
  have hmem : ∀ e ∈ before ++ [s], e ∈ steps :=
    List.forall_mem_append.mpr ⟨h.mem, List.forall_mem_singleton.mpr hs⟩
  have hall : AllAvailable [] (before ++ [s]) := allAvailable_snoc.mpr ⟨h.available, ha⟩
  have hlinked := h.linked.addStep hs
  by_cases hk : s.kind = .serial
  · obtain ⟨operation, hb⟩ := (hf s hs).task (by simp [hk])
    obtain ⟨d₁, hc, hcov, hn⟩ := h.closeGroup hp hf
    obtain ⟨d₂, f, he, hl, hflow, hcur⟩ := addSerial_found
      (s := ⟨s.name, s.inputs, s.outputs, operation⟩) hc fun x hx =>
        (h.finds_iff hf hk hcov).mpr (ha x (by rw [Step.reads, hb]; exact hx))
    rw [d.addStep_serial hk hb, he] at hlinked ⊢
    refine ⟨d₂, rfl, hlinked, hmem, hall, ?_, ?_⟩
    · rw [beforeRun_of_serial hk, hflow]
      exact hcov.addSerial hk hb hl
    · rw [openRun_of_serial hk, groupDraft, hcur.trans hn]
      exact GroupDraft.covers_empty
  · obtain ⟨o, he, ho, hc⟩ := Draft.addStep_found (hf s hs) hk fun x hx =>
      (h.sees_iff hf hk).mpr (ha x hx)
    rw [he] at hlinked ⊢
    refine ⟨_, rfl, hlinked, hmem, hall, ?_, ?_⟩
    · rw [beforeRun_of_not_serial hk]
      exact h.closed
    · rw [openRun_of_not_serial hk]
      exact h.current.snoc ho hc

theorem addStep_missing {pre post : List String} (hr : s.reads = pre ++ x :: post)
    (ha : ∀ y ∈ pre, s.Available before y) (hx : ¬ s.Available before x) :
    ∃ d', d.addStep s = (d', .error ⟨x, s.name⟩) := by
  by_cases hk : s.kind = .serial
  · obtain ⟨operation, hb⟩ := (hf s hs).task (by simp [hk])
    obtain ⟨d₁, hc, hcov, -⟩ := h.closeGroup hp hf
    rw [Step.reads, hb] at hr
    rw [d.addStep_serial hk hb]
    obtain ⟨d', -, he⟩ := addSerial_missing (s := ⟨s.name, s.inputs, s.outputs, operation⟩) hc hr
      (fun y hy => (h.finds_iff hf hk hcov).mpr (ha y hy)) (mt (h.finds_iff hf hk hcov).mp hx)
    exact ⟨d', he⟩
  · exact ⟨_, Draft.addStep_missing (hf s hs) hk hr
      (fun y hy => (h.sees_iff hf hk).mpr (ha y hy)) (mt (h.sees_iff hf hk).mp hx)⟩

end Tracks

section Lines

variable {r : Repertoire} {d : Draft} {steps before : List Step} {line : Nat} {lines : List String}
  (h : d.Tracks steps before) (hs : ∀ s ∈ r.steps lines, s ∈ steps)
  (hl : ∀ text ∈ lines, r.Reads text) (hf : ∀ s ∈ steps, s.Fits)
  (hp : ∀ s ∈ steps, s.kind = .reducer → ∀ x ∈ s.reads, Plain x)

include h hs hl hf hp

theorem addLines_found (line : Nat) (ha : AllAvailable before (r.steps lines)) :
    ∃ d', d.addLines r line lines = (d', .ok ()) ∧ d'.Tracks steps (before ++ r.steps lines) := by
  induction lines generalizing d before line with
  | nil => exact ⟨d, rfl, by simpa [Repertoire.steps] using h⟩
  | cons text lines ih =>
    obtain ⟨htext, hl⟩ := List.forall_mem_cons.mp hl
    cases hc : r.step? text with
    | none =>
      have hsteps : r.steps (text :: lines) = r.steps lines := List.filterMap_cons_none hc
      rw [hsteps] at hs ha ⊢
      obtain ⟨d', he, ht⟩ := ih (h.line line) hs hl (line + 1) ha
      refine ⟨d', ?_, ht⟩
      rw [addLines, addLine_blank htext hc]
      exact he
    | some s =>
      have hsteps : r.steps (text :: lines) = s :: r.steps lines := List.filterMap_cons_some hc
      rw [hsteps] at hs ha ⊢
      obtain ⟨hmem, hs⟩ := List.forall_mem_cons.mp hs
      obtain ⟨d₁, hadd, h₁⟩ := (h.line line).addStep_found hmem hp hf ha.1
      obtain ⟨d', he, ht⟩ := ih h₁ hs hl (line + 1) ha.2
      refine ⟨d', ?_, by rwa [List.append_assoc] at ht⟩
      rw [addLines, addLine_call hc, hadd]
      exact he

theorem addLines_missing {n : Nat} {s : Step} {x : String}
    (hm : FirstMissing before (r.calls line lines) n s x) :
    ∃ d', d.addLines r line lines = (d', .error (.outOfScope n ⟨x, s.name⟩)) := by
  induction lines generalizing d before line with
  | nil =>
    obtain ⟨front, back, -, -, hc, -⟩ := hm
    exact absurd hc.symm (by simp [Repertoire.calls])
  | cons text lines ih =>
    obtain ⟨htext, hl⟩ := List.forall_mem_cons.mp hl
    cases hc : r.step? text with
    | none =>
      have hsteps : r.steps (text :: lines) = r.steps lines := List.filterMap_cons_none hc
      rw [hsteps] at hs
      rw [Repertoire.calls_cons_of_none hc] at hm
      obtain ⟨d', he⟩ := ih (h.line line) hs hl hm
      refine ⟨d', ?_⟩
      rw [addLines, addLine_blank htext hc]
      exact he
    | some s' =>
      have hsteps : r.steps (text :: lines) = s' :: r.steps lines := List.filterMap_cons_some hc
      rw [hsteps] at hs
      obtain ⟨hmem, hs⟩ := List.forall_mem_cons.mp hs
      rw [Repertoire.calls_cons_of_some hc] at hm
      rcases firstMissing_cons.mp hm with ⟨rfl, rfl, pre, post, hr, hpre, hx⟩ | ⟨ha, hm⟩
      · obtain ⟨d', he⟩ := (h.line line).addStep_missing hmem hp hf hr hpre hx
        refine ⟨d', ?_⟩
        rw [addLines, addLine_call hc, he]
        rfl
      · obtain ⟨d₁, hadd, h₁⟩ := (h.line line).addStep_found hmem hp hf ha
        obtain ⟨d', he⟩ := ih h₁ hs hl hm
        refine ⟨d', ?_⟩
        rw [addLines, addLine_call hc, hadd]
        exact he

end Lines

end Draft

/-- A readable script over plain reducer items has a flow exactly if every step reads available
names only; otherwise it is refused for the first name that is not available. -/
theorem Flow.ofLines_ok_iff {r : Repertoire} {lines : List String}
    (hl : ∀ text ∈ lines, r.Reads text)
    (hp : ∀ s ∈ r.steps lines, s.kind = .reducer → ∀ x ∈ s.reads, Plain x) :
    ((∃ f, Flow.ofLines r lines = .ok f) ↔ AllAvailable [] (r.steps lines)) ∧
      (¬ AllAvailable [] (r.steps lines) → ∃ line s x,
        FirstMissing [] (r.calls 1 lines) line s x ∧
          Flow.ofLines r lines = .error (.outOfScope line ⟨x, s.name⟩)) := by
  have hf : ∀ s ∈ r.steps lines, s.Fits := fun s => Repertoire.fits_of_mem_steps
  have ht := Draft.tracks_empty (r.steps lines)
  have hmissing : ¬ AllAvailable [] (r.steps lines) → ∃ line s x,
      FirstMissing [] (r.calls 1 lines) line s x ∧
        Flow.ofLines r lines = .error (.outOfScope line ⟨x, s.name⟩) := by
    intro hn
    rw [← r.calls_map_snd 1 lines] at hn
    obtain ⟨line, s, x, hm⟩ := (allAvailable_or_firstMissing [] (r.calls 1 lines)).resolve_left hn
    obtain ⟨d, hd⟩ := Draft.addLines_missing ht (fun _ => id) hl hf hp hm
    refine ⟨line, s, x, hm, ?_⟩
    unfold Flow.ofLines Draft.ofLines
    rw [hd]
  refine ⟨⟨fun ⟨f, hok⟩ => ?_, fun ha => ?_⟩, hmissing⟩
  · by_contra hn
    obtain ⟨line, s, x, -, he⟩ := hmissing hn
    cases hok.symm.trans he
  · obtain ⟨d, hd, htracks⟩ := Draft.addLines_found ht (fun _ => id) hl hf hp 1 ha
    obtain ⟨f, hok, -⟩ := htracks.linked.complete
    refine ⟨f, ?_⟩
    unfold Flow.ofLines Draft.ofLines
    rw [hd]
    exact hok

/-- The total of a run is not available within it; the blank line counts. -/
theorem Flow.ofLines_ok_iff_of_total :
    let lines := ["lst (> a) 3", "", "reduce_sum (a > t)", "incr (t)"]
    (∀ text ∈ lines, Standard.repertoire.Reads text) ∧
    (∀ s ∈ Standard.repertoire.steps lines, s.kind = .reducer → ∀ x ∈ s.reads, Plain x) ∧
    ¬ AllAvailable [] (Standard.repertoire.steps lines) ∧
    ¬ (∃ f, Flow.ofLines Standard.repertoire lines = .ok f) ∧
    ∃ line s x, FirstMissing [] (Standard.repertoire.calls 1 lines) line s x ∧
      Flow.ofLines Standard.repertoire lines = .error (.outOfScope line ⟨x, s.name⟩) := by
  intro lines
  have hl : ∀ text ∈ lines, Standard.repertoire.Reads text := by
    simp only [lines, List.forall_mem_cons]
    exact ⟨⟨_, rfl, .inr ⟨_, rfl⟩⟩, ⟨_, rfl, .inl rfl⟩, ⟨_, rfl, .inr ⟨_, rfl⟩⟩,
      ⟨_, rfl, .inr ⟨_, rfl⟩⟩, nofun⟩
  have hp : ∀ s ∈ Standard.repertoire.steps lines, s.kind = .reducer → ∀ x ∈ s.reads, Plain x := by
    decide +kernel
  have hn : ¬ AllAvailable [] (Standard.repertoire.steps lines) := by decide +kernel
  have h := Flow.ofLines_ok_iff hl hp
  exact ⟨hl, hp, hn, mt h.1.mp hn, h.2 hn⟩

-- a private key "a#1" hides the item of the same name, which is then never declared
example :
    let lines := ["lst (> a) 3", "reduce_sum (a > s)", "reduce_max (a > t)",
      "incr (a > \"a#1\")", "reduce_sum (\"a#1\" > u)", "src (> z) 1", "incr (\"a#1\")"]
    AllAvailable [] (Standard.repertoire.steps lines) ∧
      Flow.ofLines Standard.repertoire lines = .error (.outOfScope 7 ⟨"a#1", "incr"⟩) :=
  ⟨by decide +kernel, rfl⟩

end DirectiveFlow
