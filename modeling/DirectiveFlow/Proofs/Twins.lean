import DirectiveFlow.Proofs.Accepting
import DirectiveFlow.Proofs.Exchanging

namespace DirectiveFlow

namespace Group

variable {g g' next : Group} {env : Environment} {a b m : Member} {x : String}

theorem members_accept (g : Group) (m : Member) : (g.accept m).members = g.members ++ [m] :=
  members_withMember _ m

theorem requests_withMember (g : Group) (m : Member) : (g.withMember m).requests = g.requests := by
  cases m with
  | task => rfl
  | fold => exact gather_requests

theorem mem_requests_accept :
    x ∈ (g.accept m).requests ↔ x ∈ g.requests ∨ (x ∈ m.inputs ∧ x ∉ g.offers) := by
  rw [accept, requests_withMember, List.mem_append, List.mem_filter, decide_eq_true_iff]

theorem add_eq_ok :
    g.add env m = (next, .ok ()) ↔ (∀ x ∈ m.inputs, g.Sees env x) ∧ next = g.accept m := by
  rcases forall_or_first (g.Sees env) m.inputs with h | ⟨pre, x, post, hi, hpre, hx⟩
  · rw [add_found h, and_iff_right h]
    exact ⟨fun he => by cases he; rfl, fun he => by rw [he]⟩
  · rw [add_missing hi hpre hx]
    constructor
    · intro he
      cases he
    · rintro ⟨h, -⟩
      exact absurd (h x (hi ▸ List.mem_append_right pre List.mem_cons_self)) hx

theorem sees_accept : (g.accept m).Sees env x ↔ g.Sees env x ∨ x ∈ m.outputs := by
  rw [Sees, Sees, offers_accept, List.mem_append, or_right_comm]

namespace Twin

theorem refl (g : Group) : g.Twin g := ⟨.refl _, fun _ => Iff.rfl⟩

theorem mem_offers (h : g.Twin g') (x : String) : x ∈ g'.offers ↔ x ∈ g.offers :=
  (h.members.perm.flatMap_right Member.outputs).mem_iff.symm

theorem sees_iff (h : g.Twin g') : g'.Sees env x ↔ g.Sees env x :=
  or_congr_left (h.mem_offers x)

theorem gather_left (h : g.Twin g') (item : String) : (g.gather item).Twin g' where
  members := by
    rw [gather_members]
    exact h.members
  requests := by
    rw [gather_requests]
    exact h.requests

theorem gather_right (h : g.Twin g') (item : String) : g.Twin (g'.gather item) where
  members := by
    rw [gather_members]
    exact h.members
  requests := by
    rw [gather_requests]
    exact h.requests

theorem accept (h : g.Twin g') (m : Member) : (g.accept m).Twin (g'.accept m) where
  members := by
    rw [members_accept, members_accept]
    exact h.members.append [m]
  requests := by
    intro x
    rw [mem_requests_accept, mem_requests_accept, h.requests, h.mem_offers]

theorem keyed_eq (h : g.Twin g') (c : Combine) : Draft.keyed g' c = Draft.keyed g c := by
  rw [Draft.keyed, Draft.keyed, Draft.freePartials, Draft.freePartials, h.partials_eq,
    h.members.perm.length_eq]

/-- The order in which independent members are accepted is the only difference that it makes. -/
theorem accept_comm (h : a.Independent b) (g : Group) :
    ((g.accept a).accept b).Twin ((g.accept b).accept a) where
  members := by
    simp only [members_accept, List.append_assoc]
    exact Exchanged.behind g.members (.swap [] h)
  requests := by
    intro x
    simp only [mem_requests_accept, offers_accept, List.mem_append, not_or]
    have ha : x ∈ b.inputs → x ∉ a.outputs := fun hb ha => (h.left x ha).1 hb
    have hb : x ∈ a.inputs → x ∉ b.outputs := fun ha hb => (h.right x hb).1 ha
    tauto

end Twin

end Group

namespace Stage.Matches

variable {stage stage' : Stage}

theorem refl (stage : Stage) : stage.Matches Group.Twin stage := by
  cases stage with
  | serial s => exact .serial s
  | group g => exact .group (.refl g)
  | combine c => exact .combine c

theorem mem_offers (h : stage.Matches Group.Twin stage') (x : String) :
    x ∈ stage'.offers ↔ x ∈ stage.offers := by
  cases h with
  | serial s => exact Iff.rfl
  | group hg => exact hg.mem_offers x
  | combine c => exact Iff.rfl

theorem mem_needs (h : stage.Matches Group.Twin stage') (x : String) :
    x ∈ stage'.needs ↔ x ∈ stage.needs := by
  cases h with
  | serial s => exact Iff.rfl
  | group hg => exact hg.requests x
  | combine c => exact Iff.rfl

theorem mem_operations (h : stage.Matches Group.Twin stage') (operation : String × Operation) :
    operation ∈ stage'.operations ↔ operation ∈ stage.operations := by
  cases h with
  | serial s => exact Iff.rfl
  | group hg => exact (hg.members.perm.filterMap _).mem_iff.symm
  | combine c => exact Iff.rfl

theorem gather_left (h : stage.Matches Group.Twin stage') (item : String) :
    (stage.gather item).Matches Group.Twin stage' := by
  cases h with
  | serial s => exact .serial s
  | group hg => exact .group (hg.gather_left item)
  | combine c => exact .combine c

theorem gather_right (h : stage.Matches Group.Twin stage') (item : String) :
    stage.Matches Group.Twin (stage'.gather item) := by
  cases h with
  | serial s => exact .serial s
  | group hg => exact .group (hg.gather_right item)
  | combine c => exact .combine c

end Stage.Matches

section Matching

variable {stages stages' : List Stage}

theorem mem_flatMap_matches {β : Type} {names : Stage → List β} {x : β}
    (hn : ∀ stage stage' : Stage, stage.Matches Group.Twin stage' →
      (x ∈ names stage' ↔ x ∈ names stage))
    (h : List.Forall₂ (Stage.Matches Group.Twin) stages stages') :
    x ∈ stages'.flatMap names ↔ x ∈ stages.flatMap names := by
  induction h with
  | nil => exact Iff.rfl
  | cons hs _ ih =>
    rw [List.flatMap_cons, List.flatMap_cons, List.mem_append, List.mem_append, ih, hn _ _ hs]

theorem gatherFirst_left (h : List.Forall₂ (Stage.Matches Group.Twin) stages stages')
    (item : String) :
    List.Forall₂ (Stage.Matches Group.Twin) (gatherFirst stages item) stages' := by
  induction h with
  | nil => exact .nil
  | cons hs h ih =>
    rw [gatherFirst]
    split
    · exact .cons (hs.gather_left item) h
    · exact .cons hs ih

theorem gatherFirst_right (h : List.Forall₂ (Stage.Matches Group.Twin) stages stages')
    (item : String) :
    List.Forall₂ (Stage.Matches Group.Twin) stages (gatherFirst stages' item) := by
  induction h with
  | nil => exact .nil
  | cons hs h ih =>
    rw [gatherFirst]
    split
    · exact .cons (hs.gather_right item) h
    · exact .cons hs ih

/-- What is gathered does not matter to twins. -/
theorem gatherAll_matches (h : List.Forall₂ (Stage.Matches Group.Twin) stages stages')
    (items items' : List String) :
    List.Forall₂ (Stage.Matches Group.Twin) (items.foldl gatherFirst stages)
      (items'.foldl gatherFirst stages') := by
  induction items generalizing stages with
  | cons item items ih => exact ih (gatherFirst_left h item)
  | nil =>
    induction items' generalizing stages' with
    | nil => exact h
    | cons item items' ih => exact ih (gatherFirst_right h item)

end Matching

/-- Two flows with the same items declared and the same stages, but for groups that are twins. -/
structure Flow.Twin (f f' : Flow) : Prop where
  stages : List.Forall₂ (Stage.Matches Group.Twin) f.stages f'.stages
  declared : f'.declared = f.declared

/-- Two open groups that are twins and have the same combines. -/
structure GroupDraft.Twin (o o' : GroupDraft) : Prop where
  group : o.group.Twin o'.group
  combines : o'.combines = o.combines

namespace Flow.Twin

variable {f f' e e' : Flow} {o o' : GroupDraft} {items items' : List String} {x : String}

theorem refl (f : Flow) : f.Twin f where
  stages := List.forall₂_same.mpr fun stage _ => .refl stage
  declared := rfl

theorem finds_iff (h : f.Twin f') : f'.Finds x ↔ f.Finds x := by
  rw [Finds, Finds, h.declared,
    mem_flatMap_matches (fun _ _ hs => hs.mem_offers x) h.stages]

theorem located (h : f.Twin f') (hl : f.Located items e) (hl' : f'.Located items' e')
    (hi : ∀ x, x ∈ items' ↔ x ∈ items) : e.Twin e' where
  stages := by
    rw [hl.stages, hl'.stages]
    exact gatherAll_matches h.stages items items'
  declared := by
    apply Environment.eq_of_values
    · intro x
      rw [Bool.eq_iff_iff, hl.contains, hl'.contains, h.declared, hi]
    · intro x
      rw [hl.value?, hl'.value?, h.declared]

theorem addGroup (h : f.Twin f') (ho : o.Twin o') : (f.addGroup o).Twin (f'.addGroup o') where
  stages := by
    rw [Flow.addGroup, Flow.addGroup, ho.combines]
    apply List.rel_append h.stages
    apply List.Forall₂.cons (.group ho.group)
    apply List.forall₂_same.mpr
    intro stage hs
    obtain ⟨c, -, rfl⟩ := List.mem_map.mp hs
    exact .combine c
  declared := by
    rw [Flow.addGroup, Flow.addGroup, h.declared, ho.combines]

theorem addSerial (h : f.Twin f') (s : Serial) : (f.addSerial s).Twin (f'.addSerial s) where
  stages := List.rel_append h.stages (.cons (.serial s) .nil)
  declared := by
    rw [Flow.addSerial, Flow.addSerial, h.declared]

end Flow.Twin

namespace Draft

variable {d d' e : Draft} {r : Repertoire} {s : Step} {m : Member} {o : GroupDraft}

theorem finds_of_locateAll {step : String} {items : List String}
    (h : d.locateAll step items = (e, .ok ())) : ∀ x ∈ items, d.flow.Finds x := by
  rcases forall_or_first d.flow.Finds items with hf | ⟨pre, x, post, rfl, hpre, hx⟩
  · exact hf
  · obtain ⟨_, -, he⟩ := locateAll_missing hpre hx step post
    cases h.symm.trans he

theorem closeGroup_found (ho : d.current = some o)
    (hf : ∀ x ∈ o.group.requests, d.flow.Finds x) :
    ∃ e f, d.closeGroup = (e, .ok ()) ∧ d.flow.Located o.group.requests f ∧
      e.flow = f.addGroup o ∧ e.current = none := by
  have hf' : ∀ x ∈ o.group.requests, { d with current := none }.flow.Finds x := hf
  obtain ⟨d₁, he, hl, hc⟩ := locateAll_found hf' o.group.name
  rw [closeGroup, ho]
  simp only [he]
  exact ⟨_, d₁.flow, rfl, hl, rfl, hc⟩

theorem finds_of_closeGroup (ho : d.current = some o) (hc : d.closeGroup = (e, .ok ())) :
    ∀ x ∈ o.group.requests, d.flow.Finds x := by
  rw [closeGroup, ho] at hc
  cases hd : { d with current := none }.locateAll o.group.name o.group.requests with
  | mk d₁ result =>
    simp only [hd] at hc
    cases result with
    | error fault => cases hc
    | ok => exact fun x hx => finds_of_locateAll hd x hx

theorem addMember_eq_accept : d.addMember m = (e, .ok ()) ↔
    (∀ x ∈ m.inputs, d.groupDraft.group.Sees d.declared x) ∧
      e = { d with
        current := some { d.groupDraft with group := d.groupDraft.group.accept m } } := by
  rw [addMember_eq]
  constructor
  · intro h
    obtain ⟨he, hr⟩ := Prod.mk.inj h
    have ha : d.groupDraft.group.add d.declared m =
        ((d.groupDraft.group.add d.declared m).1, .ok ()) := Prod.ext rfl hr
    obtain ⟨hs, hg⟩ := Group.add_eq_ok.mp ha
    rw [hg] at he
    exact ⟨hs, he.symm⟩
  · rintro ⟨hs, rfl⟩
    rw [Group.add_eq_ok.mpr ⟨hs, rfl⟩]

theorem addLines_cons_of_ok {line : Nat} {text : String} {lines : List String}
    (h : d.addLine r line text = (d', .ok ())) :
    d.addLines r line (text :: lines) = d'.addLines r (line + 1) lines := by
  rw [addLines, h]

/-- Two drafts whose flows and open groups are twins. -/
structure Twin (d d' : Draft) : Prop where
  flow : d.flow.Twin d'.flow
  current : Option.Rel GroupDraft.Twin d.current d'.current

namespace Twin

theorem line (h : d.Twin d') (line : Nat) :
    { d with line := line }.Twin { d' with line := line } :=
  ⟨h.flow, h.current⟩

theorem current_cases (h : d.Twin d') : (d.current = none ∧ d'.current = none) ∨
    ∃ o o', d.current = some o ∧ d'.current = some o' ∧ o.Twin o' := by
  obtain ⟨-, hcur⟩ := h
  generalize d.current = c, d'.current = c' at hcur
  cases hcur with
  | none => exact .inl ⟨rfl, rfl⟩
  | some ho => exact .inr ⟨_, _, rfl, rfl, ho⟩

theorem groupDraft (h : d.Twin d') : d.groupDraft.Twin d'.groupDraft := by
  rw [Draft.groupDraft, Draft.groupDraft]
  rcases h.current_cases with ⟨hn, hn'⟩ | ⟨o, o', ho, ho', htwin⟩
  · rw [hn, hn']
    exact ⟨.refl _, rfl⟩
  · rw [ho, ho']
    exact htwin

theorem closeGroup (h : d.Twin d') (hc : d.closeGroup = (e, .ok ())) :
    ∃ e', d'.closeGroup = (e', .ok ()) ∧ e.Twin e' := by
  rcases h.current_cases with ⟨hn, hn'⟩ | ⟨o, o', ho, ho', htwin⟩
  · rw [Draft.closeGroup, hn] at hc
    cases hc
    refine ⟨d', ?_, h⟩
    rw [Draft.closeGroup, hn']
  · rcases closeGroup_eq_ok hc with ⟨hn, -⟩ | ⟨_, f, hcur, hl, hf, hn⟩
    · cases hn.symm.trans ho
    cases ho.symm.trans hcur
    have hfinds : ∀ x ∈ o'.group.requests, d'.flow.Finds x := by
      intro x hx
      apply h.flow.finds_iff.mpr
      exact finds_of_closeGroup ho hc x ((htwin.group.requests x).mp hx)
    obtain ⟨e', f', hc', hl', hf', hn'⟩ := closeGroup_found ho' hfinds
    refine ⟨e', hc', ?_, ?_⟩
    · rw [hf, hf']
      exact (h.flow.located hl hl' htwin.group.requests).addGroup htwin
    · rw [hn, hn']
      exact .none

theorem addSerial (h : d.Twin d') {s : Serial} (ha : d.addSerial s = (e, .ok ())) :
    ∃ e', d'.addSerial s = (e', .ok ()) ∧ e.Twin e' := by
  obtain ⟨d₁, f, hc, hl, hf, hcur⟩ := addSerial_eq_ok ha
  obtain ⟨d₁', hc', h₁⟩ := h.closeGroup hc
  have hfinds : ∀ x ∈ s.inputs, d₁'.flow.Finds x := by
    intro x hx
    apply h₁.flow.finds_iff.mpr
    rcases forall_or_first d₁.flow.Finds s.inputs with hall | ⟨pre, y, post, hs, hpre, hy⟩
    · exact hall x hx
    · obtain ⟨_, -, he⟩ := addSerial_missing hc hs hpre hy
      cases ha.symm.trans he
  obtain ⟨e', f', ha', hl', hf', hcur'⟩ := addSerial_found hc' hfinds
  refine ⟨e', ha', ?_, ?_⟩
  · rw [hf, hf']
    exact (h₁.flow.located hl hl' fun _ => Iff.rfl).addSerial s
  · rw [hcur, hcur']
    exact h₁.current

theorem addMember (h : d.Twin d') (ha : d.addMember m = (e, .ok ())) :
    ∃ e', d'.addMember m = (e', .ok ()) ∧ e.Twin e' := by
  obtain ⟨hs, rfl⟩ := addMember_eq_accept.mp ha
  have hs' : ∀ x ∈ m.inputs, d'.groupDraft.group.Sees d'.declared x := by
    intro x hx
    rw [show d'.declared = d.declared from h.flow.declared]
    exact h.groupDraft.group.sees_iff.mpr (hs x hx)
  refine ⟨_, addMember_eq_accept.mpr ⟨hs', rfl⟩, h.flow, ?_⟩
  exact .some ⟨h.groupDraft.group.accept m, h.groupDraft.combines⟩

theorem addReducer (h : d.Twin d') {c : Combine} (ha : d.addReducer c = (e, .ok ())) :
    ∃ e', d'.addReducer c = (e', .ok ()) ∧ e.Twin e' := by
  have hkeyed := h.groupDraft.group.keyed_eq c
  rcases d.addReducer_cases c with ⟨d₁, fault, -, he⟩ | ⟨d₁, hm, he⟩
  · cases he.symm.trans ha
  cases he.symm.trans ha
  obtain ⟨d₁', hm', h₁⟩ := h.addMember hm
  rcases d'.addReducer_cases c with ⟨n, fault, hn, -⟩ | ⟨n, hn, he'⟩
  · rw [hkeyed, hm'] at hn
    cases hn
  · rw [hkeyed, hm'] at hn
    cases hn
    refine ⟨_, he', h₁.flow, .some ⟨h₁.groupDraft.group, ?_⟩⟩
    change d₁'.groupDraft.combines ++ _ = d₁.groupDraft.combines ++ _
    rw [h₁.groupDraft.combines, hkeyed]

/-- Steps that a draft accepts are accepted by its twin, and they stay twins. -/
theorem addStep (h : d.Twin d') (ha : d.addStep s = (e, .ok ())) :
    ∃ e', d'.addStep s = (e', .ok ()) ∧ e.Twin e' := by
  unfold Draft.addStep at ha ⊢
  cases hb : s.body with
  | fold reduction =>
    simp only [hb] at ha ⊢
    exact h.addReducer ha
  | task operation =>
    by_cases hk : s.kind = .serial
    · simp only [hb, if_pos hk] at ha ⊢
      exact h.addSerial ha
    · simp only [hb, if_neg hk] at ha ⊢
      exact h.addMember ha

theorem addLine (h : d.Twin d') {line : Nat} {text : String}
    (ha : d.addLine r line text = (e, .ok ())) :
    ∃ e', d'.addLine r line text = (e', .ok ()) ∧ e.Twin e' := by
  obtain ⟨hr, ⟨hs, rfl⟩ | ⟨s, hs, hstep⟩⟩ := addLine_eq_ok ha
  · exact ⟨_, addLine_blank hr hs, h.line line⟩
  · obtain ⟨e', he, htwin⟩ := (h.line line).addStep hstep
    refine ⟨e', ?_, htwin⟩
    rw [addLine_call hs, he]
    rfl

theorem addLines (h : d.Twin d') {line : Nat} {lines : List String}
    (ha : d.addLines r line lines = (e, .ok ())) :
    ∃ e', d'.addLines r line lines = (e', .ok ()) ∧ e.Twin e' := by
  induction lines generalizing d d' line with
  | nil =>
    cases ha
    exact ⟨d', rfl, h⟩
  | cons text lines ih =>
    obtain ⟨next, hline, hrest⟩ := addLines_cons_eq_ok ha
    obtain ⟨next', hline', hnext⟩ := h.addLine hline
    obtain ⟨e', he, htwin⟩ := ih hnext hrest
    exact ⟨e', (addLines_cons_of_ok hline').trans he, htwin⟩

end Twin

end Draft

end DirectiveFlow
