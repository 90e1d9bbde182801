import DirectiveFlow.Proofs.Blocks
import DirectiveFlow.Proofs.Script

namespace DirectiveFlow

namespace Group

variable {steps : List Step} {g : Group} {combines : List Combine} {env : Environment}

/-- The group behind an accepted member, whose key is gathered if it is a fold. -/
def withMember (g : Group) (m : Member) : Group :=
  let g := match m.partials? with
    | some key => g.gather key
    | none => g
  { g with members := g.members ++ [m] }

theorem members_withMember (g : Group) (m : Member) :
    (g.withMember m).members = g.members ++ [m] := by
  cases m with
  | task => rfl
  | fold => exact congrArg (· ++ _) gather_members

theorem request_cases (g : Group) (env : Environment) (step : String) (inputs : List String) :
    ∃ more, (∀ x ∈ more, x ∈ inputs ∧ env.contains x) ∧
      (g.request env step inputs).1 = { g with requests := g.requests ++ more } ∧
      ((g.request env step inputs).2 = .ok () →
        ∀ x ∈ inputs, x ∈ g.offers ∨ x ∈ g.requests ++ more) := by
  induction inputs generalizing g with
  | nil => exact ⟨[], nofun, by simp [request], fun _ => nofun⟩
  | cons item rest ih =>
    rw [request]
    by_cases ho : item ∈ g.offers
    · rw [if_pos ho]
      obtain ⟨more, hc, hr, hx⟩ := ih g
      refine ⟨more, fun x hm => ⟨List.mem_cons_of_mem item (hc x hm).1, (hc x hm).2⟩, hr,
        fun h x hm => ?_⟩
      rcases List.mem_cons.mp hm with rfl | hm
      · exact .inl ho
      · exact hx h x hm
    · rw [if_neg ho]
      by_cases he : env.contains item
      · rw [if_pos he]
        obtain ⟨more, hc, hr, hx⟩ := ih { g with requests := g.requests ++ [item] }
        refine ⟨item :: more, ?_, ?_, fun h x hm => ?_⟩
        · refine List.forall_mem_cons.mpr ⟨⟨List.mem_cons_self, he⟩, fun x hm => ?_⟩
          exact ⟨List.mem_cons_of_mem item (hc x hm).1, (hc x hm).2⟩
        · rw [hr, List.append_assoc]
          rfl
        · rcases List.mem_cons.mp hm with rfl | hm
          · exact .inr (by simp)
          · have hm' := hx h x hm
            rw [List.append_assoc] at hm'
            exact hm'
      · rw [if_neg he]
        exact ⟨[], nofun, by simp, nofun⟩

/-- A member that is refused leaves its requests; an accepted one reads what is requested or
offered by the members before it. -/
theorem add_cases (g : Group) (env : Environment) (m : Member) :
    ∃ more, (∀ x ∈ more, x ∈ m.inputs ∧ env.contains x) ∧
      ((∃ fault, g.add env m = ({ g with requests := g.requests ++ more }, .error fault)) ∨
        ((∀ x ∈ m.inputs, x ∈ g.offers ∨ x ∈ g.requests ++ more) ∧
          g.add env m = ({ g with requests := g.requests ++ more }.withMember m, .ok ()))) := by
  obtain ⟨more, hc, hr, hx⟩ := g.request_cases env m.name m.inputs
  refine ⟨more, hc, ?_⟩
  unfold add
  cases hq : g.request env m.name m.inputs with
  | mk next result =>
    rw [hq] at hr hx
    cases hr
    cases result with
    | error fault => exact .inl ⟨fault, rfl⟩
    | ok => exact .inr ⟨hx rfl, rfl⟩

theorem Formed.request (h : g.Formed steps combines) {more : List String}
    (hm : ∀ x ∈ more, ∃ s ∈ steps, x ∈ s.reads) :
    { g with requests := g.requests ++ more }.Formed steps combines where
  tasks := h.tasks
  called := h.called
  requested := List.forall_mem_append.mpr ⟨h.requested, hm⟩
  paired := h.paired
  keyed := h.keyed
  supplied := h.supplied.mono fun _ hx => List.mem_append_left more hx
  nodup := h.nodup
  keys := h.keys
  offered := h.offered

theorem formed_empty (steps : List Step) : Group.empty.Formed steps [] where
  tasks := nofun
  called := nofun
  requested := nofun
  paired := rfl
  keyed := nofun
  supplied := trivial
  nodup := .nil
  keys := nofun
  offered := nofun

theorem getElem?_snoc {α : Type} {as : List α} {a b : α} {i : Nat}
    (h : (as ++ [a])[i]? = some b) :
    (as[i]? = some b ∧ (as ++ [a]).take i = as.take i) ∨
      (b = a ∧ i = as.length ∧ (as ++ [a]).take i = as) := by
  rcases Nat.lt_trichotomy i as.length with hi | rfl | hi
  · rw [List.getElem?_append_left hi] at h
    exact .inl ⟨h, List.take_append_of_le_length (Nat.le_of_lt hi)⟩
  · rw [List.getElem?_concat_length] at h
    cases h
    exact .inr ⟨rfl, rfl, List.take_left⟩
  · have hn : (as ++ [a])[i]? = none := by
      apply List.getElem?_eq_none
      rw [List.length_append, List.length_singleton]
      exact hi
    rw [hn] at h
    cases h

theorem Formed.withTask (h : g.Formed steps combines) {name : String}
    {inputs outputs : List String} {operation : Operation}
    (ht : TaskOf steps name inputs outputs operation)
    (hx : ∀ x ∈ inputs, x ∈ g.offers ∨ x ∈ g.requests) :
    (g.withMember (.task name inputs outputs operation)).Formed steps combines where
  tasks := by
    intro name' inputs' outputs' operation' hm
    rcases List.mem_append.mp hm with hm | hm
    · exact h.tasks _ _ _ _ hm
    · cases List.mem_singleton.mp hm
      exact ht
  called := h.called
  requested := h.requested
  paired := by
    rw [← h.paired]
    exact (List.filter_append ..).trans (List.append_nil _)
  keyed := by
    intro place name' item key reduction hm
    rcases getElem?_snoc hm with ⟨hm, htake⟩ | ⟨he, _⟩
    · exact htake ▸ h.keyed _ _ _ _ _ hm
    · cases he
  supplied := h.supplied.snoc fun x hm => List.mem_append.mpr (hx x hm).symm
  nodup := h.nodup
  keys := by
    intro key hk
    have hp : (g.withMember (.task name inputs outputs operation)).partials = g.partials :=
      (List.filterMap_append ..).trans (List.append_nil _)
    exact h.keys key (hp ▸ hk)
  offered := by
    intro x hg
    have hp : (g.withMember (.task name inputs outputs operation)).partials = g.partials :=
      (List.filterMap_append ..).trans (List.append_nil _)
    have ho : (g.withMember (.task name inputs outputs operation)).offers = g.offers ++ outputs :=
      List.flatMap_append.trans (congrArg (g.offers ++ ·) (List.append_nil _))
    rw [hp, ho]
    exact (h.offered x hg).imp_right fun hm => List.mem_append_left outputs hm

/-- A group stays formed when a fold joins that finds its item, with a fresh key
and its combine. -/
theorem Formed.withFold (h : g.Formed steps combines) {c : Combine} (hc : c.CalledBy steps)
    (hk : c.partials = freshKey g.members c.item)
    (hx : c.item ∈ g.offers ∨ c.item ∈ g.requests) :
    (g.withMember c.member).Formed steps (combines ++ [c]) := by
  have hmembers := g.members_withMember c.member
  have hpartials : (g.withMember c.member).partials = g.partials ++ [c.partials] := by
    rw [partials, hmembers, List.filterMap_append]
    rfl
  have hoffers : (g.withMember c.member).offers = g.offers ++ [c.item] := by
    rw [offers, hmembers, List.flatMap_append]
    rfl
  have hgathered (x : String) :
      x ∈ (g.withMember c.member).gathered ↔ x ∈ g.gathered ∨ x = c.partials :=
    mem_gathered_gather
  constructor
  case tasks =>
    intro name inputs outputs operation hm
    rw [hmembers] at hm
    rcases List.mem_append.mp hm with hm | hm
    · exact h.tasks _ _ _ _ hm
    · cases List.mem_singleton.mp hm
  case called =>
    intro c' hm
    rcases List.mem_append.mp hm with hm | hm
    · exact h.called c' hm
    · exact List.mem_singleton.mp hm ▸ hc
  case requested =>
    change ∀ x ∈ (g.gather c.partials).requests, _
    rw [gather_requests]
    exact h.requested
  case paired =>
    rw [hmembers, List.filter_append, h.paired, List.map_append]
    rfl
  case keyed =>
    intro place name item key reduction hm
    rw [hmembers] at hm ⊢
    rcases getElem?_snoc hm with ⟨hm, htake⟩ | ⟨he, _, htake⟩
    · exact htake ▸ h.keyed _ _ _ _ _ hm
    · cases he
      rw [htake]
      exact hk
  case supplied =>
    rw [hmembers]
    change Supplied _ _ (g.gather c.partials).requests _
    rw [gather_requests]
    refine h.supplied.snoc fun x hm => ?_
    rw [List.mem_singleton.mp hm]
    exact List.mem_append.mpr hx.symm
  case nodup => exact nodup_gather h.nodup
  case keys =>
    intro key hm
    rw [hpartials] at hm
    rw [hgathered]
    exact (List.mem_append.mp hm).imp (h.keys key) List.mem_singleton.mp
  case offered =>
    intro x hm
    rw [hpartials, hoffers]
    rcases (hgathered x).mp hm with hg | rfl
    · exact (h.offered x hg).imp (List.mem_append_left _) (List.mem_append_left _)
    · exact .inl (by simp)

end Group

end DirectiveFlow
