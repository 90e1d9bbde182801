import DirectiveFlow.Proofs.Linking

namespace DirectiveFlow

namespace Stage

theorem eq_group_of_provides {stage : Stage} {item : String} (h : stage.provides item) :
    ∃ g, stage = .group g ∧ item ∈ g.offers := by
  cases stage with
  | serial s => cases h
  | group g => exact ⟨g, rfl, of_decide_eq_true h⟩
  | combine c => cases h

end Stage

namespace Draft

theorem places_cases (stages : List Stage) (start : Nat) (item : String) :
    ((stages.zipIdx start).filterMap
        (fun (stage, i) => if stage.provides item then some i else none) = [] ∧
          ∀ stage ∈ stages, stage.provides item = false) ∨
      ∃ front stage back others, stages = front ++ stage :: back ∧ stage.provides item ∧
        (∀ stage ∈ front, stage.provides item = false) ∧
        (stages.zipIdx start).filterMap
            (fun (stage, i) => if stage.provides item then some i else none)
          = (start + front.length) :: others := by
  induction stages generalizing start with
  | nil => exact .inl ⟨rfl, nofun⟩
  | cons stage stages ih =>
    simp only [List.zipIdx_cons, List.filterMap_cons]
    cases hp : stage.provides item with
    | true => exact .inr ⟨[], stage, stages, _, rfl, hp, nofun, rfl⟩
    | false =>
      simp only [Bool.false_eq_true, if_false]
      rcases ih (start + 1) with ⟨hn, ha⟩ | ⟨front, stage', back, others, rfl, hp', ha, hc⟩
      · exact .inl ⟨hn, List.forall_mem_cons.mpr ⟨hp, ha⟩⟩
      · refine .inr ⟨stage :: front, stage', back, others, rfl, hp',
          List.forall_mem_cons.mpr ⟨hp, ha⟩, ?_⟩
        refine hc.trans ?_
        rw [List.length_cons, Nat.add_assoc, Nat.add_comm 1]

theorem modify_append {α : Type} (f : α → α) (front : List α) (a : α) (back : List α) :
    (front ++ a :: back).modify front.length f = front ++ f a :: back := by
  induction front with
  | nil => rfl
  | cons b front ih => exact congrArg (b :: ·) ih

/-- An item is gathered by the first group that offers it, or else it has to be declared. -/
theorem locate_cases (d : Draft) (item step : String) :
    (∃ front g back noted, d.stages = front ++ .group g :: back ∧ item ∈ g.offers ∧
        (∀ stage ∈ front, stage.provides item = false) ∧
        d.locate item step = ({ d with
          stages := front ++ .group (g.gather item) :: back
          declared := d.declared.declare item
          ambiguities := noted }, .ok ())) ∨
      ((∀ stage ∈ d.stages, stage.provides item = false) ∧
        d.locate item step =
          (d, if d.declared.contains item then .ok () else .error ⟨item, step⟩)) := by
  unfold locate providers
  rcases places_cases d.stages 0 item with ⟨hn, ha⟩ | ⟨front, stage, back, others, hs, hp, ha, hc⟩
  · rw [hn]
    refine .inr ⟨ha, ?_⟩
    by_cases he : d.declared.contains item
    · simp only [if_pos he]
    · simp only [if_neg he]
  · rw [hc]
    obtain ⟨g, rfl, ho⟩ := Stage.eq_group_of_provides hp
    refine .inl ⟨front, g, back, (d.gatherFrom item step (0 + front.length) others).ambiguities, hs,
      ho, ha, ?_⟩
    simp only [gatherFrom]
    rw [hs, Nat.zero_add, modify_append]
    rfl

/-- What linking keeps: blocks are formed, everything read is written before, and what is
declared or requested by the open group is written too. -/
structure Linked (steps : List Step) (d : Draft) : Prop where
  blocks : FormedStages steps d.stages
  supplied : Supplied Stage.needs Stage.outputs [] d.stages
  declared : ∀ x, d.declared.contains x → x ∈ d.stages.flatMap Stage.outputs
  current : ∀ o, d.current = some o → o.group.Formed steps o.combines ∧
    ∀ x ∈ o.group.requests, d.declared.contains x

/-- One draft has all that another writes and declares, and the same open group. -/
structure Widened (d d' : Draft) : Prop where
  outputs : ∀ x ∈ d.stages.flatMap Stage.outputs, x ∈ d'.stages.flatMap Stage.outputs
  declared : ∀ x, d.declared.contains x → d'.declared.contains x
  current : d'.current = d.current

theorem Widened.refl (d : Draft) : d.Widened d :=
  ⟨fun _ => id, fun _ => id, rfl⟩

theorem Widened.trans {d d' d'' : Draft} (h : d.Widened d') (h' : d'.Widened d'') :
    d.Widened d'' :=
  ⟨fun x hx => h'.outputs x (h.outputs x hx), fun x hx => h'.declared x (h.declared x hx),
    h'.current.trans h.current⟩

theorem linked_empty (steps : List Step) : empty.Linked steps where
  blocks := ⟨[], rfl, nofun⟩
  supplied := trivial
  declared := by simp [empty]
  current := nofun

variable {steps : List Step} {d : Draft}

theorem Linked.line (h : d.Linked steps) (line : Nat) : { d with line := line }.Linked steps :=
  ⟨h.blocks, h.supplied, h.declared, h.current⟩

theorem Linked.gather (h : d.Linked steps) {front back : List Stage} {g : Group} {item : String}
    {noted : List Ambiguity} (hs : d.stages = front ++ .group g :: back) (hi : item ∈ g.offers) :
    { d with
      stages := front ++ Stage.group (g.gather item) :: back
      declared := d.declared.declare item
      ambiguities := noted }.Linked steps := by
  have hgrown : ∀ x ∈ g.gathered, x ∈ (g.gather item).gathered :=
    fun x hx => Group.mem_gathered_gather.mpr (.inl hx)
  have hitem : item ∈ (g.gather item).gathered := Group.mem_gathered_gather.mpr (.inr rfl)
  have hout : ∀ x ∈ d.stages.flatMap Stage.outputs,
      x ∈ (front ++ .group (g.gather item) :: back).flatMap Stage.outputs := by
    intro x hx
    rw [hs] at hx
    simp only [List.flatMap_append, List.flatMap_cons, List.mem_append, Stage.outputs] at hx ⊢
    exact hx.imp_right (Or.imp_left (hgrown x))
  constructor
  case blocks =>
    obtain ⟨blocks, hb, hf⟩ := h.blocks
    obtain ⟨before, b, after, pre, post, rfl, hst, rfl, rfl⟩ :=
      Block.exists_of_stages (hb.symm.trans hs)
    obtain ⟨combines, rfl, rfl, rfl⟩ := Block.eq_group_of_stages hst
    refine ⟨before ++ .group (g.gather item) combines :: after, by simp [Block.stages], ?_⟩
    intro b hm
    have hg : g.Formed steps combines := hf (.group g combines) (by simp)
    rcases List.mem_append.mp hm with hm | hm
    · exact hf b (by simp [hm])
    · rcases List.mem_cons.mp hm with rfl | hm
      · exact hg.gather hi
      · exact hf b (by simp [hm])
  case supplied =>
    have hsup := h.supplied
    rw [hs] at hsup
    obtain ⟨hfront, hneeds, hback⟩ := Supplied.append.mp hsup
    refine Supplied.append.mpr ⟨hfront, ?_, hback.mono fun x hx => ?_⟩
    · change ∀ x ∈ (g.gather item).requests, _
      rw [Group.gather_requests]
      exact hneeds
    · exact List.mem_append.mpr ((List.mem_append.mp hx).imp_right (hgrown x))
  case declared =>
    intro x hx
    rcases (Environment.contains_declare _ _ _).mp hx with rfl | hx
    · simp [Stage.outputs, hitem]
    · exact hout x (h.declared x hx)
  case current =>
    intro o ho
    obtain ⟨hf, hr⟩ := h.current o ho
    exact ⟨hf, fun x hx => (Environment.contains_declare _ _ _).mpr (.inr (hr x hx))⟩

/-- Locating keeps a draft linked, writes the item if it succeeds, and succeeds if the
item is declared. -/
theorem Linked.locate (h : d.Linked steps) (item step : String) :
    (d.locate item step).1.Linked steps ∧ d.Widened (d.locate item step).1 ∧
      ((d.locate item step).2 = .ok () →
        item ∈ (d.locate item step).1.stages.flatMap Stage.outputs) ∧
      (d.declared.contains item → (d.locate item step).2 = .ok ()) := by
  rcases d.locate_cases item step with ⟨front, g, back, noted, hs, hi, _, he⟩ | ⟨_, he⟩
  · rw [he]
    refine ⟨h.gather hs hi, ⟨?_, ?_, rfl⟩, fun _ => ?_, fun _ => rfl⟩
    · intro x hx
      rw [hs] at hx
      simp only [List.flatMap_append, List.flatMap_cons, List.mem_append, Stage.outputs] at hx ⊢
      exact hx.imp_right (Or.imp_left fun hg => Group.mem_gathered_gather.mpr (.inl hg))
    · exact fun x hx => (Environment.contains_declare _ _ _).mpr (.inr hx)
    · simp [Stage.outputs, Group.mem_gathered_gather]
  · rw [he]
    refine ⟨h, .refl d, fun hok => ?_, fun hc => if_pos hc⟩
    by_cases hc : d.declared.contains item
    · exact h.declared item hc
    · rw [if_neg hc] at hok
      cases hok

theorem Linked.locateAll (h : d.Linked steps) (step : String) (items : List String) :
    (d.locateAll step items).1.Linked steps ∧ d.Widened (d.locateAll step items).1 ∧
      ((d.locateAll step items).2 = .ok () →
        ∀ x ∈ items, x ∈ (d.locateAll step items).1.stages.flatMap Stage.outputs) ∧
      ((∀ x ∈ items, d.declared.contains x) → (d.locateAll step items).2 = .ok ()) := by
  induction items generalizing d with
  | nil => exact ⟨h, .refl d, fun _ => nofun, fun _ => rfl⟩
  | cons item rest ih =>
    obtain ⟨hl, hw, hin, hok⟩ := h.locate item step
    rw [Draft.locateAll]
    cases hd : d.locate item step with
    | mk next result =>
      rw [hd] at hl hw hin hok
      cases result with
      | error fault =>
        exact ⟨hl, hw, nofun, fun hc => hok (hc item List.mem_cons_self)⟩
      | ok =>
        obtain ⟨hl', hw', hin', hok'⟩ := ih hl
        refine ⟨hl', hw.trans hw', fun he => ?_, fun hc => ?_⟩
        · exact List.forall_mem_cons.mpr ⟨hw'.outputs item (hin rfl), hin' he⟩
        · exact hok' fun x hx => hw.declared x (hc x (List.mem_cons_of_mem item hx))

theorem contains_declareCombine {env : Environment} {c : Combine} {x : String} :
    (declareCombine env c).contains x ↔
      x = c.output ∨ (c.isPrivate = false ∧ x = c.item) ∨ env.contains x := by
  unfold declareCombine
  rw [Environment.contains_declare, eq_comm]
  refine or_congr_right ?_
  cases c.isPrivate with
  | true => exact ⟨.inr, fun h => h.resolve_left nofun⟩
  | false =>
    refine (Environment.contains_declare _ _ _).trans (or_congr_left ?_)
    exact ⟨fun h => ⟨rfl, h.symm⟩, fun h => h.2.symm⟩

theorem contains_declareCombines {env : Environment} {combines : List Combine} {x : String} :
    (combines.foldl declareCombine env).contains x ↔
      env.contains x ∨ ∃ c ∈ combines, x = c.output ∨ (c.isPrivate = false ∧ x = c.item) := by
  induction combines generalizing env with
  | nil => exact ⟨.inl, fun h => h.resolve_right nofun⟩
  | cons c combines ih =>
    rw [List.foldl_cons, ih, contains_declareCombine, List.exists_mem_cons_iff, ← or_assoc,
      or_comm (b := env.contains x), or_assoc]

end Draft

theorem Group.Formed.mem_partials {steps : List Step} {g : Group} {combines : List Combine}
    (h : g.Formed steps combines) {c : Combine} (hc : c ∈ combines) : c.partials ∈ g.partials := by
  have hm : c.member ∈ g.members.filter Member.isFold := by
    rw [h.paired]
    exact List.mem_map_of_mem hc
  exact List.mem_filterMap.mpr ⟨c.member, (List.mem_filter.mp hm).1, rfl⟩

namespace Draft

variable {steps : List Step} {d : Draft}

theorem Linked.append_group (h : d.Linked steps) (hd : d.current = none) {g : Group}
    {combines : List Combine} (hg : g.Formed steps combines)
    (hr : ∀ x ∈ g.requests, x ∈ d.stages.flatMap Stage.outputs) :
    { d with
      stages := d.stages ++ Stage.group g :: combines.map Stage.combine
      declared := combines.foldl declareCombine d.declared }.Linked steps := by
  constructor
  case blocks =>
    obtain ⟨blocks, hb, hf⟩ := h.blocks
    refine ⟨blocks ++ [.group g combines], ?_, ?_⟩
    · rw [List.flatMap_append, ← hb]
      exact congrArg (d.stages ++ ·) (List.append_nil _).symm
    intro b hm
    rcases List.mem_append.mp hm with hm | hm
    · exact hf b hm
    · exact List.mem_singleton.mp hm ▸ hg
  case supplied =>
    have hcombines (known : List String) :
        Supplied Stage.needs Stage.outputs known (combines.map .combine) := by
      clear hg
      induction combines generalizing known with
      | nil => trivial
      | cons c combines ih => exact ⟨nofun, ih _⟩
    exact Supplied.append.mpr ⟨h.supplied, hr, hcombines _⟩
  case declared =>
    intro x hx
    rw [List.flatMap_append]
    rcases contains_declareCombines.mp hx with hx | ⟨c, hc, hx | ⟨hp, hx⟩⟩
    · exact List.mem_append_left _ (h.declared x hx)
    · apply List.mem_append_right
      rw [List.flatMap_cons]
      refine List.mem_append_right _ (List.mem_flatMap.mpr ⟨.combine c, ?_, ?_⟩)
      · exact List.mem_map_of_mem hc
      · exact List.mem_singleton.mpr hx
    · have hk : c.partials = c.item := by simpa [Combine.isPrivate] using hp
      apply List.mem_append_right
      refine List.mem_flatMap.mpr ⟨.group g, List.mem_cons_self, hg.keys x ?_⟩
      rw [hx, ← hk]
      exact hg.mem_partials hc
  case current =>
    intro o ho
    rw [show d.current = none from hd] at ho
    cases ho

theorem Linked.closeGroup (h : d.Linked steps) :
    ∃ d', d.closeGroup = (d', .ok ()) ∧ d'.Linked steps ∧ d'.current = none := by
  unfold Draft.closeGroup
  cases hc : d.current with
  | none => exact ⟨d, rfl, h, hc⟩
  | some o =>
    obtain ⟨hf, hr⟩ := h.current o hc
    have h₀ : { d with current := none }.Linked steps :=
      ⟨h.blocks, h.supplied, h.declared, nofun⟩
    obtain ⟨hl, hw, hin, hok⟩ := h₀.locateAll o.group.name o.group.requests
    dsimp only
    cases hd : { d with current := none }.locateAll o.group.name o.group.requests with
    | mk d₁ result =>
      rw [hd] at hl hw hin hok
      cases hok hr
      exact ⟨_, rfl, hl.append_group hw.current hf (hin rfl), hw.current⟩

theorem Linked.addSerial (h : d.Linked steps) {s : Serial}
    (hs : TaskOf steps s.name s.inputs s.outputs s.operation) : (d.addSerial s).1.Linked steps := by
  unfold Draft.addSerial
  obtain ⟨d₁, he, h₁, hn⟩ := h.closeGroup
  obtain ⟨hl, hw, hin, _⟩ := h₁.locateAll s.name s.inputs
  rw [he]
  dsimp only
  cases hd : d₁.locateAll s.name s.inputs with
  | mk d₂ result =>
    rw [hd] at hl hw hin
    cases result with
    | error fault => exact hl
    | ok =>
      constructor
      case blocks =>
        obtain ⟨blocks, hb, hf⟩ := hl.blocks
        refine ⟨blocks ++ [.serial s], ?_, ?_⟩
        · rw [List.flatMap_append, ← hb]
          rfl
        intro b hm
        rcases List.mem_append.mp hm with hm | hm
        · exact hf b hm
        · exact List.mem_singleton.mp hm ▸ hs
      case supplied => exact hl.supplied.snoc (hin rfl)
      case declared =>
        intro x hx
        rw [List.flatMap_append]
        rcases Environment.contains_declareAll.mp hx with hx | hx
        · exact List.mem_append_right _ (List.mem_flatMap.mpr ⟨.serial s, by simp, hx⟩)
        · exact List.mem_append_left _ (hl.declared x hx)
      case current =>
        intro o ho
        rw [show d₂.current = none from hw.current.trans hn] at ho
        cases ho

theorem groupDraft_of_linked (h : d.Linked steps) :
    d.groupDraft.group.Formed steps d.groupDraft.combines ∧
      ∀ x ∈ d.groupDraft.group.requests, d.declared.contains x := by
  unfold groupDraft
  cases hc : d.current with
  | none => exact ⟨Group.formed_empty steps, nofun⟩
  | some o => exact h.current o hc

theorem Linked.withGroup (h : d.Linked steps) {o : GroupDraft}
    (hf : o.group.Formed steps o.combines) (hr : ∀ x ∈ o.group.requests, d.declared.contains x) :
    { d with current := some o }.Linked steps where
  blocks := h.blocks
  supplied := h.supplied
  declared := h.declared
  current := by
    intro o' ho
    cases ho
    exact ⟨hf, hr⟩

theorem addMember_eq (d : Draft) (m : Member) :
    d.addMember m = ({ d with current := some { d.groupDraft with
      group := (d.groupDraft.group.add d.declared m).1 } },
      (d.groupDraft.group.add d.declared m).2) := rfl

theorem Linked.addTask (h : d.Linked steps) {name : String} {inputs outputs : List String}
    {operation : Operation} (ht : TaskOf steps name inputs outputs operation) :
    (d.addMember (.task name inputs outputs operation)).1.Linked steps := by
  obtain ⟨hf, hr⟩ := groupDraft_of_linked h
  rw [addMember_eq]
  obtain ⟨more, hm, ⟨fault, he⟩ | ⟨hx, he⟩⟩ :=
    d.groupDraft.group.add_cases d.declared (.task name inputs outputs operation)
  all_goals
    have hr' := List.forall_mem_append.mpr ⟨hr, fun x hx => (hm x hx).2⟩
    have hf' := hf.request fun x hx => ht.reads x (hm x hx).1
  · rw [he]
    exact h.withGroup hf' hr'
  · rw [he]
    exact h.withGroup (hf'.withTask ht hx) hr'

theorem Linked.addReducer (h : d.Linked steps) {c : Combine} (hc : c.CalledBy steps)
    (hk : c.partials = c.item) : (d.addReducer c).1.Linked steps := by
  obtain ⟨hf, hr⟩ := groupDraft_of_linked h
  have hfresh : freePartials d.groupDraft.group c = freshKey d.groupDraft.group.members c.item := by
    unfold freePartials freshKey
    rw [hk]
    rfl
  unfold Draft.addReducer
  simp only [addMember_eq]
  have hc' : Combine.CalledBy steps { c with partials := freePartials d.groupDraft.group c } := hc
  obtain ⟨more, hm, ⟨fault, he⟩ | ⟨hx, he⟩⟩ := d.groupDraft.group.add_cases d.declared
    (Combine.member { c with partials := freePartials d.groupDraft.group c })
  all_goals
    have hr' := List.forall_mem_append.mpr ⟨hr, fun x hx => (hm x hx).2⟩
    have hf' := hf.request fun x hx => hc'.reads x (hm x hx).1
    simp only [Combine.member] at he
    simp only [he]
  · exact h.withGroup hf' hr'
  · refine h.withGroup (hf'.withFold hc' hfresh (hx c.item List.mem_cons_self)) ?_
    change ∀ x ∈ (Group.gather _ _).requests, _
    rw [Group.gather_requests]
    exact hr'

theorem Linked.addStep (h : d.Linked steps) {s : Step} (hs : s ∈ steps) :
    (d.addStep s).1.Linked steps := by
  unfold Draft.addStep
  cases hb : s.body with
  | fold reduction => exact h.addReducer ⟨s, hs, rfl, rfl, rfl, hb⟩ rfl
  | task operation =>
    have ht : TaskOf steps s.name s.inputs s.outputs operation := ⟨s, hs, rfl, rfl, rfl, hb⟩
    by_cases hk : s.kind = .serial
    · simp only [if_pos hk]
      exact h.addSerial ht
    · simp only [if_neg hk]
      exact h.addTask ht

theorem linked_feed (r : Repertoire) (lines : List (Nat × String)) :
    (empty.feed r lines).Linked (r.steps (lines.map Prod.snd)) := by
  apply feed_induction (r := r)
  · exact fun d line h => h.line line
  · exact fun d s hs h => h.addStep hs
  · exact linked_empty _

/-- The flow of a linked draft exists. It is formed, and whatever it reads is written before. -/
theorem Linked.complete (h : d.Linked steps) :
    ∃ f : Flow, d.complete.2 = .ok f ∧ FormedStages steps f.stages ∧
      Supplied Stage.needs Stage.outputs [] f.stages := by
  obtain ⟨d', he, h', _⟩ := h.closeGroup
  refine ⟨⟨d'.stages, d'.declared⟩, ?_, h'.blocks, h'.supplied⟩
  unfold Draft.complete
  rw [he]

end Draft

theorem Flow.formed_of_lines {r : Repertoire} {lines : List String} {f : Flow}
    (h : Flow.ofLines r lines = .ok f) : FormedStages (r.steps lines) f.stages := by
  obtain ⟨numbered, rfl, hf⟩ := Flow.exists_feed h
  obtain ⟨f', he, hb, _⟩ := (Draft.linked_feed r numbered).complete
  cases hf.symm.trans he
  exact hb

theorem Flow.nodup_of_lines {r : Repertoire} {lines : List String} {f : Flow}
    (h : Flow.ofLines r lines = .ok f) : ∀ g, .group g ∈ f.stages → g.gathered.Nodup := by
  intro g hg
  obtain ⟨_, hformed⟩ := (Flow.formed_of_lines h).group hg
  exact hformed.nodup

end DirectiveFlow
