import DirectiveFlow.Proofs.Gathering
import DirectiveFlow.Proofs.Resolution

namespace DirectiveFlow

namespace Stage

variable {stage : Stage} {item x : String} {c : Combine} {D : String → Prop}

/-- The names that linking a stage declares. -/
def declares : Stage → List String
  | .serial s => s.inputs ++ s.outputs
  | .group g => g.requests
  | .combine c => if c.isPrivate then [c.output] else [c.output, c.item]

theorem declares_gather (item : String) (stage : Stage) :
    (stage.gather item).declares = stage.declares := by
  cases stage with
  | serial s => rfl
  | group g => exact Group.gather_requests
  | combine c => rfl

theorem mem_declares_combine :
    x ∈ (Stage.combine c).declares ↔ x = c.output ∨ (c.isPrivate = false ∧ x = c.item) := by
  unfold declares
  cases hp : c.isPrivate with
  | true => simp [hp]
  | false => simp [hp]

theorem declares_of_needs (h : x ∈ stage.needs) : x ∈ stage.declares := by
  cases stage with
  | serial s => exact List.mem_append_left _ h
  | group g => exact h
  | combine c => cases h

/-- What the stage writes, apart from keys that its combines take up, is among some names. -/
def Leaves (D : String → Prop) : Stage → Prop
  | .serial s => ∀ x ∈ s.outputs, D x
  | .group g => ∀ x ∈ g.gathered, x ∈ g.partials ∨ D x
  | .combine c => D c.output ∧ (c.isPrivate = false → D c.item)

end Stage

namespace Flow

variable {r : Repertoire} {lines : List String} {f f' : Flow} {x : String}

theorem LinksTo.contains_iff (h : f.LinksTo f')
    (hf : ∀ x, f.declared.contains x ↔ x ∈ f.stages.flatMap Stage.declares) (x : String) :
    f'.declared.contains x ↔ x ∈ f'.stages.flatMap Stage.declares := by
  induction h generalizing x with
  | refl => exact hf x
  | @group f₁ f₂ o _ hl _ ih =>
    have hcombines : x ∈ (o.combines.map Stage.combine).flatMap Stage.declares ↔
        ∃ c ∈ o.combines, x = c.output ∨ (c.isPrivate = false ∧ x = c.item) := by
      simp only [List.flatMap_map, List.mem_flatMap, Stage.mem_declares_combine]
    unfold addGroup
    rw [Draft.contains_declareCombines, hl.contains, ih, List.flatMap_append, List.mem_append,
      hl.flatMap_eq Stage.declares_gather, List.flatMap_cons, List.mem_append, hcombines, or_assoc]
    rfl
  | @serial f₁ f₂ s _ hl ih =>
    unfold addSerial
    rw [Environment.contains_declareAll, hl.contains, ih, List.flatMap_append, List.mem_append,
      hl.flatMap_eq Stage.declares_gather, List.flatMap_singleton, or_comm, or_assoc]
    exact or_congr_right List.mem_append.symm

theorem contains_iff_declares (hf : Flow.ofLines r lines = .ok f) (x : String) :
    f.declared.contains x ↔ x ∈ f.stages.flatMap Stage.declares :=
  (Flow.links_of_lines hf).contains_iff (fun x => by simp [Flow.empty]) x

theorem leaves_declared (hf : Flow.ofLines r lines = .ok f) :
    ∀ stage ∈ f.stages, stage.Leaves fun x => f.declared.contains x := by
  have hd : ∀ stage ∈ f.stages, ∀ x ∈ stage.declares, f.declared.contains x :=
    fun stage hm x hx => (contains_iff_declares hf x).mpr (List.mem_flatMap.mpr ⟨stage, hm, hx⟩)
  intro stage hm
  cases stage with
  | serial s => exact fun x hx => hd _ hm x (List.mem_append_right _ hx)
  | group g =>
    intro x hx
    obtain ⟨before, after, hs⟩ := List.append_of_mem hm
    have hg := Flow.gathers_of_lines hf
    rw [hs] at hg
    refine ((hg.group_iff x).mp hx).imp_right fun ⟨_, _, hn⟩ => ?_
    obtain ⟨stage, hafter, hx⟩ := List.mem_flatMap.mp (hn.resolve_left List.not_mem_nil)
    have hmem : stage ∈ f.stages := hs ▸ List.mem_append_right _ (List.mem_cons_of_mem _ hafter)
    exact hd stage hmem x (Stage.declares_of_needs hx)
  | combine c =>
    refine ⟨hd _ hm _ (Stage.mem_declares_combine.mpr (.inl rfl)), fun hp => ?_⟩
    exact hd _ hm _ (Stage.mem_declares_combine.mpr (.inr ⟨hp, rfl⟩))

theorem outputs_of_declared (hf : Flow.ofLines r lines = .ok f) (hx : f.declared.contains x) :
    x ∈ f.stages.flatMap Stage.outputs := by
  obtain ⟨numbered, rfl, hc⟩ := Flow.exists_feed hf
  obtain ⟨d, he, hl, -⟩ := (Draft.linked_feed r numbered).closeGroup
  obtain ⟨d', he', rfl⟩ := Draft.complete_eq_ok hc
  cases he.symm.trans he'
  exact hl.declared x hx

end Flow

theorem FormedStages.plain_declares {steps : List Step} {stages : List Stage} {stage : Stage}
    (h : FormedStages steps stages) (hp : ∀ s ∈ steps, s.NamesPlain) (hm : stage ∈ stages) :
    ∀ x ∈ stage.declares, Plain x := by
  cases stage with
  | serial s =>
    obtain ⟨e, he, -, -, ho, -⟩ := h.serial hm
    refine List.forall_mem_append.mpr ⟨h.plain_needs hp hm, fun x hx => ?_⟩
    exact hp e he x (List.mem_append_right _ (ho ▸ hx))
  | group g => exact h.plain_needs hp hm
  | combine c =>
    obtain ⟨before, after, hs⟩ := List.append_of_mem hm
    obtain ⟨front, g, earlier, later, -, hg⟩ := h.combine hs
    obtain ⟨hi, ho⟩ := (hg.called c (List.mem_append_right _ List.mem_cons_self)).plain hp
    intro x hx
    rcases Stage.mem_declares_combine.mp hx with rfl | ⟨-, rfl⟩
    · exact ho
    · exact hi

section Runs

variable {settings : Settings} {env env' : Environment} {D : String → Prop} {x : String}

theorem Serial.contains_run {s : Serial} (h : (s.run env).result = .ok env') :
    env'.contains x ↔ x ∈ s.outputs ∨ env.contains x := by
  obtain ⟨results, hr, rfl⟩ := run_eq_setAll h
  rw [Environment.contains_setAll, hr]

theorem Group.contains_run {g : Group} (h : (g.run settings env).result = .ok env') :
    env'.contains x ↔ x ∈ g.gathered ∨ env.contains x := by
  obtain ⟨results, hr, rfl⟩ := run_eq_setAll h
  rw [Environment.contains_setAll, hr]

theorem contains_runCombines {combines : List Combine}
    (h : (runStages settings env (combines.map .combine)).result = .ok env')
    (hd : ∀ c ∈ combines, (Stage.combine c).Leaves D)
    (he : ∀ x, env.contains x → x ∈ combines.map Combine.partials ∨ D x) :
    ∀ x, env'.contains x → D x := by
  induction combines generalizing env with
  | nil =>
    cases h
    exact fun x hx => (he x hx).resolve_left List.not_mem_nil
  | cons c combines ih =>
    obtain ⟨⟨hout, hitem⟩, hd⟩ := List.forall_mem_cons.mp hd
    obtain ⟨mid, hc, hr⟩ := runStages_cons_eq_ok.mp h
    obtain ⟨values, result, -, -, rfl⟩ := Combine.run_eq_ok hc
    refine ih hr hd fun x hx => ?_
    rcases (Combine.contains_settle c env result x).mp hx with rfl | ⟨hk, hx⟩
    · exact .inr hout
    · rcases he x hx with hm | hx
      · rcases List.mem_cons.mp hm with rfl | hm
        · -- the key was not dropped, so it is the name of the item
          have hp : c.isPrivate = false := by simpa using hk
          have hi : c.partials = c.item := by simpa [Combine.isPrivate] using hp
          exact .inr (hi ▸ hitem hp)
        · exact .inl hm
      · exact .inr hx

theorem Block.Formed.contains_run {steps : List Step} {b : Block} (h : b.Formed steps)
    (hr : (runStages settings env b.stages).result = .ok env')
    (hd : ∀ stage ∈ b.stages, stage.Leaves D) (he : ∀ x, env.contains x → D x) :
    ∀ x, env'.contains x → D x := by
  cases b with
  | serial s =>
    obtain ⟨mid, hs, hn⟩ := runStages_cons_eq_ok.mp hr
    cases hn
    intro x hx
    exact ((Serial.contains_run hs).mp hx).elim (hd (.serial s) List.mem_cons_self x) (he x)
  | group g combines =>
    obtain ⟨mid, hs, hc⟩ := runStages_cons_eq_ok.mp hr
    obtain ⟨hg, hd⟩ := List.forall_mem_cons.mp hd
    refine contains_runCombines hc (fun c hm => hd _ (List.mem_map_of_mem hm)) fun x hx => ?_
    rcases (Group.contains_run hs).mp hx with hx | hx
    · exact (hg x hx).imp_left h.key_of_partials
    · exact .inr (he x hx)

/-- A run leaves no other names than those that its stages leave. -/
theorem FormedStages.contains_run {steps : List Step} {stages : List Stage}
    (h : FormedStages steps stages) (hr : (runStages settings env stages).result = .ok env')
    (hd : ∀ stage ∈ stages, stage.Leaves D) (he : ∀ x, env.contains x → D x) :
    ∀ x, env'.contains x → D x := by
  obtain ⟨blocks, rfl, hf⟩ := h
  induction blocks generalizing env with
  | nil =>
    cases hr
    exact he
  | cons b blocks ih =>
    obtain ⟨hb, hf⟩ := List.forall_mem_cons.mp hf
    rw [List.flatMap_cons] at hr hd
    rw [runStages_append, bind_eq_ok] at hr
    obtain ⟨mid, hfirst, hr⟩ := hr
    obtain ⟨hdb, hd⟩ := List.forall_mem_append.mp hd
    exact ih (hb.contains_run hfirst hdb he) hf hr hd

end Runs

/-- Behind a run of a script's flow exactly the declared names have a value, and no other
name is there. -/
theorem Flow.value?_isSome_iff_declared {r : Repertoire} {lines : List String} {f : Flow}
    {settings : Settings} {env : Environment} (hf : Flow.ofLines r lines = .ok f)
    (hp : ∀ s ∈ r.steps lines, s.NamesPlain) (hr : (f.run settings).result = .ok env) (x : String) :
    ((env.value? x).isSome ↔ f.declared.contains x) ∧
      (env.contains x ↔ f.declared.contains x) := by
  have hformed := Flow.formed_of_lines hf
  obtain ⟨-, -, hrun⟩ := Run.bind_eq_ok.mp hr
  have hcontains : env.contains x → f.declared.contains x :=
    hformed.contains_run hrun (leaves_declared hf) (fun x hx => hx) x
  have hsome : f.declared.contains x → (env.value? x).isSome := by
    intro hx
    refine isSome_runStages hrun (fun c hc hpriv he => ?_) (.inl (outputs_of_declared hf hx))
    obtain ⟨stage, hm, hx⟩ := List.mem_flatMap.mp ((contains_iff_declares hf x).mp hx)
    exact hformed.not_plain_of_private hc hpriv (he ▸ hformed.plain_declares hp hm x hx)
  have hheld : (env.value? x).isSome → env.contains x := by
    intro hv
    obtain ⟨value, hv⟩ := Option.isSome_iff_exists.mp hv
    exact Environment.contains_of_value? hv
  exact ⟨⟨fun hv => hcontains (hheld hv), hsome⟩, ⟨hcontains, fun hx => hheld (hsome hx)⟩⟩

/-- Of two reducers over one item one has a key of its own. One of two parallel results is
gathered for the last line. -/
theorem Flow.value?_isSome_iff_declared_of_shared : ∃ f env,
    Flow.ofLines Standard.repertoire ["lst (> a) 3", "incr (a > b)", "incr (a > c) 2",
      "reduce_sum (a > s)", "reduce_max (a > t)", "print (b)"] = .ok f ∧
    (∀ s ∈ Standard.repertoire.steps ["lst (> a) 3", "incr (a > b)", "incr (a > c) 2",
      "reduce_sum (a > s)", "reduce_max (a > t)", "print (b)"], s.NamesPlain) ∧
    (f.run ⟨2, false, 0⟩).result = .ok env ∧ f.declared.names = ["a", "b", "s", "t"] ∧
    (env.value? "b").isSome ∧ ¬ env.contains "c" ∧ ¬ env.contains "a#3" := by
  obtain ⟨f, env, hf, hr, hd, hb, hc, hk⟩ : ∃ f env,
      Flow.ofLines Standard.repertoire ["lst (> a) 3", "incr (a > b)", "incr (a > c) 2",
        "reduce_sum (a > s)", "reduce_max (a > t)", "print (b)"] = .ok f ∧
      (f.run ⟨2, false, 0⟩).result = .ok env ∧ f.declared.names = ["a", "b", "s", "t"] ∧
      f.declared.contains "b" = true ∧ f.declared.contains "c" = false ∧
      f.declared.contains "a#3" = false :=
    ⟨_, _, rfl, rfl, rfl, rfl, rfl, rfl⟩
  have hp : ∀ s ∈ Standard.repertoire.steps ["lst (> a) 3", "incr (a > b)", "incr (a > c) 2",
      "reduce_sum (a > s)", "reduce_max (a > t)", "print (b)"], s.NamesPlain := by
    decide +kernel
  have h := Flow.value?_isSome_iff_declared hf hp hr
  refine ⟨f, env, hf, hp, hr, hd, (h "b").1.mpr hb, fun hx => ?_, fun hx => ?_⟩
  · rw [(h "c").2.mp hx] at hc
    cases hc
  · rw [(h "a#3").2.mp hx] at hk
    cases hk

end DirectiveFlow
