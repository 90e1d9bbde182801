import DirectiveFlow.Proofs.Agreement
import DirectiveFlow.Proofs.Gathering

namespace DirectiveFlow

/-- The names that may differ behind a stage and one that it grew to, if some do in front of
them: what only the grown one writes comes to these. -/
def Stage.disturb (stage grown : Stage) (dirty : List String) : List String :=
  (dirty ++ grown.outputs).filter fun x => x ∉ stage.outputs

theorem Stage.mem_disturb {stage grown : Stage} {dirty : List String} {x : String} :
    x ∈ stage.disturb grown dirty ↔ (x ∈ dirty ∨ x ∈ grown.outputs) ∧ x ∉ stage.outputs := by
  rw [disturb, List.mem_filter, List.mem_append, decide_eq_true_iff]

/-- Along stages and those that they grew to no stage reads a name that may differ. -/
def Undisturbed (dirty : List String) : List Stage → List Stage → Prop
  | [], [] => True
  | stage :: rest, stage' :: rest' => stage.Grown stage' ∧ (∀ x ∈ stage.inputs, x ∉ dirty) ∧
      Undisturbed (stage.disturb stage' dirty) rest rest'
  | _, _ => False

namespace Undisturbed

variable {dirty dirty' taken : List String} {stages grown rest rest' late : List Stage}

theorem mono (h : Undisturbed dirty stages grown) (hd : ∀ x ∈ dirty', x ∈ dirty) :
    Undisturbed dirty' stages grown := by
  induction stages generalizing dirty dirty' grown with
  | nil =>
    cases grown with
    | nil => trivial
    | cons => cases h
  | cons stage stages ih =>
    cases grown with
    | nil => cases h
    | cons stage' grown =>
      obtain ⟨hg, hi, hrest⟩ := h
      refine ⟨hg, fun x hx hm => hi x hx (hd x hm), ih hrest fun x hx => ?_⟩
      exact Stage.mem_disturb.mpr ((Stage.mem_disturb.mp hx).imp_left (Or.imp_left (hd x)))

theorem cons_refl {stage : Stage} (hi : ∀ x ∈ stage.inputs, x ∉ dirty)
    (h : Undisturbed dirty rest rest') : Undisturbed dirty (stage :: rest) (stage :: rest') := by
  refine ⟨.refl stage, hi, h.mono fun x hx => ?_⟩
  obtain ⟨hx, hn⟩ := Stage.mem_disturb.mp hx
  exact hx.resolve_right hn

theorem combines {cs : List Combine} (hk : ∀ c ∈ cs, c.partials ∉ dirty)
    (h : Undisturbed dirty rest rest') :
    Undisturbed dirty (cs.map .combine ++ rest) (cs.map .combine ++ rest') := by
  induction cs with
  | nil => exact h
  | cons c cs ih =>
    obtain ⟨hc, hk⟩ := List.forall_mem_cons.mp hk
    exact cons_refl (List.forall_mem_singleton.mpr hc) (ih hk)

end Undisturbed

theorem Gathers.behind {taken asked : List String} {stage : Stage} {rest : List Stage}
    (h : Gathers taken asked (stage :: rest)) (ho : stage.offers = []) :
    Gathers taken asked rest := by
  have hrest := h.2
  rw [ho, List.append_nil] at hrest
  exact hrest

theorem Gathers.behind_combines {taken asked : List String} {cs : List Combine} {rest : List Stage}
    (h : Gathers taken asked (cs.map .combine ++ rest)) : Gathers taken asked rest := by
  induction cs with
  | nil => exact h
  | cons c cs ih => exact ih (h.behind rfl)

/-- What a group gathers only because of later lines is no key of it, and no stage behind it
needs it in front of those lines. -/
theorem Gathers.disturb_group {g : Group} {more taken dirty : List String} {rest rest' : List Stage}
    (h : Gathers taken [] (.group g :: rest))
    (h' : Gathers taken [] (.group (g.gatherMore more) :: rest'))
    (hd : ∀ x ∈ dirty, x ∉ rest.flatMap Stage.needs) :
    ∀ x ∈ (Stage.group g).disturb (.group (g.gatherMore more)) dirty,
      x ∉ g.gathered ∧ x ∉ rest.flatMap Stage.needs := by
  intro x hx
  obtain ⟨hx, hn⟩ := Stage.mem_disturb.mp hx
  have hn : x ∉ g.gathered := hn
  refine ⟨hn, hx.elim (hd x) fun hm hneeded => hn ?_⟩
  rcases (h'.1 _ rfl x).mp hm with hk | ⟨ho, ht, -⟩
  · exact (h.1 g rfl x).mpr (.inl hk)
  · exact (h.1 g rfl x).mpr (.inr ⟨ho, ht, .inr hneeded⟩)

theorem Gathers.undisturbed {steps : List Step} {blocks : List Block} {taken dirty : List String}
    {grown late : List Stage} (hf : ∀ b ∈ blocks, b.Formed steps)
    (h : Gathers taken [] (blocks.flatMap Block.stages)) (h' : Gathers taken [] (grown ++ late))
    (hg : List.Forall₂ Stage.Grown (blocks.flatMap Block.stages) grown)
    (hd : ∀ x ∈ dirty, x ∉ (blocks.flatMap Block.stages).flatMap Stage.needs) :
    Undisturbed dirty (blocks.flatMap Block.stages) grown := by
  induction blocks generalizing taken dirty grown with
  | nil =>
    cases hg
    trivial
  | cons b blocks ih =>
    obtain ⟨hb, hblocks⟩ := List.forall_mem_cons.mp hf
    rw [List.flatMap_cons] at h hg hd ⊢
    cases b with
    | serial s =>
      have hd' : ∀ x ∈ dirty, x ∉ s.inputs ∧
          x ∉ (blocks.flatMap Block.stages).flatMap Stage.needs :=
        fun x hx => not_or.mp fun hm => hd x hx (List.mem_append.mpr hm)
      cases hg with
      | cons hs hg =>
        cases hs
        exact Undisturbed.cons_refl (fun x hx hm => (hd' x hm).1 hx)
          (ih hblocks (h.behind rfl) (h'.behind rfl) hg fun x hx => (hd' x hx).2)
    | group g combines =>
      have hb : g.Formed steps combines := hb
      rw [Block.stages, List.cons_append] at h hg hd ⊢
      have hd' : ∀ x ∈ dirty, x ∉ g.requests ∧
          x ∉ (combines.map Stage.combine ++ blocks.flatMap Block.stages).flatMap Stage.needs :=
        fun x hx => not_or.mp fun hm => hd x hx (List.mem_append.mpr hm)
      cases hg with
      | cons hs hg =>
        obtain ⟨more, rfl⟩ := hs.exists_more
        obtain ⟨grown, rfl, hgrown⟩ := Stage.Grown.of_combines hg
        rw [List.cons_append, List.append_assoc] at h'
        have hdirty := h.disturb_group h' fun x hx => (hd' x hx).2
        rw [List.flatMap_append, flatMap_combines fun _ => rfl, List.nil_append] at hdirty
        refine ⟨hs, fun x hx hm => (hd' x hm).1 hx, Undisturbed.combines (fun c hc hm => ?_) ?_⟩
        · exact (hdirty _ hm).1 ((h.1 g rfl _).mpr (.inl (hb.mem_partials hc)))
        · exact ih hblocks (Gathers.behind_combines h.2) (Gathers.behind_combines h'.2) hgrown
            fun x hx => (hdirty x hx).2

/-- A stage and one that it grew to read the same from two environments, and both run; what the
first one writes is the same behind both. -/
structure Stage.RunsAlike (settings : Settings) (stage grown : Stage) (env env' : Environment) :
    Prop where
  inputs : ∀ x ∈ stage.inputs, env.value? x = env'.value? x
  outputs : ∃ last last', (stage.run settings env).result = .ok last ∧
    (grown.run settings env').result = .ok last' ∧
    ∀ x ∈ stage.outputs, last.value? x = last'.value? x

section Runs

variable {settings : Settings} {env env' last' : Environment} {dirty : List String}
  {stages grown : List Stage}

/-- If the grown stages run, the others do, and each of them as the one that it grew to. -/
theorem Undisturbed.runs_alike (h : Undisturbed dirty stages grown)
    (hn : ∀ g, .group g ∈ grown → g.gathered.Nodup)
    (ha : ∀ x, x ∉ dirty → env.value? x = env'.value? x)
    (hr : (runStages settings env' grown).result = .ok last') :
    (∃ last, (runStages settings env stages).result = .ok last) ∧
      ∀ (i : Nat) stage, stages[i]? = some stage → ∃ stage' mid mid', grown[i]? = some stage' ∧
        (runStages settings env (stages.take i)).result = .ok mid ∧
        (runStages settings env' (grown.take i)).result = .ok mid' ∧
        stage.RunsAlike settings stage' mid mid' := by
  induction stages generalizing dirty grown env env' with
  | nil => exact ⟨⟨env, rfl⟩, fun i stage hi => by cases hi⟩
  | cons stage stages ih =>
    cases grown with
    | nil => cases h
    | cons stage' grown =>
      obtain ⟨hg, hi, hrest⟩ := h
      obtain ⟨mid', hs', hr'⟩ := runStages_cons_eq_ok.mp hr
      have hinputs : ∀ x ∈ stage.inputs, env.value? x = env'.value? x := fun x hx => ha x (hi x hx)
      obtain ⟨mid, hs, hsame⟩ := hg.run_agrees
        (fun g he => hn g (he ▸ List.mem_cons_self)) hinputs hs'
      have hnext : ∀ x, x ∉ stage.disturb stage' dirty → mid.value? x = mid'.value? x := by
        intro x hx
        apply hsame x
        by_cases ho : x ∈ stage.outputs
        · exact .inl ho
        · have hd := not_or.mp fun hm => hx (Stage.mem_disturb.mpr ⟨hm, ho⟩)
          exact .inr ⟨ha x hd.1, hd.2⟩
      obtain ⟨⟨last, hl⟩, hall⟩ := ih hrest (fun g hm => hn g (List.mem_cons_of_mem _ hm)) hnext hr'
      refine ⟨⟨last, runStages_cons_eq_ok.mpr ⟨mid, hs, hl⟩⟩, fun i => ?_⟩
      cases i with
      | zero =>
        intro _ he
        cases he
        exact ⟨stage', env, env', rfl, rfl, rfl, hinputs, mid, mid', hs, hs',
          fun x hx => hsame x (.inl hx)⟩
      | succ i =>
        intro next hget
        obtain ⟨next', m, m', hget', hm, hm', halike⟩ := hall i next hget
        exact ⟨next', m, m', hget', runStages_cons_eq_ok.mpr ⟨mid, hs, hm⟩,
          runStages_cons_eq_ok.mpr ⟨mid', hs', hm'⟩, halike⟩

theorem prepareAll_append (as bs : List (String × Operation)) :
    (prepareAll (as ++ bs)).result = (do
      let _ ← (prepareAll as).result
      (prepareAll bs).result) := by
  induction as with
  | nil => rfl
  | cons a as ih =>
    obtain ⟨name, operation⟩ := a
    simp only [List.cons_append, prepareAll, Run.result_bind]
    cases ((Run.ofReply name operation.prepare).mapError RunFault.inSetup).result with
    | error fault => rfl
    | ok => exact ih

end Runs

/-- Lines from a serial step on never change what the stages in front of them compute. A script
has a flow up to such a line, whose stages come first in the flow of the whole script; these
only gather more. Whenever the whole flow runs, that one does, and each of its stages reads and
writes the same in both. -/
theorem Flow.front_runs_alike {r : Repertoire} {front back : List String} {text : String} {s : Step}
    {f : Flow} (hf : Flow.ofLines r (front ++ text :: back) = .ok f) (hs : r.step? text = some s)
    (hk : s.kind = .serial) :
    ∃ f₀, Flow.ofLines r front = .ok f₀ ∧ GrowsTo f₀.stages f.stages ∧
      ∀ settings env, (f.run settings).result = .ok env →
        (∃ env₀, (f₀.run settings).result = .ok env₀) ∧
        ∀ (i : Nat) stage₀, f₀.stages[i]? = some stage₀ → ∃ stage mid₀ mid,
          f.stages[i]? = some stage ∧
          (runStages settings f₀.declared (f₀.stages.take i)).result = .ok mid₀ ∧
          (runStages settings f.declared (f.stages.take i)).result = .ok mid ∧
          stage₀.RunsAlike settings stage mid₀ mid := by
  obtain ⟨f₀, hf₀, hlinks⟩ := Flow.exists_front hf hs hk
  have hgrows := hlinks.growsTo
  refine ⟨f₀, hf₀, hgrows, fun settings env hrun => ?_⟩
  obtain ⟨early, late, hstages, hgrown⟩ := hgrows
  obtain ⟨blocks, hblocks, hb⟩ := Flow.formed_of_lines hf₀
  have hundisturbed : Undisturbed [] f₀.stages early := by
    have hgathers := Flow.gathers_of_lines hf₀
    have hgathers' := Flow.gathers_of_lines hf
    rw [hblocks] at hgathers hgrown ⊢
    rw [hstages] at hgathers'
    exact hgathers.undisturbed hb hgathers' hgrown nofun
  have hnodup : ∀ g, .group g ∈ early → g.gathered.Nodup := by
    intro g hm
    have hmem : .group g ∈ f.stages := hstages ▸ List.mem_append_left late hm
    obtain ⟨combines, hg⟩ := (Flow.formed_of_lines hf).group hmem
    exact hg.nodup
  obtain ⟨prepared, hprepare, hruns⟩ := Run.bind_eq_ok.mp hrun
  have hprepare : (prepareAll (f.stages.flatMap Stage.operations)).result = .ok prepared := hprepare
  rw [hstages, List.flatMap_append, Stage.Grown.flatMap_operations hgrown, prepareAll_append,
    bind_eq_ok] at hprepare
  obtain ⟨prepared₀, hprepare₀, -⟩ := hprepare
  rw [hstages, runStages_append, bind_eq_ok] at hruns
  obtain ⟨mid, hearly, -⟩ := hruns
  obtain ⟨⟨env₀, hrun₀⟩, halike⟩ := hundisturbed.runs_alike hnodup
    (fun x _ => (hlinks.value?_eq x).symm) hearly
  refine ⟨⟨env₀, Run.bind_eq_ok.mpr ⟨prepared₀, hprepare₀, hrun₀⟩⟩, fun i stage₀ hi => ?_⟩
  obtain ⟨stage, mid₀, mid, hget, hmid₀, hmid, hsame⟩ := halike i stage₀ hi
  have hlt : i < early.length := (List.getElem?_eq_some_iff.mp hget).1
  refine ⟨stage, mid₀, mid, ?_, hmid₀, ?_, hsame⟩
  · rw [hstages, List.getElem?_append_left hlt]
    exact hget
  · rw [hstages, List.take_append_of_le_length (Nat.le_of_lt hlt)]
    exact hmid

/-- The last line lets the group write over a list that it left alone before. -/
theorem Flow.front_runs_alike_of_overwritten : ∃ f f₀ s env,
    Flow.ofLines Standard.repertoire (["lst (> a) 3", "lst (> b) 3", "incr (a)",
      "reduce_sum (b > s)"] ++ "print (s)" :: ["print (a)"]) = .ok f ∧
    Standard.repertoire.step? "print (s)" = some s ∧ s.kind = .serial ∧
    Flow.ofLines Standard.repertoire ["lst (> a) 3", "lst (> b) 3", "incr (a)",
      "reduce_sum (b > s)"] = .ok f₀ ∧
    f₀.stages.map Stage.outputs = [["a"], ["b"], ["b"], ["s"]] ∧
    f.stages.map Stage.outputs = [["a"], ["b"], ["b", "a"], ["s"], [], []] ∧
    (f.run ⟨2, false, 0⟩).result = .ok env ∧
    (∃ env₀, (f₀.run ⟨2, false, 0⟩).result = .ok env₀) ∧
    ∃ stage₀ stage mid₀ mid, f₀.stages[3]? = some stage₀ ∧ f.stages[3]? = some stage ∧
      stage₀.RunsAlike ⟨2, false, 0⟩ stage mid₀ mid := by
  obtain ⟨f, f₀, s, env, stage₀, hf, hs, hk, hf₀, ho₀, ho, hr, hi⟩ : ∃ f f₀ s env stage₀,
      Flow.ofLines Standard.repertoire (["lst (> a) 3", "lst (> b) 3", "incr (a)",
        "reduce_sum (b > s)"] ++ "print (s)" :: ["print (a)"]) = .ok f ∧
      Standard.repertoire.step? "print (s)" = some s ∧ s.kind = .serial ∧
      Flow.ofLines Standard.repertoire ["lst (> a) 3", "lst (> b) 3", "incr (a)",
        "reduce_sum (b > s)"] = .ok f₀ ∧
      f₀.stages.map Stage.outputs = [["a"], ["b"], ["b"], ["s"]] ∧
      f.stages.map Stage.outputs = [["a"], ["b"], ["b", "a"], ["s"], [], []] ∧
      (f.run ⟨2, false, 0⟩).result = .ok env ∧ f₀.stages[3]? = some stage₀ :=
    ⟨_, _, _, _, _, rfl, rfl, rfl, rfl, rfl, rfl, rfl, rfl⟩
  obtain ⟨f₁, hf₁, -, hall⟩ := Flow.front_runs_alike hf hs hk
  cases hf₀.symm.trans hf₁
  obtain ⟨hrun, halike⟩ := hall ⟨2, false, 0⟩ env hr
  obtain ⟨stage, mid₀, mid, hget, -, -, hsame⟩ := halike 3 stage₀ hi
  exact ⟨f, f₀, s, env, hf, hs, hk, hf₀, ho₀, ho, hr, hrun, stage₀, stage, mid₀, mid, hi, hget,
    hsame⟩

end DirectiveFlow
