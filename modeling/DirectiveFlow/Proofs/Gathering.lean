import DirectiveFlow.Proofs.Locating
import DirectiveFlow.Standard

namespace DirectiveFlow

/-- Each group gathers its keys and, of what it offers and is not taken by a group before it,
what stages behind it need or is asked for besides. -/
def Gathers (taken asked : List String) : List Stage → Prop
  | [] => True
  | stage :: rest =>
    (∀ g, stage = .group g → ∀ x, x ∈ g.gathered ↔ x ∈ g.partials ∨
      (x ∈ g.offers ∧ x ∉ taken ∧ (x ∈ asked ∨ x ∈ rest.flatMap Stage.needs))) ∧
    Gathers (taken ++ stage.offers) asked rest

namespace Gathers

variable {taken asked asked' items : List String} {stages : List Stage} {item : String}

theorem asking (h : Gathers taken asked stages)
    (ha : ∀ x, x ∉ taken → (x ∈ asked ↔ x ∈ asked')) : Gathers taken asked' stages := by
  induction stages generalizing taken with
  | nil => trivial
  | cons stage rest ih =>
    constructor
    · intro g hg x
      rw [h.1 g hg x]
      refine or_congr_right (and_congr_right fun _ => and_congr_right fun hx => ?_)
      exact or_congr_left (ha x hx)
    · exact ih h.2 fun x hx => ha x fun ht => hx (List.mem_append_left _ ht)

theorem gatherFirst (h : Gathers taken asked stages) (hi : item ∉ taken) :
    Gathers taken (item :: asked) (gatherFirst stages item) := by
  induction stages generalizing taken with
  | nil => trivial
  | cons stage rest ih =>
    obtain ⟨hhead, hrest⟩ := h
    rw [DirectiveFlow.gatherFirst]
    by_cases hs : item ∈ stage.offers
    · -- this is the first stage that offers the item; behind it the item is taken
      rw [if_pos hs]
      cases stage with
      | serial s => cases hs
      | combine c => cases hs
      | group g =>
        constructor
        · intro g' hg x
          cases hg
          rw [Group.mem_gathered_gather, Group.gather_partials, Group.gather_offers, hhead g rfl x,
            List.mem_cons]
          constructor
          · rintro ((hp | ⟨ho, ht, hx⟩) | rfl)
            · exact .inl hp
            · exact .inr ⟨ho, ht, hx.imp_left .inr⟩
            · exact .inr ⟨hs, hi, .inl (.inl rfl)⟩
          · rintro (hp | ⟨ho, ht, (rfl | hx) | hx⟩)
            · exact .inl (.inl hp)
            · exact .inr rfl
            · exact .inl (.inr ⟨ho, ht, .inl hx⟩)
            · exact .inl (.inr ⟨ho, ht, .inr hx⟩)
        · rw [Stage.offers_gather]
          refine hrest.asking fun x hx => ?_
          have hne : x ≠ item := fun he => hx (List.mem_append_right _ (he ▸ hs))
          rw [List.mem_cons, or_iff_right hne]
    · rw [if_neg hs]
      constructor
      · intro g hg x
        subst hg
        rw [hhead g rfl x, flatMap_gatherFirst fun _ => Stage.needs_gather, List.mem_cons]
        refine or_congr_right (and_congr_right fun ho => and_congr_right fun _ => ?_)
        have hne : x ≠ item := fun he => hs (he ▸ ho)
        rw [or_iff_right hne]
      · exact ih hrest fun hm => (List.mem_append.mp hm).elim hi hs

theorem gatherAll (h : Gathers [] asked stages) (ha : ∀ x, x ∈ asked' ↔ x ∈ items ∨ x ∈ asked) :
    Gathers [] asked' (items.foldl DirectiveFlow.gatherFirst stages) := by
  induction items generalizing stages asked with
  | nil =>
    refine h.asking fun x _ => ?_
    rw [ha x, or_iff_right List.not_mem_nil]
  | cons item items ih =>
    apply ih (h.gatherFirst List.not_mem_nil)
    intro x
    rw [ha x, List.mem_cons, List.mem_cons, or_assoc, or_left_comm]

theorem append (h : Gathers taken asked stages) (tail : List Stage)
    (ht : Gathers (taken ++ stages.flatMap Stage.offers) [] tail)
    (ha : ∀ x, x ∈ asked ↔ x ∈ tail.flatMap Stage.needs) : Gathers taken [] (stages ++ tail) := by
  induction stages generalizing taken with
  | nil =>
    rw [List.flatMap_nil, List.append_nil] at ht
    exact ht
  | cons stage rest ih =>
    rw [List.cons_append]
    constructor
    · intro g hg x
      rw [h.1 g hg x, List.flatMap_append, List.mem_append, ← ha x, or_iff_right List.not_mem_nil,
        or_comm (a := x ∈ asked)]
    · apply ih h.2
      rw [List.flatMap_cons, ← List.append_assoc] at ht
      exact ht

theorem combines (taken : List String) (cs : List Combine) :
    Gathers taken [] (cs.map .combine) := by
  induction cs generalizing taken with
  | nil => trivial
  | cons c cs ih => exact ⟨nofun, ih _⟩

theorem linksTo {f f' : Flow} (h : Gathers [] [] f.stages) (hl : f.LinksTo f') :
    Gathers [] [] f'.stages := by
  induction hl with
  | refl => exact h
  | @group f₁ f₂ o _ hl hk ih =>
    have hall : Gathers [] o.group.requests f₂.stages := by
      rw [hl.stages]
      exact ih.gatherAll fun x => (or_iff_left List.not_mem_nil).symm
    refine hall.append (.group o.group :: o.combines.map .combine) ⟨?_, ?_⟩ fun x => ?_
    · intro g hg x
      cases hg
      rw [hk x, flatMap_combines fun _ => rfl]
      exact (or_iff_left fun hn => hn.2.2.elim List.not_mem_nil List.not_mem_nil).symm
    · exact combines _ o.combines
    · rw [List.flatMap_cons, flatMap_combines fun _ => rfl, List.append_nil]
      rfl
  | @serial f₁ f₂ s _ hl ih =>
    have hall : Gathers [] s.inputs f₂.stages := by
      rw [hl.stages]
      exact ih.gatherAll fun x => (or_iff_left List.not_mem_nil).symm
    refine hall.append [.serial s] ⟨nofun, trivial⟩ fun x => ?_
    rw [List.flatMap_singleton]
    rfl

theorem group_iff {before after : List Stage} {g : Group}
    (h : Gathers taken asked (before ++ .group g :: after)) (x : String) :
    x ∈ g.gathered ↔ x ∈ g.partials ∨ (x ∈ g.offers ∧
      (x ∉ taken ∧ x ∉ before.flatMap Stage.offers) ∧
      (x ∈ asked ∨ x ∈ after.flatMap Stage.needs)) := by
  induction before generalizing taken with
  | nil =>
    rw [h.1 g rfl x, List.flatMap_nil, and_iff_left (b := x ∉ []) List.not_mem_nil]
  | cons stage before ih =>
    rw [ih h.2, List.mem_append, not_or, and_assoc (a := x ∉ taken), List.flatMap_cons,
      List.mem_append, not_or]

end Gathers

theorem Flow.gathers_of_lines {r : Repertoire} {lines : List String} {f : Flow}
    (h : Flow.ofLines r lines = .ok f) : Gathers [] [] f.stages :=
  Gathers.linksTo (f := .empty) trivial (Flow.links_of_lines h)

/-- A group gathers the keys of its folds and, of what its members write, the names that no group
before it could give and that a serial step or a group behind it reads. -/
theorem Flow.mem_gathered_iff {r : Repertoire} {lines : List String} {f : Flow}
    {before after : List Stage} {g : Group} (hf : Flow.ofLines r lines = .ok f)
    (hs : f.stages = before ++ .group g :: after) :
    g.gathered.Nodup ∧ ∀ x, x ∈ g.gathered ↔ x ∈ g.partials ∨
      (x ∈ g.offers ∧ (∀ g', .group g' ∈ before → x ∉ g'.offers) ∧
        ∃ stage ∈ after, x ∈ stage.needs) := by
  have hg := Flow.gathers_of_lines hf
  rw [hs] at hg
  have hm : .group g ∈ f.stages := hs ▸ List.mem_append_right before List.mem_cons_self
  obtain ⟨combines, hformed⟩ := (Flow.formed_of_lines hf).group hm
  refine ⟨hformed.nodup, fun x => ?_⟩
  have hbefore : x ∉ before.flatMap Stage.offers ↔ ∀ g', .group g' ∈ before → x ∉ g'.offers := by
    rw [List.mem_flatMap]
    constructor
    · exact fun hn g' hg' hx => hn ⟨.group g', hg', hx⟩
    · rintro hn ⟨stage, hstage, hx⟩
      cases stage with
      | group g' => exact hn g' hstage hx
      | serial s => cases hx
      | combine c => cases hx
  rw [hg.group_iff x, and_iff_right (a := x ∉ []) List.not_mem_nil, hbefore,
    or_iff_right (a := x ∈ []) List.not_mem_nil, List.mem_flatMap]

/-- A later group does not gather what an earlier one could give as well, though it is read. -/
theorem Flow.mem_gathered_iff_of_two : ∃ f lst first src g after,
    Flow.ofLines Standard.repertoire ["lst (> a) 3", "incr (a > b)", "src (> x) 0",
      "incr (a > b)", "reduce_sum (a > s)", "print (b)"] = .ok f ∧
    f.stages = [lst, .group first, src] ++ .group g :: after ∧ first.offers = ["b"] ∧
    first.gathered = ["b"] ∧ g.offers = ["b", "a"] ∧ g.partials = ["a"] ∧
    after.map Stage.needs = [[], ["b"]] ∧ "a" ∈ g.gathered ∧ "b" ∉ g.gathered := by
  obtain ⟨f, lst, first, src, g, after, hf, hs, hb, hbg, ho, hp, hn⟩ : ∃ f lst first src g after,
      Flow.ofLines Standard.repertoire ["lst (> a) 3", "incr (a > b)", "src (> x) 0",
        "incr (a > b)", "reduce_sum (a > s)", "print (b)"] = .ok f ∧
      f.stages = [lst, .group first, src] ++ .group g :: after ∧ first.offers = ["b"] ∧
      first.gathered = ["b"] ∧ g.offers = ["b", "a"] ∧ g.partials = ["a"] ∧
      after.map Stage.needs = [[], ["b"]] :=
    ⟨_, _, _, _, _, _, rfl, rfl, rfl, rfl, rfl, rfl, rfl⟩
  have hg := (Flow.mem_gathered_iff hf hs).2
  have ha : "a" ∈ g.partials := hp ▸ List.mem_cons_self
  refine ⟨f, lst, first, src, g, after, hf, hs, hb, hbg, ho, hp, hn, (hg "a").mpr (.inl ha), ?_⟩
  intro hm
  rcases (hg "b").mp hm with hk | ⟨-, hfirst, -⟩
  · rw [hp] at hk
    exact absurd hk (by decide)
  · exact hfirst first (by simp) (hb ▸ List.mem_cons_self)

end DirectiveFlow
