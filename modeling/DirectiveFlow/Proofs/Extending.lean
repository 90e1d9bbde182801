import Mathlib.Data.List.Forall2
import DirectiveFlow.Proofs.Availability

namespace DirectiveFlow

/-- The group with more names gathered behind the others. -/
def Group.gatherMore (g : Group) (more : List String) : Group :=
  { g with gathered := g.gathered ++ more }

theorem Group.gatherMore_nil (g : Group) : g.gatherMore [] = g := by
  unfold gatherMore
  rw [List.append_nil]

theorem Group.gatherMore_append (g : Group) (more more' : List String) :
    (g.gatherMore more).gatherMore more' = g.gatherMore (more ++ more') := by
  unfold gatherMore
  rw [List.append_assoc]

namespace Stage

/-- A stage as it is or, if it is a group, with more names gathered behind the others. -/
inductive Grown : Stage → Stage → Prop
  | refl (stage : Stage) : Grown stage stage
  | group (g : Group) (more : List String) : Grown (.group g) (.group (g.gatherMore more))

namespace Grown

variable {stage stage' stage'' : Stage}

theorem trans (h : stage.Grown stage') (h' : stage'.Grown stage'') : stage.Grown stage'' := by
  cases h with
  | refl => exact h'
  | group g more =>
    cases h' with
    | refl => exact .group g more
    | group _ more' =>
      rw [Group.gatherMore_append]
      exact .group g (more ++ more')

theorem gather (stage : Stage) (item : String) : stage.Grown (stage.gather item) := by
  cases stage with
  | serial s => exact .refl _
  | combine c => exact .refl _
  | group g =>
    simp only [Stage.gather, Group.gather]
    by_cases hi : item ∈ g.gathered
    · rw [if_pos hi]
      exact .refl _
    · rw [if_neg hi]
      exact .group g [item]

theorem operations_eq (h : stage.Grown stage') : stage'.operations = stage.operations := by
  cases h <;> rfl

theorem flatMap_operations {stages grown : List Stage} (h : List.Forall₂ Grown stages grown) :
    grown.flatMap Stage.operations = stages.flatMap Stage.operations := by
  induction h with
  | nil => rfl
  | cons hg _ ih => rw [List.flatMap_cons, List.flatMap_cons, hg.operations_eq, ih]

theorem exists_more {g : Group} (h : (Stage.group g).Grown stage') :
    ∃ more, stage' = .group (g.gatherMore more) := by
  cases h with
  | refl => exact ⟨[], congrArg Stage.group g.gatherMore_nil.symm⟩
  | group _ more => exact ⟨more, rfl⟩

theorem of_combines {combines : List Combine} {rest grown : List Stage}
    (h : List.Forall₂ Grown (combines.map .combine ++ rest) grown) :
    ∃ rest', grown = combines.map .combine ++ rest' ∧ List.Forall₂ Grown rest rest' := by
  induction combines generalizing grown with
  | nil => exact ⟨grown, rfl, h⟩
  | cons c combines ih =>
    cases h with
    | cons hc hcs =>
      cases hc
      obtain ⟨rest', rfl, hrest⟩ := ih hcs
      exact ⟨rest', rfl, hrest⟩

end Grown

end Stage

/-- A list of stages comes to another in which they come first, each as it is or grown. -/
def GrowsTo (stages stages' : List Stage) : Prop :=
  ∃ early late, stages' = early ++ late ∧ List.Forall₂ Stage.Grown stages early

namespace GrowsTo

variable {stages stages' early late tail : List Stage}

theorem refl (stages : List Stage) : GrowsTo stages stages :=
  ⟨stages, [], (List.append_nil _).symm, List.forall₂_same.mpr fun _ _ => .refl _⟩

theorem append (h : GrowsTo stages stages') (tail : List Stage) :
    GrowsTo stages (stages' ++ tail) := by
  obtain ⟨early, late, rfl, hg⟩ := h
  exact ⟨early, late ++ tail, List.append_assoc .., hg⟩

theorem exists_gatherFirst (early late : List Stage) (item : String) :
    ∃ early' late', DirectiveFlow.gatherFirst (early ++ late) item = early' ++ late' ∧
      List.Forall₂ Stage.Grown early early' := by
  induction early with
  | nil => exact ⟨[], _, rfl, .nil⟩
  | cons stage early ih =>
    rw [List.cons_append, DirectiveFlow.gatherFirst]
    by_cases hi : item ∈ stage.offers
    · rw [if_pos hi]
      refine ⟨stage.gather item :: early, late, rfl, .cons (.gather stage item) ?_⟩
      exact List.forall₂_same.mpr fun _ _ => .refl _
    · rw [if_neg hi]
      obtain ⟨early', late', he, hg⟩ := ih
      exact ⟨stage :: early', late', congrArg (stage :: ·) he, .cons (.refl stage) hg⟩

theorem forall₂_trans {as bs cs : List Stage} (h : List.Forall₂ Stage.Grown as bs)
    (h' : List.Forall₂ Stage.Grown bs cs) : List.Forall₂ Stage.Grown as cs := by
  induction h generalizing cs with
  | nil => exact h'
  | cons hab _ ih =>
    cases h' with
    | cons hbc h' => exact .cons (hab.trans hbc) (ih h')

theorem gatherFirst (h : GrowsTo stages stages') (item : String) :
    GrowsTo stages (gatherFirst stages' item) := by
  obtain ⟨early, late, rfl, hg⟩ := h
  obtain ⟨early', late', he, hg'⟩ := exists_gatherFirst early late item
  exact ⟨early', late', he, forall₂_trans hg hg'⟩

theorem gatherAll (h : GrowsTo stages stages') (items : List String) :
    GrowsTo stages (items.foldl DirectiveFlow.gatherFirst stages') := by
  induction items generalizing stages' with
  | nil => exact h
  | cons item items ih => exact ih (h.gatherFirst item)

end GrowsTo

theorem Flow.Located.growsTo {f f' : Flow} {items : List String} (h : f.Located items f') :
    GrowsTo f.stages f'.stages := by
  rw [h.stages]
  exact (GrowsTo.refl f.stages).gatherAll items

theorem Environment.value?_declareAll (env : Environment) (names : List String) (x : String) :
    (env.declareAll names).value? x = env.value? x := by
  induction names generalizing env with
  | nil => rfl
  | cons name names ih => exact (ih (env.declare name)).trans (value?_declare _ _ _)

theorem Draft.value?_declareCombines (env : Environment) (combines : List Combine) (x : String) :
    (combines.foldl declareCombine env).value? x = env.value? x := by
  induction combines generalizing env with
  | nil => rfl
  | cons c combines ih =>
    rw [List.foldl_cons, ih, declareCombine, Environment.value?_declare]
    split
    · rfl
    · exact Environment.value?_declare _ _ _

namespace Flow.LinksTo

variable {f f' : Flow}

theorem growsTo (h : f.LinksTo f') : GrowsTo f.stages f'.stages := by
  induction h with
  | refl => exact .refl _
  | group _ hl _ ih => exact (hl.stages ▸ ih.gatherAll _).append _
  | serial _ hl ih => exact (hl.stages ▸ ih.gatherAll _).append _

theorem value?_eq (h : f.LinksTo f') (x : String) : f'.declared.value? x = f.declared.value? x := by
  induction h with
  | refl => rfl
  | group _ hl _ ih => exact (Draft.value?_declareCombines _ _ x).trans ((hl.value? x).trans ih)
  | serial _ hl ih => exact (Environment.value?_declareAll _ _ x).trans ((hl.value? x).trans ih)

end Flow.LinksTo

namespace Draft

variable {d d' : Draft}

theorem locate_line (d : Draft) (n : Nat) (item step : String) :
    { d with line := n }.locate item step =
      ({ (d.locate item step).1 with line := n }, (d.locate item step).2) := by
  have hp : { d with line := n }.providers item = d.providers item := rfl
  unfold locate
  rw [hp]
  cases d.providers item with
  | nil =>
    by_cases hc : d.declared.contains item
    · simp only [if_pos hc]
    · simp only [if_neg hc]
  | cons chosen others => rfl

theorem locateAll_line (d : Draft) (n : Nat) (step : String) (items : List String) :
    { d with line := n }.locateAll step items =
      ({ (d.locateAll step items).1 with line := n }, (d.locateAll step items).2) := by
  induction items generalizing d with
  | nil => rfl
  | cons item items ih =>
    rw [locateAll, locate_line, locateAll]
    cases d.locate item step with
    | mk next result =>
      cases result with
      | error fault => rfl
      | ok => exact ih next

theorem closeGroup_line (d : Draft) (n : Nat) :
    { d with line := n }.closeGroup =
      ({ d.closeGroup.1 with line := n }, d.closeGroup.2) := by
  obtain ⟨stages, declared, current, line, ambiguities⟩ := d
  cases current with
  | none => rfl
  | some o =>
    have hl := (Draft.mk stages declared none line ambiguities).locateAll_line n o.group.name
      o.group.requests
    simp only [closeGroup] at hl ⊢
    rw [hl]
    cases (Draft.mk stages declared none line ambiguities).locateAll o.group.name
      o.group.requests with
    | mk next result =>
      cases result with
      | error fault => rfl
      | ok => rfl

end Draft

/-- A script has a flow up to a line that calls a serial step, and the flow of the whole script
comes of it by linking. -/
theorem Flow.exists_front {r : Repertoire} {front back : List String} {text : String} {s : Step}
    {f : Flow} (hf : Flow.ofLines r (front ++ text :: back) = .ok f) (hs : r.step? text = some s)
    (hk : s.kind = .serial) : ∃ f₀, Flow.ofLines r front = .ok f₀ ∧ f₀.LinksTo f := by
  obtain ⟨d, d', hd, hc, rfl⟩ := Flow.ofLines_eq_ok hf
  obtain ⟨d₀, hfront, hrest⟩ := Draft.addLines_append_eq_ok hd
  obtain ⟨d₁, hline, hback⟩ := Draft.addLines_cons_eq_ok hrest
  obtain ⟨operation, hb⟩ := (Repertoire.fits_of_step? hs).task (by simp [hk])
  have hadd : { d₀ with line := 1 + front.length }.addStep s = (d₁, .ok ()) := by
    obtain ⟨-, ⟨hn, -⟩ | ⟨s', hs', ha⟩⟩ := Draft.addLine_eq_ok hline
    · cases hs.symm.trans hn
    · cases hs.symm.trans hs'
      exact ha
  have hopen := (Draft.addLines_links (Draft.openKeys_of_none rfl) hfront).2
  obtain ⟨-, hopen₁⟩ := Draft.addStep_links
    (d := { d₀ with line := 1 + front.length }) hopen hadd
  rw [Draft.addStep_serial _ hk hb] at hadd
  obtain ⟨closed, located, hclose, hl, hflow, -⟩ := Draft.addSerial_eq_ok hadd
  rw [Draft.closeGroup_line] at hclose
  cases hc₀ : d₀.closeGroup with
  | mk closed₀ result =>
    rw [hc₀] at hclose
    cases hclose
    refine ⟨closed₀.flow, ?_, ?_⟩
    · exact Flow.ofLines_of_closeGroup hfront hc₀
    · have hserial : closed₀.flow.LinksTo d₁.flow := hflow ▸ .serial .refl hl
      obtain ⟨hlinks, hopen₂⟩ := Draft.addLines_links hopen₁ hback
      exact (hserial.trans hlinks).trans (Draft.closeGroup_links hopen₂ hc).1

end DirectiveFlow
