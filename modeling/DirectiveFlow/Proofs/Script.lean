import DirectiveFlow.Flow.Draft

namespace DirectiveFlow

namespace Repertoire

def step? (r : Repertoire) (text : String) : Option Step :=
  match Directive.ofLine text with
  | .error _ => none
  | .ok directive => if directive.name = "" then none else (r.call directive).toOption

def steps (r : Repertoire) (lines : List String) : List Step :=
  lines.filterMap r.step?

/-- A line is blank or calls a step. -/
def Reads (r : Repertoire) (text : String) : Prop :=
  ∃ d, Directive.ofLine text = .ok d ∧ (d.name = "" ∨ ∃ s, r.call d = .ok s)

theorem step?_eq_some {r : Repertoire} {text : String} {s : Step} (h : r.step? text = some s) :
    ∃ d, Directive.ofLine text = .ok d ∧ d.name ≠ "" ∧ r.call d = .ok s := by
  unfold step? at h
  cases hd : Directive.ofLine text with
  | error fault =>
    rw [hd] at h
    cases h
  | ok directive =>
    simp only [hd] at h
    by_cases hn : directive.name = ""
    · rw [if_pos hn] at h
      cases h
    · rw [if_neg hn] at h
      cases hc : r.call directive with
      | error fault =>
        rw [hc] at h
        cases h
      | ok called =>
        rw [hc] at h
        cases h
        exact ⟨directive, rfl, hn, hc⟩

theorem step?_eq_none {r : Repertoire} {text : String} (h : r.step? text = none) :
    (∃ fault, Directive.ofLine text = .error fault) ∨
      ∃ d, Directive.ofLine text = .ok d ∧
        (d.name = "" ∨ (d.name ≠ "" ∧ ∃ fault, r.call d = .error fault)) := by
  unfold step? at h
  cases hd : Directive.ofLine text with
  | error fault => exact .inl ⟨fault, rfl⟩
  | ok directive =>
    simp only [hd] at h
    by_cases hn : directive.name = ""
    · exact .inr ⟨directive, rfl, .inl hn⟩
    · rw [if_neg hn] at h
      cases hc : r.call directive with
      | error fault => exact .inr ⟨directive, rfl, .inr ⟨hn, fault, hc⟩⟩
      | ok called =>
        rw [hc] at h
        cases h

end Repertoire

namespace Draft

variable {r : Repertoire} {d : Draft} {line : Nat} {text : String}

/-- Gives numbered lines to a draft one after another, whatever comes of each. -/
def feed (d : Draft) (r : Repertoire) (lines : List (Nat × String)) : Draft :=
  lines.foldl (fun d (line, text) => (d.addLine r line text).1) d

theorem addLine_of_none (h : r.step? text = none) :
    (d.addLine r line text).1 = { d with line := line } := by
  rw [addLine]
  rcases Repertoire.step?_eq_none h with ⟨fault, hd⟩ | ⟨directive, hd, hn | ⟨hn, fault, hc⟩⟩
  · rw [hd]
  · simp only [hd, if_pos hn]
  · simp only [hd, if_neg hn, hc]

theorem addLine_call {s : Step} (h : r.step? text = some s) :
    d.addLine r line text = (({ d with line := line }.addStep s).1,
      ({ d with line := line }.addStep s).2.mapError (.outOfScope line)) := by
  obtain ⟨directive, hd, hn, hc⟩ := Repertoire.step?_eq_some h
  rw [addLine]
  simp only [hd, if_neg hn, hc]

theorem addLine_of_some {s : Step} (h : r.step? text = some s) :
    (d.addLine r line text).1 = ({ d with line := line }.addStep s).1 :=
  congrArg Prod.fst (addLine_call h)

theorem addLine_blank (hr : r.Reads text) (h : r.step? text = none) :
    d.addLine r line text = ({ d with line := line }, .ok ()) := by
  obtain ⟨directive, hd, hc⟩ := hr
  unfold addLine
  simp only [hd]
  by_cases hn : directive.name = ""
  · rw [if_pos hn]
  · obtain ⟨s, hs⟩ := hc.resolve_left hn
    simp only [Repertoire.step?, hd, if_neg hn, hs] at h
    cases h

theorem addLine_unread (line : Nat) (hr : ¬ r.Reads text) :
    ∃ fault, ∀ d : Draft, d.addLine r line text = ({ d with line := line }, .error fault) := by
  unfold addLine
  cases hd : Directive.ofLine text with
  | error fault => exact ⟨_, fun _ => rfl⟩
  | ok directive =>
    have hn : directive.name ≠ "" := fun hn => hr ⟨directive, hd, .inl hn⟩
    simp only [if_neg hn]
    cases hc : r.call directive with
    | error fault => exact ⟨_, fun _ => rfl⟩
    | ok step => exact absurd ⟨directive, hd, .inr ⟨step, hc⟩⟩ hr

theorem addLine_eq_ok {d' : Draft} (h : d.addLine r line text = (d', .ok ())) :
    r.Reads text ∧ ((r.step? text = none ∧ d' = { d with line := line }) ∨
      ∃ s, r.step? text = some s ∧ { d with line := line }.addStep s = (d', .ok ())) := by
  by_cases hr : r.Reads text
  · refine ⟨hr, ?_⟩
    cases hs : r.step? text with
    | none =>
      rw [addLine_blank hr hs] at h
      cases h
      exact .inl ⟨rfl, rfl⟩
    | some s =>
      rw [addLine_call hs] at h
      refine .inr ⟨s, rfl, ?_⟩
      cases ha : { d with line := line }.addStep s with
      | mk next result =>
        rw [ha] at h
        cases result with
        | error fault => cases h
        | ok => cases h; rfl
  · obtain ⟨fault, he⟩ := addLine_unread line hr
    rw [he] at h
    cases h

theorem addLine_eq_error {d' : Draft} {fault : FlowFault}
    (h : d.addLine r line text = (d', .error fault)) :
    (¬ r.Reads text ∧ d' = { d with line := line }) ∨
      ∃ s cause, r.step? text = some s ∧
        { d with line := line }.addStep s = (d', .error cause) ∧
          fault = .outOfScope line cause := by
  cases hs : r.step? text with
  | none =>
    refine .inl ⟨fun hr => ?_, ?_⟩
    · cases h.symm.trans (addLine_blank hr hs)
    · exact (congrArg Prod.fst h).symm.trans (addLine_of_none hs)
  | some s =>
    rw [addLine_call hs] at h
    cases ha : { d with line := line }.addStep s with
    | mk next result =>
      rw [ha] at h
      cases result with
      | ok => cases h
      | error cause =>
        cases h
        exact .inr ⟨s, cause, rfl, ha, rfl⟩

theorem addLines_cons_eq_ok {lines : List String} {d' : Draft}
    (h : d.addLines r line (text :: lines) = (d', .ok ())) :
    ∃ next, d.addLine r line text = (next, .ok ()) ∧
      next.addLines r (line + 1) lines = (d', .ok ()) := by
  rw [addLines] at h
  cases ha : d.addLine r line text with
  | mk next result =>
    rw [ha] at h
    cases result with
    | error fault => cases h
    | ok => exact ⟨next, rfl, h⟩

theorem addLines_append_eq_ok {front back : List String} {d' : Draft}
    (h : d.addLines r line (front ++ back) = (d', .ok ())) :
    ∃ next, d.addLines r line front = (next, .ok ()) ∧
      next.addLines r (line + front.length) back = (d', .ok ()) := by
  induction front generalizing d line with
  | nil => exact ⟨d, rfl, h⟩
  | cons text front ih =>
    obtain ⟨mid, hm, hr⟩ := addLines_cons_eq_ok h
    obtain ⟨next, hf, hb⟩ := ih hr
    refine ⟨next, ?_, ?_⟩
    · rw [addLines, hm]
      exact hf
    · rw [List.length_cons, Nat.add_comm front.length, ← Nat.add_assoc]
      exact hb

/-- What a line's number and the linking of a step keep, lines keep. -/
theorem feed_induction {P : Draft → Prop} {lines : List (Nat × String)}
    (hline : ∀ d line, P d → P { d with line := line })
    (hstep : ∀ d, ∀ s ∈ r.steps (lines.map Prod.snd), P d → P (d.addStep s).1) (h : P d) :
    P (d.feed r lines) := by
  induction lines generalizing d with
  | nil => exact h
  | cons entry lines ih =>
    obtain ⟨line, text⟩ := entry
    apply ih
    · intro d s hs
      exact hstep d s (by
        rw [List.map_cons, Repertoire.steps, List.filterMap_cons]
        split
        · exact hs
        · exact List.mem_cons_of_mem _ hs)
    · change P (d.addLine r line text).1
      cases hc : r.step? text with
      | none =>
        rw [addLine_of_none hc]
        exact hline d line h
      | some s =>
        rw [addLine_of_some hc]
        refine hstep _ s ?_ (hline d line h)
        rw [List.map_cons, Repertoire.steps, List.filterMap_cons, hc]
        exact List.mem_cons_self

theorem addLines_eq_feed {lines : List String} {d' : Draft}
    (h : d.addLines r line lines = (d', .ok ())) :
    ∃ numbered : List (Nat × String), numbered.map Prod.snd = lines ∧ d' = d.feed r numbered := by
  induction lines generalizing d line with
  | nil =>
    cases h
    exact ⟨[], rfl, rfl⟩
  | cons text lines ih =>
    obtain ⟨next, ha, h⟩ := addLines_cons_eq_ok h
    obtain ⟨numbered, hn, rfl⟩ := ih h
    refine ⟨(line, text) :: numbered, by rw [List.map_cons, hn], ?_⟩
    change _ = Draft.feed (d.addLine r line text).1 r numbered
    rw [ha]

end Draft

/-- A flow of a script is what a draft comes to that was given its lines. -/
theorem Flow.exists_feed {r : Repertoire} {lines : List String} {f : Flow}
    (h : Flow.ofLines r lines = .ok f) :
    ∃ numbered : List (Nat × String), numbered.map Prod.snd = lines ∧
      (Draft.empty.feed r numbered).complete.2 = .ok f := by
  unfold Flow.ofLines Draft.ofLines at h
  cases ha : Draft.empty.addLines r 1 lines with
  | mk d result =>
    rw [ha] at h
    cases result with
    | error fault => cases h
    | ok =>
      obtain ⟨numbered, hn, rfl⟩ := Draft.addLines_eq_feed ha
      exact ⟨numbered, hn, h⟩

end DirectiveFlow
