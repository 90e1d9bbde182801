import DirectiveFlow.Proofs.Extending
import DirectiveFlow.Proofs.Likeness

namespace DirectiveFlow

theorem GroupDraft.requesting_offered {o : GroupDraft} {names : List String}
    (h : ∀ x ∈ names, x ∈ o.group.offers) : o.requesting names = o := by
  have hf : names.filter (· ∉ o.group.offers) = [] :=
    List.filter_eq_nil_iff.mpr fun x hx => by simpa using h x hx
  rw [requesting, hf, List.append_nil]

namespace Draft

variable {r : Repertoire} {d d' : Draft} {steps : List Step} {s : Step}

/-- Whatever lines come next, one draft gives the answers that the other gives and
the same flow. -/
def Indistinct (r : Repertoire) (d d' : Draft) : Prop :=
  ∀ lines, d'.answers r lines = d.answers r lines ∧
    (d'.feed r lines).complete.2 = (d.feed r lines).complete.2

/-- Whatever lines come next, one draft gives the answers that the other gives, and a flow
that is alike. -/
def Similar (r : Repertoire) (d d' : Draft) : Prop :=
  ∀ lines, d'.answers r lines = d.answers r lines ∧
    ∃ f f', (d.feed r lines).complete.2 = .ok f ∧ (d'.feed r lines).complete.2 = .ok f' ∧
      f.Alike f'

theorem Linked.indistinct_line (h : d.Linked steps) (r : Repertoire) (line : Nat) :
    Indistinct r d { d with line := line } := by
  intro lines
  cases lines with
  | nil =>
    refine ⟨rfl, ?_⟩
    obtain ⟨closed, hc, -⟩ := h.closeGroup
    change { d with line := line }.complete.2 = d.complete.2
    unfold Draft.complete
    rw [closeGroup_line, hc]
  | cons entry lines => exact ⟨rfl, rfl⟩  -- the next line sets its own number

theorem similar_of_alike {front front' : List (Nat × String)}
    (h : (empty.feed r front).Alike (empty.feed r front')) :
    Similar r (empty.feed r front) (empty.feed r front') := by
  intro lines
  obtain ⟨hanswers, halike⟩ := h.answers lines
  have hfeed (front : List (Nat × String)) :
      (empty.feed r front).feed r lines = empty.feed r (front ++ lines) :=
    (List.foldl_append ..).symm
  refine ⟨hanswers, ?_⟩
  rw [hfeed, hfeed] at halike ⊢
  exact halike.complete (linked_feed r (front ++ lines)) (linked_feed r (front' ++ lines))

theorem locateAll_unoffered {step : String} {items : List String}
    (h : d.locateAll step items = (d', .ok ()))
    (hn : ∀ x ∈ items, x ∉ d.stages.flatMap Stage.offers) : d' = d := by
  induction items with
  | nil =>
    cases h
    rfl
  | cons item items ih =>
    obtain ⟨hi, hn⟩ := List.forall_mem_cons.mp hn
    rw [locateAll] at h
    rcases d.locate_cases item step with ⟨front, g, back, noted, hs, ho, -⟩ | ⟨-, he⟩
    · refine absurd (List.mem_flatMap.mpr ⟨.group g, ?_, ho⟩) hi
      rw [hs]
      exact List.mem_append_right front List.mem_cons_self
    · by_cases hc : d.declared.contains item
      · rw [he, if_pos hc] at h
        exact ih h hn
      · rw [he, if_neg hc] at h
        cases h

theorem Linked.addStep_error (hl : d.Linked steps) (hf : s.Fits) {fault : OutOfScope}
    (h : d.addStep s = (d', .error fault)) :
    ∃ pre x post, s.reads = pre ++ x :: post ∧ fault = ⟨x, s.name⟩ ∧
      ((s.kind = .serial ∧ ∃ closed, d.closeGroup = (closed, .ok ()) ∧
          closed.locateAll s.name pre = (d', .ok ())) ∨
        (s.kind ≠ .serial ∧ d' = { d with current := some (d.groupDraft.requesting pre) })) := by
  by_cases hk : s.kind = .serial
  · obtain ⟨operation, hb⟩ := hf.task (by simp [hk])
    obtain ⟨closed, hc, -⟩ := hl.closeGroup
    have hreads : s.reads = s.inputs := by rw [Step.reads, hb]
    rw [addStep_serial d hk hb] at h
    rcases forall_or_first closed.flow.Finds s.inputs with hall | ⟨pre, x, post, hi, hpre, hx⟩
    · obtain ⟨_, _, he, -⟩ :=
        addSerial_found (s := ⟨s.name, s.inputs, s.outputs, operation⟩) hc hall
      cases h.symm.trans he
    · obtain ⟨located, hlocated, he⟩ :=
        addSerial_missing (s := ⟨s.name, s.inputs, s.outputs, operation⟩) hc hi hpre hx
      cases h.symm.trans he
      exact ⟨pre, x, post, hreads.trans hi, rfl, .inl ⟨hk, closed, hc, hlocated⟩⟩
  · rcases forall_or_first (d.groupDraft.group.Sees d.declared) s.reads with
      hall | ⟨pre, x, post, hi, hpre, hx⟩
    · obtain ⟨_, he, -⟩ := addStep_found hf hk hall
      cases h.symm.trans he
    · cases h.symm.trans (addStep_missing hf hk hi hpre hx)
      exact ⟨pre, x, post, hi, rfl, .inr ⟨hk, rfl⟩⟩

theorem Linked.indistinct_of_located (hl : d.Linked steps) (hn : d.current = none) {closed : Draft}
    (hc : d.closeGroup = (closed, .ok ())) {line : Nat} {step : String} {items : List String}
    (hi : { closed with line := line }.locateAll step items = (d', .ok ()))
    (ho : ∀ x ∈ items, x ∉ d.stages.flatMap Stage.offers) : Indistinct r d d' := by
  rcases closeGroup_eq_ok hc with ⟨-, rfl⟩ | ⟨o, f, hcur, -⟩
  · rw [locateAll_unoffered hi ho]
    exact hl.indistinct_line r line
  · cases hn.symm.trans hcur

theorem Linked.indistinct_of_offered (hl : d.Linked steps) (hn : d.current ≠ none)
    {items : List String} (ho : ∀ x ∈ items, x ∈ d.groupDraft.group.offers) (line : Nat) :
    Indistinct r d { d with line := line, current := some (d.groupDraft.requesting items) } := by
  obtain ⟨o, hcur⟩ := Option.ne_none_iff_exists'.mp hn
  rw [GroupDraft.requesting_offered ho, groupDraft, hcur, Option.getD_some, ← hcur]
  exact hl.indistinct_line r line

/-- A line with a fault leaves no more than what it found before the fault. A line that is not
read leaves nothing. A refused step of a group leaves the group open, with requests for the names
before the missing one, which makes no difference to later answers. A refused serial step leaves
the open group closed and the names before the missing one located; without an open group and
groups that offer those names this is nothing as well. -/
theorem trace_of_error {before : List (Nat × String)} {line : Nat} {text : String}
    {fault : FlowFault} (h : (empty.feed r before).addLine r line text = (d', .error fault)) :
    let d := empty.feed r before
    (¬ r.Reads text ∧ Indistinct r d d') ∨
    ∃ s pre x post, r.step? text = some s ∧ s.reads = pre ++ x :: post ∧
      fault = .outOfScope line ⟨x, s.name⟩ ∧
      (s.kind ≠ .serial →
        d' = { d with line := line, current := some (d.groupDraft.requesting pre) } ∧
          Similar r d d' ∧
          (d.current ≠ none → (∀ y ∈ pre, y ∈ d.groupDraft.group.offers) → Indistinct r d d')) ∧
      (s.kind = .serial →
        (∃ closed, d.closeGroup = (closed, .ok ()) ∧
          { closed with line := line }.locateAll s.name pre = (d', .ok ())) ∧
          (d.current = none → (∀ y ∈ pre, y ∉ d.stages.flatMap Stage.offers) →
            Indistinct r d d')) := by
  intro d
  have hl : d.Linked (r.steps (before.map Prod.snd)) := linked_feed r before
  rcases addLine_eq_error h with ⟨hr, rfl⟩ | ⟨s, cause, hs, ha, rfl⟩
  · exact .inl ⟨hr, hl.indistinct_line r line⟩
  obtain ⟨pre, x, post, hreads, rfl, hcases⟩ :=
    (hl.line line).addStep_error (Repertoire.fits_of_step? hs) ha
  refine .inr ⟨s, pre, x, post, hs, hreads, rfl, fun hk => ?_, fun hk => ?_⟩
  · obtain ⟨-, he⟩ := hcases.resolve_left fun hc => hk hc.1
    refine ⟨he, ?_, fun hn ho => ?_⟩
    · have hfeed : d' = empty.feed r (before ++ [(line, text)]) := by rw [feed_snoc, h]
      have halike : d.Alike d' := he ▸ ⟨.refl _, rfl, rfl⟩
      rw [hfeed] at halike ⊢
      exact similar_of_alike halike
    · rw [he]
      exact hl.indistinct_of_offered hn ho line
  · obtain ⟨-, closed, hc, hlocated⟩ := hcases.resolve_right fun hc => hc.1 hk
    rw [closeGroup_line] at hc
    cases hd : d.closeGroup with
    | mk closed₀ result =>
      rw [hd] at hc
      cases hc
      exact ⟨⟨closed₀, rfl, hlocated⟩, fun hn ho => hl.indistinct_of_located hn hd hlocated ho⟩

/-- The refused "print" closes the group, out of which "incr" reads before it and
not after it. -/
theorem distinct_of_error : ¬ ∀ (r : Repertoire) (before : List (Nat × String)) (line : Nat)
    (text : String) (d' : Draft) (fault : FlowFault),
    (empty.feed r before).addLine r line text = (d', .error fault) →
      Indistinct r (empty.feed r before) d' := by
  intro h
  have hfault : ((empty.feed Standard.repertoire [(1, "lst (> a) 3"), (2, "incr (a > b)")]).addLine
      Standard.repertoire 3 "print (nope)").2 = .error (.outOfScope 3 ⟨"nope", "print"⟩) := by
    decide +kernel
  have hanswers := (h _ _ _ _ _ _ (Prod.ext rfl hfault) [(4, "incr (b > c)")]).1
  revert hanswers
  decide +kernel

/-- The same missing name closes the open group when "print" asks for it, and leaves nothing when
"incr" does. -/
theorem trace_of_error_of_nope :
    let r := Standard.repertoire
    let d := empty.feed r [(1, "lst (> a) 3"), (2, "incr (a > b)")]
    (∃ d' closed, d.addLine r 3 "print (nope)" = (d', .error (.outOfScope 3 ⟨"nope", "print"⟩)) ∧
      d.closeGroup = (closed, .ok ()) ∧ d' = { closed with line := 3 }) ∧
    ∃ d', d.addLine r 3 "incr (nope)" = (d', .error (.outOfScope 3 ⟨"nope", "incr"⟩)) ∧
      Indistinct r d d' := by
  intro r d
  have hopen : d.current ≠ none := Option.isSome_iff_ne_none.mp (by decide +kernel)
  have hempty {pre post : List String} {x : String} (h : ["nope"] = pre ++ x :: post) :
      pre = [] := by
    cases pre with
    | nil => rfl
    | cons y pre => simp at h
  have hstep (kind : StepKind) {text : String} {s : Step} (hs : r.step? text = some s)
      (hd : (r.step? text).map (fun s => (s.kind, s.reads)) = some (kind, ["nope"])) :
      s.kind = kind ∧ s.reads = ["nope"] := by
    rw [hs] at hd
    exact Prod.mk.inj (Option.some.inj hd)
  constructor
  · have hprint : d.addLine r 3 "print (nope)" =
        ((d.addLine r 3 "print (nope)").1, .error (.outOfScope 3 ⟨"nope", "print"⟩)) :=
      Prod.ext rfl (by decide +kernel)
    rcases trace_of_error hprint with ⟨hr, -⟩ | ⟨s, pre, x, post, hs, hreads, -, -, hserial⟩
    · exact absurd ⟨_, rfl, .inr ⟨_, rfl⟩⟩ hr
    · obtain ⟨hkind, hnope⟩ := hstep .serial hs (by decide +kernel)
      obtain rfl := hempty (hnope.symm.trans hreads)
      obtain ⟨⟨closed, hc, hi⟩, -⟩ := hserial hkind
      exact ⟨_, closed, hprint, hc, (congrArg Prod.fst hi).symm⟩
  · have hincr : d.addLine r 3 "incr (nope)" =
        ((d.addLine r 3 "incr (nope)").1, .error (.outOfScope 3 ⟨"nope", "incr"⟩)) :=
      Prod.ext rfl (by decide +kernel)
    rcases trace_of_error hincr with ⟨hr, -⟩ | ⟨s, pre, x, post, hs, hreads, -, hgroup, -⟩
    · exact absurd ⟨_, rfl, .inr ⟨_, rfl⟩⟩ hr
    · obtain ⟨hkind, hnope⟩ := hstep .parallel hs (by decide +kernel)
      obtain rfl := hempty (hnope.symm.trans hreads)
      obtain ⟨-, -, hindistinct⟩ := hgroup (by rw [hkind]; nofun)
      exact ⟨_, hincr, hindistinct hopen nofun⟩

end Draft

end DirectiveFlow
