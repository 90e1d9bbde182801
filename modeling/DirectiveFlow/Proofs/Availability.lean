import Mathlib.Data.List.DropRight
import DirectiveFlow.Proofs.Locating

namespace DirectiveFlow

namespace Step

/-- The names that a step gives to later ones. A reducer has one. -/
def writes (s : Step) : List String :=
  match s.body with
  | .task _ => s.outputs
  | .fold _ => [s.outputs.head?.getD ""]

/-- The names that a step offers to its group. A reducer leaves its item there. -/
def offers (s : Step) : List String :=
  match s.body with
  | .task _ => s.outputs
  | .fold _ => s.reads

/-- The kind of a step is that of its code. -/
def Fits (s : Step) : Prop :=
  Repertoire.fits s.kind s.body

variable {s : Step}

theorem Fits.task (hf : s.Fits) (hk : s.kind ≠ .reducer) :
    ∃ operation, s.body = .task operation := by
  unfold Fits at hf
  cases hb : s.body with
  | task operation => exact ⟨operation, rfl⟩
  | fold reduction =>
    cases hkind : s.kind with
    | reducer => exact absurd hkind hk
    | serial | parallel =>
      rw [hkind, hb] at hf
      cases hf

theorem Fits.fold (hf : s.Fits) (hk : s.kind = .reducer) :
    ∃ reduction, s.body = .fold reduction := by
  unfold Fits at hf
  cases hb : s.body with
  | task operation =>
    rw [hk, hb] at hf
    cases hf
  | fold reduction => exact ⟨reduction, rfl⟩

theorem Fits.reducer {reduction : Reduction} (hf : s.Fits) (hb : s.body = .fold reduction) :
    s.kind = .reducer := by
  by_contra hk
  obtain ⟨operation, ht⟩ := hf.task hk
  cases hb.symm.trans ht

theorem Fits.offers_of_parallel (hf : s.Fits) (hk : s.kind = .parallel) :
    s.offers = s.writes := by
  obtain ⟨operation, hb⟩ := hf.task (by simp [hk])
  unfold offers writes
  rw [hb]

theorem Fits.offers_of_reducer (hf : s.Fits) (hk : s.kind = .reducer) : s.offers = s.reads := by
  obtain ⟨reduction, hb⟩ := hf.fold hk
  unfold offers
  rw [hb]

end Step

namespace Repertoire

variable {r : Repertoire} {s : Step}

theorem call_eq_ok {d : Directive} (h : r.call d = .ok s) : ∃ entry arguments,
    r.entries[d.name]? = some entry ∧
    (d.inputs = [] ∨ d.inputs.length = entry.signature.schema.inputs.length) ∧
    (d.outputs = [] ∨ d.outputs.length = entry.signature.schema.outputs.length) ∧
    entry.signature.arguments d.params = .ok arguments ∧
    entry.build arguments = .ok s.body ∧ fits entry.signature.schema.kind s.body ∧
    s = ⟨entry.signature.name, entry.signature.schema.kind, callInputs entry.signature d,
      callOutputs entry.signature d, s.body⟩ := by
  have hlength {names declared : List String}
      (hn : ¬ (!names.isEmpty && names.length != declared.length) = true) :
      names = [] ∨ names.length = declared.length := by
    cases names with
    | nil => exact .inl rfl
    | cons name names => exact .inr (by simpa using hn)
  rw [call] at h
  cases he : r.entries[d.name]? with
  | none =>
    rw [he] at h
    cases h
  | some entry =>
    simp only [he] at h
    split at h
    · cases h
    rename_i hi
    split at h
    · cases h
    rename_i ho
    cases ha : entry.signature.arguments d.params with
    | error fault =>
      simp only [ha] at h
      cases h
    | ok arguments =>
      cases hb : entry.build arguments with
      | error cause =>
        simp only [ha, hb] at h
        cases h
      | ok body =>
        simp only [ha, hb] at h
        split at h
        · rename_i hf
          cases h
          exact ⟨entry, arguments, rfl, hlength hi, hlength ho, ha, hb, hf, rfl⟩
        · cases h

theorem fits_of_call {d : Directive} (h : r.call d = .ok s) : s.Fits := by
  obtain ⟨entry, arguments, -, -, -, -, -, hf, hs⟩ := call_eq_ok h
  rw [Step.Fits, hs]
  exact hf

theorem fits_of_step? {text : String} (h : r.step? text = some s) : s.Fits := by
  obtain ⟨d, -, -, hc⟩ := step?_eq_some h
  exact fits_of_call hc

theorem fits_of_mem_steps {lines : List String} (h : s ∈ r.steps lines) : s.Fits := by
  obtain ⟨text, -, hs⟩ := List.mem_filterMap.mp h
  exact fits_of_step? hs

end Repertoire

/-- The steps behind the last serial one: the run that is still open. -/
def openRun (steps : List Step) : List Step :=
  steps.rtakeWhile fun s => s.kind ≠ .serial

/-- The steps up to the last serial one: those of earlier runs and the serial steps. -/
def beforeRun (steps : List Step) : List Step :=
  steps.rdropWhile fun s => s.kind ≠ .serial

/-- What a parallel step or a reducer behind others may read: what parallel steps of its run
write, what serial steps read or write, and what reducers of earlier runs read or write. -/
def InReach (before : List Step) (x : String) : Prop :=
  (∃ e ∈ openRun before, e.kind = .parallel ∧ x ∈ e.writes) ∨
  (∃ e ∈ before, e.kind = .serial ∧ (x ∈ e.reads ∨ x ∈ e.writes)) ∨
  ∃ e ∈ beforeRun before, e.kind = .reducer ∧ (x ∈ e.reads ∨ x ∈ e.writes)

/-- A name that a step behind others may read. A serial step may read what any of them writes. -/
def Step.Available (before : List Step) (s : Step) (x : String) : Prop :=
  if s.kind = .serial then ∃ e ∈ before, x ∈ e.writes else InReach before x

instance (before : List Step) (x : String) : Decidable (InReach before x) :=
  inferInstanceAs (Decidable (_ ∨ _ ∨ _))

instance (before : List Step) (s : Step) (x : String) : Decidable (s.Available before x) :=
  inferInstanceAs (Decidable (if s.kind = .serial then _ else _))

/-- Every step behind others, in its turn, reads available names only. -/
def AllAvailable (before : List Step) : List Step → Prop
  | [] => True
  | s :: rest => (∀ x ∈ s.reads, s.Available before x) ∧ AllAvailable (before ++ [s]) rest

instance decidableAllAvailable (before steps : List Step) : Decidable (AllAvailable before steps) :=
  match steps with
  | [] => isTrue trivial
  | s :: rest =>
    have := decidableAllAvailable (before ++ [s]) rest
    inferInstanceAs (Decidable ((∀ x ∈ s.reads, s.Available before x) ∧ _))

section Runs

variable {before : List Step} {s : Step}

theorem beforeRun_append_openRun (steps : List Step) : beforeRun steps ++ openRun steps = steps :=
  List.rdropWhile_append_rtakeWhile

theorem openRun_of_serial (hs : s.kind = .serial) : openRun (before ++ [s]) = [] :=
  List.rtakeWhile_concat_neg _ _ _ (by simp [hs])

theorem beforeRun_of_serial (hs : s.kind = .serial) : beforeRun (before ++ [s]) = before ++ [s] :=
  List.rdropWhile_concat_neg _ _ _ (by simp [hs])

theorem openRun_of_not_serial (hs : s.kind ≠ .serial) :
    openRun (before ++ [s]) = openRun before ++ [s] :=
  List.rtakeWhile_concat_pos _ _ _ (by simp [hs])

theorem beforeRun_of_not_serial (hs : s.kind ≠ .serial) :
    beforeRun (before ++ [s]) = beforeRun before :=
  List.rdropWhile_concat_pos _ _ _ (by simp [hs])

theorem not_serial_of_mem_openRun (h : s ∈ openRun before) : s.kind ≠ .serial := by
  simpa using List.mem_rtakeWhile_imp h

theorem mem_iff_beforeRun_or_openRun : s ∈ before ↔ s ∈ beforeRun before ∨ s ∈ openRun before := by
  rw [← List.mem_append, beforeRun_append_openRun]

theorem parallel_or_reducer (h : s.kind ≠ .serial) : s.kind = .parallel ∨ s.kind = .reducer := by
  cases hk : s.kind with
  | serial => exact absurd hk h
  | parallel => exact .inl rfl
  | reducer => exact .inr rfl

theorem InReach.snoc {x : String} (h : InReach before x) (hs : s.kind ≠ .serial) :
    InReach (before ++ [s]) x := by
  unfold InReach
  rw [openRun_of_not_serial hs, beforeRun_of_not_serial hs]
  rcases h with ⟨e, he, h⟩ | ⟨e, he, h⟩ | h
  · exact .inl ⟨e, List.mem_append_left _ he, h⟩
  · exact .inr (.inl ⟨e, List.mem_append_left _ he, h⟩)
  · exact .inr (.inr h)

theorem InReach.mem {x : String} (h : InReach before x) :
    ∃ e ∈ before, x ∈ e.reads ∨ x ∈ e.writes := by
  rcases h with ⟨e, he, -, hx⟩ | ⟨e, he, -, hx⟩ | ⟨e, he, -, hx⟩
  · exact ⟨e, mem_iff_beforeRun_or_openRun.mpr (.inr he), .inr hx⟩
  · exact ⟨e, he, hx⟩
  · exact ⟨e, mem_iff_beforeRun_or_openRun.mpr (.inl he), hx⟩

end Runs

section AllAvailable

variable {before steps more : List Step} {s : Step}

theorem allAvailable_append : AllAvailable before (steps ++ more) ↔
    AllAvailable before steps ∧ AllAvailable (before ++ steps) more := by
  induction steps generalizing before with
  | nil => simp [AllAvailable]
  | cons s steps ih => simp [AllAvailable, ih, and_assoc]

theorem allAvailable_snoc : AllAvailable before (steps ++ [s]) ↔
    AllAvailable before steps ∧ ∀ x ∈ s.reads, s.Available (before ++ steps) x :=
  allAvailable_append.trans (and_congr_right fun _ => and_iff_left trivial)

theorem AllAvailable.written (h : AllAvailable [] steps) :
    ∀ e ∈ steps, ∀ x ∈ e.reads, ∃ e' ∈ steps, x ∈ e'.writes := by
  induction steps using List.reverseRecOn with
  | nil => nofun
  | append_singleton steps s ih =>
    obtain ⟨hsteps, hs⟩ := allAvailable_snoc.mp h
    have hearlier : ∀ e ∈ steps, ∀ x ∈ e.reads, ∃ e' ∈ steps ++ [s], x ∈ e'.writes := by
      intro e he x hx
      obtain ⟨e', he', hx'⟩ := ih hsteps e he x hx
      exact ⟨e', List.mem_append_left _ he', hx'⟩
    refine List.forall_mem_append.mpr ⟨hearlier, List.forall_mem_singleton.mpr fun x hx => ?_⟩
    have hav := hs x hx
    rw [List.nil_append, Step.Available] at hav
    by_cases hk : s.kind = .serial
    · rw [if_pos hk] at hav
      obtain ⟨e, he, hw⟩ := hav
      exact ⟨e, List.mem_append_left _ he, hw⟩
    · rw [if_neg hk] at hav
      obtain ⟨e, he, hr | hw⟩ := hav.mem
      · exact hearlier e he x hr
      · exact ⟨e, List.mem_append_left _ he, hw⟩

theorem AllAvailable.inReach (h : AllAvailable [] steps) :
    ∀ e ∈ openRun steps, ∀ x ∈ e.reads, InReach steps x := by
  induction steps using List.reverseRecOn with
  | nil => nofun
  | append_singleton steps s ih =>
    obtain ⟨hsteps, hs⟩ := allAvailable_snoc.mp h
    by_cases hk : s.kind = .serial
    · rw [openRun_of_serial hk]
      nofun
    · rw [openRun_of_not_serial hk]
      refine List.forall_mem_append.mpr ⟨fun e he x hx => ?_, ?_⟩
      · exact (ih hsteps e he x hx).snoc hk
      · refine List.forall_mem_singleton.mpr fun x hx => ?_
        have hav := hs x hx
        rw [List.nil_append, Step.Available, if_neg hk] at hav
        exact hav.snoc hk

end AllAvailable

/-- The call of a step on a line is the first with a name that is not available, and that name is
its first one. -/
def FirstMissing (before : List Step) (calls : List (Nat × Step)) (line : Nat) (s : Step)
    (x : String) : Prop :=
  ∃ front back pre post, calls = front ++ (line, s) :: back ∧
    AllAvailable before (front.map Prod.snd) ∧ s.reads = pre ++ x :: post ∧
    (∀ y ∈ pre, s.Available (before ++ front.map Prod.snd) y) ∧
    ¬ s.Available (before ++ front.map Prod.snd) x

/-- The first missing name is one of the first step, or that step misses none and it is the first
one behind it. -/
theorem firstMissing_cons {before : List Step} {calls : List (Nat × Step)} {n line : Nat}
    {e s : Step} {x : String} : FirstMissing before ((n, e) :: calls) line s x ↔
      (n = line ∧ e = s ∧ ∃ pre post, e.reads = pre ++ x :: post ∧
        (∀ y ∈ pre, e.Available before y) ∧ ¬ e.Available before x) ∨
      ((∀ y ∈ e.reads, e.Available before y) ∧ FirstMissing (before ++ [e]) calls line s x) := by
  constructor
  · rintro ⟨front, back, pre, post, hc, ha, hr, h⟩
    cases front with
    | nil =>
      cases hc
      rw [List.map_nil, List.append_nil] at h
      exact .inl ⟨rfl, rfl, pre, post, hr, h⟩
    | cons call front =>
      obtain ⟨hcall, hrest⟩ := List.cons.inj hc
      subst hcall
      refine .inr ⟨ha.1, front, back, pre, post, hrest, ha.2, hr, ?_⟩
      rw [List.append_assoc]
      exact h
  · rintro (⟨rfl, rfl, pre, post, hr, h⟩ | ⟨he, front, back, pre, post, rfl, ha, hr, h⟩)
    · refine ⟨[], calls, pre, post, rfl, trivial, hr, ?_⟩
      rw [List.map_nil, List.append_nil]
      exact h
    · rw [List.append_assoc] at h
      exact ⟨(n, e) :: front, back, pre, post, rfl, ⟨he, ha⟩, hr, h⟩

theorem allAvailable_or_firstMissing (before : List Step) (calls : List (Nat × Step)) :
    AllAvailable before (calls.map Prod.snd) ∨ ∃ line s x, FirstMissing before calls line s x := by
  induction calls generalizing before with
  | nil => exact .inl trivial
  | cons call calls ih =>
    obtain ⟨n, e⟩ := call
    rcases forall_or_first (e.Available before) e.reads with he | ⟨pre, x, post, hr, hpre, hx⟩
    · rcases ih (before ++ [e]) with h | ⟨line, s, x, h⟩
      · exact .inl ⟨he, h⟩
      · exact .inr ⟨line, s, x, firstMissing_cons.mpr (.inr ⟨he, h⟩)⟩
    · exact .inr ⟨n, e, x, firstMissing_cons.mpr (.inl ⟨rfl, rfl, pre, post, hr, hpre, hx⟩)⟩

namespace Repertoire

variable {r : Repertoire} {text : String}

/-- The steps that lines call, each with the number of its line. -/
def calls (r : Repertoire) (line : Nat) (lines : List String) : List (Nat × Step) :=
  (lines.zipIdx line).filterMap fun (text, n) => (r.step? text).map (Prod.mk n)

theorem calls_cons_of_none (h : r.step? text = none) (line : Nat) (lines : List String) :
    r.calls line (text :: lines) = r.calls (line + 1) lines := by
  simp [calls, h]

theorem calls_cons_of_some {s : Step} (h : r.step? text = some s) (line : Nat)
    (lines : List String) :
    r.calls line (text :: lines) = (line, s) :: r.calls (line + 1) lines := by
  simp [calls, h]

theorem calls_map_snd (r : Repertoire) (line : Nat) (lines : List String) :
    (r.calls line lines).map Prod.snd = r.steps lines := by
  induction lines generalizing line with
  | nil => rfl
  | cons text lines ih =>
    cases hs : r.step? text with
    | none => rw [calls_cons_of_none hs, ih, steps, steps, List.filterMap_cons_none hs]
    | some s =>
      rw [calls_cons_of_some hs, List.map_cons, ih, steps, steps, List.filterMap_cons_some hs]

end Repertoire

end DirectiveFlow
