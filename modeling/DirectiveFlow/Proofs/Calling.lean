import DirectiveFlow.Flow.Draft
import DirectiveFlow.Proofs.Enrolling

namespace DirectiveFlow

/-- The names that a call gives for one side: none, or as many as are declared. -/
def Suits (given declared : List String) : Prop :=
  given = [] ∨ given.length = declared.length

/-- A body of the declared kind: only reducers fold. -/
def Body.OfKind (body : Body) (kind : StepKind) : Prop :=
  (∃ reduction, body = .fold reduction) ↔ kind = .reducer

/-- The step is the declared one, with the names that the call gives in place of the declared
ones. What is declared to work in place writes to what it reads. -/
structure Step.Overrides (s : Step) (declared : Schema) (d : Directive) : Prop where
  name : s.name = d.name
  kind : s.kind = declared.kind
  inputs : s.inputs = if d.inputs ≠ [] then d.inputs else declared.inputs
  outputs : s.outputs = if d.outputs ≠ [] then d.outputs
    else if declared.inputs = declared.outputs then s.inputs else declared.outputs
  length_inputs : s.inputs.length = declared.inputs.length
  length_outputs : s.outputs.length = declared.outputs.length

/-- The step folds one item into another, and these are the items that it is linked with. -/
def Step.FoldsOne (s : Step) : Prop :=
  ∃ item output reduction, s.inputs = [item] ∧ s.outputs = [output] ∧ s.body = .fold reduction ∧
    ∀ draft : Draft, draft.addStep s = draft.addReducer ⟨s.name, item, item, output, reduction⟩

namespace Repertoire

structure Entry.Takes (entry : Entry) (d : Directive) : Prop where
  inputs : Suits d.inputs entry.signature.schema.inputs
  outputs : Suits d.outputs entry.signature.schema.outputs

/-- All conditions of a call, in the order in which they are looked at. -/
structure Answers (r : Repertoire) (d : Directive) (entry : Entry) (arguments : Arguments)
    (body : Body) : Prop where
  registered : r.entries[d.name]? = some entry
  takes : entry.Takes d
  literals : entry.signature.arguments d.params = .ok arguments
  builds : entry.build arguments = .ok body
  suits : body.OfKind entry.signature.schema.kind

/-- The fault of a call: that of the first condition that fails. -/
inductive Refuses (r : Repertoire) (d : Directive) : CallFault → Prop
  | unknown : ¬ r.contains d.name → Refuses r d (.unknownStep d.name)
  | inputs {entry : Entry} : r.entries[d.name]? = some entry →
      ¬ Suits d.inputs entry.signature.schema.inputs →
      Refuses r d (.inputCount d.name entry.signature.schema.inputs.length d.inputs.length)
  | outputs {entry : Entry} : r.entries[d.name]? = some entry →
      Suits d.inputs entry.signature.schema.inputs →
      ¬ Suits d.outputs entry.signature.schema.outputs →
      Refuses r d (.outputCount d.name entry.signature.schema.outputs.length d.outputs.length)
  | literals {entry : Entry} {fault : CallFault} :
      r.entries[d.name]? = some entry → entry.Takes d →
      entry.signature.arguments d.params = .error fault → Refuses r d fault
  | builds {entry : Entry} {arguments : Arguments} {cause : StepFault} :
      r.entries[d.name]? = some entry → entry.Takes d →
      entry.signature.arguments d.params = .ok arguments →
      entry.build arguments = .error cause → Refuses r d (.notBuilt d.name cause)
  | suits {entry : Entry} {arguments : Arguments} {body : Body} :
      r.entries[d.name]? = some entry → entry.Takes d →
      entry.signature.arguments d.params = .ok arguments → entry.build arguments = .ok body →
      ¬ body.OfKind entry.signature.schema.kind →
      Refuses r d (.wrongBody d.name entry.signature.schema.kind.name body.label)

section Conditions

variable {r : Repertoire} {d : Directive} {entry : Entry} {arguments : Arguments} {body : Body}
  {fault : CallFault}

theorem suits_iff {given declared : List String} : Suits given declared ↔
    ¬ (!given.isEmpty && given.length != declared.length) = true := by
  rw [Suits]
  cases given <;> simp

theorem fits_iff {kind : StepKind} : fits kind body ↔ body.OfKind kind := by
  rw [Body.OfKind]
  cases kind <;> cases body <;> simp [fits]

theorem answers_or_refuses (r : Repertoire) (d : Directive) :
    (∃ entry arguments body, r.Answers d entry arguments body) ∨ ∃ fault, r.Refuses d fault := by
  cases he : r.entries[d.name]? with
  | none => exact .inr ⟨_, .unknown (not_contains_iff.mpr he)⟩
  | some entry =>
    by_cases hi : Suits d.inputs entry.signature.schema.inputs
    · by_cases ho : Suits d.outputs entry.signature.schema.outputs
      · cases ha : entry.signature.arguments d.params with
        | error fault => exact .inr ⟨fault, .literals he ⟨hi, ho⟩ ha⟩
        | ok arguments =>
          cases hb : entry.build arguments with
          | error cause => exact .inr ⟨_, .builds he ⟨hi, ho⟩ ha hb⟩
          | ok body =>
            by_cases hs : body.OfKind entry.signature.schema.kind
            · exact .inl ⟨entry, arguments, body, he, ⟨hi, ho⟩, ha, hb, hs⟩
            · exact .inr ⟨_, .suits he ⟨hi, ho⟩ ha hb hs⟩
      · exact .inr ⟨_, .outputs he hi ho⟩
    · exact .inr ⟨_, .inputs he hi⟩

theorem call_of_takes (he : r.entries[d.name]? = some entry) (ht : entry.Takes d) : r.call d =
    match entry.signature.arguments d.params with
    | .error fault => .error fault
    | .ok arguments =>
      match entry.build arguments with
      | .error cause => .error (.notBuilt entry.signature.name cause)
      | .ok body =>
        if fits entry.signature.schema.kind body then
          .ok ⟨entry.signature.name, entry.signature.schema.kind, callInputs entry.signature d,
            callOutputs entry.signature d, body⟩
        else
          .error (.wrongBody entry.signature.name entry.signature.schema.kind.name body.label) := by
  rw [call, he]
  exact (if_neg (suits_iff.mp ht.inputs)).trans (if_neg (suits_iff.mp ht.outputs))

theorem call_of_answers (h : r.Answers d entry arguments body) : r.call d = .ok
    ⟨entry.signature.name, entry.signature.schema.kind, callInputs entry.signature d,
      callOutputs entry.signature d, body⟩ := by
  simp only [call_of_takes h.registered h.takes, h.literals, h.builds]
  rw [if_pos (fits_iff.mpr h.suits)]

/-- The fault names the step as the call does, since entries are under their own names. -/
theorem call_of_refuses (hr : r.Sound) (h : r.Refuses d fault) : r.call d = .error fault := by
  have hname {entry : Entry} (he : r.entries[d.name]? = some entry) :
      entry.signature.name = d.name := (hr d.name entry he).name_eq
  cases h with
  | unknown hn =>
    rw [call, not_contains_iff.mp hn]
  | inputs he hi =>
    rw [call, he]
    dsimp only
    rw [if_pos (Classical.not_not.mp (mt suits_iff.mpr hi)), hname he]
  | outputs he hi ho =>
    rw [call, he]
    dsimp only
    rw [if_neg (suits_iff.mp hi), if_pos (Classical.not_not.mp (mt suits_iff.mpr ho)), hname he]
  | literals he ht ha => rw [call_of_takes he ht, ha]
  | builds he ht ha hb => simp only [call_of_takes he ht, ha, hb, hname he]
  | suits he ht ha hb hs =>
    simp only [call_of_takes he ht, ha, hb, hname he]
    rw [if_neg (mt fits_iff.mp hs)]

theorem call_eq_error (hr : r.Sound) : r.call d = .error fault ↔ r.Refuses d fault := by
  constructor
  · intro h
    rcases r.answers_or_refuses d with ⟨entry, arguments, body, ha⟩ | ⟨other, ho⟩
    · cases (call_of_answers ha).symm.trans h
    · cases (call_of_refuses hr ho).symm.trans h
      exact ho
  · exact call_of_refuses hr

theorem answers_of_call {s : Step} (h : r.call d = .ok s) :
    ∃ entry arguments, r.Answers d entry arguments s.body ∧
      s = ⟨entry.signature.name, entry.signature.schema.kind, callInputs entry.signature d,
        callOutputs entry.signature d, s.body⟩ := by
  obtain ⟨entry, arguments, he, hi, ho, ha, hb, hf, hs⟩ := call_eq_ok h
  exact ⟨entry, arguments, ⟨he, ⟨hi, ho⟩, ha, hb, fits_iff.mp hf⟩, hs⟩

end Conditions

section Overriding

variable {r : Repertoire} {d : Directive} {entry : Entry} {arguments : Arguments} {body : Body}
  {s : Step}

theorem callInputs_eq (signature : Signature) (d : Directive) : callInputs signature d =
    if d.inputs ≠ [] then d.inputs else signature.schema.inputs := by
  rw [callInputs]
  cases d.inputs <;> rfl

theorem callOutputs_eq (signature : Signature) (d : Directive) : callOutputs signature d =
    if d.outputs ≠ [] then d.outputs
    else if signature.schema.inputs = signature.schema.outputs then callInputs signature d
    else signature.schema.outputs := by
  rw [callOutputs, callInputs, Signature.inPlace]
  by_cases he : signature.schema.inputs = signature.schema.outputs
  · cases d.outputs <;> cases d.inputs <;> simp [he]
  · cases d.outputs <;> simp [he]

theorem length_callOutputs (h : entry.Takes d) :
    (callOutputs entry.signature d).length = entry.signature.schema.outputs.length := by
  rw [callOutputs_eq]
  split
  · rename_i ho
    exact h.outputs.resolve_left ho
  split
  · rename_i he
    rw [length_callInputs h.inputs, he]
  · rfl

theorem overrides_of_answers (hr : r.Sound) (h : r.Answers d entry arguments body) :
    Step.Overrides ⟨entry.signature.name, entry.signature.schema.kind,
      callInputs entry.signature d, callOutputs entry.signature d, body⟩
      entry.signature.schema d where
  name := (hr d.name entry h.registered).name_eq
  kind := rfl
  inputs := callInputs_eq entry.signature d
  outputs := callOutputs_eq entry.signature d
  length_inputs := length_callInputs h.takes.inputs
  length_outputs := length_callOutputs h.takes

theorem foldsOne_of_answers (hr : r.Sound) (h : r.Answers d entry arguments s.body)
    (ho : s.Overrides entry.signature.schema d) (hk : s.kind = .reducer) : s.FoldsOne := by
  have hkind : entry.signature.schema.kind = .reducer := ho.kind.symm.trans hk
  obtain ⟨hinputs, houtputs⟩ :=
    (hr d.name entry h.registered).accepted.length_of_reducer hkind
  obtain ⟨item, hitem⟩ := List.length_eq_one_iff.mp (ho.length_inputs.trans hinputs)
  obtain ⟨output, houtput⟩ := List.length_eq_one_iff.mp (ho.length_outputs.trans houtputs)
  obtain ⟨reduction, hbody⟩ := h.suits.mpr hkind
  refine ⟨item, output, reduction, hitem, houtput, hbody, fun draft => ?_⟩
  rw [Draft.addStep, hbody, hitem, houtput]
  rfl

/-- A call makes a step exactly if all its conditions hold, and else fails for the first that
does not. The step has the names that the call gives, as many as are declared. -/
theorem call_overrides (calls : List Enrolment) (d : Directive) :
    ((∃ s, (empty.enrolAll calls).call d = .ok s) ↔
      ∃ entry arguments body, (empty.enrolAll calls).Answers d entry arguments body) ∧
    (∀ fault, (empty.enrolAll calls).call d = .error fault ↔
      (empty.enrolAll calls).Refuses d fault) ∧
    ∀ s, (empty.enrolAll calls).call d = .ok s →
      (∃ entry arguments, (empty.enrolAll calls).Answers d entry arguments s.body ∧
        s.Overrides entry.signature.schema d) ∧
      (s.kind = .reducer → s.FoldsOne) := by
  have hr : (empty.enrolAll calls).Sound := sound_empty.enrolAll calls
  refine ⟨⟨?_, ?_⟩, fun fault => call_eq_error hr, fun s h => ?_⟩
  · rintro ⟨s, h⟩
    obtain ⟨entry, arguments, ha, -⟩ := answers_of_call h
    exact ⟨entry, arguments, s.body, ha⟩
  · rintro ⟨entry, arguments, body, ha⟩
    exact ⟨_, call_of_answers ha⟩
  · obtain ⟨entry, arguments, ha, hs⟩ := answers_of_call h
    have ho : s.Overrides entry.signature.schema d := hs ▸ overrides_of_answers hr ha
    exact ⟨⟨entry, arguments, ha, ho⟩, foldsOne_of_answers hr ha ho⟩

end Overriding

end Repertoire

end DirectiveFlow
