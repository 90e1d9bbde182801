import DirectiveFlow.Proofs.Availability
import DirectiveFlow.Proofs.Validating
import DirectiveFlow.Standard

namespace DirectiveFlow

namespace Signature

/-- A signature that some schema is accepted with. -/
def Accepted (s : Signature) : Prop :=
  ∃ schema, ofSchema schema = .ok s

theorem Accepted.length_of_reducer {s : Signature} (h : s.Accepted)
    (hk : s.schema.kind = .reducer) : s.schema.inputs.length = 1 ∧ s.schema.outputs.length = 1 := by
  obtain ⟨schema, h⟩ := h
  have hitems := (wellFormed_of_ofSchema h).items
  rw [(describes_of_ofSchema h).renamed] at hk ⊢
  exact hitems hk

end Signature

namespace Repertoire

/-- A repertoire that comes of additions only, of one step type at a time. -/
inductive Built : Repertoire → Prop
  | empty : Built .empty
  | add {r r' : Repertoire} {type : StepType} {s : Signature} : Built r →
      r.add type = .ok (r', s) → Built r'

variable {r r' : Repertoire} {d : Directive} {s : Step}

theorem add_eq_ok {type : StepType} {signature : Signature}
    (h : r.add type = .ok (r', signature)) :
    Signature.ofSchema type.schema = .ok signature ∧ ¬ r.contains signature.name ∧
      r' = ⟨r.entries.insert signature.name ⟨signature, type.build⟩⟩ := by
  rw [add] at h
  cases hs : Signature.ofSchema type.schema with
  | error rejection =>
    rw [hs] at h
    cases h
  | ok accepted =>
    simp only [hs] at h
    by_cases hc : r.contains accepted.name
    · rw [if_pos hc] at h
      cases h
    · rw [if_neg hc] at h
      cases h
      exact ⟨rfl, hc, rfl⟩

namespace Built

theorem addAll (h : r.Built) (types : List StepType) : (r.addAll types).repertoire.Built := by
  induction types generalizing r with
  | nil => exact h
  | cons type types ih =>
    rw [Repertoire.addAll]
    cases ha : r.add type with
    | error rejection => exact ih h
    | ok added => exact ih (h.add ha)

theorem standard : Standard.repertoire.Built :=
  empty.addAll Standard.stepTypes

theorem accepted (h : r.Built) {name : String} {entry : Entry}
    (he : r.entries[name]? = some entry) : entry.signature.Accepted := by
  induction h with
  | empty =>
    rw [Repertoire.empty, Std.ExtTreeMap.getElem?_empty] at he
    cases he
  | @add r r' type signature _ ha ih =>
    obtain ⟨hs, -, rfl⟩ := add_eq_ok ha
    rw [Std.ExtTreeMap.getElem?_insert] at he
    split at he
    · cases he
      exact ⟨type.schema, hs⟩
    · exact ih he

end Built

theorem length_callInputs {signature : Signature}
    (h : d.inputs = [] ∨ d.inputs.length = signature.schema.inputs.length) :
    (callInputs signature d).length = signature.schema.inputs.length := by
  rw [callInputs]
  split
  · rfl
  · rename_i hn
    apply h.resolve_left
    intro he
    rw [he] at hn
    exact hn rfl

theorem Built.reads_eq (h : r.Built) (hc : r.call d = .ok s) : s.reads = s.inputs := by
  obtain ⟨entry, arguments, he, hi, -, -, -, -, hs⟩ := call_eq_ok hc
  have hf := fits_of_call hc
  rw [Step.reads]
  cases hb : s.body with
  | task operation => rfl
  | fold reduction =>
    have hk : entry.signature.schema.kind = .reducer := by
      have hk := hf.reducer hb
      rw [hs] at hk
      exact hk
    have hl : s.inputs.length = 1 := by
      rw [hs]
      exact (length_callInputs hi).trans ((h.accepted he).length_of_reducer hk).1
    obtain ⟨item, hitem⟩ := List.length_eq_one_iff.mp hl
    rw [hitem]
    rfl

end Repertoire

/-- A step that some repertoire makes of a directive. -/
def Step.Called (s : Step) : Prop :=
  ∃ (r : Repertoire) (d : Directive), r.Built ∧ r.call d = .ok s

namespace Step.Called

variable {s : Step}

theorem fits (h : s.Called) : s.Fits := by
  obtain ⟨r, d, -, hc⟩ := h
  exact Repertoire.fits_of_call hc

theorem reads_eq (h : s.Called) : s.reads = s.inputs := by
  obtain ⟨r, d, hr, hc⟩ := h
  exact hr.reads_eq hc

theorem of_step? {r : Repertoire} (hr : r.Built) {text : String} (h : r.step? text = some s) :
    s.Called := by
  obtain ⟨d, -, -, hc⟩ := Repertoire.step?_eq_some h
  exact ⟨r, d, hr, hc⟩

end Step.Called

end DirectiveFlow
