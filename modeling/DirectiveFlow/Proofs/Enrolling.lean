import Mathlib.Data.List.Find
import DirectiveFlow.Proofs.Registering

namespace DirectiveFlow

/-- The entry of a step type whose schema is accepted. -/
def StepType.entry? (type : StepType) : Option Repertoire.Entry :=
  (Signature.ofSchema type.schema).toOption.map fun signature => ⟨signature, type.build⟩

namespace Repertoire

def Entry.name (entry : Entry) : String :=
  entry.signature.name

/-- The entries of the valid step types, in their order. -/
def offered (types : List StepType) : List Entry :=
  types.filterMap StepType.entry?

/-- A step type that is not added. -/
def Rejects (r : Repertoire) (type : StepType) : Prop :=
  ∃ rejection, r.add type = .error rejection

section Adding

variable {r : Repertoire} {type : StepType} {types types' : List StepType} {entry : Entry}
  {name : String}

theorem not_contains_iff : ¬ r.contains name ↔ r.entries[name]? = none := by
  rw [contains, Std.ExtTreeMap.contains_eq_isSome_getElem?]
  cases r.entries[name]? <;> simp

theorem entry?_eq_some : type.entry? = some entry ↔
    Signature.ofSchema type.schema = .ok entry.signature ∧ entry.build = type.build := by
  obtain ⟨signature, build⟩ := entry
  rw [StepType.entry?]
  cases Signature.ofSchema type.schema with
  | error rejection => simp [Except.toOption]
  | ok accepted => simp [Except.toOption, eq_comm]

theorem entry?_eq_none :
    type.entry? = none ↔ ∃ rejection, Signature.ofSchema type.schema = .error rejection := by
  rw [StepType.entry?]
  cases Signature.ofSchema type.schema <;> simp [Except.toOption]

theorem offered_cons_of_none (he : type.entry? = none) :
    offered (type :: types) = offered types :=
  List.filterMap_cons_none he

theorem offered_cons_of_some (he : type.entry? = some entry) :
    offered (type :: types) = entry :: offered types :=
  List.filterMap_cons_some he

theorem add_of_fresh (he : type.entry? = some entry) (hn : ¬ r.contains entry.name) :
    r.add type = .ok (⟨r.entries.insert entry.name entry⟩, entry.signature) := by
  obtain ⟨hs, hb⟩ := entry?_eq_some.mp he
  rw [add, hs]
  simp only [Entry.name] at hn ⊢
  rw [if_neg hn, ← hb]

theorem rejects_of_invalid (he : type.entry? = none) : r.Rejects type := by
  obtain ⟨rejection, hs⟩ := entry?_eq_none.mp he
  exact ⟨rejection, by rw [add, hs]⟩

theorem rejects_of_taken (he : type.entry? = some entry) (hn : r.contains entry.name) :
    r.Rejects type := by
  obtain ⟨hs, -⟩ := entry?_eq_some.mp he
  exact ⟨.nameTaken entry.name, by rw [add, hs]; exact if_pos hn⟩

theorem rejects_iff : r.Rejects type ↔
    type.entry? = none ∨ ∃ entry, type.entry? = some entry ∧ r.contains entry.name := by
  constructor
  · rintro ⟨rejection, h⟩
    cases he : type.entry? with
    | none => exact .inl rfl
    | some entry =>
      refine .inr ⟨entry, rfl, ?_⟩
      by_contra hn
      cases (add_of_fresh he hn).symm.trans h
  · rintro (he | ⟨entry, he, hn⟩)
    · exact rejects_of_invalid he
    · exact rejects_of_taken he hn

theorem addAll_of_rejected (h : r.Rejects type) :
    (r.addAll (type :: types)).repertoire = (r.addAll types).repertoire ∧
      (r.addAll (type :: types)).accepted = (r.addAll types).accepted := by
  obtain ⟨rejection, h⟩ := h
  rw [addAll, h]
  exact ⟨rfl, rfl⟩

theorem addAll_of_fresh (he : type.entry? = some entry) (hn : ¬ r.contains entry.name) :
    (r.addAll (type :: types)).repertoire =
        (addAll ⟨r.entries.insert entry.name entry⟩ types).repertoire ∧
      (r.addAll (type :: types)).accepted =
        (addAll ⟨r.entries.insert entry.name entry⟩ types).accepted + 1 := by
  rw [addAll, add_of_fresh he hn]
  exact ⟨rfl, rfl⟩

theorem rejected_or_fresh (r : Repertoire) (type : StepType) : r.Rejects type ∨
    ∃ entry, type.entry? = some entry ∧ ¬ r.contains entry.name := by
  cases he : type.entry? with
  | none => exact .inl (rejects_of_invalid he)
  | some entry =>
    by_cases hn : r.contains entry.name
    · exact .inl (rejects_of_taken he hn)
    · exact .inr ⟨entry, rfl, hn⟩

theorem addAll_append (front back : List StepType) :
    (r.addAll (front ++ back)).repertoire = ((r.addAll front).repertoire.addAll back).repertoire ∧
      (r.addAll (front ++ back)).accepted =
        (r.addAll front).accepted + ((r.addAll front).repertoire.addAll back).accepted := by
  induction front generalizing r with
  | nil => exact ⟨rfl, (Nat.zero_add _).symm⟩
  | cons type front ih =>
    rw [List.cons_append]
    rcases r.rejected_or_fresh type with hr | ⟨entry, he, hn⟩
    · rw [(addAll_of_rejected hr).1, (addAll_of_rejected hr).2, (addAll_of_rejected hr).1,
        (addAll_of_rejected hr).2]
      exact ih
    · rw [(addAll_of_fresh he hn).1, (addAll_of_fresh he hn).2, (addAll_of_fresh he hn).1,
        (addAll_of_fresh he hn).2, ih.1, ih.2]
      exact ⟨rfl, by omega⟩

theorem size_addAll (r : Repertoire) (types : List StepType) :
    (r.addAll types).repertoire.size = r.size + (r.addAll types).accepted := by
  induction types generalizing r with
  | nil => rfl
  | cons type types ih =>
    rcases r.rejected_or_fresh type with hr | ⟨entry, he, hn⟩
    · rw [(addAll_of_rejected hr).1, (addAll_of_rejected hr).2]
      exact ih r
    · rw [(addAll_of_fresh he hn).1, (addAll_of_fresh he hn).2, ih]
      have hs : (r.entries.insert entry.name entry).size = r.entries.size + 1 :=
        Std.ExtTreeMap.size_insert.trans (if_neg hn)
      simp only [size, hs]
      omega

/-- What a name stands for after a batch: what it stood for before, or else the first that is
offered under it. -/
theorem getElem?_addAll (r : Repertoire) (types : List StepType) (name : String) :
    (r.addAll types).repertoire.entries[name]? =
      (r.entries[name]?).or ((offered types).find? (·.name = name)) := by
  induction types generalizing r with
  | nil => simp [addAll, offered]
  | cons type types ih =>
    rcases r.rejected_or_fresh type with hr | ⟨entry, he, hn⟩
    · rw [(addAll_of_rejected hr).1, ih]
      rcases rejects_iff.mp hr with he | ⟨entry, he, hn⟩
      · rw [offered_cons_of_none he]
      · rw [offered_cons_of_some he]
        cases hv : r.entries[name]? with
        | some old => rfl
        | none =>
          have hne : entry.name ≠ name := by
            rintro rfl
            exact not_contains_iff.mpr hv hn
          rw [List.find?_cons_of_neg (by simpa using hne)]
    · rw [(addAll_of_fresh he hn).1, ih, offered_cons_of_some he,
        Std.ExtTreeMap.getElem?_insert]
      by_cases hname : entry.name = name
      · have hv : r.entries[name]? = none := not_contains_iff.mp (hname ▸ hn)
        rw [if_pos (Std.compare_eq_iff_eq.mpr hname), hv,
          List.find?_cons_of_pos (by simpa using hname)]
        rfl
      · rw [if_neg (mt Std.compare_eq_iff_eq.mp hname),
          List.find?_cons_of_neg (by simpa using hname)]

/-- The order of a batch does not matter if no two of its valid step types have one name. -/
theorem addAll_perm (h : types.Perm types') (hn : ((offered types).map Entry.name).Nodup) :
    (r.addAll types).repertoire = (r.addAll types').repertoire := by
  have hfind (name : String) : (offered types).find? (·.name = name) =
      (offered types').find? (·.name = name) := by
    apply List.find?_eq_find?_of_perm (h.filterMap _)
    rintro e ⟨he, hen⟩ e' ⟨he', hen'⟩
    exact List.inj_on_of_nodup_map hn he he'
      ((of_decide_eq_true hen).trans (of_decide_eq_true hen').symm)
  have he : (r.addAll types).repertoire.entries = (r.addAll types').repertoire.entries := by
    apply Std.ExtTreeMap.ext_getElem?
    intro name
    rw [getElem?_addAll, getElem?_addAll, hfind]
  exact congrArg mk he

end Adding

/-- What an entry under a name is: of that name, and of a schema that is accepted as it is. -/
structure Entry.Sound (entry : Entry) (name : String) : Prop where
  name_eq : entry.name = name
  again : Signature.ofSchema entry.signature.schema = .ok entry.signature
  marked : entry.signature.schema.kind = .reducer → ∃ rest, name = Signature.reducerMark ++ rest

def Sound (r : Repertoire) : Prop :=
  ∀ (name : String) (entry : Entry), r.entries[name]? = some entry → entry.Sound name

/-- A call that adds to a repertoire: one step type, or all that are valid of many. -/
inductive Enrolment where
  | one (type : StepType)
  | all (types : List StepType)

/-- The repertoire after a call. -/
def enrol (r : Repertoire) : Enrolment → Repertoire
  | .one type =>
    match r.add type with
    | .ok (r, _) => r
    | .error _ => r
  | .all types => (r.addAll types).repertoire

def enrolAll (r : Repertoire) (calls : List Enrolment) : Repertoire :=
  calls.foldl enrol r

section Enrolling

variable {r : Repertoire} {type : StepType} {front back : List StepType} {entry : Entry}
  {name : String}

theorem enrol_one (r : Repertoire) (type : StepType) :
    r.enrol (.one type) = r.enrol (.all [type]) := by
  rw [enrol, enrol, addAll]
  cases r.add type <;> rfl

theorem Entry.sound_of_type (h : type.entry? = some entry) : entry.Sound entry.name := by
  obtain ⟨hs, -⟩ := entry?_eq_some.mp h
  have hagain := (Signature.describes_of_ofSchema hs).again
  refine ⟨rfl, hagain, fun hk => ?_⟩
  rw [name, Signature.name_of_ofSchema hagain, Schema.acceptedName, if_pos hk]
  exact Signature.exists_markReducer_eq _

theorem Entry.Sound.accepted (h : entry.Sound name) : entry.signature.Accepted :=
  ⟨entry.signature.schema, h.again⟩

theorem Sound.addAll (h : r.Sound) (types : List StepType) :
    (r.addAll types).repertoire.Sound := by
  intro name entry he
  rw [getElem?_addAll, Option.or_eq_some_iff] at he
  rcases he with he | ⟨-, he⟩
  · exact h name entry he
  · have hname : entry.name = name := by simpa using List.find?_some he
    obtain ⟨type, -, ht⟩ := List.mem_filterMap.mp (List.mem_of_find?_eq_some he)
    exact hname ▸ Entry.sound_of_type ht

theorem Sound.enrol (h : r.Sound) (call : Enrolment) : (r.enrol call).Sound := by
  cases call with
  | one type =>
    rw [enrol_one]
    exact h.addAll [type]
  | all types => exact h.addAll types

theorem Sound.enrolAll (h : r.Sound) (calls : List Enrolment) : (r.enrolAll calls).Sound := by
  induction calls generalizing r with
  | nil => exact h
  | cons call calls ih => exact ih (h.enrol call)

theorem sound_empty : empty.Sound := by
  intro name entry he
  rw [empty, Std.ExtTreeMap.getElem?_empty] at he
  cases he

theorem rejects_iff_ofSchema : r.Rejects type ↔
    (∃ rejection, Signature.ofSchema type.schema = .error rejection) ∨
      ∃ s, Signature.ofSchema type.schema = .ok s ∧ r.contains s.name := by
  rw [rejects_iff, entry?_eq_none]
  apply or_congr_right
  constructor
  · rintro ⟨entry, he, hn⟩
    exact ⟨entry.signature, (entry?_eq_some.mp he).1, hn⟩
  · rintro ⟨s, hs, hn⟩
    exact ⟨⟨s, type.build⟩, entry?_eq_some.mpr ⟨hs, rfl⟩, hn⟩

theorem getElem?_enrol (h : r.entries[name]? = some entry) (call : Enrolment) :
    (r.enrol call).entries[name]? = some entry := by
  have hall (types : List StepType) :
      (r.addAll types).repertoire.entries[name]? = some entry := by
    rw [getElem?_addAll, h]
    rfl
  cases call with
  | one type =>
    rw [enrol_one]
    exact hall [type]
  | all types => exact hall types

/-- A rejected step type is as if it had never been in its batch. -/
theorem addAll_remove (h : (r.addAll front).repertoire.Rejects type) :
    (r.addAll (front ++ type :: back)).repertoire = (r.addAll (front ++ back)).repertoire ∧
      (r.addAll (front ++ type :: back)).accepted = (r.addAll (front ++ back)).accepted := by
  rw [(addAll_append front _).1, (addAll_append front _).1, (addAll_append front _).2,
    (addAll_append front _).2, (addAll_of_rejected h).1, (addAll_of_rejected h).2]
  exact ⟨rfl, rfl⟩

/-- How a repertoire takes step types: what is rejected changes nothing, no entry is replaced,
and of the valid types of one name the first counts. -/
structure FirstCounts (r : Repertoire) : Prop where
  rejects_iff : ∀ type, r.Rejects type ↔
    (∃ rejection, Signature.ofSchema type.schema = .error rejection) ∨
      ∃ s, Signature.ofSchema type.schema = .ok s ∧ r.contains s.name
  enrol_one : ∀ type, r.enrol (.one type) = r.enrol (.all [type])
  enrol_rejected : ∀ type, r.Rejects type → r.enrol (.one type) = r
  addAll_rejected : ∀ front type back, (r.addAll front).repertoire.Rejects type →
    (r.addAll (front ++ type :: back)).repertoire = (r.addAll (front ++ back)).repertoire ∧
      (r.addAll (front ++ type :: back)).accepted = (r.addAll (front ++ back)).accepted
  kept : ∀ call (name : String) (entry : Entry), r.entries[name]? = some entry →
    (r.enrol call).entries[name]? = some entry
  size : ∀ types, (r.addAll types).repertoire.size = r.size + (r.addAll types).accepted
  first : ∀ types (name : String), ¬ r.contains name →
    (r.addAll types).repertoire.entries[name]? = (offered types).find? (·.name = name)
  permuted : ∀ types types' : List StepType, types.Perm types' →
    ((offered types).map Entry.name).Nodup →
    (r.addAll types).repertoire = (r.addAll types').repertoire

/-- Whatever calls have been made, each entry is under its own name, of a schema that is
accepted as it is, and marked if it is a reducer. -/
theorem enrolAll_sound (calls : List Enrolment) :
    (empty.enrolAll calls).Sound ∧ ∀ r : Repertoire, r.FirstCounts := by
  refine ⟨sound_empty.enrolAll calls, fun r => ?_⟩
  refine
    { rejects_iff := fun type => rejects_iff_ofSchema
      enrol_one := r.enrol_one
      enrol_rejected := ?_
      addAll_rejected := fun front type back => addAll_remove
      kept := fun call name entry h => getElem?_enrol h call
      size := r.size_addAll
      first := ?_
      permuted := fun types types' => addAll_perm }
  · intro type h
    rw [enrol_one]
    exact (addAll_of_rejected h).1
  · intro types name hn
    rw [getElem?_addAll, not_contains_iff.mp hn]
    rfl

end Enrolling

end Repertoire

end DirectiveFlow
