import Mathlib.Data.List.Forall2
import DirectiveFlow.Proofs.Values

namespace DirectiveFlow

namespace Reduction

/-- A reduction that never fails and is associative, with a finish that never fails and keeps
combined values combined. Which value comes first may matter. -/
structure LawfulBy (r : Reduction) (op : Value → Value → Value) (fin : Value → Value) : Prop where
  combine : ∀ a b, r.combine a b = .ok (op a b)
  finish : ∀ a, r.finish a = .ok (fin a)
  assoc : ∀ a b c, op a (op b c) = op (op a b) c
  fin_op : ∀ a b, fin (op a b) = op (fin a) (fin b)

def Lawful (r : Reduction) : Prop :=
  ∃ op fin, r.LawfulBy op fin

def fold (op : Value → Value → Value) (first : Value) (rest : List Value) : Value :=
  rest.foldl (fun held value => op value held) first

/-- Two lists of which a combine makes the same: both are empty or both give one result. -/
def Alike (r : Reduction) (values values' : List Value) : Prop :=
  (values = [] ∧ values' = []) ∨ ∃ result, r.Gives values result ∧ r.Gives values' result

variable {r : Reduction}

namespace LawfulBy

variable {op : Value → Value → Value} {fin : Value → Value}

theorem foldFrom (h : r.LawfulBy op fin) (first : Value) (rest : List Value) :
    r.foldFrom first rest = .ok (fold op first rest) := by
  induction rest generalizing first with
  | nil => rfl
  | cons value rest ih =>
    rw [Reduction.foldFrom, h.combine]
    exact ih (op value first)

theorem gives_cons (h : r.LawfulBy op fin) (first : Value) (rest : List Value) :
    r.Gives (first :: rest) (fin (fold op first rest)) :=
  ⟨first, rest, fold op first rest, rfl, h.foldFrom first rest, h.finish _⟩

theorem exists_cons_of_gives (h : r.LawfulBy op fin) {values : List Value} {result : Value}
    (hg : r.Gives values result) :
    ∃ first rest, values = first :: rest ∧ result = fin (fold op first rest) := by
  obtain ⟨first, rest, held, rfl, hf, hr⟩ := hg
  refine ⟨first, rest, rfl, ?_⟩
  rw [h.foldFrom] at hf
  cases hf
  rw [h.finish] at hr
  cases hr
  rfl

theorem fold_op (h : r.LawfulBy op fin) (value held : Value) (rest : List Value) :
    fold op (op value held) rest = op (fold op value rest) held := by
  induction rest generalizing value with
  | nil => rfl
  | cons value' rest ih =>
    change fold op (op value' (op value held)) rest = op (fold op (op value' value) rest) held
    rw [h.assoc, ih]

theorem fold_append (h : r.LawfulBy op fin) (first : Value) (rest : List Value) (first' : Value)
    (rest' : List Value) :
    fold op first (rest ++ first' :: rest') = op (fold op first' rest') (fold op first rest) := by
  rw [fold, List.foldl_append]
  exact h.fold_op first' (fold op first rest) rest'

/-- Folding what folds made of parts is folding the parts one after another and
finishing that. -/
theorem fold_parts (h : r.LawfulBy op fin) {parts : List (List Value)} {results : List Value}
    (hp : List.Forall₂ r.Gives parts results) {first : Value} {rest : List Value}
    (hf : parts.flatten = first :: rest) :
    ∃ result others, results = result :: others ∧
      fold op result others = fin (fold op first rest) := by
  induction hp generalizing first rest with
  | nil => cases hf
  | @cons part result parts others hg hgs ih =>
    obtain ⟨value, values, rfl, rfl⟩ := h.exists_cons_of_gives hg
    rw [List.flatten_cons, List.cons_append] at hf
    obtain ⟨rfl, rfl⟩ := List.cons.inj hf
    refine ⟨_, others, rfl, ?_⟩
    cases hfl : parts.flatten with
    | nil =>
      cases hgs with
      | nil => rw [List.append_nil]; rfl
      | cons hg' _ =>
        obtain ⟨value', values', rfl, _⟩ := h.exists_cons_of_gives hg'
        cases hfl
    | cons first' rest' =>
      obtain ⟨result', others', rfl, he⟩ := ih hfl
      rw [h.fold_append, h.fin_op, ← he]
      exact h.fold_op result' _ others'

end LawfulBy

/-- However values are cut into parts, a combine makes the same of what the parts give. -/
theorem Lawful.alike (h : r.Lawful) {parts parts' : List (List Value)}
    {results results' : List Value} (hp : List.Forall₂ r.Gives parts results)
    (hp' : List.Forall₂ r.Gives parts' results') (he : parts.flatten = parts'.flatten) :
    r.Alike results results' := by
  obtain ⟨op, fin, h⟩ := h
  have hnil {parts : List (List Value)} {results : List Value}
      (hp : List.Forall₂ r.Gives parts results) (he : parts.flatten = []) : results = [] := by
    cases hp with
    | nil => rfl
    | cons hg _ =>
      obtain ⟨value, values, rfl, _⟩ := h.exists_cons_of_gives hg
      cases he
  cases hf : parts.flatten with
  | nil => exact .inl ⟨hnil hp hf, hnil hp' (he ▸ hf)⟩
  | cons first rest =>
    obtain ⟨result, others, rfl, hr⟩ := h.fold_parts hp hf
    obtain ⟨result', others', rfl, hr'⟩ := h.fold_parts hp' (he ▸ hf)
    have hg := h.gives_cons result others
    have hg' := h.gives_cons result' others'
    rw [hr] at hg
    rw [hr'] at hg'
    exact .inr ⟨_, hg, hg'⟩

end Reduction

end DirectiveFlow
