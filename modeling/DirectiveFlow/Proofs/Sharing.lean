import Mathlib.Algebra.Order.Floor.Div
import Mathlib.Data.List.Forall2
import DirectiveFlow.Run.Items

namespace DirectiveFlow

variable {α β : Type}

theorem flatten_shareOut {size workers : Nat} {items : List α}
    (h : items.length ≤ size * workers) : (shareOut size workers items).flatten = items := by
  induction workers generalizing items with
  | zero => exact (List.eq_nil_of_length_eq_zero (Nat.le_zero.mp h)).symm
  | succ workers ih =>
    have hd : (items.drop size).length ≤ size * workers := by
      rw [List.length_drop]
      rw [Nat.mul_succ] at h
      omega
    rw [shareOut, List.flatten_cons, ih hd, List.take_append_drop]

theorem le_share_mul (count : Nat) {workers : Nat} (hw : 0 < workers) :
    count ≤ (count + workers - 1) / workers * workers := by
  have h := Nat.div_add_mod (count + workers - 1) workers
  have hm := Nat.mod_lt (count + workers - 1) hw
  rw [Nat.mul_comm] at h
  omega

theorem flatten_shares (items : List α) (workers : Nat) : (shares items workers).flatten = items :=
  flatten_shareOut (le_share_mul items.length (by omega))

theorem length_shareOut (size workers : Nat) (items : List α) :
    (shareOut size workers items).length = workers := by
  induction workers generalizing items with
  | zero => rfl
  | succ workers ih => rw [shareOut, List.length_cons, ih]

theorem length_le_of_mem_shareOut {size workers : Nat} {items share : List α}
    (h : share ∈ shareOut size workers items) : share.length ≤ size := by
  induction workers generalizing items with
  | zero => cases h
  | succ workers ih =>
    rcases List.mem_cons.mp h with rfl | h
    · exact List.length_take_le size items
    · exact ih h

theorem pairwise_shareOut (size workers : Nat) (items : List α) :
    (shareOut size workers items).Pairwise fun share later =>
      share.length < size → later = [] := by
  induction workers generalizing items with
  | zero => exact .nil
  | succ workers ih =>
    apply List.Pairwise.cons
    · intro later hl hlt
      have hdrop : items.drop size = [] := by
        rw [List.length_take] at hlt
        exact List.drop_eq_nil_of_le (by omega)
      have hrest : (shareOut size workers ([] : List α)).flatten = [] :=
        flatten_shareOut (Nat.zero_le _)
      rw [hdrop] at hl
      exact List.flatten_eq_nil_iff.mp hrest later hl
    · exact ih (items.drop size)

/-- The shares are consecutive parts of the list, one for each worker. None is larger than an
even share rounded up, and what stands behind a smaller one is empty. -/
theorem shares_partition (items : List α) (workers : Nat) :
    (shares items workers).length = max workers 1 ∧
    (shares items workers).flatten = items ∧
    (∀ share ∈ shares items workers, share.length ≤ items.length ⌈/⌉ max workers 1) ∧
    (shares items workers).Pairwise fun share later =>
      share.length < items.length ⌈/⌉ max workers 1 → later = [] := by
  rw [Nat.ceilDiv_eq_add_pred_div]
  exact ⟨length_shareOut _ _ items, flatten_shares items workers,
    fun _ => length_le_of_mem_shareOut, pairwise_shareOut _ _ items⟩

example : shares [1, 2, 3, 4, 5] 4 = [[1, 2], [3, 4], [5], []] := by decide

theorem shares_map (f : α → β) (items : List α) (workers : Nat) :
    shares (items.map f) workers = (shares items workers).map (List.map f) := by
  have hout (size count : Nat) (items : List α) :
      shareOut size count (items.map f) = (shareOut size count items).map (List.map f) := by
    induction count generalizing items with
    | zero => rfl
    | succ count ih => rw [shareOut, shareOut, List.map_cons, List.map_take, ← List.map_drop, ih]
  rw [shares, shares, List.length_map, hout]

/-- What is found in the shares, nothing in an empty one and one thing in any other, is found in
the shares that are not empty. -/
theorem forall₂_nonempty {P : List α → β → Prop} {parts : List (List α)} {found : List (List β)}
    (h : List.Forall₂ (fun part bs => (part = [] ∧ bs = []) ∨ ∃ b, P part b ∧ bs = [b]) parts found)
    (hp : ∀ b, ¬ P [] b) :
    List.Forall₂ P (parts.filter fun part => !part.isEmpty) found.flatten := by
  induction h with
  | nil => exact .nil
  | @cons part bs parts found hh _ ih =>
    rcases hh with ⟨rfl, rfl⟩ | ⟨b, hb, rfl⟩
    · exact ih
    · cases part with
      | nil => exact (hp b hb).elim
      | cons a part => exact .cons hb ih

end DirectiveFlow
