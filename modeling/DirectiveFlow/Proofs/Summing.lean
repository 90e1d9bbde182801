import Mathlib.Algebra.BigOperators.Group.List.Basic
import Mathlib.Algebra.Order.Ring.Int
import Mathlib.Data.List.Infix
import DirectiveFlow.Proofs.Alone
import DirectiveFlow.Standard

namespace DirectiveFlow

/-- The exact sum of integers, whatever its size. -/
def total (xs : List Int64) : Int :=
  (xs.map Int64.toInt).sum

/-- Sums from the first of the integers on stay within 64 bits. -/
def FitsFromStart (xs : List Int64) : Prop :=
  ∀ begun, begun <+: xs → Integer.IsSigned (total begun)

section Total

variable {x held next : Int64} {xs : List Int64}

theorem total_cons (x : Int64) (xs : List Int64) : total (x :: xs) = x.toInt + total xs :=
  List.sum_cons

theorem total_singleton (x : Int64) : total [x] = x.toInt :=
  List.sum_singleton

theorem total_append (xs ys : List Int64) : total (xs ++ ys) = total xs + total ys := by
  rw [total, List.map_append, List.sum_append]
  rfl

theorem isSigned_toInt (x : Int64) : Integer.IsSigned x.toInt := by
  have hb : (Integer.signedBound : Int) = 2 ^ 63 := rfl
  have hl := x.le_toInt
  have hu := x.toInt_lt
  constructor <;> omega

theorem isSigned_total_of_length {begun : List Int64} (h : begun.length ≤ 1) :
    Integer.IsSigned (total begun) := by
  match begun with
  | [] => decide
  | [x] =>
    rw [total_singleton]
    exact isSigned_toInt x
  | _ :: _ :: _ => simp at h

theorem fitsFromStart_of_length (h : xs.length ≤ 1) : FitsFromStart xs := by
  intro begun hb
  exact isSigned_total_of_length (hb.length_le.trans h)

theorem exists_begun_of_not_fits (h : ¬ FitsFromStart xs) :
    ∃ begun, begun <+: xs ∧ ¬ Integer.IsSigned (total begun) := by
  by_contra hn
  apply h
  intro begun hb
  by_contra hs
  exact hn ⟨begun, hb, hs⟩

theorem fitsFromStart_cons_cons (hn : next.toInt = x.toInt + held.toInt) :
    FitsFromStart (held :: x :: xs) ↔ FitsFromStart (next :: xs) := by
  have htotal (begun : List Int64) : total (held :: x :: begun) = total (next :: begun) := by
    rw [total_cons, total_cons, total_cons, hn]
    omega
  constructor
  · intro h begun hb
    cases begun with
    | nil => exact h [] List.nil_prefix
    | cons first begun =>
      obtain ⟨rfl, hb'⟩ := List.cons_prefix_cons.mp hb
      rw [← htotal]
      apply h
      exact List.cons_prefix_cons.mpr ⟨rfl, List.cons_prefix_cons.mpr ⟨rfl, hb'⟩⟩
  · intro h begun hb
    match begun with
    | [] => exact h [] List.nil_prefix
    | [only] => exact isSigned_total_of_length (Nat.le_refl 1)
    | first :: second :: begun =>
      obtain ⟨rfl, hb'⟩ := List.cons_prefix_cons.mp hb
      obtain ⟨rfl, hb''⟩ := List.cons_prefix_cons.mp hb'
      rw [htotal]
      exact h (next :: begun) (List.cons_prefix_cons.mpr ⟨rfl, hb''⟩)

end Total

namespace Standard

/-- The fault of an addition that leaves the 64-bit integers. -/
def overflow : StepFault :=
  .failed "integer overflow in addition"

theorem plus_of_isSigned {x y : Int64} (h : Integer.IsSigned (x.toInt + y.toInt)) :
    ∃ n, plus (.int x) (.int y) = .ok (.int n) ∧ n.toInt = x.toInt + y.toInt := by
  have hb : (Integer.signedBound : Int) = 2 ^ 63 := rfl
  refine ⟨Int64.ofInt (x.toInt + y.toInt), if_pos h, ?_⟩
  obtain ⟨hl, hu⟩ := h
  exact Int64.toInt_ofInt_of_le (by omega) (by omega)

theorem foldFrom_sum_cons (held value : Value) (values : List Value) :
    sumReduction.foldFrom held (value :: values) =
      (do sumReduction.foldFrom (← plus value held) values) :=
  sumReduction.foldFrom_cons held value values

/-- Integers are added to one that is held as long as the sums fit, and the result is exact. -/
theorem foldFrom_ints (held : Int64) (xs : List Int64) :
    (FitsFromStart (held :: xs) ∧ ∃ n,
        sumReduction.foldFrom (.int held) (xs.map .int) = .ok (.int n) ∧
          n.toInt = total (held :: xs)) ∨
      (¬ FitsFromStart (held :: xs) ∧
        sumReduction.foldFrom (.int held) (xs.map .int) = .error overflow) := by
  induction xs generalizing held with
  | nil =>
    left
    exact ⟨fitsFromStart_of_length (Nat.le_refl 1), held, rfl, (total_singleton held).symm⟩
  | cons x xs ih =>
    rw [List.map_cons, foldFrom_sum_cons]
    by_cases h : Integer.IsSigned (x.toInt + held.toInt)
    · obtain ⟨next, hp, hn⟩ := plus_of_isSigned h
      have htotal : total (held :: x :: xs) = total (next :: xs) := by
        rw [total_cons, total_cons, total_cons, hn]
        omega
      rw [hp, ok_bind, fitsFromStart_cons_cons hn, htotal]
      exact ih next
    · right
      have hp : plus (.int x) (.int held) = .error overflow := if_neg h
      rw [hp]
      refine ⟨fun hf => h ?_, rfl⟩
      have hs := hf [held, x] ⟨xs, rfl⟩
      rw [total_cons, total_singleton, Int.add_comm] at hs
      exact hs

/-- What is handed back of integers: nothing for none of them, otherwise their exact sum. -/
def SumsTo (xs ns : List Int64) : Prop :=
  total ns = total xs ∧ ns.length ≤ 1

theorem reduce_ints (xs : List Int64) :
    (FitsFromStart xs ∧ ∃ ns, sumReduction.reduce (xs.map .int) = .ok (ns.map .int) ∧
        SumsTo xs ns) ∨
      (¬ FitsFromStart xs ∧ sumReduction.reduce (xs.map .int) = .error overflow) := by
  cases xs with
  | nil => exact .inl ⟨fitsFromStart_of_length (Nat.zero_le 1), [], rfl, rfl, Nat.zero_le 1⟩
  | cons x xs =>
    rw [List.map_cons, Reduction.reduce]
    rcases foldFrom_ints x xs with ⟨hf, n, hn, ht⟩ | ⟨hf, he⟩
    · rw [hn]
      exact .inl ⟨hf, [n], rfl, (total_singleton n).trans ht, Nat.le_refl 1⟩
    · rw [he]
      exact .inr ⟨hf, rfl⟩

theorem mapM_reduce_ints (parts : List (List Int64)) :
    ((∀ part ∈ parts, FitsFromStart part) ∧ ∃ sums,
        (parts.map (List.map .int)).mapM sumReduction.reduce = .ok (sums.map (List.map .int)) ∧
          List.Forall₂ SumsTo parts sums) ∨
      ((∃ part ∈ parts, ¬ FitsFromStart part) ∧
        (parts.map (List.map .int)).mapM sumReduction.reduce = .error overflow) := by
  induction parts with
  | nil => exact .inl ⟨nofun, [], rfl, .nil⟩
  | cons part parts ih =>
    rw [List.map_cons, List.mapM_cons]
    rcases reduce_ints part with ⟨hp, ns, hns, hsum⟩ | ⟨hp, he⟩
    · rw [hns, ok_bind]
      rcases ih with ⟨hf, sums, hs, hsums⟩ | ⟨⟨other, hm, hf⟩, he⟩
      · rw [hs]
        exact .inl ⟨List.forall_mem_cons.mpr ⟨hp, hf⟩, ns :: sums, rfl, .cons hsum hsums⟩
      · rw [he]
        exact .inr ⟨⟨other, List.mem_cons_of_mem part hm, hf⟩, rfl⟩
    · rw [he]
      exact .inr ⟨⟨part, List.mem_cons_self, hp⟩, rfl⟩

section Parts

variable {parts sums : List (List Int64)}

theorem total_flatten (h : List.Forall₂ SumsTo parts sums) :
    total sums.flatten = total parts.flatten := by
  induction h with
  | nil => rfl
  | cons hs _ ih => rw [List.flatten_cons, List.flatten_cons, total_append, total_append, hs.1, ih]

theorem exists_take_total (h : List.Forall₂ SumsTo parts sums) {begun : List Int64}
    (hb : begun <+: sums.flatten) : ∃ n, total begun = total (parts.take n).flatten := by
  induction h generalizing begun with
  | nil =>
    rw [List.prefix_nil.mp hb]
    exact ⟨0, rfl⟩
  | @cons part ns parts sums hs _ ih =>
    obtain ⟨hsum, hlen⟩ := hs
    match ns, begun with
    | [], begun =>
      obtain ⟨n, hn⟩ := ih hb
      refine ⟨n + 1, ?_⟩
      rw [List.take_succ_cons, List.flatten_cons, total_append, ← hsum, hn]
      exact (Int.zero_add _).symm
    | [n], [] => exact ⟨0, rfl⟩
    | [n], first :: begun =>
      obtain ⟨rfl, hb'⟩ := List.cons_prefix_cons.mp hb
      obtain ⟨k, hk⟩ := ih hb'
      refine ⟨k + 1, ?_⟩
      rw [List.take_succ_cons, List.flatten_cons, total_append, ← hsum, total_cons,
        total_singleton, hk]
    | _ :: _ :: _, begun => simp at hlen

theorem exists_segment_of_sums (h : List.Forall₂ SumsTo parts sums)
    (hf : ¬ FitsFromStart sums.flatten) :
    ∃ segment, segment <:+: parts.flatten ∧ ¬ Integer.IsSigned (total segment) := by
  obtain ⟨begun, hb, hs⟩ := exists_begun_of_not_fits hf
  obtain ⟨n, hn⟩ := exists_take_total h hb
  rw [hn] at hs
  refine ⟨(parts.take n).flatten, ⟨[], (parts.drop n).flatten, ?_⟩, hs⟩
  rw [List.nil_append, ← List.flatten_append, List.take_append_drop]

end Parts

end Standard

namespace Combine

open Standard

variable {c : Combine} {settings : Settings} {env : Environment} {xs : List Int64}

theorem runAlone_ints (hc : c.reduction = sumReduction) (hd : settings.debug = false)
    (hne : xs ≠ []) (hv : env.value? c.item = some (.list (xs.map .int))) :
    (∃ n, c.runAlone settings env = .ok (some (.int n)) ∧ n.toInt = total xs) ∨
      (c.runAlone settings env = .error (.run (.failed c.name overflow)) ∧
        ∃ segment, segment <:+: xs ∧ ¬ Integer.IsSigned (total segment)) := by
  have hflat := flatten_shares xs settings.workerCount
  have hvalues : xs.map Value.int ≠ [] := fun h => hne (List.map_eq_nil_iff.mp h)
  rw [runAlone_eq hd hvalues hv, hc, shares_map, Reduction.reduceParts]
  generalize shares xs settings.workerCount = parts at hflat
  subst hflat
  rcases mapM_reduce_ints parts with ⟨-, sums, hsums, hs⟩ | ⟨⟨part, hm, hf⟩, he⟩
  · rw [hsums, ok_bind, ← List.map_flatten]
    rcases reduce_ints sums.flatten with ⟨-, ns, hns, ht, hl⟩ | ⟨hf, he⟩
    · left
      rw [List.map_flatten] at hvalues
      have hresults := Reduction.reduce_parts_ne_nil hvalues hsums
      rw [← List.map_flatten] at hresults
      have hpos := List.length_pos_iff.mpr (Reduction.reduce_ne_nil hresults hns)
      rw [List.length_map] at hpos
      obtain ⟨n, rfl⟩ := List.length_eq_one_iff.mp (Nat.le_antisymm hl hpos)
      rw [hns]
      refine ⟨n, rfl, ?_⟩
      rw [← total_singleton, ht, total_flatten hs]
    · right
      rw [he]
      exact ⟨rfl, exists_segment_of_sums hs hf⟩
  · right
    obtain ⟨begun, hb, hs⟩ := exists_begun_of_not_fits hf
    rw [he]
    exact ⟨rfl, begun, hb.isInfix.trans (List.infix_of_mem_flatten hm), hs⟩

/-- Sums are exact. A reducer of integers on its own gives the exact sum or stops with the fault
of an overflow, whatever the number of workers; it does give it if the sums of all integers in a
row stay within 64 bits. -/
theorem runAlone_sum_exact (hc : c.reduction = sumReduction) (hne : xs ≠ [])
    (hv : env.value? c.item = some (.list (xs.map .int))) :
    (∀ settings : Settings, settings.debug = false →
      (∃ n, c.runAlone settings env = .ok (some (.int n)) ∧
          n.toInt = (xs.map Int64.toInt).sum) ∨
        c.runAlone settings env =
          .error (.run (.failed c.name (.failed "integer overflow in addition")))) ∧
    (∀ settings settings' : Settings, settings.debug = false → settings'.debug = false →
      ∀ value value', c.runAlone settings env = .ok value →
        c.runAlone settings' env = .ok value' → value = value') ∧
    ((∀ segment, segment <:+: xs → Integer.IsSigned (segment.map Int64.toInt).sum) →
      ∀ settings : Settings, settings.debug = false →
        ∃ n, c.runAlone settings env = .ok (some (.int n))) := by
  refine ⟨fun settings hd => ?_, fun settings settings' hd hd' value value' h h' => ?_,
    fun hs settings hd => ?_⟩
  · exact (runAlone_ints hc hd hne hv).imp_right And.left
  · rcases runAlone_ints hc hd hne hv with ⟨n, hn, ht⟩ | ⟨he, -⟩
    · rcases runAlone_ints hc hd' hne hv with ⟨n', hn', ht'⟩ | ⟨he, -⟩
      · cases h.symm.trans hn
        cases h'.symm.trans hn'
        rw [Int64.toInt_inj.mp (ht.trans ht'.symm)]
      · cases h'.symm.trans he
    · cases h.symm.trans he
  · rcases runAlone_ints hc hd hne hv with ⟨n, hn, -⟩ | ⟨-, segment, hi, ho⟩
    · exact ⟨n, hn⟩
    · exact absurd (hs segment hi) ho

/-- The largest and the smallest integer in turn: all sums in a row fit. -/
theorem runAlone_sum_exact_at_bounds :
    ∃ (f : Flow) (first : Stage) (c : Combine) (env : Environment),
    Flow.ofLines repertoire ["lst (> a) 3", "reduce_sum (a > s)"] = .ok f ∧
    f.stages = [first, .group c.group, .combine c] ∧ c.reduction = sumReduction ∧
    env.value? c.item = some (.list ([Int64.maxValue, Int64.minValue, Int64.maxValue].map .int)) ∧
    ∀ settings : Settings, settings.debug = false →
      ∃ n, c.runAlone settings env = .ok (some (.int n)) ∧ n.toInt = 2 ^ 63 - 2 := by
  obtain ⟨f, first, c, hf, hs, hc, hi⟩ : ∃ (f : Flow) (first : Stage) (c : Combine),
      Flow.ofLines repertoire ["lst (> a) 3", "reduce_sum (a > s)"] = .ok f ∧
      f.stages = [first, .group c.group, .combine c] ∧ c.reduction = sumReduction ∧
      c.item = "a" :=
    ⟨_, _, ⟨"reduce_sum", "a", "a", "s", sumReduction⟩, rfl, rfl, rfl, rfl⟩
  have hv : (Environment.empty.set "a" (.list
      ([Int64.maxValue, Int64.minValue, Int64.maxValue].map .int))).value? c.item =
        some (.list ([Int64.maxValue, Int64.minValue, Int64.maxValue].map .int)) := by
    rw [hi, Environment.value?_set, if_pos rfl]
  obtain ⟨hexact, -, hok⟩ := runAlone_sum_exact hc (List.cons_ne_nil _ _) hv
  have hfit : ∀ segment, segment <:+: [Int64.maxValue, Int64.minValue, Int64.maxValue] →
      Integer.IsSigned (segment.map Int64.toInt).sum := by
    intro segment hi
    obtain ⟨tail, hp, ht⟩ := List.infix_iff_prefix_suffix.mp hi
    have hall : ∀ tail ∈ [Int64.maxValue, Int64.minValue, Int64.maxValue].tails,
        ∀ segment ∈ tail.inits, Integer.IsSigned (segment.map Int64.toInt).sum := by
      decide +kernel
    exact hall tail ((List.mem_tails _ _).mpr ht) segment ((List.mem_inits _ _).mpr hp)
  refine ⟨f, first, c, _, hf, hs, hc, hv, fun settings hd => ?_⟩
  obtain ⟨n, hn⟩ := hok hfit settings hd
  refine ⟨n, hn, ?_⟩
  rcases hexact settings hd with ⟨n', hn', ht⟩ | he
  · cases hn.symm.trans hn'
    exact ht.trans (by decide +kernel)
  · cases hn.symm.trans he

/-- One worker meets a sum that does not fit where two workers do not. -/
example : let c : Combine := ⟨"reduce_sum", "a", "a", "a", sumReduction⟩
    let env := Environment.empty.set "a" (.list [.int Int64.maxValue, .int 0, .int 1, .int (-1)])
    c.runAlone ⟨1, false, 0⟩ env = .error (.run (.failed "reduce_sum" overflow)) ∧
      c.runAlone ⟨2, false, 0⟩ env = .ok (some (.int Int64.maxValue)) :=
  ⟨rfl, rfl⟩

end Combine

end DirectiveFlow
