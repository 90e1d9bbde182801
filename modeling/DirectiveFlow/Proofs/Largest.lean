import DirectiveFlow.Proofs.Alone
import DirectiveFlow.Proofs.Widening

namespace DirectiveFlow

/-- The last of the largest numbers of a list. A NaN is not one of them, wherever it stands. -/
def LastLargest (values : List Value) (v : Value) : Prop :=
  ∃ before after, values = before ++ v :: after ∧ v.comparable ∧
    (∀ u ∈ before, u.comparable → u.AtMost v) ∧ ∀ u ∈ after, u.comparable → ¬ v.AtMost u

namespace LastLargest

variable {values part : List Value} {u v held : Value}

theorem comparable (h : LastLargest values v) : v.comparable := by
  obtain ⟨before, after, -, hv, -⟩ := h
  exact hv

theorem atMost (h : LastLargest values v) (hu : u ∈ values) (hc : u.comparable) : u.AtMost v := by
  obtain ⟨before, after, rfl, hv, hb, ha⟩ := h
  rcases List.mem_append.mp hu with hu | hu
  · exact hb u hu hc
  · rcases List.mem_cons.mp hu with rfl | hu
    · exact Value.atMost_refl hc
    · exact (Value.atMost_total hc hv).resolve_right (ha u hu hc)

theorem singleton (hv : v.comparable) : LastLargest [v] v :=
  ⟨[], [], rfl, hv, nofun, nofun⟩

theorem append_smaller (h : LastLargest values v)
    (hp : ∀ u ∈ part, u.comparable → ¬ v.AtMost u) : LastLargest (values ++ part) v := by
  obtain ⟨before, after, rfl, hv, hb, ha⟩ := h
  refine ⟨before, after ++ part, by rw [List.append_assoc, List.cons_append], hv, hb, ?_⟩
  intro u hu
  rcases List.mem_append.mp hu with hu | hu
  · exact ha u hu
  · exact hp u hu

theorem append_larger (h : LastLargest values held) (hp : LastLargest part v)
    (hle : held.AtMost v) : LastLargest (values ++ part) v := by
  obtain ⟨before, after, rfl, hv, hb, ha⟩ := hp
  refine ⟨values ++ before, after, (List.append_assoc values before (v :: after)).symm, hv, ?_, ha⟩
  intro u hu hc
  rcases List.mem_append.mp hu with hu | hu
  · exact (h.atMost hu hc).trans hle
  · exact hb u hu hc

theorem unique (h : LastLargest values u) (h' : LastLargest values v) : u = v := by
  have ⟨before, after, he, hu, hb, ha⟩ := h
  have ⟨before', after', he', hv, hb', ha'⟩ := h'
  have huv : u.AtMost v := h'.atMost (by rw [he]; simp) hu
  have hvu : v.AtMost u := h.atMost (by rw [he']; simp) hv
  rcases List.append_eq_append_iff.mp (he.symm.trans he') with ⟨more, rfl, hm⟩ | ⟨more, rfl, hm⟩
  · cases more with
    | nil => exact (List.cons.inj hm).1
    | cons first more =>
      obtain ⟨rfl, rfl⟩ := List.cons.inj hm
      exact absurd huv (ha v (by simp) hv)
  · cases more with
    | nil => exact (List.cons.inj hm).1.symm
    | cons first more =>
      obtain ⟨rfl, rfl⟩ := List.cons.inj hm
      exact absurd hvu (ha' u (by simp) hu)

theorem ints {xs : List Int64} (h : LastLargest (xs.map .int) v) :
    ∃ before m after, xs = before ++ m :: after ∧ v = .int m ∧
      (∀ x ∈ before, (Value.int x).AtMost (.int m)) ∧
      ∀ x ∈ after, ¬ (Value.int m).AtMost (.int x) := by
  obtain ⟨before, after, he, -, hb, ha⟩ := h
  obtain ⟨before, back, rfl, rfl, hback⟩ := List.map_eq_append_iff.mp he
  obtain ⟨m, after, rfl, rfl, rfl⟩ := List.map_eq_cons_iff.mp hback
  refine ⟨before, m, after, rfl, rfl, fun x hx => ?_, fun x hx => ?_⟩
  · exact hb (.int x) (List.mem_map_of_mem hx) (Value.comparable_int x)
  · exact ha (.int x) (List.mem_map_of_mem hx) (Value.comparable_int x)

end LastLargest

theorem Value.isNumber_of_comparable {v : Value} (h : v.comparable) : v.isNumber := by
  obtain ⟨x, hx⟩ := exists_float_of_comparable h
  rw [isNumber, hx]
  rfl

namespace Standard

variable {a b held v : Value} {values part : List Value}

theorem larger_nan (ha : a.isNumber) (hb : b.isNumber)
    (hn : a.comparable = false ∨ b.comparable = false) :
    larger a b = .ok b := by
  apply larger_of_not_atMost ha hb
  intro h
  obtain ⟨hcb, hca⟩ := h.comparable
  simp [hcb, hca] at hn

theorem foldFrom_max_cons (held u : Value) (rest : List Value) :
    maxReduction.foldFrom held (u :: rest) =
      (do maxReduction.foldFrom (← larger u held) rest) :=
  maxReduction.foldFrom_cons held u rest

theorem larger_lastLargest (h : LastLargest values held) (hp : LastLargest part v) :
    ∃ next, larger v held = .ok next ∧ LastLargest (values ++ part) next := by
  by_cases hle : held.AtMost v
  · exact ⟨v, larger_of_atMost hle, h.append_larger hp hle⟩
  · have hv := Value.isNumber_of_comparable hp.comparable
    have hh := Value.isNumber_of_comparable h.comparable
    refine ⟨held, larger_of_not_atMost hv hh hle, h.append_smaller ?_⟩
    intro u hu hc hheld
    exact hle (hheld.trans (hp.atMost hu hc))

theorem foldFrom_lastLargest (h : LastLargest values held) {rest : List Value}
    (hn : ∀ u ∈ rest, u.isNumber) :
    ∃ v, maxReduction.foldFrom held rest = .ok v ∧ LastLargest (values ++ rest) v := by
  induction rest generalizing values held with
  | nil =>
    rw [List.append_nil]
    exact ⟨held, rfl, h⟩
  | cons u rest ih =>
    obtain ⟨hu, hn⟩ := List.forall_mem_cons.mp hn
    rw [foldFrom_max_cons, List.append_cons]
    cases hc : u.comparable with
    | true =>
      obtain ⟨next, hl, hnext⟩ := larger_lastLargest h (.singleton hc)
      rw [hl]
      exact ih hnext hn
    | false =>
      rw [larger_nan hu (Value.isNumber_of_comparable h.comparable) (.inl hc)]
      apply ih (h.append_smaller ?_) hn
      intro u' hu' hc'
      rw [List.mem_singleton.mp hu', hc] at hc'
      cases hc'

theorem foldFrom_nan (hn : ∀ u ∈ held :: values, u.isNumber) (hc : held.comparable = false) :
    maxReduction.foldFrom held values = .ok held := by
  induction values with
  | nil => rfl
  | cons u values ih =>
    obtain ⟨hh, hn⟩ := List.forall_mem_cons.mp hn
    obtain ⟨hu, hn⟩ := List.forall_mem_cons.mp hn
    rw [foldFrom_max_cons, larger_nan hu hh (.inr hc)]
    exact ih (List.forall_mem_cons.mpr ⟨hh, hn⟩)

/-- What comes of numbers: their first if that is a NaN, otherwise the last of the largest. -/
inductive MaxOf : List Value → Value → Prop
  | nan {v : Value} {rest : List Value} : v.comparable = false → MaxOf (v :: rest) v
  | largest {first v : Value} {rest : List Value} : first.comparable →
      LastLargest (first :: rest) v → MaxOf (first :: rest) v

theorem reduce_numbers {first : Value} {rest : List Value}
    (hn : ∀ u ∈ first :: rest, u.isNumber) :
    ∃ v, maxReduction.reduce (first :: rest) = .ok [v] ∧ MaxOf (first :: rest) v ∧ v.isNumber := by
  rw [Reduction.reduce]
  cases hc : first.comparable with
  | true =>
    obtain ⟨v, hf, hv⟩ := foldFrom_lastLargest (.singleton hc) (List.forall_mem_cons.mp hn).2
    rw [hf]
    exact ⟨v, rfl, .largest hc hv, Value.isNumber_of_comparable hv.comparable⟩
  | false =>
    rw [foldFrom_nan hn hc]
    exact ⟨first, rfl, .nan hc, hn first List.mem_cons_self⟩

/-- The parts that do not begin with a NaN. Of the others nothing is heard, the
first part apart. -/
def heard (parts : List (List Value)) : List (List Value) :=
  parts.filter fun part => part.head?.any Value.comparable

section Heard

variable {first : Value} {rest : List Value} {parts : List (List Value)}

theorem heard_cons (h : first.comparable) :
    heard ((first :: rest) :: parts) = (first :: rest) :: heard parts :=
  List.filter_cons_of_pos h

theorem heard_nan_cons (h : first.comparable = false) :
    heard ((first :: rest) :: parts) = heard parts :=
  List.filter_cons_of_neg (by simp [h])

theorem flatten_heard (h : ∀ part ∈ parts, ∀ v, part.head? = some v → v.comparable) :
    (heard parts).flatten = parts.flatten := by
  induction parts with
  | nil => rfl
  | cons part parts ih =>
    obtain ⟨hp, ht⟩ := List.forall_mem_cons.mp h
    cases part with
    | nil => exact ih ht
    | cons first rest =>
      rw [heard_cons (hp first rfl), List.flatten_cons, List.flatten_cons, ih ht]

end Heard

/-- The results of parts: none of an empty one, what comes of its numbers of any other. -/
inductive Answers : List (List Value) → List (List Value) → Prop
  | nil : Answers [] []
  | empty {parts results : List (List Value)} : Answers parts results →
      Answers ([] :: parts) ([] :: results)
  | cons {part : List Value} {v : Value} {parts results : List (List Value)} : MaxOf part v →
      v.isNumber → Answers parts results → Answers (part :: parts) ([v] :: results)

theorem mapM_reduce_numbers {parts : List (List Value)}
    (hn : ∀ part ∈ parts, ∀ u ∈ part, u.isNumber) :
    ∃ results, parts.mapM maxReduction.reduce = .ok results ∧ Answers parts results := by
  induction parts with
  | nil => exact ⟨[], rfl, .nil⟩
  | cons part parts ih =>
    obtain ⟨hp, hn⟩ := List.forall_mem_cons.mp hn
    obtain ⟨results, hr, ha⟩ := ih hn
    rw [List.mapM_cons, hr]
    cases part with
    | nil => exact ⟨[] :: results, rfl, .empty ha⟩
    | cons first rest =>
      obtain ⟨v, hv, hm, hnum⟩ := reduce_numbers hp
      rw [hv]
      exact ⟨[v] :: results, rfl, .cons hm hnum ha⟩

namespace Answers

variable {parts results : List (List Value)}

theorem isNumber (h : Answers parts results) : ∀ u ∈ results.flatten, u.isNumber := by
  induction h with
  | nil => exact nofun
  | empty _ ih => exact ih
  | cons _ hv _ ih => exact List.forall_mem_cons.mpr ⟨hv, ih⟩

theorem foldFrom (h : Answers parts results) (hs : LastLargest values held) :
    ∃ v, maxReduction.foldFrom held results.flatten = .ok v ∧
      LastLargest (values ++ (heard parts).flatten) v := by
  induction h generalizing values held with
  | nil =>
    rw [heard, List.filter_nil, List.flatten_nil, List.append_nil]
    exact ⟨held, rfl, hs⟩
  | empty _ ih => exact ih hs
  | @cons part v parts results hm hnum _ ih =>
    rw [List.flatten_cons, List.singleton_append, foldFrom_max_cons]
    cases hm with
    | nan hc =>
      have hh := Value.isNumber_of_comparable hs.comparable
      rw [larger_nan hnum hh (.inl hc), heard_nan_cons hc]
      exact ih hs
    | largest hc hl =>
      obtain ⟨next, hn, hnext⟩ := larger_lastLargest hs hl
      rw [hn, heard_cons hc, List.flatten_cons, ← List.append_assoc]
      exact ih hnext

/-- The results of parts give the first number if it is a NaN, otherwise the last of the largest
in the parts that are heard. -/
theorem reduce (h : Answers parts results) {first : Value} {rest : List Value}
    (hf : parts.flatten = first :: rest) :
    (first.comparable = false ∧ maxReduction.reduce results.flatten = .ok [first]) ∨
      (first.comparable ∧ ∃ v, maxReduction.reduce results.flatten = .ok [v] ∧
        LastLargest (heard parts).flatten v) := by
  induction h with
  | nil => cases hf
  | empty _ ih => exact ih hf
  | @cons part v parts results hm hnum ha ih =>
    rw [List.flatten_cons, List.singleton_append, Reduction.reduce]
    cases hm with
    | nan hc =>
      left
      obtain ⟨rfl, -⟩ := List.cons.inj hf
      rw [foldFrom_nan (List.forall_mem_cons.mpr ⟨hnum, ha.isNumber⟩) hc]
      exact ⟨hc, rfl⟩
    | largest hc hl =>
      right
      obtain ⟨rfl, -⟩ := List.cons.inj hf
      obtain ⟨w, hw, hlast⟩ := ha.foldFrom hl
      rw [hw, heard_cons hc, List.flatten_cons]
      exact ⟨hc, w, rfl, hlast⟩

end Answers

end Standard

/-- No share of the workers begins with a NaN. -/
def Settings.HearsAll (s : Settings) (values : List Value) : Prop :=
  ∀ share ∈ shares values s.workerCount, ∀ v, share.head? = some v → v.comparable

theorem Settings.HearsAll.flatten {s : Settings} {values : List Value} (h : s.HearsAll values) :
    (Standard.heard (shares values s.workerCount)).flatten = values := by
  rw [Standard.flatten_heard h, flatten_shares]

theorem Settings.hearsAll_of_comparable (s : Settings) {values : List Value}
    (h : ∀ v ∈ values, v.comparable) : s.HearsAll values := by
  intro share hm v hh
  apply h
  rw [← flatten_shares values s.workerCount]
  exact List.mem_flatten.mpr ⟨share, hm, List.mem_of_head? hh⟩

namespace Combine

open Standard

variable {c : Combine} {settings settings' : Settings} {env : Environment}

/-- A maximum of numbers is their first if that is a NaN, otherwise the last of the largest in
the shares that do not begin with a NaN. -/
theorem runAlone_numbers (hc : c.reduction = maxReduction) (hd : settings.debug = false)
    {first : Value} {rest : List Value} (hn : ∀ u ∈ first :: rest, u.isNumber)
    (hv : env.value? c.item = some (.list (first :: rest))) :
    (first.comparable = false ∧ c.runAlone settings env = .ok (some first)) ∨
      (first.comparable ∧ ∃ v, c.runAlone settings env = .ok (some v) ∧
        LastLargest (heard (shares (first :: rest) settings.workerCount)).flatten v) := by
  have hflat := flatten_shares (first :: rest) settings.workerCount
  have hparts : ∀ part ∈ shares (first :: rest) settings.workerCount, ∀ u ∈ part, u.isNumber := by
    intro part hm u hu
    apply hn
    rw [← hflat]
    exact List.mem_flatten.mpr ⟨part, hm, hu⟩
  obtain ⟨results, hr, ha⟩ := mapM_reduce_numbers hparts
  rw [runAlone_eq hd (List.cons_ne_nil first rest) hv, hc, Reduction.reduceParts, hr, ok_bind]
  rcases ha.reduce hflat with ⟨hnan, he⟩ | ⟨hcomp, v, he, hl⟩
  · rw [he]
    exact .inl ⟨hnan, rfl⟩
  · rw [he]
    exact .inr ⟨hcomp, v, rfl, hl⟩

/-- The maximum of numbers does not depend on the number of workers unless a NaN comes first in a
share, the first share apart. -/
theorem runAlone_max_same (hc : c.reduction = maxReduction) (hd : settings.debug = false)
    (hd' : settings'.debug = false) {first : Value} {rest : List Value}
    (hn : ∀ u ∈ first :: rest, u.isNumber)
    (hv : env.value? c.item = some (.list (first :: rest)))
    (hs : first.comparable = false ∨
      settings.HearsAll (first :: rest) ∧ settings'.HearsAll (first :: rest)) :
    ∃ v, c.runAlone settings env = .ok (some v) ∧ c.runAlone settings' env = .ok (some v) ∧
      (first.comparable = false ∧ v = first ∨ LastLargest (first :: rest) v) := by
  rcases runAlone_numbers hc hd hn hv with ⟨hnan, hr⟩ | ⟨hcomp, v, hr, hl⟩
  · rcases runAlone_numbers hc hd' hn hv with ⟨-, hr'⟩ | ⟨hcomp, -⟩
    · exact ⟨first, hr, hr', .inl ⟨hnan, rfl⟩⟩
    · rw [hnan] at hcomp
      cases hcomp
  · rcases runAlone_numbers hc hd' hn hv with ⟨hnan, -⟩ | ⟨-, v', hr', hl'⟩
    · rw [hnan] at hcomp
      cases hcomp
    · obtain ⟨hs, hs'⟩ := hs.resolve_left (by simp [hcomp])
      rw [hs.flatten] at hl
      rw [hs'.flatten] at hl'
      rw [hl.unique hl'] at hr hl
      exact ⟨v', hr, hr', .inr hl⟩

/-- A NaN within a share does not hide what follows it, and of two equal numbers the
later is taken. -/
theorem runAlone_max_same_of_nan_within : ∃ (c : Combine) (env : Environment),
    c.reduction = maxReduction ∧
    env.value? c.item =
      some (.list [.int 1, .float (0 / 0), .int 5, .float 5, .float 2.5]) ∧
    c.runAlone ⟨1, false, 0⟩ env = .ok (some (.float 5)) ∧
    c.runAlone ⟨3, false, 0⟩ env = .ok (some (.float 5)) := by
  have hn : ∀ u ∈ [Value.int 1, .float (0 / 0), .int 5, .float 5, .float 2.5], u.isNumber := by
    decide
  have hone : Settings.HearsAll ⟨1, false, 0⟩
      [.int 1, .float (0 / 0), .int 5, .float 5, .float 2.5] := by
    intro share hm v hh
    rw [List.mem_singleton.mp hm] at hh
    cases hh
    decide
  have hthree : Settings.HearsAll ⟨3, false, 0⟩
      [.int 1, .float (0 / 0), .int 5, .float 5, .float 2.5] := by
    have hall : ∀ share ∈ shares [Value.int 1, .float (0 / 0), .int 5, .float 5, .float 2.5] 3,
        share.head?.all Value.comparable := by
      decide +kernel
    intro share hm v hh
    have hs := hall share hm
    rw [hh] at hs
    exact hs
  have hlast : LastLargest [.int 1, .float (0 / 0), .int 5, .float 5, .float 2.5] (.float 5) := by
    refine ⟨[.int 1, .float (0 / 0), .int 5], [.float 2.5], rfl, by decide, ?_, ?_⟩
    · intro u hu hc
      simp only [List.mem_cons, List.not_mem_nil, or_false] at hu
      rcases hu with rfl | rfl | rfl
      · exact ⟨_, _, rfl, rfl, by decide⟩
      · exact absurd hc (by decide)
      · exact ⟨_, _, rfl, rfl, by decide⟩
    · intro u hu hc h
      rw [List.mem_singleton.mp hu] at h
      obtain ⟨x, y, hx, hy, hle⟩ := h
      cases hx
      cases hy
      exact absurd hle (by decide)
  have hv : (Environment.empty.set "a" (.list
      [.int 1, .float (0 / 0), .int 5, .float 5, .float 2.5])).value? "a" = some (.list
        [.int 1, .float (0 / 0), .int 5, .float 5, .float 2.5]) := by
    rw [Environment.value?_set, if_pos rfl]
  obtain ⟨v, hr, hr', hv'⟩ := runAlone_max_same
    (c := ⟨"reduce_max", "a", "a", "m", maxReduction⟩) rfl rfl rfl hn hv (.inr ⟨hone, hthree⟩)
  rcases hv' with ⟨hnan, -⟩ | hl
  · exact absurd hnan (by decide)
  · cases hl.unique hlast
    exact ⟨_, _, rfl, hv, hr, hr'⟩

/-- A NaN that comes first in a share hides what follows it there. -/
example : let c : Combine := ⟨"reduce_max", "a", "a", "a", maxReduction⟩
    let env := Environment.empty.set "a" (.list [.int 1, .int 2, .float (0 / 0), .int 5])
    c.runAlone ⟨1, false, 0⟩ env = .ok (some (.int 5)) ∧
      c.runAlone ⟨2, false, 0⟩ env = .ok (some (.int 2)) :=
  ⟨rfl, rfl⟩

/-- The maximum of integers is one of them that no other exceeds by more than a rounding: what is
larger widens to the same float. Up to `2 ^ 53` it is the largest. -/
theorem runAlone_max_int (hc : c.reduction = maxReduction) (hd : settings.debug = false)
    {xs : List Int64} (hne : xs ≠ []) (hv : env.value? c.item = some (.list (xs.map .int))) :
    ∃ before m after, xs = before ++ m :: after ∧
      c.runAlone settings env = .ok (some (.int m)) ∧
      (∀ x ∈ before, x.toInt ≤ m.toInt ∨ Value.widen x = Value.widen m) ∧
      (∀ x ∈ after, x.toInt < m.toInt ∧ Value.widen x ≠ Value.widen m) ∧
      ((∀ x ∈ xs, x.toInt.natAbs ≤ 2 ^ 53) → ∀ x ∈ xs, x.toInt ≤ m.toInt) := by
  have hcomp : ∀ u ∈ xs.map Value.int, u.comparable := by
    intro u hu
    obtain ⟨x, -, rfl⟩ := List.mem_map.mp hu
    exact Value.comparable_int x
  have hs := settings.hearsAll_of_comparable hcomp
  obtain ⟨v, hr, hl⟩ : ∃ v, c.runAlone settings env = .ok (some v) ∧
      LastLargest (xs.map .int) v := by
    cases xs with
    | nil => exact absurd rfl hne
    | cons x xs =>
      have hn := fun u hu => Value.isNumber_of_comparable (hcomp u hu)
      rcases runAlone_numbers hc hd hn hv with ⟨hnan, -⟩ | ⟨-, v, hr, hl⟩
      · rw [Value.comparable_int] at hnan
        cases hnan
      · rw [List.map_cons] at hs ⊢
        rw [hs.flatten] at hl
        exact ⟨v, hr, hl⟩
  obtain ⟨before, m, after, rfl, rfl, hb, ha⟩ := hl.ints
  refine ⟨before, m, after, rfl, hr, fun x hx => Value.le_or_widen_eq (hb x hx),
    fun x hx => Value.lt_and_widen_ne (ha x hx), fun hsmall x hx => ?_⟩
  have hm := hsmall m (by simp)
  exact Value.le_of_int_atMost (hsmall x hx) hm
    (hl.atMost (List.mem_map_of_mem hx) (Value.comparable_int x))

/-- Two integers that widen to one float: the later one is taken, though the other is larger. -/
theorem runAlone_max_int_of_rounded : ∃ (c : Combine) (env : Environment),
    c.reduction = maxReduction ∧
    env.value? c.item = some (.list ([9007199254740993, 9007199254740992].map .int)) ∧
    c.runAlone ⟨2, false, 0⟩ env = .ok (some (.int 9007199254740992)) := by
  have hw : Value.widen 9007199254740993 = Value.widen 9007199254740992 := rfl
  have hv : (Environment.empty.set "a" (.list
      ([9007199254740993, 9007199254740992].map .int))).value? "a" =
        some (.list ([9007199254740993, 9007199254740992].map .int)) := by
    rw [Environment.value?_set, if_pos rfl]
  have hd : Settings.debug ⟨2, false, 0⟩ = false := rfl
  obtain ⟨before, m, after, he, hr, -, ha, -⟩ := runAlone_max_int
    (c := ⟨"reduce_max", "a", "a", "m", maxReduction⟩) rfl hd (List.cons_ne_nil _ _) hv
  match before with
  | [] =>
    cases he
    exact absurd hw.symm (ha _ List.mem_cons_self).2
  | [_] =>
    cases he
    exact ⟨_, _, rfl, hv, hr⟩
  | _ :: _ :: _ => simp at he

end Combine

end DirectiveFlow
