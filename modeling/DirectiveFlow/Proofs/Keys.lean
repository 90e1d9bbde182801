import Mathlib.Data.List.Basic
import Std.Data.String.ToNat
import DirectiveFlow.Proofs.Blocks

namespace DirectiveFlow

/-- A name without the mark that every private key holds. -/
def Plain (name : String) : Prop :=
  '#' ∉ name.toList

instance (name : String) : Decidable (Plain name) :=
  inferInstanceAs (Decidable ('#' ∉ name.toList))

theorem not_plain_private (item : String) (place : Nat) : ¬ Plain (item ++ "#" ++ place.repr) := by
  intro h
  apply h
  rw [String.toList_append, String.toList_append]
  exact List.mem_append_left _ (List.mem_append_right _ List.mem_cons_self)

theorem takeWhile_private (item : String) (place : Nat) :
    (item ++ "#" ++ place.repr).toList.reverse.takeWhile (· ≠ '#') =
      place.repr.toList.reverse := by
  have hd : ∀ c ∈ place.repr.toList.reverse, (decide (c ≠ '#')) = true := by
    intro c hc
    rw [List.mem_reverse, Nat.toList_repr] at hc
    have hdigit : c.isDigit := Nat.isDigit_of_mem_toDigits (by decide) (by decide) hc
    apply decide_eq_true
    rintro rfl
    exact absurd hdigit (by decide)
  have hl : (item ++ "#" ++ place.repr).toList.reverse =
      place.repr.toList.reverse ++ '#' :: item.toList.reverse := by
    simp [String.toList_append]
  rw [hl, List.takeWhile_append_of_pos hd]
  exact List.append_nil _

theorem place_eq_of_private {item item' : String} {place place' : Nat}
    (h : item ++ "#" ++ place.repr = item' ++ "#" ++ place'.repr) : place = place' := by
  have hr : place.repr.toList.reverse = place'.repr.toList.reverse := by
    rw [← takeWhile_private item, h, takeWhile_private]
  exact Nat.repr_injective (String.toList_injective (List.reverse_injective hr))

theorem private_ne_item (item : String) (place : Nat) : item ++ "#" ++ place.repr ≠ item := by
  intro h
  have hl := congrArg String.length h
  simp only [String.length_append] at hl
  have hm : "#".length = 1 := rfl
  omega

theorem freshKey_cases (ms : List Member) (item : String) :
    (item ∉ ms.filterMap Member.partials? ∧ freshKey ms item = item) ∨
      (item ∈ ms.filterMap Member.partials? ∧
        freshKey ms item = item ++ "#" ++ ms.length.repr) := by
  unfold freshKey
  by_cases h : item ∈ ms.filterMap Member.partials?
  · exact .inr ⟨h, if_pos h⟩
  · exact .inl ⟨h, if_neg h⟩

/-- Two folds, the first in front of the second, neither of whose names is the
second one's key. -/
def Member.Apart : Member → Member → Prop
  | .fold _ item key _, .fold _ _ key' _ => key ≠ key' ∧ item ≠ key'
  | _, _ => True

/-- Two folds, of which the second has a key of its own that is the item of the first. -/
def Member.Clash : Member → Member → Prop
  | .fold _ item _ _, .fold _ item' key' _ => key' ≠ item' ∧ key' = item
  | _, _ => False

theorem Member.Clash.folds {m m' : Member} (h : m.Clash m') :
    ∃ name item key reduction name' item' reduction', m = .fold name item key reduction ∧
      m' = .fold name' item' item reduction' ∧ item ≠ item' := by
  cases m with
  | task => exact h.elim
  | fold name item key reduction =>
    cases m' with
    | task => exact h.elim
    | fold name' item' key' reduction' =>
      obtain ⟨hne, rfl⟩ := h
      exact ⟨name, key', key, reduction, name', item', reduction', rfl, rfl, hne⟩

namespace Group.Formed

variable {steps : List Step} {g : Group} {combines : List Combine}

theorem exists_combine (h : g.Formed steps combines) {name item key : String}
    {reduction : Reduction} (hm : .fold name item key reduction ∈ g.members) :
    ∃ c ∈ combines, c.member = .fold name item key reduction := by
  have hf : Member.fold name item key reduction ∈ g.members.filter Member.isFold :=
    List.mem_filter.mpr ⟨hm, rfl⟩
  rw [h.paired] at hf
  exact List.mem_map.mp hf

theorem key_of_partials (h : g.Formed steps combines) {key : String} (hk : key ∈ g.partials) :
    key ∈ combines.map Combine.partials := by
  obtain ⟨m, hm, hmk⟩ := List.mem_filterMap.mp hk
  cases m with
  | task => cases hmk
  | fold step item key' reduction =>
    cases hmk
    obtain ⟨c, hc, he⟩ := h.exists_combine hm
    cases he
    exact List.mem_map_of_mem hc

theorem exists_fold (h : g.Formed steps combines) {c : Combine} (hc : c ∈ combines) :
    ∃ place : Nat, g.members[place]? = some (.fold c.name c.item c.partials c.reduction) := by
  have hm : c.member ∈ g.members.filter Member.isFold := by
    rw [h.paired]
    exact List.mem_map_of_mem hc
  exact List.mem_iff_getElem?.mp (List.mem_filter.mp hm).1

theorem key_mem_take {ms : List Member} {place place' : Nat} {name item key : String}
    {reduction : Reduction} (hm : ms[place]? = some (.fold name item key reduction))
    (hlt : place < place') : key ∈ (ms.take place').filterMap Member.partials? := by
  refine List.mem_filterMap.mpr ⟨.fold name item key reduction, ?_, rfl⟩
  apply List.mem_of_getElem?
  rw [List.getElem?_take, if_pos hlt]
  exact hm

theorem key_cases (h : g.Formed steps combines) {place : Nat} {name item key : String}
    {reduction : Reduction} (hm : g.members[place]? = some (.fold name item key reduction)) :
    (item ∉ (g.members.take place).filterMap Member.partials? ∧ key = item) ∨
      (item ∈ (g.members.take place).filterMap Member.partials? ∧
        key = item ++ "#" ++ place.repr) := by
  have hk := h.keyed _ _ _ _ _ hm
  obtain ⟨hlt, -⟩ := List.getElem?_eq_some_iff.mp hm
  have hc := freshKey_cases (g.members.take place) item
  rwa [← hk, List.length_take_of_le (Nat.le_of_lt hlt)] at hc

theorem eq_private (h : g.Formed steps combines) {place : Nat} {name item key : String}
    {reduction : Reduction} (hm : g.members[place]? = some (.fold name item key reduction))
    (hk : key ≠ item) : key = item ++ "#" ++ place.repr :=
  ((h.key_cases hm).resolve_left fun he => hk he.2).2

theorem item_mem_take (h : g.Formed steps combines) {place place' : Nat} {name item key : String}
    {reduction : Reduction} (hm : g.members[place]? = some (.fold name item key reduction))
    (hlt : place < place') : item ∈ (g.members.take place').filterMap Member.partials? := by
  rcases h.key_cases hm with ⟨_, rfl⟩ | ⟨hi, _⟩
  · exact key_mem_take hm hlt
  · refine List.Sublist.subset (List.Sublist.filterMap _ ?_) hi
    exact (List.take_prefix_take_left (Nat.le_of_lt hlt)).sublist

theorem members_apart_iff (h : g.Formed steps combines) :
    g.members.Pairwise Member.Apart ↔ g.members.Pairwise fun m m' => ¬ m.Clash m' := by
  constructor
  · intro ha
    refine ha.imp fun {m m'} ha hc => ?_
    obtain ⟨_, _, _, _, _, _, _, rfl, rfl, _⟩ := hc.folds
    exact ha.2 rfl
  rw [List.pairwise_iff_getElem, List.pairwise_iff_getElem]
  intro hc i j hi hj hlt
  have hclash := hc i j hi hj hlt
  cases hmi : g.members[i] with
  | task => trivial
  | fold name item key reduction =>
    cases hmj : g.members[j] with
    | task => trivial
    | fold name' item' key' reduction' =>
      rw [hmi, hmj] at hclash
      have hi' := List.getElem?_eq_some_iff.mpr ⟨hi, hmi⟩
      have hj' := List.getElem?_eq_some_iff.mpr ⟨hj, hmj⟩
      rcases h.key_cases hj' with ⟨hn, rfl⟩ | ⟨_, rfl⟩
      · exact ⟨fun he => hn (he ▸ key_mem_take hi' hlt),
          fun he => hn (he ▸ h.item_mem_take hi' hlt)⟩
      · have hitem : item ≠ item' ++ "#" ++ j.repr :=
          fun he => hclash ⟨private_ne_item item' j, he.symm⟩
        refine ⟨fun he => ?_, hitem⟩
        -- the first key is not its item then, and two private keys carry different places
        rcases h.key_cases hi' with ⟨_, rfl⟩ | ⟨_, rfl⟩
        · exact hitem he
        · exact absurd (place_eq_of_private he) (Nat.ne_of_lt hlt)

theorem nodup_of_apart (h : g.members.Pairwise Member.Apart) : g.partials.Nodup := by
  refine List.pairwise_filterMap.mpr (h.imp ?_)
  intro m m' ha key hk key' hk'
  cases m with
  | task => cases hk
  | fold =>
    cases m' with
    | task => cases hk'
    | fold =>
      cases hk
      cases hk'
      exact ha.1

/-- The keys of a group differ exactly if no private key is the item of an earlier fold. -/
theorem nodup_partials_iff (h : g.Formed steps combines) :
    g.partials.Nodup ↔ g.members.Pairwise fun m m' => ¬ m.Clash m' := by
  refine ⟨fun hn => ?_, fun hc => nodup_of_apart (h.members_apart_iff.mpr hc)⟩
  rw [List.pairwise_iff_getElem]
  intro i j hi hj hlt hc
  obtain ⟨_, item, _, _, _, _, _, hmi, hmj, _⟩ := hc.folds
  -- the item of the first fold is a key before the place of the second, whose key it is too
  have hearlier := h.item_mem_take (List.getElem?_eq_some_iff.mpr ⟨hi, hmi⟩) hlt
  have hsplit : g.partials = (g.members.take j).filterMap Member.partials? ++
      item :: (g.members.drop (j + 1)).filterMap Member.partials? := by
    conv_lhs => rw [partials, ← List.take_append_drop j g.members, List.drop_eq_getElem_cons hj,
      List.filterMap_append, hmj]
    rfl
  rw [hsplit, List.nodup_append] at hn
  exact hn.2.2 item hearlier item List.mem_cons_self rfl

theorem members_apart (h : g.Formed steps combines) (hp : ∀ c ∈ combines, Plain c.item) :
    g.members.Pairwise Member.Apart := by
  rw [h.members_apart_iff, List.pairwise_iff_getElem]
  intro i j hi hj _ hc
  obtain ⟨_, item, _, _, _, item', _, hmi, hmj, hne⟩ := hc.folds
  have he := h.eq_private (List.getElem?_eq_some_iff.mpr ⟨hj, hmj⟩) hne
  obtain ⟨c, hc, hce⟩ := h.exists_combine (hmi ▸ List.getElem_mem hi)
  cases hce
  exact not_plain_private item' j (he ▸ hp c hc)

theorem combines_apart (h : g.Formed steps combines) (hp : ∀ c ∈ combines, Plain c.item) :
    combines.Pairwise fun c c' => c.partials ≠ c'.partials ∧ c.item ≠ c'.partials := by
  have hf := (h.members_apart hp).filter Member.isFold
  rw [h.paired] at hf
  exact List.pairwise_map.mp hf

theorem nodup_partials (h : g.Formed steps combines) (hp : ∀ c ∈ combines, Plain c.item) :
    g.partials.Nodup :=
  nodup_of_apart (h.members_apart hp)

theorem exists_shared (h : g.Formed steps combines) (hp : ∀ c ∈ combines, Plain c.item)
    {c : Combine} (hc : c ∈ combines) :
    ∃ c' ∈ combines, c'.item = c.item ∧ c'.isPrivate = false := by
  obtain ⟨place, hm⟩ := h.exists_fold hc
  rcases h.key_cases hm with ⟨_, he⟩ | ⟨hi, _⟩
  · exact ⟨c, hc, rfl, by simpa [Combine.isPrivate] using he⟩
  · -- an earlier fold has the item for its key, which is not a private one since it is plain
    obtain ⟨m, hm', hmk⟩ := List.mem_filterMap.mp hi
    cases m with
    | task => cases hmk
    | fold name item key reduction =>
      obtain ⟨place', hp'⟩ := List.mem_iff_getElem?.mp (List.mem_of_mem_take hm')
      obtain ⟨c', hc', he'⟩ := h.exists_combine (List.mem_of_getElem? hp')
      cases he'
      have hkey : c'.partials = c.item := Option.some.inj hmk
      rcases h.key_cases hp' with ⟨_, he'⟩ | ⟨_, he'⟩
      · exact ⟨c', hc', he'.symm.trans hkey, by simpa [Combine.isPrivate] using he'⟩
      · exact absurd (hp c hc) (hkey ▸ he' ▸ not_plain_private c'.item _)

theorem not_plain_of_private (h : g.Formed steps combines) {c : Combine} (hc : c ∈ combines)
    (hp : c.isPrivate) : ¬ Plain c.partials := by
  obtain ⟨place, hm⟩ := h.exists_fold hc
  rw [h.eq_private hm (by simpa [Combine.isPrivate] using hp)]
  exact not_plain_private c.item _

end Group.Formed

def Step.NamesPlain (s : Step) : Prop :=
  ∀ x ∈ s.inputs ++ s.outputs, Plain x

instance (s : Step) : Decidable s.NamesPlain :=
  inferInstanceAs (Decidable (∀ x ∈ s.inputs ++ s.outputs, Plain x))

theorem plain_head {names : List String} (h : ∀ x ∈ names, Plain x) :
    Plain (names.head?.getD "") := by
  cases names with
  | nil => exact List.not_mem_nil
  | cons name names => exact h name List.mem_cons_self

theorem Step.NamesPlain.reads {s : Step} (h : s.NamesPlain) : ∀ x ∈ s.reads, Plain x := by
  have hi : ∀ x ∈ s.inputs, Plain x := fun x hx => h x (List.mem_append_left _ hx)
  unfold Step.reads
  cases s.body with
  | task operation => exact hi
  | fold reduction => exact List.forall_mem_singleton.mpr (plain_head hi)

theorem Combine.CalledBy.plain {steps : List Step} {c : Combine} (h : c.CalledBy steps)
    (hp : ∀ s ∈ steps, s.NamesPlain) : Plain c.item ∧ Plain c.output := by
  obtain ⟨s, hs, -, hi, ho, -⟩ := h
  refine ⟨hi ▸ plain_head fun x hx => ?_, ho ▸ plain_head fun x hx => ?_⟩
  · exact hp s hs x (List.mem_append_left _ hx)
  · exact hp s hs x (List.mem_append_right _ hx)

theorem FormedStages.not_plain_of_private {steps : List Step} {stages : List Stage}
    (h : FormedStages steps stages) {c : Combine} (hc : .combine c ∈ stages) (hk : c.isPrivate) :
    ¬ Plain c.partials := by
  obtain ⟨before, after, hs⟩ := List.append_of_mem hc
  obtain ⟨front, g, earlier, later, -, hg⟩ := h.combine hs
  exact hg.not_plain_of_private (List.mem_append_right _ List.mem_cons_self) hk

end DirectiveFlow
