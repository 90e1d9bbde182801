import DirectiveFlow.Proofs.Availability
import DirectiveFlow.Proofs.Keys
import DirectiveFlow.Standard

namespace DirectiveFlow

/-- A name that a reducer over an item could be given for a key of its own. -/
def PrivateKey (item name : String) : Prop :=
  ∃ place : Nat, name = item ++ "#" ++ place.repr

theorem PrivateKey.length {item name : String} (h : PrivateKey item name) :
    item.length + 1 < name.length := by
  obtain ⟨place, rfl⟩ := h
  have hd : place.repr.length ≠ 0 := by
    rw [← String.length_toList, Nat.toList_repr]
    exact Nat.ne_of_gt Nat.length_toDigits_pos
  have hm : "#".length = 1 := rfl
  simp only [String.length_append]
  omega

/-- No step names what one of the reducers could be given for a key of its own. -/
def KeysFree (steps : List Step) : Prop :=
  ∀ t ∈ steps, t.kind = .reducer → ∀ item ∈ t.reads,
    ∀ s ∈ steps, ∀ x ∈ s.reads ++ s.writes, ¬ PrivateKey item x

namespace Group.Formed

variable {steps : List Step} {g : Group} {combines : List Combine}

theorem privateKey (h : g.Formed steps combines) {c : Combine} (hc : c ∈ combines)
    (hp : c.isPrivate) : PrivateKey c.item c.partials := by
  obtain ⟨place, hm⟩ := h.exists_fold hc
  exact ⟨place, h.eq_private hm (by simpa [Combine.isPrivate] using hp)⟩

theorem reads_fold (h : g.Formed steps combines) {name item key : String} {reduction : Reduction}
    (hm : .fold name item key reduction ∈ g.members) :
    ∃ t ∈ steps, t.reads = [item] ∧ t.body = .fold reduction := by
  obtain ⟨c, hc, he⟩ := h.exists_combine hm
  cases he
  obtain ⟨t, ht, -, hi, -, hb⟩ := h.called c hc
  refine ⟨t, ht, ?_, hb⟩
  rw [Step.reads, hb, hi]

theorem no_clash (h : g.Formed steps combines) (hs : ∀ s ∈ steps, s.Fits) (hn : KeysFree steps) :
    g.members.Pairwise fun m m' => ¬ m.Clash m' := by
  rw [List.pairwise_iff_getElem]
  intro i j hi hj _ hc
  obtain ⟨_, item, _, _, _, item', _, hmi, hmj, hne⟩ := hc.folds
  have hkey : PrivateKey item' item :=
    ⟨j, h.eq_private (List.getElem?_eq_some_iff.mpr ⟨hj, hmj⟩) hne⟩
  obtain ⟨s, hs', hr, -⟩ := h.reads_fold (hmi ▸ List.getElem_mem hi)
  obtain ⟨t, ht, hr', hb⟩ := h.reads_fold (hmj ▸ List.getElem_mem hj)
  refine hn t ht ((hs t ht).reducer hb) item' (hr' ▸ List.mem_singleton_self _) s hs' item ?_ hkey
  rw [hr]
  exact List.mem_cons_self

end Group.Formed

/-- The keys of a group differ exactly if no private key is the item of an earlier fold. Private
keys carry the place of their fold, so they are apart from all names of the script that do not
look like one. -/
theorem Flow.keys_apart {r : Repertoire} {lines : List String} {f : Flow}
    (hf : Flow.ofLines r lines = .ok f) :
    (∀ g, .group g ∈ f.stages →
      (g.partials.Nodup ↔ g.members.Pairwise fun m m' => ¬ m.Clash m')) ∧
    (∀ c, .combine c ∈ f.stages → c.isPrivate → PrivateKey c.item c.partials) ∧
    (KeysFree (r.steps lines) →
      (∀ g, .group g ∈ f.stages → g.partials.Nodup) ∧
      ∀ c, .combine c ∈ f.stages → c.isPrivate →
        ∀ s ∈ r.steps lines, c.partials ∉ s.reads ++ s.writes) := by
  have hformed := Flow.formed_of_lines hf
  have hgroup (c : Combine) (hc : .combine c ∈ f.stages) :
      ∃ (g : Group) (combines : List Combine),
        g.Formed (r.steps lines) combines ∧ c ∈ combines := by
    obtain ⟨before, after, hs⟩ := List.append_of_mem hc
    obtain ⟨_, g, earlier, later, -, hg⟩ := hformed.combine hs
    exact ⟨g, _, hg, List.mem_append_right earlier List.mem_cons_self⟩
  refine ⟨fun g hg => ?_, fun c hc hp => ?_, fun hn => ⟨fun g hg => ?_, fun c hc hp s hs hm => ?_⟩⟩
  · obtain ⟨combines, hg⟩ := hformed.group hg
    exact hg.nodup_partials_iff
  · obtain ⟨g, combines, hg, hc⟩ := hgroup c hc
    exact hg.privateKey hc hp
  · obtain ⟨combines, hg⟩ := hformed.group hg
    exact hg.nodup_partials_iff.mpr (hg.no_clash (fun s => Repertoire.fits_of_mem_steps) hn)
  · obtain ⟨g, combines, hg, hc⟩ := hgroup c hc
    obtain ⟨place, hmem⟩ := hg.exists_fold hc
    obtain ⟨t, ht, hr, hb⟩ := hg.reads_fold (List.mem_of_getElem? hmem)
    have hk : t.kind = .reducer := (Repertoire.fits_of_mem_steps ht).reducer hb
    have hitem : c.item ∈ t.reads := hr ▸ List.mem_singleton_self _
    exact hn t ht hk c.item hitem s hs c.partials hm (hg.privateKey hc hp)

/-- A marked item keeps its key, and the second reducer over it gets one that
nothing else has. -/
theorem Flow.keys_apart_of_marked :
    let lines := ["lst (> \"p#1\") 3", "reduce_sum (\"p#1\" > s)", "reduce_max (\"p#1\" > t)"]
    ∃ f g c, Flow.ofLines Standard.repertoire lines = .ok f ∧
      KeysFree (Standard.repertoire.steps lines) ∧
      .group g ∈ f.stages ∧ .combine c ∈ f.stages ∧ c.isPrivate ∧ c.partials = "p#1#1" ∧
      g.partials.Nodup ∧ PrivateKey c.item c.partials ∧
      ∀ s ∈ Standard.repertoire.steps lines, c.partials ∉ s.reads ++ s.writes := by
  intro lines
  obtain ⟨f, s, g, c, c', hf, hs, hp, hk⟩ : ∃ f s g c c',
      Flow.ofLines Standard.repertoire lines = .ok f ∧
      f.stages = [.serial s, .group g, .combine c, .combine c'] ∧
      c'.isPrivate ∧ c'.partials = "p#1#1" := ⟨_, _, _, _, _, rfl, rfl, rfl, rfl⟩
  have hg : .group g ∈ f.stages := by simp [hs]
  have hc : .combine c' ∈ f.stages := by simp [hs]
  have hitem : ∀ t ∈ Standard.repertoire.steps lines, t.kind = .reducer →
      ∀ item ∈ t.reads, item = "p#1" := by decide +kernel
  have hshort : ∀ s ∈ Standard.repertoire.steps lines, ∀ x ∈ s.reads ++ s.writes,
      x.length ≤ "p#1".length := by decide +kernel
  have hn : KeysFree (Standard.repertoire.steps lines) := by
    intro t ht hr item hi s hs x hx hx'
    have hle := hshort s hs x hx
    rw [← hitem t ht hr item hi] at hle
    exact absurd hx'.length (by omega)
  obtain ⟨-, hprivate, hapart⟩ := Flow.keys_apart hf
  obtain ⟨hnodup, hnames⟩ := hapart hn
  exact ⟨f, g, c', hf, hn, hg, hc, hp, hk, hnodup g hg, hprivate c' hc hp, hnames c' hc hp⟩

-- the item "a#2" has its name for a key, which the third reducer is then given once more
example :
    ∃ f s s' g back, Flow.ofLines Standard.repertoire ["lst (> a) 3", "lst (> \"a#2\") 3",
        "reduce_sum (\"a#2\" > u)", "reduce_sum (a > s)", "reduce_max (a > t)"] = .ok f ∧
      f.stages = .serial s :: .serial s' :: .group g :: back ∧ g.partials = ["a#2", "a", "a#2"] :=
  ⟨_, _, _, _, _, rfl, rfl, rfl⟩

end DirectiveFlow
