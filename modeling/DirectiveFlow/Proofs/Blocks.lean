import Mathlib.Data.List.Nodup
import DirectiveFlow.Flow.Draft
import DirectiveFlow.Proofs.Values

namespace DirectiveFlow

/-- In order, each thing reads only what is known, and what it writes is known from then on. -/
def Supplied {α : Type} (reads writes : α → List String) (known : List String) : List α → Prop
  | [] => True
  | a :: rest => (∀ x ∈ reads a, x ∈ known) ∧ Supplied reads writes (known ++ writes a) rest

namespace Supplied

variable {α : Type} {reads writes : α → List String} {known : List String} {as bs : List α}

theorem append : Supplied reads writes known (as ++ bs) ↔
    Supplied reads writes known as ∧ Supplied reads writes (known ++ as.flatMap writes) bs := by
  induction as generalizing known with
  | nil => simp [Supplied]
  | cons a as ih => simp [Supplied, ih, and_assoc]

theorem mono (h : Supplied reads writes known as) {more : List String}
    (hm : ∀ x ∈ known, x ∈ more) : Supplied reads writes more as := by
  induction as generalizing known more with
  | nil => trivial
  | cons a as ih =>
    refine ⟨fun x hx => hm x (h.1 x hx), ih h.2 fun x hx => ?_⟩
    exact List.mem_append.mpr ((List.mem_append.mp hx).imp_left (hm x))

theorem snoc {a : α} (h : Supplied reads writes known as)
    (ha : ∀ x ∈ reads a, x ∈ known ++ as.flatMap writes) :
    Supplied reads writes known (as ++ [a]) :=
  append.mpr ⟨h, ha, trivial⟩

theorem getElem? {a : α} {i : Nat} (h : Supplied reads writes known as) (ha : as[i]? = some a) :
    ∀ x ∈ reads a, x ∈ known ++ (as.take i).flatMap writes := by
  obtain ⟨hi, rfl⟩ := List.getElem?_eq_some_iff.mp ha
  rw [← List.take_append_drop i as, List.drop_eq_getElem_cons hi] at h
  exact (append.mp h).2.1

end Supplied

/-- The names that a stage reads. A combine reads a key of the group before it. -/
def Stage.needs : Stage → List String
  | .serial s => s.inputs
  | .group g => g.requests
  | .combine _ => []

def Member.isFold : Member → Bool
  | .task .. => false
  | .fold .. => true

/-- The fold within a group that a combine goes with. -/
def Combine.member (c : Combine) : Member :=
  .fold c.name c.item c.partials c.reduction

/-- The key of a fold behind other members: its item, unless one of them has that for its key. -/
def freshKey (ms : List Member) (item : String) : String :=
  if item ∈ ms.filterMap Member.partials? then item ++ "#" ++ ms.length.repr else item

/-- The names that a step reads. A reducer has one. -/
def Step.reads (s : Step) : List String :=
  match s.body with
  | .task _ => s.inputs
  | .fold _ => [s.inputs.head?.getD ""]

def TaskOf (steps : List Step) (name : String) (inputs outputs : List String)
    (operation : Operation) : Prop :=
  ∃ s ∈ steps, s.name = name ∧ s.inputs = inputs ∧ s.outputs = outputs ∧ s.body = .task operation

def Combine.CalledBy (steps : List Step) (c : Combine) : Prop :=
  ∃ s ∈ steps, s.name = c.name ∧ s.inputs.head?.getD "" = c.item ∧
    s.outputs.head?.getD "" = c.output ∧ s.body = .fold c.reduction

theorem TaskOf.reads {steps : List Step} {name : String} {inputs outputs : List String}
    {operation : Operation} (h : TaskOf steps name inputs outputs operation) :
    ∀ x ∈ inputs, ∃ s ∈ steps, x ∈ s.reads := by
  obtain ⟨s, hs, -, rfl, -, hb⟩ := h
  intro x hx
  refine ⟨s, hs, ?_⟩
  rw [Step.reads, hb]
  exact hx

theorem Combine.CalledBy.reads {steps : List Step} {c : Combine} (h : c.CalledBy steps) :
    ∀ x ∈ c.member.inputs, ∃ s ∈ steps, x ∈ s.reads := by
  obtain ⟨s, hs, -, hi, -, hb⟩ := h
  intro x hx
  refine ⟨s, hs, ?_⟩
  rw [Step.reads, hb, hi]
  exact hx

/-- A group whose folds go, in their order, with the combines behind it. -/
structure Group.Formed (steps : List Step) (g : Group) (combines : List Combine) : Prop where
  tasks : ∀ name inputs outputs operation, .task name inputs outputs operation ∈ g.members →
    TaskOf steps name inputs outputs operation
  called : ∀ c ∈ combines, c.CalledBy steps
  requested : ∀ x ∈ g.requests, ∃ s ∈ steps, x ∈ s.reads
  paired : g.members.filter Member.isFold = combines.map Combine.member
  keyed : ∀ place name item key reduction,
    g.members[place]? = some (.fold name item key reduction) →
      key = freshKey (g.members.take place) item
  supplied : Supplied Member.inputs Member.outputs g.requests g.members
  nodup : g.gathered.Nodup
  keys : ∀ key ∈ g.partials, key ∈ g.gathered
  offered : ∀ x ∈ g.gathered, x ∈ g.partials ∨ x ∈ g.offers

namespace Group

variable {steps : List Step} {g : Group} {combines : List Combine} {item : String}

theorem mem_gathered_gather {x : String} :
    x ∈ (g.gather item).gathered ↔ x ∈ g.gathered ∨ x = item := by
  unfold gather
  split
  · rename_i h
    exact ⟨.inl, fun hx => hx.elim id fun he => he ▸ h⟩
  · exact List.mem_append.trans (or_congr_right List.mem_singleton)

theorem gather_members : (g.gather item).members = g.members := by
  unfold gather
  split <;> rfl

theorem gather_requests : (g.gather item).requests = g.requests := by
  unfold gather
  split <;> rfl

theorem gather_offers : (g.gather item).offers = g.offers :=
  congrArg (List.flatMap Member.outputs) gather_members

theorem gather_partials : (g.gather item).partials = g.partials :=
  congrArg (List.filterMap Member.partials?) gather_members

theorem nodup_gather (h : g.gathered.Nodup) : (g.gather item).gathered.Nodup := by
  unfold gather
  split
  · exact h
  · rename_i hn
    refine List.nodup_append.mpr ⟨h, List.nodup_singleton item, ?_⟩
    intro x hx y hy he
    rw [List.mem_singleton.mp hy] at he
    exact hn (he ▸ hx)

theorem Formed.gather (h : g.Formed steps combines) (hi : item ∈ g.offers) :
    (g.gather item).Formed steps combines where
  tasks := by rw [gather_members]; exact h.tasks
  called := h.called
  requested := by rw [gather_requests]; exact h.requested
  paired := by rw [gather_members]; exact h.paired
  keyed := by rw [gather_members]; exact h.keyed
  supplied := by rw [gather_members, gather_requests]; exact h.supplied
  nodup := nodup_gather h.nodup
  keys := by
    rw [gather_partials]
    exact fun key hk => mem_gathered_gather.mpr (.inl (h.keys key hk))
  offered := by
    rw [gather_partials, gather_offers]
    intro x hx
    rcases mem_gathered_gather.mp hx with hg | he
    · exact h.offered x hg
    · exact .inr (he ▸ hi)

end Group

theorem Group.Formed.key_gathered {steps : List Step} {g : Group} {combines : List Combine}
    (h : g.Formed steps combines) {place : Nat} {step item key : String} {reduction : Reduction}
    (hm : g.members[place]? = some (.fold step item key reduction)) : key ∈ g.gathered :=
  h.keys key (List.mem_filterMap.mpr ⟨_, List.mem_of_getElem? hm, rfl⟩)

theorem append_eq_append_cons {α : Type} {as bs before after : List α} {a : α}
    (h : as ++ bs = before ++ a :: after) :
    (∃ mid, as = before ++ a :: mid ∧ after = mid ++ bs) ∨
      ∃ pre, before = as ++ pre ∧ bs = pre ++ a :: after := by
  rcases List.append_eq_append_iff.mp h with ⟨pre, hp, hb⟩ | ⟨cs, ha, hc⟩
  · exact .inr ⟨pre, hp, hb⟩
  · rcases List.cons_eq_append_iff.mp hc with ⟨rfl, hb⟩ | ⟨mid, rfl, hm⟩
    · rw [List.append_nil] at ha
      exact .inr ⟨[], by rw [ha, List.append_nil], hb⟩
    · exact .inl ⟨mid, ha, hm⟩

/-- A serial step, or a group with the combines that follow it. -/
inductive Block where
  | serial (s : Serial)
  | group (g : Group) (combines : List Combine)

namespace Block

def stages : Block → List Stage
  | .serial s => [.serial s]
  | .group g combines => .group g :: combines.map .combine

def Formed (steps : List Step) : Block → Prop
  | .serial s => TaskOf steps s.name s.inputs s.outputs s.operation
  | .group g combines => g.Formed steps combines

theorem exists_of_stages {blocks : List Block} {before after : List Stage} {stage : Stage}
    (h : blocks.flatMap stages = before ++ stage :: after) :
    ∃ front b back pre post, blocks = front ++ b :: back ∧ b.stages = pre ++ stage :: post ∧
      before = front.flatMap stages ++ pre ∧ after = post ++ back.flatMap stages := by
  induction blocks generalizing before with
  | nil => exact absurd h.symm (by simp)
  | cons b blocks ih =>
    rw [List.flatMap_cons] at h
    rcases append_eq_append_cons h with ⟨mid, hb, hc⟩ | ⟨as, rfl, hr⟩
    · exact ⟨[], b, blocks, before, mid, rfl, hb, rfl, hc⟩
    · obtain ⟨front, b', back, pre, post, rfl, hs, rfl, rfl⟩ := ih hr
      exact ⟨b :: front, b', back, pre, post, rfl, hs, by simp, rfl⟩

theorem eq_group_of_stages {b : Block} {g : Group} {pre post : List Stage}
    (h : b.stages = pre ++ .group g :: post) :
    ∃ combines, b = .group g combines ∧ pre = [] ∧ post = combines.map .combine := by
  cases b with
  | serial s =>
    have hm : Stage.group g ∈ (Block.serial s).stages := h ▸ by simp
    cases List.mem_singleton.mp hm
  | group g' combines =>
    cases pre with
    | nil =>
      obtain ⟨he, rfl⟩ := List.cons.inj h
      cases he
      exact ⟨combines, rfl, rfl, rfl⟩
    | cons stage pre =>
      obtain ⟨-, hc⟩ := List.cons.inj h
      have hm : Stage.group g ∈ combines.map Stage.combine := hc ▸ by simp
      obtain ⟨c, _, he⟩ := List.mem_map.mp hm
      cases he

theorem eq_group_of_combine {b : Block} {c : Combine} {pre post : List Stage}
    (h : b.stages = pre ++ .combine c :: post) :
    ∃ g earlier later, b = .group g (earlier ++ c :: later) ∧
      pre = .group g :: earlier.map .combine ∧ post = later.map .combine := by
  cases b with
  | serial s =>
    have hm : Stage.combine c ∈ (Block.serial s).stages := h ▸ by simp
    cases List.mem_singleton.mp hm
  | group g combines =>
    cases pre with
    | nil =>
      obtain ⟨he, _⟩ := List.cons.inj h
      cases he
    | cons stage pre =>
      obtain ⟨rfl, hc⟩ := List.cons.inj h
      obtain ⟨earlier, rest, rfl, rfl, hr⟩ := List.map_eq_append_iff.mp hc
      obtain ⟨c', later, rfl, he, rfl⟩ := List.map_eq_cons_iff.mp hr
      cases he
      exact ⟨g, earlier, later, rfl, rfl, rfl⟩

end Block

def FormedStages (steps : List Step) (stages : List Stage) : Prop :=
  ∃ blocks : List Block, stages = blocks.flatMap Block.stages ∧ ∀ b ∈ blocks, b.Formed steps

namespace FormedStages

variable {steps : List Step} {stages before after : List Stage}

theorem serial (h : FormedStages steps stages) {s : Serial} (hs : .serial s ∈ stages) :
    TaskOf steps s.name s.inputs s.outputs s.operation := by
  obtain ⟨blocks, rfl, hf⟩ := h
  obtain ⟨b, hb, hm⟩ := List.mem_flatMap.mp hs
  cases b with
  | serial s' =>
    cases List.mem_singleton.mp hm
    exact hf _ hb
  | group g combines => simp [Block.stages] at hm

theorem group (h : FormedStages steps stages) {g : Group} (hg : .group g ∈ stages) :
    ∃ combines, g.Formed steps combines := by
  obtain ⟨blocks, hb, hf⟩ := h
  obtain ⟨before, after, hs⟩ := List.append_of_mem hg
  obtain ⟨front, b, back, pre, post, rfl, hst, -, -⟩ := Block.exists_of_stages (hb.symm.trans hs)
  obtain ⟨combines, rfl, -, -⟩ := Block.eq_group_of_stages hst
  exact ⟨combines, hf (.group g combines) (by simp)⟩

/-- In front of a combine stand its group and those of the group's combines that come earlier. -/
theorem combine (h : FormedStages steps stages) {c : Combine}
    (hs : stages = before ++ .combine c :: after) :
    ∃ front g earlier later, before = front ++ .group g :: earlier.map .combine ∧
      g.Formed steps (earlier ++ c :: later) := by
  obtain ⟨blocks, hb, hf⟩ := h
  obtain ⟨front, b, back, pre, post, rfl, hst, rfl, -⟩ := Block.exists_of_stages (hb.symm.trans hs)
  obtain ⟨g, earlier, later, rfl, rfl, -⟩ := Block.eq_group_of_combine hst
  exact ⟨front.flatMap Block.stages, g, earlier, later, rfl,
    hf (.group g (earlier ++ c :: later)) (by simp)⟩

end FormedStages

end DirectiveFlow
