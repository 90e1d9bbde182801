import DirectiveFlow.Proofs.Refusing
import DirectiveFlow.Proofs.Registering

namespace DirectiveFlow

namespace GroupDraft

variable {o o' o'' : GroupDraft} {stages stages' : List Stage}

/-- The members and the combines of one group come first in another. -/
structure Begins (o o' : GroupDraft) : Prop where
  members : o.group.members <+: o'.group.members
  combines : o.combines <+: o'.combines

theorem Begins.refl (o : GroupDraft) : o.Begins o :=
  ⟨List.prefix_rfl, List.prefix_rfl⟩

theorem Begins.trans (h : o.Begins o') (h' : o'.Begins o'') : o.Begins o'' :=
  ⟨h.members.trans h'.members, h.combines.trans h'.combines⟩

/-- A group that begins like this one stands among stages with its combines behind it. -/
def StandsIn (o : GroupDraft) (stages : List Stage) : Prop :=
  ∃ front o' back, o.Begins o' ∧
    stages = front ++ .group o'.group :: (o'.combines.map .combine ++ back)

namespace StandsIn

theorem cons (h : o.StandsIn stages) (stage : Stage) : o.StandsIn (stage :: stages) := by
  obtain ⟨front, o', back, ho, rfl⟩ := h
  exact ⟨stage :: front, o', back, ho, rfl⟩

theorem append (h : o.StandsIn stages) (tail : List Stage) : o.StandsIn (stages ++ tail) := by
  obtain ⟨front, o', back, ho, rfl⟩ := h
  exact ⟨front, o', back ++ tail, ho, by simp⟩

theorem forall₂_grown (h : o.StandsIn stages) (hg : List.Forall₂ Stage.Grown stages stages') :
    o.StandsIn stages' := by
  obtain ⟨front, o', back, ho, rfl⟩ := h
  induction front generalizing stages' with
  | nil =>
    cases hg with
    | cons hs hg =>
      obtain ⟨more, rfl⟩ := hs.exists_more
      obtain ⟨back', rfl, -⟩ := Stage.Grown.of_combines hg
      exact ⟨[], ⟨o'.group.gatherMore more, o'.combines⟩, back', ⟨ho.members, ho.combines⟩, rfl⟩
  | cons stage front ih =>
    cases hg with
    | cons hs hg => exact (ih hg).cons _

theorem growsTo (h : o.StandsIn stages) (hg : GrowsTo stages stages') : o.StandsIn stages' := by
  obtain ⟨early, late, rfl, hg⟩ := hg
  exact (h.forall₂_grown hg).append late

end StandsIn

end GroupDraft

namespace Draft

variable {r : Repertoire} {d d' : Draft} {o o' : GroupDraft} {steps : List Step} {s : Step}

theorem locateAll_growsTo (d : Draft) (step : String) (items : List String) :
    GrowsTo d.stages (d.locateAll step items).1.stages := by
  rcases forall_or_first d.flow.Finds items with hall | ⟨pre, x, post, rfl, hpre, hx⟩
  · obtain ⟨located, he, hl, -⟩ := locateAll_found hall step
    rw [he]
    exact hl.growsTo
  · obtain ⟨located, hlocated, he⟩ := locateAll_missing hpre hx step post
    rw [he]
    exact (locateAll_eq_ok hlocated).1.growsTo

/-- A group that was opened is still open, or it stands among the stages. -/
def Holds (d : Draft) (o : GroupDraft) : Prop :=
  (∃ o', d.current = some o' ∧ o.Begins o') ∨ o.StandsIn d.stages

namespace Holds

theorem of_current (h : d.current = some o) : d.Holds o :=
  .inl ⟨o, h, .refl o⟩

theorem withGroup (h : d.Holds o) (hb : d.groupDraft.Begins o') :
    { d with current := some o' }.Holds o := by
  rcases h with ⟨held, hc, ho⟩ | h
  · rw [groupDraft, hc] at hb
    exact .inl ⟨o', rfl, ho.trans hb⟩
  · exact .inr h

theorem addMember (h : d.Holds o) (m : Member) : (d.addMember m).1.Holds o := by
  rw [addMember_eq]
  apply h.withGroup
  constructor
  · rw [Group.add_members]
    split
    · exact List.prefix_append _ _
    · exact List.prefix_rfl
  · exact List.prefix_rfl

theorem addReducer (h : d.Holds o) (c : Combine) : (d.addReducer c).1.Holds o := by
  have hm := h.addMember (keyed d.groupDraft.group c).member
  rcases d.addReducer_cases c with ⟨d₁, fault, ha, he⟩ | ⟨d₁, ha, he⟩
  · rw [ha] at hm
    rw [he]
    exact hm
  · rw [ha] at hm
    rw [he]
    exact hm.withGroup ⟨List.prefix_rfl, List.prefix_append _ _⟩

theorem closeGroup (h : d.Holds o) (hc : d.closeGroup = (d', .ok ())) : o.StandsIn d'.stages := by
  rcases closeGroup_eq_ok hc with ⟨hn, rfl⟩ | ⟨held, f, hcur, hl, hf, -⟩
  · rcases h with ⟨held, hcur, -⟩ | h
    · cases hn.symm.trans hcur
    · exact h
  · have hs : d'.stages = f.stages ++ .group held.group :: held.combines.map .combine :=
      congrArg Flow.stages hf
    rw [hs]
    rcases h with ⟨open', hopen, ho⟩ | h
    · cases hcur.symm.trans hopen
      exact ⟨f.stages, held, [], ho, by rw [List.append_nil]⟩
    · exact (h.growsTo hl.growsTo).append _

theorem addSerial (h : d.Holds o) (hl : d.Linked steps) (s : Serial) :
    (d.addSerial s).1.Holds o := by
  right
  obtain ⟨closed, hc, -⟩ := hl.closeGroup
  have hs := h.closeGroup hc
  have hg := closed.locateAll_growsTo s.name s.inputs
  rw [Draft.addSerial, hc]
  dsimp only
  cases hd : closed.locateAll s.name s.inputs with
  | mk located result =>
    rw [hd] at hg
    cases result with
    | error fault => exact hs.growsTo hg
    | ok => exact hs.growsTo (hg.append [.serial s])

theorem addStep (h : d.Holds o) (hl : d.Linked steps) (s : Step) : (d.addStep s).1.Holds o := by
  rw [Draft.addStep]
  cases s.body with
  | fold reduction => exact h.addReducer _
  | task operation =>
    by_cases hk : s.kind = .serial
    · simp only [if_pos hk]
      exact h.addSerial hl _
    · simp only [if_neg hk]
      exact h.addMember _

end Holds

end Draft

/-- What a draft is given: a directive line, or a step that is called already. -/
inductive Addition where
  | line (number : Nat) (text : String)
  | step (s : Step)

/-- The step that is to be linked. -/
def Addition.step? (r : Repertoire) : Addition → Option Step
  | .line _ text => r.step? text
  | .step s => some s

namespace Draft

variable {r : Repertoire} {d : Draft} {o : GroupDraft} {steps : List Step} {a : Addition}

def take (d : Draft) (r : Repertoire) : Addition → Draft
  | .line number text => (d.addLine r number text).1
  | .step s => (d.addStep s).1

/-- Takes additions one after another, whatever comes of each. -/
def takeAll (d : Draft) (r : Repertoire) (additions : List Addition) : Draft :=
  additions.foldl (fun d a => d.take r a) d

theorem take_cases (d : Draft) (r : Repertoire) (a : Addition) :
    (a.step? r = none ∧ ∃ line, d.take r a = { d with line := line }) ∨
      ∃ s line, a.step? r = some s ∧ d.take r a = ({ d with line := line }.addStep s).1 := by
  cases a with
  | line number text =>
    cases hs : r.step? text with
    | none => exact .inl ⟨hs, number, addLine_of_none hs⟩
    | some s => exact .inr ⟨s, number, hs, addLine_of_some hs⟩
  | step s => exact .inr ⟨s, d.line, rfl, rfl⟩

theorem Linked.take (h : d.Linked steps) (hs : ∀ s, a.step? r = some s → s ∈ steps) :
    (d.take r a).Linked steps := by
  rcases d.take_cases r a with ⟨-, line, he⟩ | ⟨s, line, ha, he⟩
  · rw [he]
    exact h.line line
  · rw [he]
    exact (h.line line).addStep (hs s ha)

theorem Linked.takeAll {additions : List Addition} (h : d.Linked steps)
    (hs : ∀ a ∈ additions, ∀ s, a.step? r = some s → s ∈ steps) :
    (d.takeAll r additions).Linked steps := by
  induction additions generalizing d with
  | nil => exact h
  | cons a additions ih =>
    obtain ⟨ha, hs⟩ := List.forall_mem_cons.mp hs
    exact ih (h.take ha) hs

theorem exists_linked_takeAll (r : Repertoire) (additions later : List Addition) : ∃ steps,
    (empty.takeAll r additions).Linked steps ∧
      ∀ a ∈ later, ∀ s, a.step? r = some s → s ∈ steps := by
  have hsteps : ∀ a ∈ additions ++ later, ∀ s, a.step? r = some s →
      s ∈ (additions ++ later).filterMap (·.step? r) :=
    fun a ha s hs => List.mem_filterMap.mpr ⟨a, ha, hs⟩
  obtain ⟨hadditions, hlater⟩ := List.forall_mem_append.mp hsteps
  exact ⟨_, (linked_empty _).takeAll hadditions, hlater⟩

theorem Holds.take (h : d.Holds o) (hl : d.Linked steps) : (d.take r a).Holds o := by
  rcases d.take_cases r a with ⟨-, line, he⟩ | ⟨s, line, -, he⟩
  · rw [he]
    exact h
  · rw [he]
    exact addStep (d := { d with line := line }) h (hl.line line) s

theorem Holds.takeAll {additions : List Addition} (h : d.Holds o) (hl : d.Linked steps)
    (hs : ∀ a ∈ additions, ∀ s, a.step? r = some s → s ∈ steps) :
    (d.takeAll r additions).Holds o := by
  induction additions generalizing d with
  | nil => exact h
  | cons a additions ih =>
    obtain ⟨ha, hs⟩ := List.forall_mem_cons.mp hs
    exact ih (h.take hl) (hl.take ha) hs

theorem Linked.addStep_refused (h : d.Linked steps) {s : Step} (hs : s.Called) {fault : OutOfScope}
    (he : (d.addStep s).2 = .error fault) : fault.step = s.name ∧ fault.item ∈ s.inputs := by
  obtain ⟨pre, x, post, hreads, rfl, -⟩ := h.addStep_error hs.fits (Prod.ext rfl he)
  rw [← hs.reads_eq, hreads]
  exact ⟨rfl, List.mem_append_right pre List.mem_cons_self⟩

theorem addLine_outOfScope {line n : Nat} {text : String} {fault : OutOfScope}
    (h : (d.addLine r line text).2 = .error (.outOfScope n fault)) :
    n = line ∧ ∃ s, r.step? text = some s ∧
      ({ d with line := line }.addStep s).2 = .error fault := by
  cases hs : r.step? text with
  | some s =>
    rw [addLine_call hs] at h
    cases ha : ({ d with line := line }.addStep s).2 with
    | ok =>
      rw [ha] at h
      cases h
    | error cause =>
      rw [ha] at h
      cases h
      exact ⟨rfl, s, rfl, ha⟩
  | none =>
    rw [addLine] at h
    rcases Repertoire.step?_eq_none hs with ⟨cause, hd⟩ | ⟨directive, hd, hn | ⟨hn, cause, hc⟩⟩
    · rw [hd] at h
      cases h
    · simp only [hd, if_pos hn] at h
      cases h
    · simp only [hd, if_neg hn, hc] at h
      cases h

theorem Linked.complete_holds (hl : d.Linked steps) (h : d.Holds o) :
    ∃ f, d.complete.2 = .ok f ∧ o.StandsIn f.stages := by
  obtain ⟨closed, hc, -⟩ := hl.closeGroup
  rw [complete_of_closeGroup hc]
  exact ⟨closed.flow, rfl, h.closeGroup hc⟩

/-- Whatever a draft was given before, its open group can be closed and its flow completed. No
group is lost that was ever opened, and what is refused is a step, for one of its own inputs. -/
theorem takeAll_seals (hr : r.Built) (additions : List Addition) :
    let d := empty.takeAll r additions
    (∃ closed, d.closeGroup = (closed, .ok ()) ∧ closed.current = none ∧
      d.complete = (closed, .ok closed.flow)) ∧
    (∀ o, d.current = some o → ∀ later, ∃ f, (d.takeAll r later).complete.2 = .ok f ∧
      o.StandsIn f.stages) ∧
    (∀ s, s.Called → ∀ fault, (d.addStep s).2 = .error fault →
      fault.step = s.name ∧ fault.item ∈ s.inputs) ∧
    ∀ line text n fault, (d.addLine r line text).2 = .error (.outOfScope n fault) →
      n = line ∧ ∃ s, r.step? text = some s ∧ fault.step = s.name ∧ fault.item ∈ s.inputs := by
  intro d
  obtain ⟨steps, hl, -⟩ := exists_linked_takeAll r additions []
  refine ⟨?_, ?_, fun s hs fault he => hl.addStep_refused hs he, ?_⟩
  · obtain ⟨closed, hc, -, hn⟩ := hl.closeGroup
    exact ⟨closed, hc, hn, complete_of_closeGroup hc⟩
  · intro o ho later
    obtain ⟨all, hall, hlater⟩ := exists_linked_takeAll r additions later
    exact (hall.takeAll hlater).complete_holds ((Holds.of_current ho).takeAll hall hlater)
  · intro line text n fault he
    obtain ⟨hn, s, hs, ha⟩ := addLine_outOfScope he
    exact ⟨hn, s, hs, (hl.line line).addStep_refused (.of_step? hr hs) ha⟩

/-- "incr" opens a group, which the refused "print" closes. -/
theorem takeAll_seals_of_refused :
    Standard.repertoire.Built ∧ ∃ s, s.Called ∧
      let d := empty.takeAll Standard.repertoire [.line 1 "lst (> a) 3", .step s]
      ∃ o, d.current = some o ∧ o.group.name = "[incr]" ∧
        (d.addLine Standard.repertoire 2 "print (nope)").2 =
          .error (.outOfScope 2 ⟨"nope", "print"⟩) ∧
        ∃ f, (d.takeAll Standard.repertoire [.line 2 "print (nope)"]).complete.2 = .ok f ∧
          o.StandsIn f.stages := by
  obtain ⟨s, hs, hd⟩ : ∃ s, Standard.repertoire.step? "incr (a > b)" = some s ∧
      let d := empty.takeAll Standard.repertoire [.line 1 "lst (> a) 3", .step s]
      ∃ o, d.current = some o ∧ o.group.name = "[incr]" ∧
        (d.addLine Standard.repertoire 2 "print (nope)").2 =
          .error (.outOfScope 2 ⟨"nope", "print"⟩) :=
    ⟨_, rfl, _, rfl, rfl, rfl⟩
  obtain ⟨o, ho, hn, he⟩ := hd
  obtain ⟨-, hopen, -, -⟩ := takeAll_seals Repertoire.Built.standard
    [.line 1 "lst (> a) 3", .step s]
  exact ⟨.standard, s, .of_step? .standard hs, o, ho, hn, he, hopen o ho _⟩

end Draft

end DirectiveFlow
