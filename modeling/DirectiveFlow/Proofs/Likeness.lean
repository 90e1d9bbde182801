import DirectiveFlow.Proofs.Accepting
import DirectiveFlow.Proofs.Arrangement

namespace DirectiveFlow

namespace Stage

variable {g g' : Group} {item : String}

/-- A stage without requests and gathered names, and nothing at all of a group
without members. -/
def outline : Stage → List Stage
  | .group g => if g.members.isEmpty then [] else [(Stage.group g).bare]
  | stage => [stage]

theorem outline_of_members_eq (h : g'.members = g.members) :
    (Stage.group g').outline = (Stage.group g).outline := by
  simp only [outline, bare, h]

theorem outline_of_no_members (h : g.members = []) : (Stage.group g).outline = [] := by
  simp only [outline, h, List.isEmpty_nil, if_true]

theorem outline_gather (item : String) (stage : Stage) :
    (stage.gather item).outline = stage.outline := by
  cases stage with
  | serial s => rfl
  | group g => exact outline_of_members_eq Group.gather_members
  | combine c => rfl

theorem offers_outline (stage : Stage) : stage.outline.flatMap offers = stage.offers := by
  cases stage with
  | serial s => rfl
  | combine c => rfl
  | group g =>
    by_cases h : g.members = []
    · rw [outline_of_no_members h]
      simp only [offers, Group.offers, h, List.flatMap_nil]
    · have hg : (Stage.group g).outline = [(Stage.group g).bare] := by simp [outline, h]
      rw [hg, List.flatMap_singleton]
      rfl

end Stage

namespace Flow

variable {f f' f'' e e' : Flow} {o o' : GroupDraft} {items : List String} {x : String}

/-- Two flows have the same stages, but for requests, gathered names and groups without members,
and the same items declared. -/
structure Alike (f f' : Flow) : Prop where
  outline : f'.stages.flatMap Stage.outline = f.stages.flatMap Stage.outline
  declared : f'.declared = f.declared

namespace Alike

theorem refl (f : Flow) : f.Alike f := ⟨rfl, rfl⟩

theorem symm (h : f.Alike f') : f'.Alike f := ⟨h.outline.symm, h.declared.symm⟩

theorem trans (h : f.Alike f') (h' : f'.Alike f'') : f.Alike f'' :=
  ⟨h'.outline.trans h.outline, h'.declared.trans h.declared⟩

theorem finds_iff (h : f.Alike f') : f'.Finds x ↔ f.Finds x := by
  have hoffers (stages : List Stage) : stages.flatMap Stage.offers =
      (stages.flatMap Stage.outline).flatMap Stage.offers := by
    rw [List.flatMap_assoc]
    exact List.flatMap_congr fun stage _ => stage.offers_outline.symm
  unfold Finds
  rw [hoffers f'.stages, h.outline, ← hoffers f.stages, h.declared]

theorem located (h : f.Alike f') (hl : f.Located items e) (hl' : f'.Located items e') :
    e.Alike e' where
  outline := by
    rw [hl.flatMap_eq Stage.outline_gather, hl'.flatMap_eq Stage.outline_gather, h.outline]
  declared := by
    apply Environment.eq_of_values
    · intro x
      rw [Bool.eq_iff_iff, hl.contains, hl'.contains, h.declared]
    · intro x
      rw [hl.value?, hl'.value?, h.declared]

theorem addSerial (h : f.Alike f') (s : Serial) : (f.addSerial s).Alike (f'.addSerial s) where
  outline := by
    simp only [Flow.addSerial, List.flatMap_append, h.outline]
  declared := by
    simp only [Flow.addSerial, h.declared]

theorem addGroup (h : f.Alike f') (hm : o'.group.members = o.group.members)
    (hc : o'.combines = o.combines) : (f.addGroup o).Alike (f'.addGroup o') where
  outline := by
    simp only [Flow.addGroup, List.flatMap_append, List.flatMap_cons, h.outline, hc,
      Stage.outline_of_members_eq hm]
  declared := by
    simp only [Flow.addGroup, h.declared, hc]

end Alike

theorem Located.alike (h : f.Located items f') (hd : ∀ x ∈ items, f.declared.contains x) :
    f.Alike f' where
  outline := h.flatMap_eq Stage.outline_gather
  declared := by
    apply Environment.eq_of_values
    · intro x
      rw [Bool.eq_iff_iff, h.contains]
      exact or_iff_left_of_imp (hd x)
    · exact h.value?

theorem alike_addGroup_empty (f : Flow) : f.Alike (f.addGroup .empty) where
  outline := by
    have he : (Stage.group GroupDraft.empty.group).outline = [] := rfl
    simp only [addGroup, List.flatMap_append, List.flatMap_cons, he]
    exact List.append_nil _
  declared := rfl

end Flow

namespace Group

variable {g g' : Group} {env : Environment}

theorem sees_iff_of_members_eq (hm : g'.members = g.members) (x : String) :
    g'.Sees env x ↔ g.Sees env x := by
  simp only [Sees, offers, hm]

/-- Whether a group accepts a member has to do with its members only. -/
theorem add_answer (hm : g'.members = g.members) (m : Member) :
    (g'.add env m).2 = (g.add env m).2 := by
  rcases forall_or_first (g.Sees env) m.inputs with h | ⟨pre, x, post, hi, hpre, hx⟩
  · have h' : ∀ x ∈ m.inputs, g'.Sees env x :=
      fun x hx => (sees_iff_of_members_eq hm x).mpr (h x hx)
    rw [add_found h, add_found h']
  · have hpre' : ∀ y ∈ pre, g'.Sees env y :=
      fun y hy => (sees_iff_of_members_eq hm y).mpr (hpre y hy)
    rw [add_missing hi hpre hx, add_missing hi hpre' (mt (sees_iff_of_members_eq hm x).mp hx)]

theorem add_members (g : Group) (env : Environment) (m : Member) :
    (g.add env m).1.members =
      match (g.add env m).2 with
      | .ok () => g.members ++ [m]
      | .error _ => g.members := by
  obtain ⟨more, -, ⟨fault, he⟩ | ⟨-, he⟩⟩ := g.add_cases env m
  · rw [he]
  · rw [he]
    exact members_withMember _ m

end Group

namespace Draft

variable {d d' : Draft} {steps steps' : List Step} {r : Repertoire}

/-- Two drafts have flows that are alike, and open groups with the same members and combines. No
open group is as good as one without members. -/
structure Alike (d d' : Draft) : Prop where
  flow : d.flow.Alike d'.flow
  members : d'.groupDraft.group.members = d.groupDraft.group.members
  combines : d'.groupDraft.combines = d.groupDraft.combines

theorem Linked.closeGroup_alike (h : d.Linked steps) :
    ∃ d', d.closeGroup = (d', .ok ()) ∧ (d.flow.addGroup d.groupDraft).Alike d'.flow ∧
      d'.current = none := by
  obtain ⟨d', hc, -, hn⟩ := h.closeGroup
  refine ⟨d', hc, ?_, hn⟩
  rcases closeGroup_eq_ok hc with ⟨hcur, rfl⟩ | ⟨o, f, ho, hl, hf, -⟩
  · rw [groupDraft, hcur]
    exact d'.flow.alike_addGroup_empty.symm
  · rw [groupDraft, ho, hf]
    exact (hl.alike (h.current o ho).2).addGroup rfl rfl

namespace Alike

theorem line (h : d.Alike d') (line : Nat) :
    { d with line := line }.Alike { d' with line := line } :=
  ⟨h.flow, h.members, h.combines⟩

theorem closeGroup (h : d.Alike d') (hl : d.Linked steps) (hl' : d'.Linked steps') :
    ∃ e e', d.closeGroup = (e, .ok ()) ∧ d'.closeGroup = (e', .ok ()) ∧ e.Alike e' := by
  obtain ⟨e, hc, he, hn⟩ := hl.closeGroup_alike
  obtain ⟨e', hc', he', hn'⟩ := hl'.closeGroup_alike
  refine ⟨e, e', hc, hc', ?_⟩
  constructor
  case flow => exact (he.symm.trans (h.flow.addGroup h.members h.combines)).trans he'
  all_goals rw [groupDraft, groupDraft, hn, hn']

theorem locateAll (h : d.Alike d') (step : String) (items : List String) :
    (d'.locateAll step items).2 = (d.locateAll step items).2 ∧
      (d.locateAll step items).1.Alike (d'.locateAll step items).1 := by
  have hfound {items : List String} {e e' : Draft} (he : d.locateAll step items = (e, .ok ()))
      (he' : d'.locateAll step items = (e', .ok ())) : e.Alike e' := by
    obtain ⟨hl, hc⟩ := locateAll_eq_ok he
    obtain ⟨hl', hc'⟩ := locateAll_eq_ok he'
    refine ⟨h.flow.located hl hl', ?_, ?_⟩
    all_goals simp only [groupDraft, hc, hc']
    · exact h.members
    · exact h.combines
  rcases forall_or_first d.flow.Finds items with hf | ⟨pre, x, post, rfl, hpre, hx⟩
  · obtain ⟨e, he, -⟩ := locateAll_found hf step
    obtain ⟨e', he', -⟩ := locateAll_found (fun x hx => h.flow.finds_iff.mpr (hf x hx)) step
    rw [he, he']
    exact ⟨rfl, hfound he he'⟩
  · obtain ⟨e, he, hall⟩ := locateAll_missing hpre hx step post
    obtain ⟨e', he', hall'⟩ := locateAll_missing (fun y hy => h.flow.finds_iff.mpr (hpre y hy))
      (mt h.flow.finds_iff.mp hx) step post
    rw [hall, hall']
    exact ⟨rfl, hfound he he'⟩

theorem addSerial (h : d.Alike d') (hl : d.Linked steps) (hl' : d'.Linked steps') (s : Serial) :
    (d'.addSerial s).2 = (d.addSerial s).2 ∧ (d.addSerial s).1.Alike (d'.addSerial s).1 := by
  obtain ⟨e, e', hc, hc', he⟩ := h.closeGroup hl hl'
  obtain ⟨hanswer, halike⟩ := he.locateAll s.name s.inputs
  unfold Draft.addSerial
  rw [hc, hc']
  dsimp only
  cases hd : e.locateAll s.name s.inputs with
  | mk n result =>
    cases hd' : e'.locateAll s.name s.inputs with
    | mk n' result' =>
      rw [hd, hd'] at hanswer halike
      obtain rfl : result' = result := hanswer
      cases result' with
      | error fault => exact ⟨rfl, halike⟩
      | ok => exact ⟨rfl, halike.flow.addSerial s, halike.members, halike.combines⟩

theorem addMember (h : d.Alike d') (m : Member) :
    (d'.addMember m).2 = (d.addMember m).2 ∧ (d.addMember m).1.Alike (d'.addMember m).1 := by
  have hanswer : (d'.groupDraft.group.add d'.declared m).2 =
      (d.groupDraft.group.add d.declared m).2 := by
    rw [show d'.declared = d.declared from h.flow.declared]
    exact Group.add_answer h.members m
  refine ⟨hanswer, h.flow, ?_, h.combines⟩
  change (d'.groupDraft.group.add d'.declared m).1.members =
    (d.groupDraft.group.add d.declared m).1.members
  rw [Group.add_members, Group.add_members, hanswer, h.members]

theorem keyed_eq (h : d.Alike d') (c : Combine) :
    keyed d'.groupDraft.group c = keyed d.groupDraft.group c := by
  have hp : d'.groupDraft.group.partials = d.groupDraft.group.partials :=
    congrArg (List.filterMap Member.partials?) h.members
  unfold keyed freePartials
  rw [hp, h.members]

theorem addReducer (h : d.Alike d') (c : Combine) :
    (d'.addReducer c).2 = (d.addReducer c).2 ∧ (d.addReducer c).1.Alike (d'.addReducer c).1 := by
  obtain ⟨hanswer, halike⟩ := h.addMember (keyed d.groupDraft.group c).member
  rcases d.addReducer_cases c with ⟨n, fault, ha, he⟩ | ⟨n, ha, he⟩ <;>
    rcases d'.addReducer_cases c with ⟨n', fault', ha', he'⟩ | ⟨n', ha', he'⟩ <;>
    rw [h.keyed_eq] at ha' <;> rw [ha, ha'] at hanswer halike
  · cases hanswer
    rw [he, he']
    exact ⟨rfl, halike⟩
  · cases hanswer
  · cases hanswer
  · rw [he, he']
    refine ⟨rfl, halike.flow, halike.members, ?_⟩
    change n'.groupDraft.combines ++ _ = n.groupDraft.combines ++ _
    rw [halike.combines, h.keyed_eq]

theorem addStep (h : d.Alike d') (hl : d.Linked steps) (hl' : d'.Linked steps') (s : Step) :
    (d'.addStep s).2 = (d.addStep s).2 ∧ (d.addStep s).1.Alike (d'.addStep s).1 := by
  unfold Draft.addStep
  cases s.body with
  | fold reduction => exact h.addReducer _
  | task operation =>
    by_cases hk : s.kind = .serial
    · simp only [if_pos hk]
      exact h.addSerial hl hl' _
    · simp only [if_neg hk]
      exact h.addMember _

theorem addLine (h : d.Alike d') (hl : d.Linked steps) (hl' : d'.Linked steps') (line : Nat)
    (text : String) : (d'.addLine r line text).2 = (d.addLine r line text).2 ∧
      (d.addLine r line text).1.Alike (d'.addLine r line text).1 := by
  cases hs : r.step? text with
  | none =>
    refine ⟨?_, ?_⟩
    · by_cases hr : r.Reads text
      · rw [addLine_blank hr hs, addLine_blank hr hs]
      · obtain ⟨fault, he⟩ := addLine_unread line hr
        rw [he d, he d']
    · rw [addLine_of_none hs, addLine_of_none hs]
      exact h.line line
  | some s =>
    obtain ⟨hanswer, halike⟩ := (h.line line).addStep (hl.line line) (hl'.line line) s
    rw [addLine_call hs, addLine_call hs]
    exact ⟨congrArg (Except.mapError (FlowFault.outOfScope line)) hanswer, halike⟩

theorem complete (h : d.Alike d') (hl : d.Linked steps) (hl' : d'.Linked steps') :
    ∃ f f', d.complete.2 = .ok f ∧ d'.complete.2 = .ok f' ∧ f.Alike f' := by
  obtain ⟨e, e', hc, hc', he⟩ := h.closeGroup hl hl'
  refine ⟨e.flow, e'.flow, ?_, ?_, he.flow⟩
  · unfold Draft.complete
    rw [hc]
    rfl
  · unfold Draft.complete
    rw [hc']
    rfl

end Alike

/-- What a draft answers to numbered lines, one after another, whatever comes of each. -/
def answers (d : Draft) (r : Repertoire) : List (Nat × String) → List (Except FlowFault Unit)
  | [] => []
  | (line, text) :: rest =>
    (d.addLine r line text).2 :: (d.addLine r line text).1.answers r rest

theorem feed_snoc (d : Draft) (r : Repertoire) (lines : List (Nat × String)) (line : Nat)
    (text : String) :
    d.feed r (lines ++ [(line, text)]) = ((d.feed r lines).addLine r line text).1 :=
  List.foldl_concat ..

/-- Alike drafts that come of lines give the same answers to all lines and stay alike. -/
theorem Alike.answers {front front' : List (Nat × String)}
    (h : (empty.feed r front).Alike (empty.feed r front')) (lines : List (Nat × String)) :
    (empty.feed r front').answers r lines = (empty.feed r front).answers r lines ∧
      ((empty.feed r front).feed r lines).Alike ((empty.feed r front').feed r lines) := by
  induction lines generalizing front front' with
  | nil => exact ⟨rfl, h⟩
  | cons entry lines ih =>
    obtain ⟨line, text⟩ := entry
    obtain ⟨hanswer, halike⟩ := h.addLine (linked_feed r front) (linked_feed r front') line text
    rw [← feed_snoc, ← feed_snoc] at halike
    obtain ⟨hrest, hend⟩ := ih halike
    rw [feed_snoc, feed_snoc] at hrest hend
    refine ⟨?_, hend⟩
    rw [Draft.answers, Draft.answers, hanswer, hrest]

end Draft

end DirectiveFlow
