import DirectiveFlow.Proofs.Availability
import DirectiveFlow.Standard

namespace DirectiveFlow

/-- A step as it stands in a flow. A fold stands over its item, whatever its key. -/
inductive Part where
  | serial (name : String) (inputs outputs : List String) (operation : Operation)
  | parallel (name : String) (inputs outputs : List String) (operation : Operation)
  | fold (name item : String) (reduction : Reduction)

namespace Step

def part (s : Step) : Part :=
  match s.body with
  | .fold reduction => .fold s.name (s.inputs.head?.getD "") reduction
  | .task operation =>
    if s.kind = .serial then .serial s.name s.inputs s.outputs operation
    else .parallel s.name s.inputs s.outputs operation

/-- The combine of a reducer, over the item's own name. -/
def combine? (s : Step) : Option Combine :=
  match s.body with
  | .task _ => none
  | .fold reduction =>
    let item := s.inputs.head?.getD ""
    some ⟨s.name, item, item, s.outputs.head?.getD "", reduction⟩

end Step

def Member.part : Member → Part
  | .task name inputs outputs operation => .parallel name inputs outputs operation
  | .fold name item _ reduction => .fold name item reduction

/-- A combine as its reducer has it before a key is chosen. -/
def Combine.unkeyed (c : Combine) : Combine :=
  { c with partials := c.item }

namespace Stage

/-- The steps that a stage holds. The step of a combine is in the group before it. -/
def parts : Stage → List Part
  | .serial s => [.serial s.name s.inputs s.outputs s.operation]
  | .group g => g.members.map Member.part
  | .combine _ => []

/-- A stage without what other stages have to do with it. -/
def bare : Stage → Stage
  | .group g => .group { g with requests := [], gathered := [] }
  | stage => stage

variable {stage : Stage} {stages : List Stage}

theorem bare_gather (item : String) (stage : Stage) : (stage.gather item).bare = stage.bare := by
  cases stage with
  | serial s => rfl
  | combine c => rfl
  | group g =>
    change Stage.group ⟨(g.gather item).members, [], []⟩ = _
    rw [Group.gather_members]
    rfl

theorem eq_serial_of_bare {s : Serial} (h : stage.bare = .serial s) : stage = .serial s := by
  cases stage with
  | serial s' => exact h
  | group g => cases h
  | combine c => cases h

theorem eq_combine_of_bare {c : Combine} (h : stage.bare = .combine c) : stage = .combine c := by
  cases stage with
  | serial s => cases h
  | group g => cases h
  | combine c' => exact h

theorem eq_group_of_bare {g : Group} (h : stage.bare = (Stage.group g).bare) :
    ∃ g', stage = .group g' ∧ g'.members = g.members := by
  cases stage with
  | serial s => cases h
  | group g' =>
    injection h with h
    injection h with h
    exact ⟨g', rfl, h⟩
  | combine c => cases h

theorem eq_combines_of_bare {combines : List Combine}
    (h : stages.map bare = (combines.map Stage.combine).map bare) :
    stages = combines.map .combine := by
  induction combines generalizing stages with
  | nil => exact List.map_eq_nil_iff.mp h
  | cons c combines ih =>
    obtain ⟨stage, rest, rfl, hc, hr⟩ := List.map_eq_cons_iff.mp h
    rw [eq_combine_of_bare hc, ih hr, List.map_cons]

end Stage

/-- A group holds a run of steps, and the combines are those of its folds and of the
reducers of the run. -/
structure Group.Holds (g : Group) (combines : List Combine) (run : List Step) : Prop where
  parts : g.members.map Member.part = run.map Step.part
  folds : g.members.filter Member.isFold = combines.map Combine.member
  combines : combines.map Combine.unkeyed = run.filterMap Step.combine?

namespace Group.Holds

variable {g g' : Group} {combines : List Combine} {run : List Step} {s : Step}

theorem of_members_eq (h : g.Holds combines run) (hm : g'.members = g.members) :
    g'.Holds combines run where
  parts := hm ▸ h.parts
  folds := hm ▸ h.folds
  combines := h.combines

theorem task (h : g.Holds combines run) {m : Member} (hm : g'.members = g.members ++ [m])
    (hp : m.part = s.part) (hf : m.isFold = false) (hc : s.combine? = none) :
    g'.Holds combines (run ++ [s]) where
  parts := by
    rw [hm, List.map_append, List.map_append, h.parts, List.map_singleton, List.map_singleton, hp]
  folds := by
    rw [hm, List.filter_append, h.folds, List.filter_singleton, hf]
    exact List.append_nil _
  combines := by
    rw [List.filterMap_append, h.combines, List.filterMap_cons_none hc]
    exact (List.append_nil _).symm

theorem fold (h : g.Holds combines run) {c : Combine} (hm : g'.members = g.members ++ [c.member])
    (hp : c.member.part = s.part) (hc : s.combine? = some c.unkeyed) :
    g'.Holds (combines ++ [c]) (run ++ [s]) where
  parts := by
    rw [hm, List.map_append, List.map_append, h.parts, List.map_singleton, List.map_singleton, hp]
  folds := by
    rw [hm, List.filter_append, h.folds, List.map_append]
    rfl
  combines := by
    rw [List.map_append, List.filterMap_append, h.combines, List.filterMap_cons_some hc]
    rfl

theorem members_ne_nil (h : g.Holds combines run) (hr : run ≠ []) : g.members ≠ [] := by
  intro hm
  have hp := h.parts
  rw [hm] at hp
  exact hr (List.map_eq_nil_iff.mp hp.symm)

end Group.Holds

/-- The last stage, if there is one, is serial. -/
def EndsSerial (stages : List Stage) : Prop :=
  ∀ stage ∈ stages.getLast?, ∃ s, stage = .serial s

/-- Stages arranged from steps: serial ones one by one, and between them a group for each run of
others with the combines of the run behind it. -/
inductive Arranged : List Step → List Stage → Prop
  | nil : Arranged [] []
  | serial {steps : List Step} {stages : List Stage} {s : Step} {e : Serial}
      (h : Arranged steps stages) (hs : [s.part] = (Stage.serial e).parts) :
      Arranged (steps ++ [s]) (stages ++ [.serial e])
  | group {steps run : List Step} {stages : List Stage} {g : Group} {combines : List Combine}
      (h : Arranged steps stages) (hs : EndsSerial stages) (hr : run ≠ [])
      (hg : g.Holds combines run) :
      Arranged (steps ++ run) (stages ++ .group g :: combines.map .combine)

theorem not_endsSerial (front : List Stage) (g : Group) (combines : List Combine) :
    ¬ EndsSerial (front ++ Stage.group g :: combines.map Stage.combine) := by
  intro h
  have hne : Stage.group g :: combines.map Stage.combine ≠ [] := List.cons_ne_nil _ _
  have hlast : (front ++ Stage.group g :: combines.map Stage.combine).getLast? =
      some ((Stage.group g :: combines.map Stage.combine).getLast hne) := by
    rw [List.getLast?_append_of_ne_nil _ hne, List.getLast?_eq_some_getLast hne]
  obtain ⟨s, hs⟩ := h _ hlast
  have hm := hs ▸ List.getLast_mem hne
  simp at hm

namespace Arranged

variable {steps : List Step} {stages stages' before after : List Stage}

theorem endsSerial_of_bare (h : EndsSerial stages)
    (he : stages'.map Stage.bare = stages.map Stage.bare) : EndsSerial stages' := by
  intro stage hm
  have hlast := congrArg List.getLast? he
  rw [List.getLast?_map, List.getLast?_map, hm] at hlast
  obtain ⟨other, ho, hb⟩ := Option.map_eq_some_iff.mp hlast.symm
  obtain ⟨s, rfl⟩ := h other ho
  exact ⟨s, Stage.eq_serial_of_bare hb.symm⟩

theorem of_bare (h : Arranged steps stages)
    (he : stages'.map Stage.bare = stages.map Stage.bare) : Arranged steps stages' := by
  induction h generalizing stages' with
  | nil =>
    rw [List.map_eq_nil_iff.mp he]
    exact .nil
  | serial h hs ih =>
    rw [List.map_append] at he
    obtain ⟨front, back, rfl, hfront, hback⟩ := List.map_eq_append_iff.mp he
    obtain ⟨stage, rfl, hstage⟩ := List.map_eq_singleton_iff.mp hback
    rw [Stage.eq_serial_of_bare hstage]
    exact .serial (ih hfront) hs
  | group h hs hr hg ih =>
    rw [List.map_append] at he
    obtain ⟨front, back, rfl, hfront, hback⟩ := List.map_eq_append_iff.mp he
    obtain ⟨stage, rest, rfl, hstage, hrest⟩ := List.map_eq_cons_iff.mp hback
    obtain ⟨g', rfl, hm⟩ := Stage.eq_group_of_bare hstage
    rw [Stage.eq_combines_of_bare hrest]
    exact .group (ih hfront) (endsSerial_of_bare hs hfront) hr (hg.of_members_eq hm)

theorem parts_eq (h : Arranged steps stages) :
    stages.flatMap Stage.parts = steps.map Step.part := by
  induction h with
  | nil => rfl
  | serial h hs ih =>
    rw [List.flatMap_append, List.map_append, ih, List.map_singleton, hs, List.flatMap_singleton]
  | group h hs hr hg ih =>
    rw [List.flatMap_append, List.map_append, ih, List.flatMap_cons,
      flatMap_combines fun _ => rfl, List.append_nil]
    exact congrArg (_ ++ ·) hg.parts

/-- Behind a group stand its combines, and then a serial stage unless the flow ends there. -/
theorem group_at {g : Group} (h : Arranged steps stages)
    (he : stages = before ++ .group g :: after) :
    ∃ earlier run later combines rest, steps = earlier ++ run ++ later ∧
      before.flatMap Stage.parts = earlier.map Step.part ∧ run ≠ [] ∧ g.Holds combines run ∧
      after = combines.map .combine ++ rest ∧ ∀ stage ∈ rest.head?, ∃ s, stage = .serial s := by
  induction h generalizing before after with
  | nil => exact absurd he.symm (by simp)
  | @serial steps stages s e h hs ih =>
    rcases append_eq_append_cons he with ⟨mid, hst, rfl⟩ | ⟨pre, -, hb⟩
    · obtain ⟨earlier, run, later, combines, rest, rfl, hp, hr, hg, rfl, hrest⟩ := ih hst
      refine ⟨earlier, run, later ++ [s], combines, rest ++ [.serial e], ?_, hp, hr, hg, ?_, ?_⟩
      · rw [List.append_assoc]
      · rw [List.append_assoc]
      · cases rest with
        | nil => simp
        | cons stage rest => exact hrest
    · have hm : Stage.group g ∈ [Stage.serial e] := hb ▸ by simp
      cases List.mem_singleton.mp hm
  | @group steps run stages g' combines h hs hr hg ih =>
    rcases append_eq_append_cons he with ⟨mid, hst, rfl⟩ | ⟨pre, rfl, hb⟩
    · obtain ⟨earlier, run', later, combines', rest, rfl, hp, hr', hg', rfl, hrest⟩ := ih hst
      refine ⟨earlier, run', later ++ run, combines', rest ++ .group g' :: combines.map .combine,
        ?_, hp, hr', hg', ?_, ?_⟩
      · rw [List.append_assoc]
      · rw [List.append_assoc]
      · cases rest with
        | nil =>
          rw [List.append_nil] at hst
          exact absurd (hst ▸ hs) (not_endsSerial before g combines')
        | cons stage rest => exact hrest
    · obtain ⟨combines', hblock, rfl, rfl⟩ :=
        Block.eq_group_of_stages (b := .group g' combines) hb
      cases hblock
      refine ⟨steps, run, [], combines, [], (List.append_nil _).symm, ?_, hr, hg,
        (List.append_nil _).symm, nofun⟩
      rw [List.append_nil]
      exact h.parts_eq

theorem serial_between {g g' : Group} {mid : List Stage} (h : Arranged steps stages)
    (he : stages = before ++ .group g :: (mid ++ .group g' :: after)) :
    ∃ s, .serial s ∈ mid := by
  obtain ⟨_, _, _, combines, rest, -, -, -, -, ha, hrest⟩ := h.group_at he
  rcases append_eq_append_cons ha.symm with ⟨back, hb, -⟩ | ⟨pre, rfl, hr⟩
  · have hm : Stage.group g' ∈ combines.map Stage.combine := hb ▸ by simp
    simp at hm
  · cases pre with
    | nil =>
      obtain ⟨s, hs⟩ := hrest (.group g') (hr ▸ rfl)
      cases hs
    | cons stage pre =>
      obtain ⟨s, rfl⟩ := hrest stage (hr ▸ rfl)
      exact ⟨s, by simp⟩

end Arranged

theorem Flow.Located.map_bare {f f' : Flow} {items : List String} (h : f.Located items f') :
    f'.stages.map Stage.bare = f.stages.map Stage.bare := by
  rw [List.map_eq_flatMap, List.map_eq_flatMap]
  exact h.flatMap_eq fun item stage => congrArg ([·]) (Stage.bare_gather item stage)

namespace Draft

variable {d d' : Draft} {s : Step} {steps : List Step}

theorem addMember_eq_ok {m : Member} (h : d.addMember m = (d', .ok ())) :
    ∃ o, d' = { d with current := some o } ∧
      o.group.members = d.groupDraft.group.members ++ [m] ∧
      o.combines = d.groupDraft.combines := by
  rw [addMember_eq] at h
  obtain ⟨more, -, ⟨fault, he⟩ | ⟨-, he⟩⟩ := d.groupDraft.group.add_cases d.declared m
  · rw [he] at h
    cases h
  · rw [he] at h
    cases h
    exact ⟨_, rfl, Group.members_withMember _ m, rfl⟩

theorem addReducer_eq_ok {c : Combine} (h : d.addReducer c = (d', .ok ())) :
    ∃ o, d' = { d with current := some o } ∧
      o.group.members = d.groupDraft.group.members ++ [(keyed d.groupDraft.group c).member] ∧
      o.combines = d.groupDraft.combines ++ [keyed d.groupDraft.group c] := by
  rcases d.addReducer_cases c with ⟨d₁, fault, -, he⟩ | ⟨d₁, ha, he⟩
  · cases he.symm.trans h
  · obtain ⟨o, rfl, hm, hc⟩ := addMember_eq_ok ha
    cases he.symm.trans h
    exact ⟨_, rfl, hm, congrArg (· ++ _) hc⟩

theorem addStep_joins (hf : s.Fits) (hk : s.kind ≠ .serial) (h : d.addStep s = (d', .ok ()))
    {run : List Step} (hg : d.groupDraft.group.Holds d.groupDraft.combines run) :
    ∃ o, d' = { d with current := some o } ∧ o.group.Holds o.combines (run ++ [s]) := by
  rcases parallel_or_reducer hk with hp | hr
  · obtain ⟨operation, hb⟩ := hf.task (by simp [hp])
    simp only [addStep, hb, if_neg hk] at h
    obtain ⟨o, rfl, hm, hc⟩ := addMember_eq_ok h
    refine ⟨o, rfl, ?_⟩
    rw [hc]
    apply hg.task hm
    · simp only [Step.part, hb, if_neg hk]
      rfl
    · rfl
    · simp only [Step.combine?, hb]
  · obtain ⟨reduction, hb⟩ := hf.fold hr
    simp only [addStep, hb] at h
    obtain ⟨o, rfl, hm, hc⟩ := addReducer_eq_ok h
    refine ⟨o, rfl, ?_⟩
    rw [hc]
    apply hg.fold hm
    · simp only [Step.part, hb]
      rfl
    · simp only [Step.combine?, hb]
      rfl

/-- A draft behind accepted steps: its stages are arranged from the runs that are closed, and its
group holds the open one. -/
structure Arranges (d : Draft) (steps : List Step) : Prop where
  closed : Arranged (beforeRun steps) d.stages
  serial : EndsSerial d.stages
  opened : d.groupDraft.group.Holds d.groupDraft.combines (openRun steps)
  nonempty : ∀ o, d.current = some o → openRun steps ≠ []

namespace Arranges

theorem empty : Draft.empty.Arranges [] where
  closed := .nil
  serial := nofun
  opened := ⟨rfl, rfl, rfl⟩
  nonempty := nofun

theorem closeGroup (h : d.Arranges steps) (hc : d.closeGroup = (d', .ok ())) :
    Arranged steps d'.stages ∧ d'.current = none := by
  rcases closeGroup_eq_ok hc with ⟨hn, rfl⟩ | ⟨o, f, ho, hl, hf, hn⟩
  · refine ⟨?_, hn⟩
    have hparts := h.opened.parts
    rw [groupDraft, hn] at hparts
    have hrun : openRun steps = [] := List.map_eq_nil_iff.mp hparts.symm
    have hsteps := beforeRun_append_openRun steps
    rw [hrun, List.append_nil] at hsteps
    exact hsteps ▸ h.closed
  · refine ⟨?_, hn⟩
    have hopened := h.opened
    rw [groupDraft, ho] at hopened
    have hstages : d'.stages = f.stages ++ .group o.group :: o.combines.map .combine :=
      congrArg Flow.stages hf
    rw [hstages, ← beforeRun_append_openRun steps]
    exact .group (h.closed.of_bare hl.map_bare) (Arranged.endsSerial_of_bare h.serial hl.map_bare)
      (h.nonempty o ho) hopened

theorem line (h : d.Arranges steps) (line : Nat) : { d with line := line }.Arranges steps :=
  ⟨h.closed, h.serial, h.opened, h.nonempty⟩

theorem addStep (h : d.Arranges steps) (hf : s.Fits) (ha : d.addStep s = (d', .ok ())) :
    d'.Arranges (steps ++ [s]) := by
  by_cases hk : s.kind = .serial
  · obtain ⟨operation, hb⟩ := hf.task (by simp [hk])
    rw [addStep_serial d hk hb] at ha
    obtain ⟨d₁, f, hc, hl, hflow, hcurrent⟩ := addSerial_eq_ok ha
    obtain ⟨harranged, hn⟩ := h.closeGroup hc
    have hstages : d'.stages = f.stages ++ [.serial ⟨s.name, s.inputs, s.outputs, operation⟩] :=
      congrArg Flow.stages hflow
    have hnone : d'.current = none := hcurrent.trans hn
    constructor
    case closed =>
      rw [beforeRun_of_serial hk, hstages]
      apply Arranged.serial (harranged.of_bare hl.map_bare)
      simp only [Step.part, hb, if_pos hk, Stage.parts]
    case serial =>
      intro stage hm
      rw [hstages, List.getLast?_concat] at hm
      cases hm
      exact ⟨_, rfl⟩
    case opened =>
      rw [openRun_of_serial hk, groupDraft, hnone]
      exact ⟨rfl, rfl, rfl⟩
    case nonempty =>
      rw [hnone]
      nofun
  · obtain ⟨o, rfl, hg⟩ := addStep_joins hf hk ha h.opened
    constructor
    case closed =>
      rw [beforeRun_of_not_serial hk]
      exact h.closed
    case serial => exact h.serial
    case opened =>
      rw [openRun_of_not_serial hk]
      exact hg
    case nonempty =>
      intro _ _
      rw [openRun_of_not_serial hk]
      exact List.append_ne_nil_of_right_ne_nil _ (List.cons_ne_nil s [])

theorem addLines {r : Repertoire} {line : Nat} {lines : List String} (h : d.Arranges steps)
    (ha : d.addLines r line lines = (d', .ok ())) :
    (∀ text ∈ lines, r.Reads text) ∧ d'.Arranges (steps ++ r.steps lines) := by
  induction lines generalizing d steps line with
  | nil =>
    cases ha
    exact ⟨nofun, (List.append_nil steps).symm ▸ h⟩
  | cons text lines ih =>
    obtain ⟨next, hn, hrest⟩ := addLines_cons_eq_ok ha
    obtain ⟨hreads, ⟨hs, rfl⟩ | ⟨s, hs, hadd⟩⟩ := addLine_eq_ok hn
    · obtain ⟨hr, hd⟩ := ih (h.line line) hrest
      refine ⟨List.forall_mem_cons.mpr ⟨hreads, hr⟩, ?_⟩
      rw [Repertoire.steps, List.filterMap_cons_none hs]
      exact hd
    · have hnext := (h.line line).addStep (Repertoire.fits_of_step? hs) hadd
      obtain ⟨hr, hd⟩ := ih hnext hrest
      refine ⟨List.forall_mem_cons.mpr ⟨hreads, hr⟩, ?_⟩
      rw [List.append_assoc] at hd
      rw [Repertoire.steps, List.filterMap_cons_some hs]
      exact hd

end Arranges

end Draft

/-- A flow keeps a program: it holds its steps in their order, each once, and completes the
reducers among them. -/
structure Flow.Keeps (f : Flow) (steps : List Step) : Prop where
  parts : f.stages.flatMap Stage.parts = steps.map Step.part
  /-- A group holds a run of the steps. Its combines follow, and then a serial stage or the end. -/
  group : ∀ before g after, f.stages = before ++ .group g :: after →
    g.members ≠ [] ∧ ∃ earlier run later combines rest, steps = earlier ++ run ++ later ∧
      before.flatMap Stage.parts = earlier.map Step.part ∧ g.Holds combines run ∧
      after = combines.map .combine ++ rest ∧ ∀ stage ∈ rest.head?, ∃ s, stage = .serial s
  /-- A combine goes with a fold of the group that it follows, and stands in the fold's place. -/
  combine : ∀ before c after, f.stages = before ++ .combine c :: after →
    ∃ front g earlier later, before = front ++ .group g :: earlier.map .combine ∧
      g.members.filter Member.isFold = (earlier ++ c :: later).map Combine.member
  between : ∀ before g mid g' after,
    f.stages = before ++ .group g :: (mid ++ .group g' :: after) → ∃ s, .serial s ∈ mid

/-- The flow of a script keeps the steps that its lines call: none is lost, doubled or moved. -/
theorem Flow.keeps_steps {r : Repertoire} {lines : List String} {f : Flow}
    (h : Flow.ofLines r lines = .ok f) :
    (∀ text ∈ lines, r.Reads text) ∧ f.Keeps (r.steps lines) := by
  obtain ⟨d, d', ha, hc, rfl⟩ := Flow.ofLines_eq_ok h
  obtain ⟨hreads, hd⟩ := Draft.Arranges.empty.addLines ha
  obtain ⟨harranged, -⟩ := hd.closeGroup hc
  refine ⟨hreads, ?_⟩
  constructor
  case parts => exact harranged.parts_eq
  case group =>
    intro before g after hs
    obtain ⟨earlier, run, later, combines, rest, he, hp, hr, hg, ha, hrest⟩ :=
      harranged.group_at hs
    exact ⟨hg.members_ne_nil hr, earlier, run, later, combines, rest, he, hp, hg, ha, hrest⟩
  case combine =>
    intro before c after hs
    obtain ⟨front, g, earlier, later, he, hg⟩ := (Flow.formed_of_lines h).combine hs
    exact ⟨front, g, earlier, later, he, hg.paired⟩
  case between =>
    intro before g mid g' after hs
    exact harranged.serial_between hs

/-- Two folds over one item, a blank line, and a second run behind a serial step. -/
theorem Flow.keeps_steps_of_two_runs :
    let lines := ["lst (> a) 3", "incr (a > b)", "reduce_sum (b > s)", "", "reduce_max (b > t)",
      "print (s)", "scale (a > c) 2"]
    ∃ f, Flow.ofLines Standard.repertoire lines = .ok f ∧
      (∀ text ∈ lines, Standard.repertoire.Reads text) ∧
      f.Keeps (Standard.repertoire.steps lines) ∧
      f.stages.map Stage.name = ["lst", "[incr reduce_sum reduce_max]", "reduce_sum",
        "reduce_max", "print", "[scale]"] := by
  intro lines
  obtain ⟨f, hf, hnames⟩ : ∃ f, Flow.ofLines Standard.repertoire lines = .ok f ∧
      f.stages.map Stage.name = ["lst", "[incr reduce_sum reduce_max]", "reduce_sum",
        "reduce_max", "print", "[scale]"] := ⟨_, rfl, rfl⟩
  obtain ⟨hreads, hkeeps⟩ := Flow.keeps_steps hf
  exact ⟨f, hf, hreads, hkeeps, hnames⟩

end DirectiveFlow
