import DirectiveFlow.Proofs.Drafting

namespace DirectiveFlow

namespace Stage

variable {stage : Stage} {item : String}

/-- What a group could let its later readers have. Other stages have no more than they write. -/
def offers : Stage → List String
  | .group g => g.offers
  | _ => []

theorem provides_iff : stage.provides item ↔ item ∈ stage.offers := by
  cases stage with
  | serial s => simp [provides, offers]
  | group g => exact decide_eq_true_iff
  | combine c => simp [provides, offers]

theorem offers_gather : (stage.gather item).offers = stage.offers := by
  cases stage with
  | serial s => rfl
  | group g => exact Group.gather_offers
  | combine c => rfl

theorem needs_gather : (stage.gather item).needs = stage.needs := by
  cases stage with
  | serial s => rfl
  | group g => exact Group.gather_requests
  | combine c => rfl

end Stage

theorem flatMap_combines {β : Type} {names : Stage → List β} (hn : ∀ c, names (.combine c) = [])
    (cs : List Combine) : (cs.map Stage.combine).flatMap names = [] := by
  rw [List.flatMap_map]
  exact List.flatMap_eq_nil_iff.mpr fun c _ => hn c

/-- Lets the first stage that offers an item gather it. -/
def gatherFirst (stages : List Stage) (item : String) : List Stage :=
  match stages with
  | [] => []
  | stage :: rest =>
    if item ∈ stage.offers then stage.gather item :: rest else stage :: gatherFirst rest item

section GatherFirst

variable {stages front back : List Stage} {stage : Stage} {item : String}

theorem gatherFirst_append (stage : Stage) (hf : ∀ stage ∈ front, item ∉ stage.offers)
    (hs : item ∈ stage.offers) :
    gatherFirst (front ++ stage :: back) item = front ++ stage.gather item :: back := by
  induction front with
  | nil => exact if_pos hs
  | cons other front ih =>
    obtain ⟨hother, hf⟩ := List.forall_mem_cons.mp hf
    rw [List.cons_append, gatherFirst, if_neg hother, ih hf, List.cons_append]

theorem gatherFirst_of_notMem (h : ∀ stage ∈ stages, item ∉ stage.offers) :
    gatherFirst stages item = stages := by
  induction stages with
  | nil => rfl
  | cons stage stages ih =>
    obtain ⟨hs, h⟩ := List.forall_mem_cons.mp h
    rw [gatherFirst, if_neg hs, ih h]

/-- Gathering changes nothing that does not depend on what is gathered. -/
theorem flatMap_gatherFirst {β : Type} {names : Stage → List β}
    (hn : ∀ stage : Stage, names (stage.gather item) = names stage) (stages : List Stage) :
    (gatherFirst stages item).flatMap names = stages.flatMap names := by
  induction stages with
  | nil => rfl
  | cons stage stages ih =>
    rw [gatherFirst]
    by_cases hs : item ∈ stage.offers
    · rw [if_pos hs, List.flatMap_cons, hn, List.flatMap_cons]
    · rw [if_neg hs, List.flatMap_cons, ih, List.flatMap_cons]

theorem flatMap_gatherAll {β : Type} {names : Stage → List β}
    (hn : ∀ (item : String) (stage : Stage), names (stage.gather item) = names stage)
    (stages : List Stage) (items : List String) :
    (items.foldl gatherFirst stages).flatMap names = stages.flatMap names := by
  induction items generalizing stages with
  | nil => rfl
  | cons item items ih => rw [List.foldl_cons, ih, flatMap_gatherFirst (hn item)]

end GatherFirst

theorem forall_or_first {α : Type} (p : α → Prop) (as : List α) :
    (∀ a ∈ as, p a) ∨ ∃ pre a post, as = pre ++ a :: post ∧ (∀ b ∈ pre, p b) ∧ ¬ p a := by
  induction as with
  | nil => exact .inl nofun
  | cons a as ih =>
    by_cases ha : p a
    · rcases ih with h | ⟨pre, b, post, rfl, hpre, hb⟩
      · exact .inl (List.forall_mem_cons.mpr ⟨ha, h⟩)
      · exact .inr ⟨a :: pre, b, post, rfl, List.forall_mem_cons.mpr ⟨ha, hpre⟩, hb⟩
    · exact .inr ⟨[], a, as, rfl, nofun, ha⟩

namespace Flow

variable {f f' f'' : Flow} {item x : String} {items : List String}

/-- A group offers the item or it is declared. -/
def Finds (f : Flow) (item : String) : Prop :=
  item ∈ f.stages.flatMap Stage.offers ∨ f.declared.contains item

/-- A flow with items located: each is gathered by the first group that offers it,
and declared. -/
structure Located (f : Flow) (items : List String) (f' : Flow) : Prop where
  stages : f'.stages = items.foldl gatherFirst f.stages
  contains : ∀ x, f'.declared.contains x ↔ f.declared.contains x ∨ x ∈ items
  value? : ∀ x, f'.declared.value? x = f.declared.value? x

namespace Located

theorem nil (f : Flow) : f.Located [] f where
  stages := rfl
  contains := by simp
  value? _ := rfl

theorem cons (h : f.Located [item] f') (h' : f'.Located items f'') :
    f.Located (item :: items) f'' where
  stages := by rw [h'.stages, h.stages, List.foldl_cons, List.foldl_cons, List.foldl_nil]
  contains x := by
    rw [h'.contains, h.contains, List.mem_singleton, List.mem_cons, or_assoc]
  value? x := (h'.value? x).trans (h.value? x)

theorem flatMap_eq (h : f.Located items f') {β : Type} {names : Stage → List β}
    (hn : ∀ (item : String) (stage : Stage), names (stage.gather item) = names stage) :
    f'.stages.flatMap names = f.stages.flatMap names := by
  rw [h.stages, flatMap_gatherAll hn]

theorem offers_eq (h : f.Located items f') :
    f'.stages.flatMap Stage.offers = f.stages.flatMap Stage.offers :=
  h.flatMap_eq fun _ _ => Stage.offers_gather

theorem finds_iff (h : f.Located [item] f') (hi : f.Finds item) : f'.Finds x ↔ f.Finds x := by
  unfold Finds
  rw [h.offers_eq, h.contains, List.mem_singleton]
  constructor
  · rintro (ho | hc | rfl)
    · exact .inl ho
    · exact .inr hc
    · exact hi
  · exact Or.imp_right .inl

end Located

end Flow

namespace Draft

variable {d d' : Draft} {item step : String} {items : List String}

/-- What is linked so far. -/
def flow (d : Draft) : Flow := ⟨d.stages, d.declared⟩

theorem locate_found (h : d.flow.Finds item) (step : String) :
    ∃ d', d.locate item step = (d', .ok ()) ∧ d.flow.Located [item] d'.flow ∧
      d'.current = d.current := by
  rcases d.locate_cases item step with ⟨front, g, back, noted, hs, hi, hf, he⟩ | ⟨hn, he⟩
  · have hf' : ∀ stage ∈ front, item ∉ stage.offers := fun stage hm ho =>
      absurd (Stage.provides_iff.mpr ho) (by rw [hf stage hm]; exact Bool.false_ne_true)
    refine ⟨_, he, ⟨?_, fun x => ?_, fun x => Environment.value?_declare _ _ _⟩, rfl⟩
    · change _ = gatherFirst d.stages item
      rw [hs, gatherFirst_append (.group g) hf' hi]
      rfl
    · change (d.declared.declare item).contains x ↔ d.declared.contains x ∨ x ∈ [item]
      rw [Environment.contains_declare, List.mem_singleton, @eq_comm _ x]
      exact or_comm
  · have hn' : ∀ stage ∈ d.stages, item ∉ stage.offers := fun stage hm ho =>
      absurd (Stage.provides_iff.mpr ho) (by rw [hn stage hm]; exact Bool.false_ne_true)
    have hc : d.declared.contains item := by
      refine h.resolve_left fun ho => ?_
      obtain ⟨stage, hm, ho⟩ := List.mem_flatMap.mp ho
      exact hn' stage hm ho
    rw [if_pos hc] at he
    refine ⟨d, he, ⟨(gatherFirst_of_notMem hn').symm, fun x => ?_, fun _ => rfl⟩, rfl⟩
    rw [List.mem_singleton]
    exact ⟨.inl, fun hx => hx.elim id fun he => he ▸ hc⟩

theorem locate_missing (h : ¬ d.flow.Finds item) (step : String) :
    d.locate item step = (d, .error ⟨item, step⟩) := by
  obtain ⟨ho, hc⟩ := not_or.mp h
  rcases d.locate_cases item step with ⟨front, g, back, noted, hs, hi, hf, he⟩ | ⟨hn, he⟩
  · refine absurd (List.mem_flatMap.mpr ⟨.group g, ?_, hi⟩) ho
    change Stage.group g ∈ d.stages
    rw [hs]
    exact List.mem_append_right front List.mem_cons_self
  · rw [he]
    exact congrArg (Prod.mk d) (if_neg hc)

theorem locateAll_found (h : ∀ x ∈ items, d.flow.Finds x) (step : String) :
    ∃ d', d.locateAll step items = (d', .ok ()) ∧ d.flow.Located items d'.flow ∧
      d'.current = d.current := by
  induction items generalizing d with
  | nil => exact ⟨d, rfl, .nil _, rfl⟩
  | cons item items ih =>
    obtain ⟨hi, h⟩ := List.forall_mem_cons.mp h
    obtain ⟨d₁, he, hl, hc⟩ := d.locate_found hi step
    obtain ⟨d₂, he', hl', hc'⟩ := ih (d := d₁) fun x hx => (hl.finds_iff hi).mpr (h x hx)
    refine ⟨d₂, ?_, hl.cons hl', hc'.trans hc⟩
    rw [locateAll, he]
    exact he'

/-- Items are located up to the first one that is missing. -/
theorem locateAll_missing {pre : List String} (h : ∀ x ∈ pre, d.flow.Finds x)
    (hi : ¬ d.flow.Finds item) (step : String) (post : List String) :
    ∃ d', d.locateAll step pre = (d', .ok ()) ∧
      d.locateAll step (pre ++ item :: post) = (d', .error ⟨item, step⟩) := by
  induction pre generalizing d with
  | nil =>
    refine ⟨d, rfl, ?_⟩
    rw [List.nil_append, locateAll, locate_missing hi]
  | cons other pre ih =>
    obtain ⟨ho, h⟩ := List.forall_mem_cons.mp h
    obtain ⟨d₁, he, hl, -⟩ := d.locate_found ho step
    obtain ⟨d₂, hpre, hall⟩ := ih (d := d₁) (fun x hx => (hl.finds_iff ho).mpr (h x hx))
      (mt (hl.finds_iff ho).mp hi)
    refine ⟨d₂, ?_, ?_⟩
    · rw [locateAll, he]
      exact hpre
    · rw [List.cons_append, locateAll, he]
      exact hall

theorem locateAll_eq_ok (h : d.locateAll step items = (d', .ok ())) :
    d.flow.Located items d'.flow ∧ d'.current = d.current := by
  rcases forall_or_first d.flow.Finds items with hf | ⟨pre, x, post, rfl, hpre, hx⟩
  · obtain ⟨d₁, he, hl, hc⟩ := locateAll_found hf step
    cases h.symm.trans he
    exact ⟨hl, hc⟩
  · obtain ⟨d₁, -, he⟩ := locateAll_missing hpre hx step post
    cases h.symm.trans he

end Draft

namespace Flow

def addGroup (f : Flow) (o : GroupDraft) : Flow where
  stages := f.stages ++ .group o.group :: o.combines.map .combine
  declared := o.combines.foldl Draft.declareCombine f.declared

def addSerial (f : Flow) (s : Serial) : Flow where
  stages := f.stages ++ [.serial s]
  declared := f.declared.declareAll s.outputs

/-- A flow comes to another by linking groups, which gather their keys at first, and serial steps
behind its stages. -/
inductive LinksTo (f : Flow) : Flow → Prop
  | refl : f.LinksTo f
  | group {f₁ f₂ : Flow} {o : GroupDraft} (hf : f.LinksTo f₁)
      (hl : f₁.Located o.group.requests f₂)
      (hk : ∀ x, x ∈ o.group.gathered ↔ x ∈ o.group.partials) : f.LinksTo (f₂.addGroup o)
  | serial {f₁ f₂ : Flow} {s : Serial} (hf : f.LinksTo f₁) (hl : f₁.Located s.inputs f₂) :
      f.LinksTo (f₂.addSerial s)

theorem LinksTo.trans {f f' f'' : Flow} (h : f.LinksTo f') (h' : f'.LinksTo f'') :
    f.LinksTo f'' := by
  induction h' with
  | refl => exact h
  | group _ hl hk ih => exact .group ih hl hk
  | serial _ hl ih => exact .serial ih hl

end Flow

theorem Group.gathered_withMember {g : Group} (h : ∀ x, x ∈ g.gathered ↔ x ∈ g.partials)
    (m : Member) (x : String) : x ∈ (g.withMember m).gathered ↔ x ∈ (g.withMember m).partials := by
  cases m with
  | task name inputs outputs operation =>
    have hp : (g.withMember (.task name inputs outputs operation)).partials = g.partials :=
      (List.filterMap_append ..).trans (List.append_nil _)
    rw [hp]
    exact h x
  | fold name item key reduction =>
    have hp : (g.withMember (.fold name item key reduction)).partials = g.partials ++ [key] := by
      change (((g.gather key).members ++ _).filterMap Member.partials?) = _
      rw [gather_members, List.filterMap_append]
      rfl
    rw [hp, List.mem_append, List.mem_singleton, ← h x]
    exact mem_gathered_gather

namespace Draft

variable {d d' : Draft}

/-- The open group gathers only what its folds leave. -/
def OpenKeys (d : Draft) : Prop :=
  ∀ o, d.current = some o → ∀ x, x ∈ o.group.gathered ↔ x ∈ o.group.partials

theorem OpenKeys.groupDraft (h : d.OpenKeys) (x : String) :
    x ∈ d.groupDraft.group.gathered ↔ x ∈ d.groupDraft.group.partials := by
  unfold Draft.groupDraft
  cases hc : d.current with
  | none => exact Iff.rfl
  | some o => exact h o hc x

theorem closeGroup_eq_ok (h : d.closeGroup = (d', .ok ())) :
    (d.current = none ∧ d' = d) ∨ ∃ o f, d.current = some o ∧
      d.flow.Located o.group.requests f ∧ d'.flow = f.addGroup o ∧ d'.current = none := by
  unfold closeGroup at h
  cases hc : d.current with
  | none =>
    rw [hc] at h
    cases h
    exact .inl ⟨rfl, rfl⟩
  | some o =>
    simp only [hc] at h
    cases hd : { d with current := none }.locateAll o.group.name o.group.requests with
    | mk d₁ result =>
      rw [hd] at h
      cases result with
      | error fault => cases h
      | ok =>
        obtain ⟨hl, hn⟩ := locateAll_eq_ok hd
        cases h
        exact .inr ⟨o, d₁.flow, rfl, hl, rfl, hn⟩

theorem addSerial_eq_ok {s : Serial} (h : d.addSerial s = (d', .ok ())) :
    ∃ d₁ f, d.closeGroup = (d₁, .ok ()) ∧ d₁.flow.Located s.inputs f ∧ d'.flow = f.addSerial s ∧
      d'.current = d₁.current := by
  unfold addSerial at h
  cases hc : d.closeGroup with
  | mk d₁ result =>
    rw [hc] at h
    cases result with
    | error fault => cases h
    | ok =>
      dsimp only at h
      cases hd : d₁.locateAll s.name s.inputs with
      | mk d₂ result =>
        rw [hd] at h
        cases result with
        | error fault => cases h
        | ok =>
          obtain ⟨hl, hcur⟩ := locateAll_eq_ok hd
          cases h
          exact ⟨d₁, d₂.flow, rfl, hl, rfl, hcur⟩

theorem addStep_serial (d : Draft) {s : Step} {operation : Operation} (hk : s.kind = .serial)
    (hb : s.body = .task operation) :
    d.addStep s = d.addSerial ⟨s.name, s.inputs, s.outputs, operation⟩ := by
  simp only [addStep, hb, if_pos hk]

theorem addMember_flow (d : Draft) (m : Member) : (d.addMember m).1.flow = d.flow := rfl

theorem OpenKeys.addMember (h : d.OpenKeys) {m : Member} : (d.addMember m).1.OpenKeys := by
  intro o ho
  rw [addMember_eq] at ho
  cases ho
  obtain ⟨more, -, ⟨fault, he⟩ | ⟨-, he⟩⟩ := d.groupDraft.group.add_cases d.declared m
  · rw [he]
    exact h.groupDraft
  · rw [he]
    exact Group.gathered_withMember
      (g := { d.groupDraft.group with requests := d.groupDraft.group.requests ++ more })
      h.groupDraft m

/-- A combine with a key that no fold of the group has. -/
def keyed (g : Group) (c : Combine) : Combine :=
  { c with partials := freePartials g c }

theorem addReducer_cases (d : Draft) (c : Combine) :
    (∃ d₁ fault, d.addMember (keyed d.groupDraft.group c).member = (d₁, .error fault) ∧
        d.addReducer c = (d₁, .error fault)) ∨
      ∃ d₁, d.addMember (keyed d.groupDraft.group c).member = (d₁, .ok ()) ∧
        d.addReducer c = ({ d₁ with current := some { d₁.groupDraft with
          combines := d₁.groupDraft.combines ++ [keyed d.groupDraft.group c] } }, .ok ()) := by
  cases ha : d.addMember (keyed d.groupDraft.group c).member with
  | mk d₁ result =>
    have hr : d.addMember (.fold c.name c.item (freePartials d.groupDraft.group c) c.reduction)
        = (d₁, result) := ha
    unfold addReducer
    cases result with
    | error fault => exact .inl ⟨d₁, fault, rfl, by simp only [hr]⟩
    | ok => exact .inr ⟨d₁, rfl, by simp only [hr]; rfl⟩

theorem addReducer_flow (d : Draft) (c : Combine) : (d.addReducer c).1.flow = d.flow := by
  have hf := d.addMember_flow (keyed d.groupDraft.group c).member
  rcases d.addReducer_cases c with ⟨d₁, fault, ha, he⟩ | ⟨d₁, ha, he⟩
  · rw [ha] at hf
    rw [he]
    exact hf
  · rw [ha] at hf
    rw [he]
    exact hf

theorem OpenKeys.addReducer (h : d.OpenKeys) {c : Combine} :
    (d.addReducer c).1.OpenKeys ∧ (d.addReducer c).1.flow = d.flow := by
  refine ⟨?_, d.addReducer_flow c⟩
  have hm : (d.addMember (keyed d.groupDraft.group c).member).1.OpenKeys := h.addMember
  rcases d.addReducer_cases c with ⟨d₁, fault, ha, he⟩ | ⟨d₁, ha, he⟩
  · rw [ha] at hm
    rw [he]
    exact hm
  · rw [ha] at hm
    rw [he]
    intro o ho
    cases ho
    exact hm.groupDraft

theorem closeGroup_links (h : d.OpenKeys) (hc : d.closeGroup = (d', .ok ())) :
    d.flow.LinksTo d'.flow ∧ d'.current = none := by
  rcases closeGroup_eq_ok hc with ⟨hn, rfl⟩ | ⟨o, f, ho, hl, hf, hn⟩
  · exact ⟨.refl, hn⟩
  · rw [hf]
    exact ⟨.group .refl hl (h o ho), hn⟩

theorem openKeys_of_none (h : d.current = none) : d.OpenKeys := by
  intro o ho
  rw [h] at ho
  cases ho

theorem addStep_links (h : d.OpenKeys) {s : Step} (ha : d.addStep s = (d', .ok ())) :
    d.flow.LinksTo d'.flow ∧ d'.OpenKeys := by
  unfold addStep at ha
  cases hb : s.body with
  | fold reduction =>
    simp only [hb] at ha
    obtain ⟨ho, hf⟩ := h.addReducer (c := ⟨s.name, s.inputs.head?.getD "",
      s.inputs.head?.getD "", s.outputs.head?.getD "", reduction⟩)
    rw [ha] at ho hf
    exact ⟨hf ▸ .refl, ho⟩
  | task operation =>
    simp only [hb] at ha
    by_cases hk : s.kind = .serial
    · rw [if_pos hk] at ha
      obtain ⟨d₁, f, hc, hl, hf, hcur⟩ := addSerial_eq_ok ha
      obtain ⟨hlinks, hn⟩ := closeGroup_links h hc
      exact ⟨hf ▸ .serial hlinks hl, openKeys_of_none (hcur.trans hn)⟩
    · rw [if_neg hk] at ha
      have ho : (d.addMember (.task s.name s.inputs s.outputs operation)).1.OpenKeys := h.addMember
      have hf := d.addMember_flow (.task s.name s.inputs s.outputs operation)
      rw [ha] at ho hf
      exact ⟨hf ▸ .refl, ho⟩

theorem addLines_links (h : d.OpenKeys) {r : Repertoire} {line : Nat} {lines : List String}
    (ha : d.addLines r line lines = (d', .ok ())) : d.flow.LinksTo d'.flow ∧ d'.OpenKeys := by
  induction lines generalizing d line with
  | nil =>
    cases ha
    exact ⟨.refl, h⟩
  | cons text lines ih =>
    obtain ⟨next, hn, hr⟩ := addLines_cons_eq_ok ha
    have hnext : d.flow.LinksTo next.flow ∧ next.OpenKeys := by
      obtain ⟨-, ⟨-, rfl⟩ | ⟨s, -, hs⟩⟩ := addLine_eq_ok hn
      · exact ⟨.refl, h⟩
      · exact addStep_links (d := { d with line := line }) h hs
    obtain ⟨hl, ho⟩ := ih hnext.2 hr
    exact ⟨hnext.1.trans hl, ho⟩

theorem complete_of_closeGroup {closed : Draft} (h : d.closeGroup = (closed, .ok ())) :
    d.complete = (closed, .ok closed.flow) := by
  rw [complete, h]
  rfl

theorem complete_eq_ok {f : Flow} (h : d.complete.2 = .ok f) :
    ∃ d', d.closeGroup = (d', .ok ()) ∧ f = d'.flow := by
  unfold complete at h
  cases hc : d.closeGroup with
  | mk d' result =>
    rw [hc] at h
    cases result with
    | error fault => cases h
    | ok =>
      cases h
      exact ⟨d', rfl, rfl⟩

end Draft

def Flow.empty : Flow := ⟨[], .empty⟩

theorem Flow.ofLines_eq_ok {r : Repertoire} {lines : List String} {f : Flow}
    (h : Flow.ofLines r lines = .ok f) :
    ∃ d d', Draft.empty.addLines r 1 lines = (d, .ok ()) ∧ d.closeGroup = (d', .ok ()) ∧
      f = d'.flow := by
  unfold Flow.ofLines Draft.ofLines at h
  cases ha : Draft.empty.addLines r 1 lines with
  | mk d result =>
    rw [ha] at h
    cases result with
    | error fault => cases h
    | ok =>
      obtain ⟨d', hc, hf⟩ := Draft.complete_eq_ok h
      exact ⟨d, d', rfl, hc, hf⟩

theorem Flow.ofLines_of_closeGroup {r : Repertoire} {lines : List String} {d d' : Draft}
    (ha : Draft.empty.addLines r 1 lines = (d, .ok ())) (hc : d.closeGroup = (d', .ok ())) :
    Flow.ofLines r lines = .ok d'.flow := by
  rw [Flow.ofLines, Draft.ofLines, ha]
  exact congrArg Prod.snd (Draft.complete_of_closeGroup hc)

/-- The flow of a script comes of the empty one by linking. -/
theorem Flow.links_of_lines {r : Repertoire} {lines : List String} {f : Flow}
    (h : Flow.ofLines r lines = .ok f) : Flow.empty.LinksTo f := by
  obtain ⟨d, d', ha, hc, rfl⟩ := Flow.ofLines_eq_ok h
  obtain ⟨hl, ho⟩ := Draft.addLines_links (Draft.openKeys_of_none rfl) ha
  exact hl.trans (Draft.closeGroup_links ho hc).1

end DirectiveFlow
