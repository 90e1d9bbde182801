import DirectiveFlow.Proofs.Availability
import DirectiveFlow.Proofs.InPlace
import DirectiveFlow.Proofs.Resolution

namespace DirectiveFlow

namespace Locals

/-- The values under names, in the order of the names; the fault is about the
first without one. -/
def readAll (values : Locals) (step : String) : List String → Except RunFault (List Value)
  | [] => .ok []
  | item :: rest =>
    match values[item]? with
    | none => .error (.noValue item step)
    | some value => (values.readAll step rest).map (value :: ·)

/-- Puts one value under each name. Nothing comes of it unless there are as many
values as names. -/
def putEach (values : Locals) : List String → List Value → Option Locals
  | [], [] => some values
  | name :: names, value :: rest => putEach (values.insert name value) names rest
  | _, _ => none

/-- Stores the result of a step: nowhere for no output, whole under a single one, and under
several the items of a list, one under each. -/
def store (values : Locals) (step : String) (outputs : List String) (result : Value) :
    Except RunFault Locals :=
  match outputs, result with
  | [], _ => .ok values
  | [single], _ => .ok (values.insert single result)
  | several, .list items =>
    match values.putEach several items with
    | some after => .ok after
    | none => .error (.resultCount step several.length items.length)
  | several, _ => .error (.resultCount step several.length 1)

end Locals

/-- A task applied to a map of values by name: it reads its inputs there and
stores its result. -/
def Step.evaluate (s : Step) (values : Locals) : Except RunFault Locals :=
  match s.body with
  | .task operation => do
    let inputs ← values.readAll s.name s.inputs
    match (operation.act inputs).ending with
    | .done result => values.store s.name s.outputs result
    | .failed cause => .error (.failed s.name cause)
    | .crashed => .error (.crashed s.name)
  | .fold _ => .ok values

/-- Nothing goes wrong when the step is prepared. -/
def Step.isReady (s : Step) : Bool :=
  match s.body with
  | .task operation =>
    match operation.prepare.ending with
    | .done () => true
    | _ => false
  | .fold _ => true

def Step.stage? (s : Step) : Option Stage :=
  match s.body with
  | .task operation => some (.serial ⟨s.name, s.inputs, s.outputs, operation⟩)
  | .fold _ => none

namespace Repertoire

/-- What is wrong with a line behind lines that output some names: it cannot be read, its step
cannot be called, or the step reads a name that is none of them. -/
def lineFault? (r : Repertoire) (given : List String) (line : Nat) (text : String) :
    Option FlowFault :=
  match Directive.ofLine text with
  | .error cause => some (.badSyntax line cause)
  | .ok directive =>
    if directive.name = "" then none
    else match r.call directive with
      | .error cause => some (.badCall line cause)
      | .ok s =>
        (s.inputs.find? fun item => item ∉ given).map fun item => .outOfScope line ⟨item, s.name⟩

/-- What is wrong with the first line that has a fault. Lines are numbered from `line` on. -/
def firstFault? (r : Repertoire) (given : List String) (line : Nat) :
    List String → Option FlowFault
  | [] => none
  | text :: rest =>
    match r.lineFault? given line text with
    | some fault => some fault
    | none =>
      r.firstFault? (given ++ (r.step? text).toList.flatMap Step.outputs) (line + 1) rest

/-- Evaluates the lines of a script one by one on a map of values by name. -/
def evaluate (r : Repertoire) (values : Locals) : List String → Except RunFault Locals
  | [] => .ok values
  | text :: rest =>
    match r.step? text with
    | none => r.evaluate values rest
    | some s => do
      let values ← s.evaluate values
      r.evaluate values rest

end Repertoire

/-- The environment of a map of values, in which no name is without a value. -/
def Environment.ofValues (values : Locals) : Environment :=
  ⟨values.map fun _ value => some value⟩

namespace Environment

variable {env : Environment} {values : Locals} {results : List (String × Value)}

theorem value?_ofValues (values : Locals) (x : String) :
    (ofValues values).value? x = values[x]? := by
  unfold ofValues value?
  rw [Std.ExtTreeMap.getElem?_map]
  cases values[x]? with
  | none => rfl
  | some value => rfl

theorem contains_ofValues (values : Locals) (x : String) :
    (ofValues values).contains x = (values[x]?).isSome := by
  unfold ofValues contains
  rw [Std.ExtTreeMap.contains_map, Std.ExtTreeMap.contains_eq_isSome_getElem?]

/-- An environment holds what a map of values does. -/
def Holds (env : Environment) (values : Locals) : Prop :=
  ∀ x, env.value? x = values[x]?

theorem Holds.valueFor (h : env.Holds values) (step item : String) :
    env.valueFor step item = values.valueFor step item := by
  unfold Environment.valueFor Locals.valueFor
  cases hv : values[item]? with
  | none => simp only [h item, hv]
  | some value => simp only [h item, hv]

theorem Holds.setAll (h : env.Holds values) :
    (env.setAll results).Holds (values.setAll results) := by
  induction results generalizing env values with
  | nil => exact h
  | cons result results ih =>
    apply ih
    intro x
    rw [value?_set, Std.ExtTreeMap.getElem?_insert, h x]
    simp only [Std.compare_eq_iff_eq]

end Environment

namespace Locals

variable (values : Locals) (step : String)

theorem readAll_eq (items : List String) :
    values.readAll step items = items.mapM (values.valueFor step) := by
  induction items with
  | nil => rfl
  | cons item rest ih =>
    rw [readAll, List.mapM_cons, valueFor, ih]
    cases values[item]? with
    | none => rfl
    | some value =>
      cases rest.mapM (values.valueFor step) with
      | error fault => rfl
      | ok others => rfl

theorem putEach_eq (names : List String) (items : List Value) :
    values.putEach names items =
      if items.length = names.length then some (values.setAll (names.zip items)) else none := by
  induction names generalizing values items with
  | nil =>
    cases items with
    | nil => rfl
    | cons value rest => rfl
  | cons name names ih =>
    cases items with
    | nil => rfl
    | cons value rest =>
      rw [putEach, ih]
      simp only [List.length_cons, Nat.succ_inj]
      rfl

/-- The results that a run names are stored as they are stored one by one. -/
theorem store_eq (outputs : List String) (result : Value) :
    values.store step outputs result = (namedResults step outputs result).map values.setAll := by
  match outputs with
  | [] => rfl
  | [single] => rfl
  | first :: second :: more =>
    cases result with
    | list items =>
      simp only [store, namedResults, Value.list?, putEach_eq]
      by_cases hl : items.length = (first :: second :: more).length
      · simp only [if_pos hl]
        rfl
      · simp only [if_neg hl]
        rfl
    | _ => rfl

-- a list of two values is split between two names and is too short for three
example : (store ∅ "halve" ["low", "high"] (.list [.int 1, .int 2])).map (·.toList) =
    .ok [("high", .int 2), ("low", .int 1)] := rfl

example : store ∅ "halve" ["low", "middle", "high"] (.list [.int 1, .int 2]) =
    .error (.resultCount "halve" 3 2) := rfl

end Locals

theorem Step.evaluate_task {s : Step} {operation : Operation} (hb : s.body = .task operation)
    (values : Locals) :
    s.evaluate values = (Member.task s.name s.inputs s.outputs operation).pass values := by
  simp only [evaluate, hb, Member.pass, Locals.readAll_eq, Locals.store_eq]
  cases s.inputs.mapM (values.valueFor s.name) with
  | error fault => rfl
  | ok inputs =>
    simp only [ok_bind, Run.ofReply]
    cases (operation.act inputs).ending with
    | failed cause => rfl
    | crashed => rfl
    | done result =>
      simp only [ok_bind]
      cases namedResults s.name s.outputs result with
      | error fault => rfl
      | ok results => rfl

theorem Step.mem_evaluate {s : Step} {values after : Locals} {x : String}
    (h : s.evaluate values = .ok after) {operation : Operation} (hb : s.body = .task operation)
    (hx : x ∈ s.outputs ∨ x ∈ values) : x ∈ after := by
  rw [evaluate_task hb] at h
  exact Member.mem_pass h hx

/-- A serial stage does to an environment what its step does to the values that it holds. -/
theorem Step.run_stage {s : Step} {operation : Operation} (hb : s.body = .task operation)
    {env : Environment} {values : Locals} (h : env.Holds values) (settings : Settings) :
    match s.evaluate values with
    | .ok after => ∃ env', ((Stage.serial ⟨s.name, s.inputs, s.outputs, operation⟩).run settings
        env).result = .ok env' ∧ env'.Holds after
    | .error fault => ((Stage.serial ⟨s.name, s.inputs, s.outputs, operation⟩).run settings
        env).result = .error fault := by
  have hm : s.inputs.mapM (env.valueFor s.name) = s.inputs.mapM (values.valueFor s.name) :=
    mapM_congr fun x _ => h.valueFor s.name x
  rw [evaluate_task hb]
  simp only [Member.pass, Stage.run, Serial.run, Run.result_bind, Run.result_ofExcept, hm]
  cases s.inputs.mapM (values.valueFor s.name) with
  | error fault => rfl
  | ok inputs =>
    simp only [ok_bind]
    cases (Run.ofReply s.name (operation.act inputs)).result with
    | error fault => rfl
    | ok result =>
      simp only [ok_bind]
      cases namedResults s.name s.outputs result with
      | error fault => rfl
      | ok results => exact ⟨_, rfl, h.setAll⟩

namespace Stage

variable {settings : Settings} {env after : Environment} {stages : List Stage} {x : String}

theorem of_stage? {s : Step} {stage : Stage} (h : s.stage? = some stage) :
    ∃ operation, s.body = .task operation ∧
      stage = .serial ⟨s.name, s.inputs, s.outputs, operation⟩ := by
  unfold Step.stage? at h
  cases hb : s.body with
  | task operation =>
    rw [hb] at h
    cases h
    exact ⟨operation, rfl, rfl⟩
  | fold reduction =>
    rw [hb] at h
    cases h

theorem contains_runStages (h : (runStages settings env stages).result = .ok after)
    (hx : after.contains x) : x ∈ stages.flatMap outputs ∨ env.contains x := by
  induction stages generalizing env with
  | nil =>
    cases h
    exact .inr hx
  | cons stage rest ih =>
    obtain ⟨mid, hs, hr⟩ := runStages_cons_eq_ok.mp h
    rw [List.flatMap_cons, List.mem_append]
    rcases ih hr with ho | hm
    · exact .inl (.inr ho)
    · by_cases ho : x ∈ stage.outputs
      · exact .inl (.inl ho)
      · by_cases hd : x ∈ stage.drops
        · exact absurd hm (not_contains_drops hs ho hd)
        · exact .inr ((run_frame hs ho hd).2.mp hm)

end Stage

namespace Repertoire

variable {r : Repertoire} {lines : List String} {values : Locals}

def stages (r : Repertoire) (lines : List String) : List Stage :=
  (r.steps lines).filterMap Step.stage?

theorem evaluate_cons_of_none {text : String} (hs : r.step? text = none) (values : Locals)
    (rest : List String) : r.evaluate values (text :: rest) = r.evaluate values rest := by
  rw [evaluate, hs]

theorem evaluate_cons_of_some {text : String} {s : Step} (hs : r.step? text = some s)
    (values : Locals) (rest : List String) :
    r.evaluate values (text :: rest) = (do
      let after ← s.evaluate values
      r.evaluate after rest) := by
  rw [evaluate, hs]

/-- Running the stages of serial steps gives what evaluating their lines gives. -/
theorem run_stages (hk : ∀ s ∈ r.steps lines, s.kind = .serial) {env : Environment}
    (h : env.Holds values) (settings : Settings) :
    match r.evaluate values lines with
    | .ok after => ∃ env', (runStages settings env (r.stages lines)).result = .ok env' ∧
        env'.Holds after
    | .error fault =>
        (runStages settings env (r.stages lines)).result = .error (.run fault) := by
  induction lines generalizing env values with
  | nil => exact ⟨env, rfl, h⟩
  | cons text rest ih =>
    cases hs : r.step? text with
    | none =>
      have hsteps : r.steps (text :: rest) = r.steps rest := List.filterMap_cons_none hs
      rw [hsteps] at hk
      rw [evaluate_cons_of_none hs, stages, hsteps]
      exact ih hk h
    | some s =>
      have hsteps : r.steps (text :: rest) = s :: r.steps rest := List.filterMap_cons_some hs
      rw [hsteps] at hk
      obtain ⟨hserial, hk⟩ := List.forall_mem_cons.mp hk
      obtain ⟨operation, hb⟩ := (fits_of_step? hs).task (by simp [hserial])
      have hstage : r.stages (text :: rest) =
          .serial ⟨s.name, s.inputs, s.outputs, operation⟩ :: r.stages rest := by
        rw [stages, hsteps]
        exact List.filterMap_cons_some (by rw [Step.stage?, hb])
      have hrun := Step.run_stage hb h settings
      rw [evaluate_cons_of_some hs, hstage, runStages_cons]
      cases he : s.evaluate values with
      | error fault =>
        rw [he] at hrun
        simp only [hrun, error_bind, mapError_error]
      | ok mid =>
        rw [he] at hrun
        obtain ⟨env', hr, hmid⟩ := hrun
        simp only [hr, ok_bind, mapError_ok]
        exact ih hk hmid

variable {given : List String} {line : Nat} {text : String} {s : Step}

theorem lineFault?_of_some (hs : r.step? text = some s) :
    r.lineFault? given line text =
      (s.inputs.find? fun item => item ∉ given).map
        fun item => .outOfScope line ⟨item, s.name⟩ := by
  obtain ⟨directive, hd, hn, hc⟩ := step?_eq_some hs
  rw [lineFault?, hd]
  simp only [if_neg hn, hc]

theorem lineFault?_of_none (hs : r.step? text = none) (given : List String) (line : Nat)
    (d : Draft) :
    d.addLine r line text = ({ d with line := line },
      match r.lineFault? given line text with
      | some fault => .error fault
      | none => .ok ()) := by
  rw [lineFault?, Draft.addLine]
  rcases step?_eq_none hs with ⟨cause, hd⟩ | ⟨directive, hd, hn | ⟨hn, cause, hc⟩⟩
  · simp only [hd]
  · simp only [hd, if_pos hn]
  · simp only [hd, if_neg hn, hc]

theorem firstFault?_cons_none (h : r.firstFault? given line (text :: lines) = none) :
    r.lineFault? given line text = none ∧
      r.firstFault? (given ++ (r.step? text).toList.flatMap Step.outputs) (line + 1) lines =
        none := by
  rw [firstFault?] at h
  cases hf : r.lineFault? given line text with
  | none =>
    rw [hf] at h
    exact ⟨rfl, h⟩
  | some fault =>
    rw [hf] at h
    cases h

theorem inputs_given (hs : r.step? text = some s) (h : r.lineFault? given line text = none) :
    ∀ x ∈ s.inputs, x ∈ given := by
  rw [lineFault?_of_some hs, Option.map_eq_none_iff, List.find?_eq_none] at h
  intro x hx
  simpa using h x hx

theorem evaluate_resolves (hk : ∀ s ∈ r.steps lines, s.kind = .serial)
    (hf : r.firstFault? given line lines = none) (values : Locals) (hg : ∀ x ∈ given, x ∈ values) :
    Ends RunFault.Resolved (fun _ => True) (r.evaluate values lines) := by
  induction lines generalizing given line values with
  | nil => trivial
  | cons text rest ih =>
    obtain ⟨hline, hrest⟩ := firstFault?_cons_none hf
    cases hs : r.step? text with
    | none =>
      rw [hs, Option.toList_none, List.flatMap_nil, List.append_nil] at hrest
      rw [steps, List.filterMap_cons_none hs] at hk
      rw [evaluate_cons_of_none hs]
      exact ih hk hrest values hg
    | some s =>
      rw [hs, Option.toList_some, List.flatMap_singleton] at hrest
      rw [steps, List.filterMap_cons_some hs] at hk
      obtain ⟨hserial, hk⟩ := List.forall_mem_cons.mp hk
      obtain ⟨operation, hb⟩ := (fits_of_step? hs).task (by simp [hserial])
      have hstep : Ends RunFault.Resolved (fun _ => True) (s.evaluate values) := by
        rw [Step.evaluate_task hb]
        exact Member.ends_pass
          (fun x hx => Locals.ends_valueFor (hg x (inputs_given hs hline x hx)))
          (fun _ _ => trivial) (fun _ => trivial) (fun _ => trivial)
      rw [evaluate_cons_of_some hs]
      cases he : s.evaluate values with
      | error fault =>
        rw [he] at hstep
        exact hstep
      | ok mid =>
        apply ih hk hrest mid
        intro x hx
        apply Step.mem_evaluate he hb
        exact (List.mem_append.mp hx).symm.imp_right (hg x)

end Repertoire

end DirectiveFlow
