import DirectiveFlow.Proofs.Accepting
import DirectiveFlow.Proofs.Evaluation
import DirectiveFlow.Proofs.Extending
import DirectiveFlow.Proofs.Preparing

namespace DirectiveFlow

namespace Draft

/-- A draft of serial steps: no group is open or linked, and what is declared is what its
steps output. -/
structure Sequential (d : Draft) (given : List String) : Prop where
  current : d.current = none
  offers : ∀ stage ∈ d.stages, stage.offers = []
  declared : ∀ x, d.declared.contains x ↔ x ∈ given
  unset : ∀ x, d.declared.value? x = none

theorem gatherAll_of_offers {stages : List Stage} (h : ∀ stage ∈ stages, stage.offers = [])
    (items : List String) : items.foldl gatherFirst stages = stages := by
  induction items with
  | nil => rfl
  | cons item items ih =>
    have hn : ∀ stage ∈ stages, item ∉ stage.offers := fun stage hm => by
      rw [h stage hm]
      exact List.not_mem_nil
    rw [List.foldl_cons, gatherFirst_of_notMem hn]
    exact ih

namespace Sequential

variable {r : Repertoire} {d : Draft} {given : List String} {line : Nat} {text : String}
  {lines : List String} {s : Step}

theorem empty : Draft.empty.Sequential [] where
  current := rfl
  offers := nofun
  declared := by simp [Draft.empty]
  unset x := Environment.value?_empty x

theorem onLine (h : d.Sequential given) (n : Nat) : { d with line := n }.Sequential given where
  current := h.current
  offers := h.offers
  declared := h.declared
  unset := h.unset

theorem closeGroup (h : d.Sequential given) : d.closeGroup = (d, .ok ()) := by
  unfold Draft.closeGroup
  rw [h.current]

theorem finds_iff (h : d.Sequential given) (x : String) : d.flow.Finds x ↔ x ∈ given := by
  have ho : x ∉ d.flow.stages.flatMap Stage.offers := fun hx => by
    obtain ⟨stage, hm, hx⟩ := List.mem_flatMap.mp hx
    rw [h.offers stage hm] at hx
    cases hx
  exact (or_iff_right ho).trans (h.declared x)

theorem addSerial (h : d.Sequential given) {s : Serial} (hs : ∀ x ∈ s.inputs, x ∈ given) :
    ∃ d', d.addSerial s = (d', .ok ()) ∧ d'.Sequential (given ++ s.outputs) ∧
      d'.stages = d.stages ++ [.serial s] := by
  obtain ⟨d', f, ha, hl, hf, hc⟩ := addSerial_found h.closeGroup
    fun x hx => (h.finds_iff x).mpr (hs x hx)
  have hstages : f.stages = d.stages := hl.stages.trans (gatherAll_of_offers h.offers s.inputs)
  have hd : d'.stages = d.stages ++ [.serial s] :=
    (congrArg Flow.stages hf).trans (congrArg (· ++ [Stage.serial s]) hstages)
  have hdeclared : d'.declared = f.declared.declareAll s.outputs := congrArg Flow.declared hf
  refine ⟨d', ha, ⟨hc.trans h.current, ?_, fun x => ?_, fun x => ?_⟩, hd⟩
  · rw [hd]
    exact List.forall_mem_append.mpr ⟨h.offers, List.forall_mem_singleton.mpr rfl⟩
  · rw [hdeclared, Environment.contains_declareAll, hl.contains, List.mem_append, or_comm]
    have hgiven : d.flow.declared.contains x ∨ x ∈ s.inputs ↔ x ∈ given :=
      (or_iff_left_of_imp fun hx => (h.declared x).mpr (hs x hx)).trans (h.declared x)
    exact or_congr_left hgiven
  · rw [hdeclared, Environment.value?_declareAll, hl.value?]
    exact h.unset x

theorem addLine (h : d.Sequential given) (hk : ∀ s, r.step? text = some s → s.kind = .serial)
    (line : Nat) :
    match r.lineFault? given line text with
    | some fault => ∃ d', d.addLine r line text = (d', .error fault)
    | none => ∃ d', d.addLine r line text = (d', .ok ()) ∧
        d'.Sequential (given ++ (r.step? text).toList.flatMap Step.outputs) ∧
        d'.stages = d.stages ++ (r.step? text).toList.filterMap Step.stage? := by
  cases hs : r.step? text with
  | none =>
    have ha := Repertoire.lineFault?_of_none hs given line d
    cases hf : r.lineFault? given line text with
    | some fault =>
      rw [hf] at ha
      exact ⟨_, ha⟩
    | none =>
      rw [hf] at ha
      refine ⟨_, ha, ?_, (List.append_nil _).symm⟩
      rw [Option.toList_none, List.flatMap_nil, List.append_nil]
      exact h.onLine line
  | some s =>
    have hserial := hk s hs
    obtain ⟨operation, hb⟩ := (Repertoire.fits_of_step? hs).task (by simp [hserial])
    rw [Repertoire.lineFault?_of_some hs, addLine_call hs, addStep_serial _ hserial hb]
    cases hf : s.inputs.find? fun item => item ∉ given with
    | some item =>
      obtain ⟨hitem, pre, post, hi, hpre⟩ := List.find?_eq_some_iff_append.mp hf
      obtain ⟨d', -, ha⟩ := addSerial_missing (h.onLine line).closeGroup
        (s := ⟨s.name, s.inputs, s.outputs, operation⟩) hi
        (fun y hy => ((h.onLine line).finds_iff y).mpr (by simpa using hpre y hy))
        (mt ((h.onLine line).finds_iff item).mp (by simpa using hitem))
      rw [ha]
      exact ⟨d', rfl⟩
    | none =>
      have hgiven : ∀ x ∈ s.inputs, x ∈ given := by
        simpa using List.find?_eq_none.mp hf
      obtain ⟨d', ha, hd, hstages⟩ := (h.onLine line).addSerial
        (s := ⟨s.name, s.inputs, s.outputs, operation⟩) hgiven
      rw [ha]
      have hstage : s.stage? = some (.serial ⟨s.name, s.inputs, s.outputs, operation⟩) := by
        rw [Step.stage?, hb]
      rw [Option.toList_some, List.flatMap_singleton, List.filterMap_cons_some hstage]
      exact ⟨d', rfl, hd, hstages⟩

/-- Lines of serial steps are answered with their first fault, or all of them are linked. -/
theorem addLines (h : d.Sequential given) (hk : ∀ s ∈ r.steps lines, s.kind = .serial)
    (line : Nat) :
    match r.firstFault? given line lines with
    | some fault => ∃ d', d.addLines r line lines = (d', .error fault)
    | none => ∃ d', d.addLines r line lines = (d', .ok ()) ∧
        d'.Sequential (given ++ (r.steps lines).flatMap Step.outputs) ∧
        d'.stages = d.stages ++ r.stages lines := by
  induction lines generalizing d given line with
  | nil =>
    refine ⟨d, rfl, ?_, (List.append_nil _).symm⟩
    simpa [Repertoire.steps] using h
  | cons text rest ih =>
    have hsteps : r.steps (text :: rest) = (r.step? text).toList ++ r.steps rest := by
      cases hs : r.step? text with
      | none => exact List.filterMap_cons_none hs
      | some s => exact List.filterMap_cons_some hs
    rw [hsteps] at hk
    obtain ⟨hline, hk⟩ := List.forall_mem_append.mp hk
    have hcalled : ∀ s, r.step? text = some s → s.kind = .serial := by
      intro s hs
      exact hline s (Option.mem_toList.mpr hs)
    have ha := h.addLine hcalled line
    rw [Repertoire.firstFault?, Draft.addLines]
    cases hf : r.lineFault? given line text with
    | some fault =>
      rw [hf] at ha
      obtain ⟨d', ha⟩ := ha
      rw [ha]
      exact ⟨d', rfl⟩
    | none =>
      rw [hf] at ha
      obtain ⟨next, ha, hnext, hstages⟩ := ha
      rw [ha]
      have hrest := ih hnext hk (line + 1)
      have hall : next.stages ++ r.stages rest = d.stages ++ r.stages (text :: rest) := by
        rw [hstages, Repertoire.stages, Repertoire.stages, hsteps, List.filterMap_append,
          List.append_assoc]
      rw [hsteps, List.flatMap_append, ← List.append_assoc, ← hall]
      exact hrest

end Sequential

end Draft

section Serial

variable {r : Repertoire} {lines : List String}

theorem Repertoire.prepare_stages (hp : ∀ s ∈ r.steps lines, s.isReady) :
    (prepareAll ((r.stages lines).flatMap Stage.operations)).result = .ok () := by
  apply prepareAll_eq_ok.mpr
  intro entry he
  obtain ⟨stage, hm, he⟩ := List.mem_flatMap.mp he
  obtain ⟨s, hs, hstage⟩ := List.mem_filterMap.mp hm
  obtain ⟨operation, hb, rfl⟩ := Stage.of_stage? hstage
  cases List.mem_singleton.mp he
  have hready := hp s hs
  unfold Step.isReady at hready
  rw [hb] at hready
  cases hd : operation.prepare.ending with
  | done u => rfl
  | failed cause => simp [hd] at hready
  | crashed => simp [hd] at hready

variable (hk : ∀ s ∈ r.steps lines, s.kind = .serial)

include hk

theorem Repertoire.outputs_stages {x : String}
    (hx : x ∈ (r.steps lines).flatMap Step.outputs) :
    x ∈ (r.stages lines).flatMap Stage.outputs := by
  obtain ⟨s, hs, hx⟩ := List.mem_flatMap.mp hx
  obtain ⟨operation, hb⟩ := (fits_of_mem_steps hs).task (by simp [hk s hs])
  have hstage : s.stage? = some (.serial ⟨s.name, s.inputs, s.outputs, operation⟩) := by
    rw [Step.stage?, hb]
  exact List.mem_flatMap.mpr ⟨_, List.mem_filterMap.mpr ⟨s, hs, hstage⟩, hx⟩

/-- Behind a run of serial stages nothing is left without a value. -/
theorem Draft.Sequential.eq_ofValues {d : Draft} {env : Environment} {values : Locals}
    {settings : Settings} (hd : d.Sequential ((r.steps lines).flatMap Step.outputs))
    (hr : (runStages settings d.declared (r.stages lines)).result = .ok env)
    (hv : env.Holds values) : env = .ofValues values := by
  apply Environment.eq_of_values
  · intro x
    rw [Environment.contains_ofValues, ← hv x, Bool.eq_iff_iff]
    constructor
    · intro hx
      have hout : x ∈ (r.stages lines).flatMap Stage.outputs :=
        (Stage.contains_runStages hr hx).elim id
          fun hx => Repertoire.outputs_stages hk ((hd.declared x).mp hx)
      refine isSome_runStages hr (fun c hc => ?_) (.inl hout)
      obtain ⟨s, -, hstage⟩ := List.mem_filterMap.mp hc
      obtain ⟨operation, -, he⟩ := Stage.of_stage? hstage
      cases he
    · intro hx
      obtain ⟨value, hx⟩ := Option.isSome_iff_exists.mp hx
      exact Environment.contains_of_value? hx
  · intro x
    rw [Environment.value?_ofValues, hv x]

theorem Draft.Sequential.run {d : Draft} (hd : d.Sequential ((r.steps lines).flatMap Step.outputs))
    (hstages : d.stages = r.stages lines) (hp : ∀ s ∈ r.steps lines, s.isReady)
    (settings : Settings) : (d.flow.run settings).result =
      ((r.evaluate ∅ lines).map Environment.ofValues).mapError .run := by
  have hunset : d.declared.Holds ∅ := fun x => by
    rw [hd.unset, Std.ExtTreeMap.getElem?_empty]
  have hrun := Repertoire.run_stages hk hunset settings
  have hprepare : d.flow.prepare.result = .ok () := by
    unfold Flow.prepare
    rw [show d.flow.stages = r.stages lines from hstages]
    exact Repertoire.prepare_stages hp
  rw [Flow.run, Run.result_bind, hprepare, ok_bind]
  change (runStages settings d.declared d.stages).result = _
  rw [hstages]
  cases he : r.evaluate ∅ lines with
  | error fault =>
    rw [he] at hrun
    exact hrun
  | ok values =>
    rw [he] at hrun
    obtain ⟨env, hr, hv⟩ := hrun
    rw [hr, hd.eq_ofValues hk hr hv]
    rfl

end Serial

/-- A script of serial steps is refused for its first line with a fault. Without one its flow
runs, for all settings, to what evaluating its lines one by one from no values gives, and no
value that a step reads is missing. -/
theorem Flow.run_of_serial {r : Repertoire} {lines : List String}
    (hk : ∀ s ∈ r.steps lines, s.kind = .serial) (hp : ∀ s ∈ r.steps lines, s.isReady) :
    match r.firstFault? [] 1 lines with
    | some fault => Flow.ofLines r lines = .error fault
    | none => ∃ f, Flow.ofLines r lines = .ok f ∧
        (∀ settings, (f.run settings).result =
          ((r.evaluate ∅ lines).map Environment.ofValues).mapError .run) ∧
        ∀ item step, r.evaluate ∅ lines ≠ .error (.noValue item step) := by
  have ha := Draft.Sequential.empty.addLines hk 1
  cases hf : r.firstFault? [] 1 lines with
  | some fault =>
    rw [hf] at ha
    obtain ⟨d, ha⟩ := ha
    unfold Flow.ofLines Draft.ofLines
    rw [ha]
  | none =>
    rw [hf] at ha
    obtain ⟨d, ha, hd, hstages⟩ := ha
    refine ⟨d.flow, ?_, fun settings => hd.run hk hstages hp settings, fun item step he => ?_⟩
    · unfold Flow.ofLines Draft.ofLines
      rw [ha]
      dsimp only [Draft.complete]
      rw [hd.closeGroup]
      rfl
    · have hends := Repertoire.evaluate_resolves hk hf ∅ nofun
      rw [he] at hends
      exact hends

open Standard in
/-- A step type with two outputs: the integers below and above one. -/
def StepType.around : StepType where
  schema := (Schema.bare "around" .serial "Emit the integers below and above").input "item"
    |>.output "below" |>.output "above"
  build _ := .ok (.task (.pure fun inputs => do
    let item ← firstOf inputs
    return .list [← plus item (.int (-1)), ← plus item (.int 1)]))

/-- The value of "a" is overwritten three times, once as the second of two outputs and at last
from another name. -/
theorem Flow.run_of_serial_of_overwritten :
    let r := (Standard.repertoire.addAll [StepType.around]).repertoire
    let lines := ["src (> a) 5", "", "add (a) 1", "around (a > b a)", "print (a)", "add (b > a) 37"]
    (∀ s ∈ r.steps lines, s.kind = .serial) ∧ (∀ s ∈ r.steps lines, s.isReady) ∧
    r.firstFault? [] 1 lines = none ∧
    ∃ f, Flow.ofLines r lines = .ok f ∧ ∀ settings, ∃ env,
      (f.run settings).result = .ok env ∧ env.value? "a" = some (.int 42) ∧
        env.value? "b" = some (.int 5) := by
  intro r lines
  have hk : ∀ s ∈ r.steps lines, s.kind = .serial := by decide +kernel
  have hp : ∀ s ∈ r.steps lines, s.isReady := by decide +kernel
  have hf : r.firstFault? [] 1 lines = none := by decide +kernel
  have h := Flow.run_of_serial hk hp
  rw [hf] at h
  obtain ⟨f, hok, hrun, -⟩ := h
  obtain ⟨values, hv, ha, hb⟩ : ∃ values, r.evaluate ∅ lines = .ok values ∧
      values["a"]? = some (.int 42) ∧ values["b"]? = some (.int 5) := ⟨_, rfl, rfl, rfl⟩
  refine ⟨hk, hp, hf, f, hok, fun settings => ⟨.ofValues values, ?_, ?_, ?_⟩⟩
  · rw [hrun settings, hv]
    rfl
  · rw [Environment.value?_ofValues, ha]
  · rw [Environment.value?_ofValues, hb]

-- the first fault in line order wins, whatever its kind
example : Standard.repertoire.firstFault? [] 1 ["src (> a) 5", "", "add (a b > c) 1", "print (d)",
    "src ("] = some (.badCall 3 (.inputCount "add" 1 2)) := by
  decide +kernel

end DirectiveFlow
