import DirectiveFlow.Proofs.Joining
import DirectiveFlow.Proofs.Stages

namespace DirectiveFlow

/-- A part of a run that changes the environment as it goes. What it changed
stays if it fails. -/
def InPlace (α : Type) : Type :=
  Environment → Except RunFault α × Environment

namespace InPlace

variable {α β : Type}

def ok (a : α) : InPlace α := fun env => (.ok a, env)

def bind (x : InPlace α) (f : α → InPlace β) : InPlace β := fun env =>
  match x env with
  | (.ok a, after) => f a after
  | (.error fault, after) => (.error fault, after)

instance : Monad InPlace where
  pure := ok
  bind := bind

/-- Looks at the environment and leaves it as it is. -/
def look (f : Environment → Except RunFault α) : InPlace α := fun env => (f env, env)

def change (f : Environment → Environment) : InPlace Unit := fun env => (.ok (), f env)

def store : List (String × Value) → InPlace Unit
  | [] => pure ()
  | (name, value) :: rest => do
    change fun env => env.set name value
    store rest

/-- Stores a result under the names of the outputs: whole for one name, split for several. -/
def storeResult (step : String) (outputs : List String) (result : Value) : InPlace Unit :=
  match outputs with
  | [] => pure ()
  | [single] => change fun env => env.set single result
  | outputs =>
    match result.list? with
    | none => look fun _ => .error (.resultCount step outputs.length 1)
    | some values =>
      if values.length = outputs.length then store (outputs.zip values)
      else look fun _ => .error (.resultCount step outputs.length values.length)

theorem look_bind (f : Environment → Except RunFault α) (g : α → InPlace β) (env : Environment) :
    (look f >>= g) env =
      match f env with
      | .ok a => g a env
      | .error fault => (.error fault, env) := by
  change InPlace.bind (look f) g env = _
  unfold InPlace.bind look
  cases f env with
  | ok a => rfl
  | error fault => rfl

theorem store_apply (results : List (String × Value)) (env : Environment) :
    store results env = (.ok (), env.setAll results) := by
  induction results generalizing env with
  | nil => rfl
  | cons result results ih => exact ih (env.set result.1 result.2)

/-- Nothing is stored before the number of results is known to be right. -/
theorem storeResult_apply (step : String) (outputs : List String) (result : Value)
    (env : Environment) :
    storeResult step outputs result env =
      match namedResults step outputs result with
      | .ok results => (.ok (), env.setAll results)
      | .error fault => (.error fault, env) := by
  match outputs with
  | [] => rfl
  | [single] => rfl
  | first :: second :: more =>
    simp only [storeResult, namedResults]
    cases result.list? with
    | none => rfl
    | some values =>
      by_cases hl : values.length = (first :: second :: more).length
      · simp only [if_pos hl]
        exact store_apply _ env
      · simp only [if_neg hl]
        rfl

end InPlace

open InPlace in
def Serial.runInPlace (s : Serial) : InPlace Unit := do
  let values ← look fun env => s.inputs.mapM (env.valueFor s.name)
  let result ← look fun _ => (Run.ofReply s.name (s.operation.act values)).result
  storeResult s.name s.outputs result

open InPlace in
def Group.runInPlace (g : Group) (settings : Settings) : InPlace Unit := do
  let rows ← look fun env => env.rowsFor g.name g.requests
  let yields ← look fun _ =>
    (g.workAll g.name 0 (shares (settings.rowsOf rows) settings.workerCount)).result
  storeResult g.name g.gathered (joinYields g.gathered yields)

open InPlace in
def Combine.runInPlace (c : Combine) : InPlace Unit := do
  let values ← look fun env => env.listFor c.name c.partials
  match values with
  | [] => look fun _ => .error (.nothingToReduce c.name)
  | first :: rest =>
    let held ← look fun _ => (c.reduction.foldFrom first rest).mapError (.failed c.name)
    let result ← look fun _ => (c.reduction.finish held).mapError (.failed c.name)
    if c.isPrivate then
      change fun env => env.erase c.partials
    change fun env => env.set c.output result

namespace Stage

/-- Runs a stage on an environment that is changed step by step, as the items are written. -/
def runInPlace (settings : Settings) : Stage → InPlace Unit
  | .serial s => s.runInPlace
  | .group g => g.runInPlace settings
  | .combine c => c.runInPlace

/-- The key that a combine of its own drops. -/
def drops : Stage → List String
  | .combine c => if c.isPrivate then [c.partials] else []
  | _ => []

end Stage

/-- What a run gives together with the environment that it leaves, which a fault
does not change. -/
def Environment.after (env : Environment) (result : Except RunFault Environment) :
    Except RunFault Unit × Environment :=
  match result with
  | .ok after => (.ok (), after)
  | .error fault => (.error fault, env)

theorem InPlace.storeResult_after (step : String) (outputs : List String) (result : Value)
    (env : Environment) :
    storeResult step outputs result env =
      env.after ((namedResults step outputs result).map env.setAll) := by
  rw [storeResult_apply]
  cases namedResults step outputs result with
  | ok results => rfl
  | error fault => rfl

theorem Serial.runInPlace_eq (s : Serial) (env : Environment) :
    s.runInPlace env = env.after (s.run env).result := by
  simp only [runInPlace, run, Run.result_bind, Run.result_ofExcept, InPlace.look_bind]
  cases s.inputs.mapM (env.valueFor s.name) with
  | error fault => rfl
  | ok values =>
    simp only [ok_bind]
    cases (Run.ofReply s.name (s.operation.act values)).result with
    | error fault => rfl
    | ok result =>
      simp only [ok_bind]
      rw [InPlace.storeResult_after]
      cases namedResults s.name s.outputs result with
      | error fault => rfl
      | ok results => rfl

theorem Group.runInPlace_eq (g : Group) (settings : Settings) (env : Environment) :
    g.runInPlace settings env = env.after (g.run settings env).result := by
  simp only [runInPlace, run, Run.result_bind, Run.result_ofExcept, InPlace.look_bind]
  cases env.rowsFor g.name g.requests with
  | error fault => rfl
  | ok rows =>
    simp only [ok_bind]
    change _ = env.after ((g.workAll g.name 0
      (shares (settings.rowsOf rows) settings.workerCount)).result >>= _)
    cases (g.workAll g.name 0 (shares (settings.rowsOf rows) settings.workerCount)).result with
    | error fault => rfl
    | ok yields =>
      simp only [ok_bind]
      rw [InPlace.storeResult_after]
      cases namedResults g.name g.gathered (joinYields g.gathered yields) with
      | error fault => rfl
      | ok results => rfl

theorem Combine.runInPlace_eq (c : Combine) (env : Environment) :
    c.runInPlace env = env.after (c.run env) := by
  simp only [runInPlace, run, InPlace.look_bind]
  cases env.listFor c.name c.partials with
  | error fault => rfl
  | ok values =>
    cases values with
    | nil => rfl
    | cons first rest =>
      simp only [InPlace.look_bind]
      cases c.reduction.foldFrom first rest with
      | error cause => rfl
      | ok held =>
        simp only [mapError_ok]
        cases c.reduction.finish held with
        | error cause => rfl
        | ok result =>
          simp only [mapError_ok]
          cases c.isPrivate with
          | true => rfl
          | false => rfl

namespace Stage

variable {stage : Stage} {settings : Settings} {env after : Environment} {x : String}

theorem runInPlace_eq (stage : Stage) (settings : Settings) (env : Environment) :
    stage.runInPlace settings env =
      ((stage.run settings env).result.map fun _ => (), stage.environmentAfter settings env) := by
  have h : stage.runInPlace settings env = env.after (stage.run settings env).result := by
    cases stage with
    | serial s => exact s.runInPlace_eq env
    | group g => exact g.runInPlace_eq settings env
    | combine c => exact c.runInPlace_eq env
  rw [h, environmentAfter]
  cases (stage.run settings env).result with
  | ok after => rfl
  | error fault => rfl

theorem mem_drops_combine {c : Combine} :
    x ∈ (Stage.combine c).drops ↔ c.isPrivate ∧ c.partials = x := by
  change x ∈ (if c.isPrivate then [c.partials] else []) ↔ _
  cases c.isPrivate with
  | true => exact List.mem_singleton.trans ⟨fun h => ⟨rfl, h.symm⟩, fun h => h.2.symm⟩
  | false => exact ⟨fun h => absurd h List.not_mem_nil, fun h => nomatch h.1⟩

theorem isSome_output (h : (stage.run settings env).result = .ok after) (hx : x ∈ stage.outputs) :
    (after.value? x).isSome := by
  cases stage with
  | serial s =>
    obtain ⟨results, hr, rfl⟩ := Serial.run_eq_setAll h
    exact Environment.isSome_setAll (.inl (hr ▸ hx))
  | group g =>
    obtain ⟨results, hr, rfl⟩ := Group.run_eq_setAll h
    exact Environment.isSome_setAll (.inl (hr ▸ hx))
  | combine c =>
    obtain ⟨values, result, -, -, hv⟩ := Combine.value?_output h
    rw [List.mem_singleton.mp hx, hv]
    rfl

theorem run_frame (h : (stage.run settings env).result = .ok after) (hx : x ∉ stage.outputs)
    (hd : x ∉ stage.drops) :
    after.value? x = env.value? x ∧ (after.contains x ↔ env.contains x) := by
  have hset {results : List (String × Value)} (hn : x ∉ results.map Prod.fst) :
      (env.setAll results).value? x = env.value? x ∧
        ((env.setAll results).contains x ↔ env.contains x) :=
    ⟨Environment.value?_setAll_of_notMem hn, Environment.contains_setAll.trans (or_iff_right hn)⟩
  cases stage with
  | serial s =>
    obtain ⟨results, hr, rfl⟩ := Serial.run_eq_setAll h
    exact hset (hr ▸ hx)
  | group g =>
    obtain ⟨results, hr, rfl⟩ := Group.run_eq_setAll h
    exact hset (hr ▸ hx)
  | combine c =>
    obtain ⟨values, result, -, -, rfl⟩ := Combine.run_eq_ok h
    have ho : c.output ≠ x := fun he => hx (List.mem_singleton.mpr he.symm)
    have hk : ¬ (c.isPrivate ∧ c.partials = x) := mt mem_drops_combine.mpr hd
    rw [Combine.value?_settle, Combine.contains_settle, if_neg ho, if_neg hk]
    exact ⟨rfl, (or_iff_right ho).trans (and_iff_right hk)⟩

theorem not_contains_drops (h : (stage.run settings env).result = .ok after)
    (hx : x ∉ stage.outputs) (hd : x ∈ stage.drops) : ¬ after.contains x := by
  cases stage with
  | serial s => cases hd
  | group g => cases hd
  | combine c =>
    obtain ⟨values, result, -, -, rfl⟩ := Combine.run_eq_ok h
    rw [Combine.contains_settle]
    rintro (ho | ⟨hk, -⟩)
    · exact hx (List.mem_singleton.mpr ho.symm)
    · exact hk (mem_drops_combine.mp hd)

/-- Changed step by step, the environment is behind a failed stage what it was before it. Behind
any other stage every output has a value, a key of the stage's own is gone, and every other name
stands as it stood. -/
theorem runInPlace_all_or_nothing (stage : Stage) (settings : Settings) (env : Environment) :
    stage.runInPlace settings env =
        ((stage.run settings env).result.map fun _ => (), stage.environmentAfter settings env) ∧
      match stage.runInPlace settings env with
      | (.error _, after) => after = env
      | (.ok (), after) =>
        (∀ x ∈ stage.outputs, (after.value? x).isSome) ∧
        ∀ x ∉ stage.outputs,
          (x ∈ stage.drops → ¬ after.contains x) ∧
          (x ∉ stage.drops →
            after.value? x = env.value? x ∧ (after.contains x ↔ env.contains x)) := by
  refine ⟨stage.runInPlace_eq settings env, ?_⟩
  rw [runInPlace_eq, environmentAfter]
  cases h : (stage.run settings env).result with
  | error fault => rfl
  | ok after =>
    have hframe (x : String) (hx : x ∉ stage.outputs) :
        (x ∈ stage.drops → ¬ after.contains x) ∧
          (x ∉ stage.drops →
            after.value? x = env.value? x ∧ (after.contains x ↔ env.contains x)) :=
      ⟨not_contains_drops h hx, run_frame h hx⟩
    exact ⟨fun x hx => isSome_output h hx, hframe⟩

end Stage

end DirectiveFlow
