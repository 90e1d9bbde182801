import DirectiveFlow.Run.Worker
import DirectiveFlow.Settings.File

namespace DirectiveFlow

/-- The group answers for a worker that crashes. -/
def RunFault.atWorker (worker : Nat) : RunFault → RunFault
  | .crashed _ => .workerCrashed worker
  | fault => fault

/-- The yields of the workers in order. Only the first worker is observed. -/
def Group.workAll (g : Group) (label : String) (worker : Nat) :
    List (List Row) → Run RunFault (List Yield)
  | [] => .ok []
  | share :: rest => do
    let work := (g.work label share).mapError (RunFault.atWorker worker)
    let yield ← if worker = 0 then work else work.unobserved
    let yields ← g.workAll label (worker + 1) rest
    return yield :: yields

/-- Shares the rows of a group out to its workers and joins what they hand back. -/
def Group.run (g : Group) (settings : Settings) (env : Environment) :
    Run RunFault Environment := do
  let rows ← .ofExcept (env.rowsFor g.name g.requests)
  let rows := if settings.debug then rows.take 1 else rows
  let yields ← g.workAll g.name 0 (shares rows settings.workerCount)
  let results ← .ofExcept (namedResults g.name g.gathered (joinYields g.gathered yields))
  return env.setAll results

def Serial.run (s : Serial) (env : Environment) : Run RunFault Environment := do
  let values ← .ofExcept (s.inputs.mapM (env.valueFor s.name))
  let result ← .ofReply s.name (s.operation.act values)
  let results ← .ofExcept (namedResults s.name s.outputs result)
  return env.setAll results

/-- Combines values from the left with what is held. -/
def Reduction.foldFrom (r : Reduction) (held : Value) : List Value → Except StepFault Value
  | [] => .ok held
  | item :: rest =>
    match r.combine item held with
    | .error fault => .error fault
    | .ok held => r.foldFrom held rest

/-- Folds what the workers held. A key of the reducer's own is dropped afterwards. -/
def Combine.run (c : Combine) (env : Environment) : Except RunFault Environment :=
  match env.listFor c.name c.partials with
  | .error fault => .error fault
  | .ok [] => .error (.nothingToReduce c.name)
  | .ok (first :: rest) =>
    match c.reduction.foldFrom first rest with
    | .error cause => .error (.failed c.name cause)
    | .ok held =>
      match c.reduction.finish held with
      | .error cause => .error (.failed c.name cause)
      | .ok result => .ok ((if c.isPrivate then env.erase c.partials else env).set c.output result)

namespace Stage

/-- Runs a stage. The result is the environment behind it. -/
def run (settings : Settings) (env : Environment) : Stage → Run RunFault Environment
  | .serial s => s.run env
  | .group g => g.run settings env
  | .combine c => .ofExcept (c.run env)

/-- The environment after a run of the stage. A fault leaves it as it was. -/
def environmentAfter (stage : Stage) (settings : Settings) (env : Environment) : Environment :=
  match (stage.run settings env).result with
  | .ok after => after
  | .error _ => env

end Stage

def RunFault.inSetup : RunFault → FlowFault
  | .failed step cause => .setup step cause
  | fault => .run fault

def prepareAll : List (String × Operation) → Run FlowFault Unit
  | [] => .ok ()
  | (name, operation) :: rest => do
    (Run.ofReply name operation.prepare).mapError RunFault.inSetup
    prepareAll rest

def runStages (settings : Settings) (env : Environment) : List Stage → Run FlowFault Environment
  | [] => .ok env
  | stage :: rest => do
    .report (.started stage.name)
    let env ← (stage.run settings env).mapError .run
    .report (.finished stage.name)
    runStages settings env rest

namespace Flow

def prepare (f : Flow) : Run FlowFault Unit :=
  prepareAll (f.stages.flatMap Stage.operations)

/-- Prepares every operation, then runs the stages in order. The result is the
last environment. -/
def run (f : Flow) (settings : Settings) : Run FlowFault Environment := do
  f.prepare
  runStages settings f.declared f.stages

end Flow

end DirectiveFlow
