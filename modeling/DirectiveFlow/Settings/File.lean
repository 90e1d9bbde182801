import DirectiveFlow.Decimal.Layout
import DirectiveFlow.Toml.Reading

namespace DirectiveFlow

structure Settings where
  /-- Workers of each group; 0 leaves the number to the machine. -/
  workers : Nat
  /-- One row on one worker in each group. -/
  debug : Bool
  /-- The part of a worker's rows between two progress lines. -/
  reportStep : Float

namespace Settings

def standard : Settings := ⟨0, false, 0.1⟩

/-- The number of workers, unless it is left to the machine. -/
def chosenWorkers? (s : Settings) : Option Nat :=
  if s.debug then some 1
  else if s.workers = 0 then none
  else some s.workers

/-- A machine that is asked offers one worker. -/
def workerCount (s : Settings) : Nat :=
  s.chosenWorkers?.getD 1

def workersEntry : Toml → Option Nat
  | .integer n => if 0 ≤ n then some n.toNat else none
  | _ => none

def debugEntry : Toml → Option Bool
  | .boolean b => some b
  | _ => none

def reportStepEntry : Toml → Option Float
  | .float x => some x
  | .integer n => some (Float.ofInt n)
  | _ => none

/-- An entry that may be missing but must not be of another type. -/
def entryOr {α : Type} (fields : Toml.Fields) (key : String) (view : Toml → Option α)
    (default : α) : Option α :=
  match fields.entry? key with
  | none => some default
  | some entry => view entry

/-- The settings in the entries of a file. Entries of other names do not matter. -/
def ofFields (fields : Toml.Fields) : Option Settings := do
  let workers ← entryOr fields "workers" workersEntry standard.workers
  let debug ← entryOr fields "debug" debugEntry standard.debug
  let reportStep ← entryOr fields "report_step" reportStepEntry standard.reportStep
  return ⟨workers, debug, reportStep⟩

def read (text : String) : Option Settings :=
  (Toml.read text).bind ofFields

def renderFloat (x : Float) : String :=
  if x.isNaN then "nan"
  else if x.isFinite then Decimal.plain.render x
  else if x < 0.0 then "-inf"
  else "inf"

def render (s : Settings) : String :=
  "workers = " ++ s.workers.repr ++ "\n"
    ++ "debug = " ++ (if s.debug then "true" else "false") ++ "\n"
    ++ "report_step = " ++ renderFloat s.reportStep ++ "\n"

end Settings

end DirectiveFlow
