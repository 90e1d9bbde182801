import DirectiveFlow.Integer
import DirectiveFlow.Run.Trace

namespace DirectiveFlow

inductive LogEntry where
  | running (stage : String)
  | finished (stage : String) (milliseconds : Nat)
  | percentDone (stage : String) (percent : Nat)
  deriving DecidableEq, Repr

def LogEntry.message : LogEntry → String
  | .running _ => "running"
  | .finished .. => "finished"
  | .percentDone _ percent => percent.repr ++ "% done"

def LogEntry.ofDuration (stage : String) (microseconds : Nat) : LogEntry :=
  .finished stage (microseconds / 1000)

/-- Logs progress each time that another `interval`, a part of 1, of the rows is done. -/
structure ProgressLog where
  interval : Float

namespace ProgressLog

/-- The number of whole intervals in a progress, if progress is logged at all. -/
def reached? (log : ProgressLog) (done total : Nat) : Option UInt64 :=
  if log.interval ≤ 0.0 || log.interval ≥ 1.0 || total = 0 then none
  else
    let fraction := (UInt64.ofNat done).toFloat / (UInt64.ofNat total).toFloat + 0.001
    some (fraction / log.interval).toUInt64

def isDue (log : ProgressLog) (done total : Nat) : Bool :=
  match log.reached? done total, log.reached? (done - 1) total with
  | some now, some before => 0 < done && before < now
  | _, _ => false

/-- Whole percents, in 64-bit arithmetic. -/
def percent (done total : Nat) : Nat :=
  (100 * done) % Integer.unsignedBound / max total 1

/-- The lines for an event of a run, whose clock stands still. -/
def entries (log : ProgressLog) : Event → List LogEntry
  | .started stage => [.running stage]
  | .finished stage => [.ofDuration stage 0]
  | .progress stage done total =>
    if log.isDue done total then [.percentDone stage (percent done total)] else []

end ProgressLog

end DirectiveFlow
