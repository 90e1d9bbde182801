import DirectiveFlow.Repertoire
import DirectiveFlow.Value

namespace DirectiveFlow.Standard

def firstOf (inputs : List Value) : Except StepFault Value :=
  match inputs with
  | [] => .error (.failed "missing input")
  | first :: _ => .ok first

def number (v : Value) : Except StepFault Float :=
  match v.float? with
  | some x => .ok x
  | none => .error (.inputType "number" v.typeName)

/-- Integers add up to an integer or not at all. With a float among them both widen. -/
def plus (a b : Value) : Except StepFault Value :=
  match a, b with
  | .int x, .int y =>
    let sum := x.toInt + y.toInt
    if Integer.IsSigned sum then .ok (.int (Int64.ofInt sum))
    else .error (.failed "integer overflow in addition")
  | a, b => do
    let x ← number a
    let y ← number b
    return .float (x + y)

/-- The first value unless the second is larger or one of them is no number to compare with. -/
def larger (a b : Value) : Except StepFault Value := do
  let x ← number a
  let y ← number b
  return if x ≥ y then a else b

def giving (v : Value) : Body :=
  .task (.pure fun _ => .ok v)

def adding (n : Int64) : Body :=
  .task (.pure fun inputs => do plus (← firstOf inputs) (.int n))

def multiplying (k : Float) : Body :=
  .task (.pure fun inputs => do return .float ((← number (← firstOf inputs)) * k))

def printing (label : String) : Body :=
  .task {
    prepare := .done ()
    act inputs :=
      match firstOf inputs with
      | .error fault => ⟨"", .failed fault⟩
      | .ok item => ⟨label ++ ": " ++ item.render ++ "\n", .done .null⟩ }

def src : StepType where
  schema := (Schema.bare "src" .serial "Emit an integer").output "item"
    |>.param ⟨"value", "int", none, "Value to emit"⟩
  build arguments := do return giving (.int (← arguments.int "value"))

/-- The list of the integers from 0 up to, but without, a count. -/
def lst : StepType where
  schema := (Schema.bare "lst" .serial "Emit the integers 0 up to count").output "item"
    |>.param ⟨"count", "int", none, "Number of items"⟩
  build arguments := do
    let count ← arguments.int "count"
    if count < 0 then
      .error (.failed ("count must not be negative, got " ++ Integer.render count.toInt))
    else
      return giving (.list ((List.range count.toInt.toNat).map fun i => .int (Int64.ofNat i)))

def add : StepType where
  schema := (Schema.bare "add" .serial "Add n to the item").inPlace "item"
    |>.param ⟨"n", "int", none, "Amount to add"⟩
  build arguments := do return adding (← arguments.int "n")

def incr : StepType where
  schema := (Schema.bare "incr" .parallel "Add n to every item").inPlace "item"
    |>.param ⟨"n", "int", some "1", "Amount to add"⟩
  build arguments := do return adding (← arguments.int "n")

def scale : StepType where
  schema := (Schema.bare "scale" .parallel "Multiply every item by a factor").inPlace "item"
    |>.param ⟨"factor", "float", none, "Multiplier"⟩
  build arguments := do return multiplying (← arguments.float "factor")

def print : StepType where
  schema := (Schema.bare "print" .serial "Print an item to standard output").input "item"
    |>.param ⟨"label", "string", some "item", "Prefix for the printed line"⟩
  build arguments := do return printing (← arguments.string "label")

def sumReduction : Reduction where
  combine := plus
  finish v := .ok v

def maxReduction : Reduction where
  combine := larger
  finish v := .ok v

def sum : StepType where
  schema := (Schema.bare "sum" .reducer "Sum all items").inPlace "item"
  build _ := .ok (.fold sumReduction)

def max : StepType where
  schema := (Schema.bare "max" .reducer "Largest item").inPlace "item"
  build _ := .ok (.fold maxReduction)

def stepTypes : List StepType :=
  [src, lst, add, incr, scale, print, sum, max]

def repertoire : Repertoire :=
  (Repertoire.empty.addAll stepTypes).repertoire

end DirectiveFlow.Standard
