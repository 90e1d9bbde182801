namespace DirectiveFlow

/-- How a table came to be: by a header or braces, as part of a header, or as part of a key. -/
inductive Toml.Origin where
  | defined
  | header
  | dotted
  deriving DecidableEq, Repr

/-- An entry of a configuration file. The tables of an array stand in their order. -/
inductive Toml where
  | string (s : String)
  | integer (n : Int)
  | float (x : Float)
  | boolean (b : Bool)
  | dateTime
  | array (items : List Toml)
  | inlineTable (origin : Toml.Origin) (fields : List (String × Toml))
  | table (origin : Toml.Origin) (fields : List (String × Toml))
  | tables (items : List (List (String × Toml)))

namespace Toml

abbrev Fields := List (String × Toml)

def Fields.entry? (fields : Fields) (key : String) : Option Toml :=
  List.lookup key fields

def Fields.put (key : String) (entry : Toml) : Fields → Fields
  | [] => [(key, entry)]
  | (other, kept) :: rest =>
    if key = other then (key, entry) :: rest else (other, kept) :: Fields.put key entry rest

def changeLast (change : Fields → Option Fields) :
    List Fields → Option (List Fields)
  | [] => none
  | [last] => (change last).map fun last => [last]
  | first :: rest => (changeLast change rest).map fun rest => first :: rest

/-- Adds a field to a table. The path of a key leads only through tables made by such paths. -/
def Fields.add (path : List String) (key : String) (entry : Toml) (fields : Fields) :
    Option Fields :=
  match path with
  | [] => if (fields.entry? key).isSome then none else some (fields ++ [(key, entry)])
  | step :: path =>
    match fields.entry? step with
    | none => do
      let inner ← Fields.add path key entry []
      return fields ++ [(step, .table .dotted inner)]
    | some (.table origin inner) =>
      if origin = .dotted || origin = .header && !path.isEmpty then do
        let inner ← Fields.add path key entry inner
        return fields.put step (.table origin inner)
      else none
    | some (.tables items) =>
      if path.isEmpty then none
      else do
        let items ← changeLast (Fields.add path key entry) items
        return fields.put step (.tables items)
    | _ => none

def Fields.addInline (path : List String) (key : String) (entry : Toml) (fields : Fields) :
    Option Fields :=
  match path with
  | [] => if (fields.entry? key).isSome then none else some (fields ++ [(key, entry)])
  | step :: path =>
    match fields.entry? step with
    | none => do
      let inner ← Fields.addInline path key entry []
      return fields ++ [(step, .inlineTable .dotted inner)]
    | some (.inlineTable .dotted inner) => do
      let inner ← Fields.addInline path key entry inner
      return fields.put step (.inlineTable .dotted inner)
    | _ => none

/-- Changes the table under the path of a header, also through the last table of an array. -/
def Fields.changeAt (change : Fields → Option Fields) : List String → Fields → Option Fields
  | [], fields => change fields
  | step :: path, fields =>
    match fields.entry? step with
    | none => do
      let inner ← Fields.changeAt change path []
      return fields ++ [(step, .table .header inner)]
    | some (.table origin inner) => do
      let inner ← Fields.changeAt change path inner
      return fields.put step (.table origin inner)
    | some (.tables items) => do
      let items ← changeLast (Fields.changeAt change path) items
      return fields.put step (.tables items)
    | _ => none

/-- Defines a table by its header; a table that stood only in other headers becomes defined. -/
def Fields.define (key : String) (fields : Fields) : Option Fields :=
  match fields.entry? key with
  | none => some (fields ++ [(key, .table .defined [])])
  | some (.table .header inner) => some (fields.put key (.table .defined inner))
  | _ => none

def Fields.extend (key : String) (fields : Fields) : Option Fields :=
  match fields.entry? key with
  | none => some (fields ++ [(key, .tables [[]])])
  | some (.tables items) => some (fields.put key (.tables (items ++ [[]])))
  | _ => none

end Toml

end DirectiveFlow
