import DirectiveFlow.Proofs.Widening
import DirectiveFlow.Value

namespace DirectiveFlow

open Float.Model.UnpackedFloat (Sign)

theorem isFinite_of_stores {x : Float} {s : Sign} {digits : ℕ × ℤ}
    (h : Stores x.toModel s digits) : x.isFinite := by
  obtain ⟨hk, -, hx⟩ := h
  change x.toModel.unpack.isFinite = true
  rw [hx]
  rfl

theorem isFinite_toFloat {n : UInt64} (h : Integer.signedBound ≤ n.toNat) :
    n.toFloat.isFinite :=
  isFinite_of_stores (stores_toFloat_of_le (Nat.le_trans (by decide) h))

namespace Value

mutual

/-- The value with null for every float that is not finite. -/
def finitePart : Value → Value
  | .float x => if x.isFinite then .float x else .null
  | .list items => .list (finitePartAll items)
  | other => other

def finitePartAll : List Value → List Value
  | [] => []
  | item :: rest => item.finitePart :: finitePartAll rest

end

mutual

/-- The floats of a value, in whatever lists they stand. -/
def floats : Value → List Float
  | .float x => [x]
  | .list items => floatsAll items
  | _ => []

def floatsAll : List Value → List Float
  | [] => []
  | item :: rest => item.floats ++ floatsAll rest

end

theorem ofJson_toJson_int (n : Int64) : ofJson (int n).toJson = int n := by
  rw [toJson]
  split
  · rw [ofJson]
  · rename_i hn
    have hn : 0 ≤ n := Int64.not_lt.mp hn
    have hlt : n.toUInt64.toNat < Integer.signedBound := by
      rw [Int64.toNat_toUInt64_of_le hn]
      exact (Int.toNat_lt' (by decide)).mpr n.toInt_lt
    rw [ofJson, if_pos hlt, Int64.toInt64_toUInt64]

theorem ofJson_toJson_float (x : Float) : ofJson (float x).toJson = (float x).finitePart := by
  rw [toJson, Json.ofFloat, finitePart]
  split
  · rw [ofJson]
  · rw [ofJson]

mutual

theorem ofJson_toJson : ∀ v : Value, ofJson v.toJson = v.finitePart
  | .null | .bool _ | .string _ => rfl
  | .int n => ofJson_toJson_int n
  | .float x => ofJson_toJson_float x
  | .list items => congrArg list (ofJsonAll_toJsonAll items)

theorem ofJsonAll_toJsonAll : ∀ items : List Value,
    ofJsonAll (toJsonAll items) = finitePartAll items
  | [] => rfl
  | item :: rest => congrArg₂ List.cons (ofJson_toJson item) (ofJsonAll_toJsonAll rest)

end

mutual

theorem finitePart_eq_self_iff : ∀ v : Value,
    v.finitePart = v ↔ ∀ x ∈ v.floats, x.isFinite
  | .null | .bool _ | .int _ | .float _ | .string _ => by simp [finitePart, floats]
  | .list items => by
    rw [finitePart, floats, list.injEq]
    exact finitePartAll_eq_self_iff items

theorem finitePartAll_eq_self_iff : ∀ items : List Value,
    finitePartAll items = items ↔ ∀ x ∈ floatsAll items, x.isFinite
  | [] => by simp [finitePartAll, floatsAll]
  | item :: rest => by
    rw [finitePartAll, floatsAll, List.cons.injEq, List.forall_mem_append]
    exact and_congr (finitePart_eq_self_iff item) (finitePartAll_eq_self_iff rest)

end

mutual

theorem isFinite_of_ofJson : ∀ j : Json, ∀ x ∈ (ofJson j).floats, x.isFinite
  | .null | .bool _ | .string _ | .object _ => nofun
  | .number (.natural n) => by
    rw [ofJson]
    split
    · exact nofun
    · rename_i hn
      exact List.forall_mem_singleton.mpr (isFinite_toFloat (Nat.le_of_not_lt hn))
  | .number (.negative _) => nofun
  | .number (.fractional x finite) => List.forall_mem_singleton.mpr finite
  | .array items => isFinite_of_ofJsonAll items

theorem isFinite_of_ofJsonAll : ∀ items : List Json,
    ∀ x ∈ floatsAll (ofJsonAll items), x.isFinite
  | [] => nofun
  | item :: rest =>
    List.forall_mem_append.mpr ⟨isFinite_of_ofJson item, isFinite_of_ofJsonAll rest⟩

end

/-- A value that is written as a document and read again has null for its floats that are not
finite, and is the same if it has none. What was read from a document has none. -/
theorem json_round_trip (v : Value) (j : Json) :
    ofJson v.toJson = v.finitePart ∧
    (ofJson v.toJson = v ↔ ∀ x ∈ v.floats, x.isFinite) ∧
    ofJson (ofJson j).toJson = ofJson j := by
  rw [ofJson_toJson, ofJson_toJson]
  exact ⟨rfl, finitePart_eq_self_iff v, (finitePart_eq_self_iff _).mpr (isFinite_of_ofJson j)⟩

example : ofJson (list [float (-0.0), int 0, list [float (0.0 / 0.0)]]).toJson =
    list [float (-0.0), int 0, list [null]] := by rfl

end Value

end DirectiveFlow
