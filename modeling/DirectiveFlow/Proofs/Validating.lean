import Mathlib.Data.List.Induction
import Mathlib.Data.List.Nodup
import Mathlib.Order.WellFounded
import DirectiveFlow.Step.Signature

namespace DirectiveFlow

def LiteralType.names : List String :=
  ["int", "float", "string", "bool"]

theorem LiteralType.ofName?_eq_none {name : String} : ofName? name = none ↔ name ∉ names := by
  unfold ofName?
  split <;> simp_all [names]

/-- The order in which the rejections of a step type are looked for. -/
@[simp]
def Rejection.rank : Rejection → Nat
  | .unnamed => 0
  | .reducerItems .. => 1
  | .reservedName .. => 2
  | .repeatedParam .. => 3
  | .unknownType .. => 4
  | .lacksDefault .. => 5
  | .badDefault .. => 6
  | .nameTaken .. => 7

namespace Param

/-- The literal is read as a value of the parameter's type. -/
def Reads (p : Param) (text : String) : Prop :=
  ∃ value, Value.ofLiteral p.typeName text = .ok value

/-- What there is to object to a parameter of a step that stands behind those of `before`. -/
inductive Objection (step : String) (before : List Param) (p : Param) : Rejection → Prop
  | reserved : p.name ∈ Signature.reserved → Objection step before p (.reservedName step p.name)
  | repeated : p.name ∈ before.map Param.name →
      Objection step before p (.repeatedParam step p.name)
  | unknownType : p.typeName ∉ LiteralType.names →
      Objection step before p (.unknownType step p.name p.typeName)
  | lacksDefault : p.default = none → (∃ q ∈ before, q.default ≠ none) →
      Objection step before p (.lacksDefault step p.name)
  | badDefault {text : String} {cause : LiteralFault} : p.default = some text →
      Value.ofLiteral p.typeName text = .error cause →
      Objection step before p (.badDefault step p.name cause)

/-- An objection that is looked for before all others that there are. -/
def FirstObjection (step : String) (before : List Param) (p : Param) (rejection : Rejection) :
    Prop :=
  Objection step before p rejection ∧
    ∀ other, Objection step before p other → rejection.rank ≤ other.rank

/-- Parameters to none of which there is an objection where it stands. -/
def Clear (step : String) (params : List Param) : Prop :=
  ∀ before p after, params = before ++ p :: after →
    ∀ rejection, ¬ Objection step before p rejection

/-- The first parameter that there is an objection to gives the rejection. -/
def FirstRejected (step : String) (params : List Param) (rejection : Rejection) : Prop :=
  ∃ before p after, params = before ++ p :: after ∧ Clear step before ∧
    FirstObjection step before p rejection

section Objections

variable {step text : String} {before params : List Param} {p : Param} {rejection : Rejection}

theorem not_objection_or_first (step : String) (before : List Param) (p : Param) :
    (∀ rejection, ¬ Objection step before p rejection) ∨
      ∃ rejection, FirstObjection step before p rejection := by
  by_cases h : ∃ rejection, Objection step before p rejection
  · obtain ⟨first, hfirst, hle⟩ := (measure Rejection.rank).wf.has_min
      {rejection | Objection step before p rejection} h
    exact .inr ⟨first, hfirst, fun other ho => Nat.le_of_not_lt (hle other ho)⟩
  · exact .inl (not_exists.mp h)

theorem not_objection_iff : (∀ rejection, ¬ Objection step before p rejection) ↔
    p.name ∉ Signature.reserved ∧ p.name ∉ before.map Param.name ∧
      p.typeName ∈ LiteralType.names ∧
      (p.default = none → ∀ q ∈ before, q.default = none) ∧
      ∀ text, p.default = some text → p.Reads text := by
  constructor
  · intro h
    refine ⟨fun hr => h _ (.reserved hr), fun hr => h _ (.repeated hr), ?_, ?_, ?_⟩
    · by_contra ht
      exact h _ (.unknownType ht)
    · intro hd q hq
      by_contra hn
      exact h _ (.lacksDefault hd ⟨q, hq, hn⟩)
    · intro text hd
      cases hv : Value.ofLiteral p.typeName text with
      | error cause => exact (h _ (.badDefault hd hv)).elim
      | ok value => exact ⟨value, hv⟩
  · rintro ⟨hreserved, hrepeated, htype, hdefault, hreads⟩ rejection h
    cases h with
    | reserved h => exact hreserved h
    | repeated h => exact hrepeated h
    | unknownType h => exact h htype
    | lacksDefault hd h =>
      obtain ⟨q, hq, hn⟩ := h
      exact hn (hdefault hd q hq)
    | badDefault hd hv =>
      obtain ⟨value, h⟩ := hreads _ hd
      cases hv.symm.trans h

theorem clear_nil : Clear step [] := by
  intro before p after h
  cases before <;> cases h

theorem clear_snoc : Clear step (params ++ [p]) ↔
    Clear step params ∧ ∀ rejection, ¬ Objection step params p rejection := by
  constructor
  · intro h
    constructor
    · intro before q after he
      exact h before q (after ++ [p]) (by rw [he, List.append_assoc, List.cons_append])
    · exact h params p [] rfl
  · rintro ⟨hparams, hp⟩ before q after he
    rcases List.eq_nil_or_concat' after with rfl | ⟨front, last, rfl⟩
    · obtain ⟨rfl, hq⟩ := List.append_inj' he rfl
      cases hq
      exact hp
    · rw [← List.cons_append, ← List.append_assoc] at he
      exact hparams before q front (List.append_inj' he rfl).1

theorem clear_or_firstRejected (step : String) (params : List Param) :
    Clear step params ∨ ∃ rejection, FirstRejected step params rejection := by
  -- A parameter is judged by those before it, so the induction is from the back.
  induction params using List.reverseRecOn with
  | nil => exact .inl clear_nil
  | append_singleton params p ih =>
    rcases ih with hclear | ⟨rejection, before, q, after, rfl, hbefore, hq⟩
    · rcases not_objection_or_first step params p with hp | ⟨rejection, hp⟩
      · exact .inl (clear_snoc.mpr ⟨hclear, hp⟩)
      · exact .inr ⟨rejection, params, p, [], rfl, hclear, hp⟩
    · exact .inr ⟨rejection, before, q, after ++ [p],
        by rw [List.append_assoc, List.cons_append], hbefore, hq⟩

theorem clear_iff : Clear step params ↔
    (∀ p ∈ params, p.name ∉ Signature.reserved) ∧ (params.map Param.name).Nodup ∧
      (∀ p ∈ params, p.typeName ∈ LiteralType.names) ∧
      params.Pairwise (fun p q => q.default = none → p.default = none) ∧
      ∀ p ∈ params, ∀ text, p.default = some text → p.Reads text := by
  induction params using List.reverseRecOn with
  | nil => simp [clear_nil]
  | append_singleton params p ih =>
    rw [clear_snoc, ih, not_objection_iff]
    simp only [List.forall_mem_append, List.map_append, List.map_cons,
      List.map_nil, List.nodup_append, List.nodup_singleton, List.pairwise_append,
      List.pairwise_singleton, List.mem_singleton, forall_eq]
    grind

end Objections

end Param

/-- How many parameters need a literal. -/
def needed (params : List Param) : Nat :=
  params.countP fun p => p.default.isNone

section Needed

variable {p : Param} {params : List Param}

theorem needed_cons_of_none (h : p.default = none) : needed (p :: params) = needed params + 1 := by
  rw [needed, List.countP_cons_of_pos (by simp [h]), needed]

theorem needed_cons_of_some (h : p.default ≠ none) : needed (p :: params) = needed params := by
  rw [needed, List.countP_cons_of_neg (by simp [h]), needed]

theorem needed_eq_zero (h : ∀ p ∈ params, p.default ≠ none) : needed params = 0 := by
  apply List.countP_eq_zero.mpr
  intro p hp hn
  exact h p hp (Option.isNone_iff_eq_none.mp hn)

theorem needed_le_length (params : List Param) : needed params ≤ params.length :=
  List.countP_le_length

end Needed

namespace Signature

/-- The check of the parameters behind those of `before`. -/
def countBehind (step : String) (before params : List Param) : Except Rejection Nat :=
  countRequired step (before.map Param.name).reverse (before.any fun p => p.default.isSome)
    (needed before) params

section Counting

variable {step : String} {before params : List Param} {p : Param} {rejection : Rejection}

theorem countBehind_cons (h : ∀ rejection, ¬ p.Objection step before rejection) :
    countBehind step before (p :: params) = countBehind step (before ++ [p]) params := by
  obtain ⟨hreserved, hrepeated, htype, hdefault, hreads⟩ := Param.not_objection_iff.mp h
  have htype : LiteralType.ofName? p.typeName ≠ none :=
    fun hn => LiteralType.ofName?_eq_none.mp hn htype
  rw [countBehind, countRequired, if_neg hreserved, if_neg (by simpa using hrepeated),
    if_neg htype]
  cases hd : p.default with
  | none =>
    have hb : (before.any fun p => p.default.isSome) = false := by simpa using hdefault hd
    simp [countBehind, needed, hd, hb]
  | some text =>
    obtain ⟨value, hv⟩ := hreads text hd
    simp [countBehind, needed, hd, hv]

theorem countBehind_cons_of_first (h : p.FirstObjection step before rejection) :
    countBehind step before (p :: params) = .error rejection := by
  obtain ⟨ho, hfirst⟩ := h
  -- An earlier check that fails would be an objection of lower rank.
  have hreserved (hr : (Rejection.reservedName step p.name).rank < rejection.rank) :
      p.name ∉ reserved :=
    fun hn => Nat.not_le_of_lt hr (hfirst _ (.reserved hn))
  have hrepeated (hr : (Rejection.repeatedParam step p.name).rank < rejection.rank) :
      p.name ∉ (before.map Param.name).reverse :=
    fun hn => Nat.not_le_of_lt hr (hfirst _ (.repeated (List.mem_reverse.mp hn)))
  have htype (hr : (Rejection.unknownType step p.name p.typeName).rank < rejection.rank) :
      LiteralType.ofName? p.typeName ≠ none :=
    fun hn => Nat.not_le_of_lt hr (hfirst _ (.unknownType (LiteralType.ofName?_eq_none.mp hn)))
  rw [countBehind, countRequired]
  cases ho with
  | reserved hn => rw [if_pos hn]
  | repeated hn => rw [if_neg (hreserved (by simp)), if_pos (List.mem_reverse.mpr hn)]
  | unknownType hn =>
    rw [if_neg (hreserved (by simp)), if_neg (hrepeated (by simp)),
      if_pos (LiteralType.ofName?_eq_none.mpr hn)]
  | lacksDefault hd hn =>
    have hb : (before.any fun p => p.default.isSome) = true := by
      simpa [Option.isSome_iff_ne_none] using hn
    rw [if_neg (hreserved (by simp)), if_neg (hrepeated (by simp)),
      if_neg (htype (by simp))]
    simp [hd, hb]
  | badDefault hd hv =>
    rw [if_neg (hreserved (by simp)), if_neg (hrepeated (by simp)),
      if_neg (htype (by simp))]
    simp [hd, hv]

theorem countBehind_of_clear (h : Param.Clear step before) :
    countBehind step [] (before ++ params) = countBehind step before params := by
  induction before using List.reverseRecOn generalizing params with
  | nil => rfl
  | append_singleton before p ih =>
    obtain ⟨hbefore, hp⟩ := Param.clear_snoc.mp h
    rw [List.append_assoc, ih hbefore]
    exact countBehind_cons hp

theorem countRequired_of_clear (h : Param.Clear step params) :
    countRequired step [] false 0 params = .ok (needed params) := by
  have hc : countBehind step [] (params ++ []) = countBehind step params [] :=
    countBehind_of_clear h
  rwa [List.append_nil] at hc

theorem countRequired_of_firstRejected (h : Param.FirstRejected step params rejection) :
    countRequired step [] false 0 params = .error rejection := by
  obtain ⟨before, p, after, rfl, hbefore, hp⟩ := h
  exact (countBehind_of_clear hbefore).trans (countBehind_cons_of_first hp)

end Counting

section Marking

theorem exists_markReducer_eq (name : String) : ∃ rest, markReducer name = reducerMark ++ rest := by
  rw [markReducer]
  split
  · rename_i h
    obtain ⟨rest, hrest⟩ := List.isPrefixOf_iff_prefix.mp h
    use String.ofList rest
    apply String.toList_inj.mp
    rw [String.toList_append, String.toList_ofList, hrest]
  · exact ⟨name, rfl⟩

theorem markReducer_mark (rest : String) :
    markReducer (reducerMark ++ rest) = reducerMark ++ rest := by
  rw [markReducer, String.toList_append, if_pos]
  exact List.isPrefixOf_iff_prefix.mpr (List.prefix_append _ _)

theorem markReducer_markReducer (name : String) :
    markReducer (markReducer name) = markReducer name := by
  obtain ⟨rest, h⟩ := exists_markReducer_eq name
  rw [h, markReducer_mark]

theorem markReducer_ne_empty (name : String) : markReducer name ≠ "" := by
  obtain ⟨rest, h⟩ := exists_markReducer_eq name
  rw [h]
  intro he
  have hl := congrArg String.toList he
  rw [String.toList_append] at hl
  cases hl

end Marking

end Signature

/-- Of parameters among which those without a default come first, these are the first ones. -/
theorem lt_needed_iff {params : List Param} {i : Nat} {p : Param}
    (h : params.Pairwise fun p q => q.default = none → p.default = none)
    (hp : params[i]? = some p) : i < needed params ↔ p.default = none := by
  induction params generalizing i with
  | nil => cases hp
  | cons q params ih =>
    obtain ⟨hq, h⟩ := List.pairwise_cons.mp h
    by_cases hd : q.default = none
    · rw [needed_cons_of_none hd]
      cases i with
      | zero =>
        cases hp
        exact iff_of_true (Nat.zero_lt_succ _) hd
      | succ i => exact Nat.succ_lt_succ_iff.trans (ih h hp)
    · have hall : ∀ p ∈ params, p.default ≠ none := fun p hp hn => hd (hq p hp hn)
      have hdefault : ∀ p ∈ q :: params, p.default ≠ none := List.forall_mem_cons.mpr ⟨hd, hall⟩
      rw [needed_cons_of_some hd, needed_eq_zero hall]
      exact iff_of_false (Nat.not_lt_zero i) (hdefault p (List.mem_of_getElem? hp))

namespace Schema

variable {schema : Schema}

/-- The name that an accepted step type is known by. -/
def acceptedName (schema : Schema) : String :=
  if schema.kind = .reducer then Signature.markReducer schema.name else schema.name

def accepted (schema : Schema) : Schema :=
  { schema with name := schema.acceptedName }

/-- A reducer takes one item and produces one. -/
def ItemsFit (schema : Schema) : Prop :=
  schema.kind = .reducer → schema.inputs.length = 1 ∧ schema.outputs.length = 1

/-- What a schema has to keep to. -/
structure WellFormed (schema : Schema) : Prop where
  named : schema.name ≠ ""
  items : schema.ItemsFit
  unreserved : ∀ p ∈ schema.params, p.name ∉ Signature.reserved
  nodup : (schema.params.map Param.name).Nodup
  known : ∀ p ∈ schema.params, p.typeName ∈ LiteralType.names
  ordered : schema.params.Pairwise fun p q => q.default = none → p.default = none
  reads : ∀ p ∈ schema.params, ∀ text, p.default = some text → p.Reads text

/-- What a schema is rejected for: its name, its items, or else the first parameter at fault. -/
inductive Rejected (schema : Schema) : Rejection → Prop
  | unnamed : schema.name = "" → Rejected schema .unnamed
  | items : schema.name ≠ "" → ¬ schema.ItemsFit → Rejected schema (.reducerItems schema.name)
  | param {rejection : Rejection} : schema.name ≠ "" → schema.ItemsFit →
      Param.FirstRejected schema.acceptedName schema.params rejection → Rejected schema rejection

theorem itemsFit_iff : schema.ItemsFit ↔
    ¬ (schema.kind = .reducer ∧ (schema.inputs.length ≠ 1 ∨ schema.outputs.length ≠ 1)) := by
  rw [ItemsFit, not_and, not_or, not_not, not_not]

theorem acceptedName_eq_self (h : schema.kind ≠ .reducer) : schema.acceptedName = schema.name :=
  if_neg h

theorem acceptedName_accepted (schema : Schema) :
    schema.accepted.acceptedName = schema.acceptedName := by
  by_cases h : schema.kind = .reducer
  · have hname : schema.acceptedName = Signature.markReducer schema.name := if_pos h
    have hmark : schema.accepted.acceptedName = Signature.markReducer schema.acceptedName :=
      if_pos h
    rw [hmark, hname]
    exact Signature.markReducer_markReducer _
  · exact acceptedName_eq_self h

theorem WellFormed.accepted (h : schema.WellFormed) : schema.accepted.WellFormed := by
  refine { h with named := ?_ }
  change schema.acceptedName ≠ ""
  by_cases hk : schema.kind = .reducer
  · rw [acceptedName, if_pos hk]
    exact Signature.markReducer_ne_empty _
  · rw [acceptedName_eq_self hk]
    exact h.named

theorem wellFormed_or_rejected (schema : Schema) :
    schema.WellFormed ∨ ∃ rejection, schema.Rejected rejection := by
  by_cases hn : schema.name = ""
  · exact .inr ⟨_, .unnamed hn⟩
  by_cases hi : schema.ItemsFit
  · rcases Param.clear_or_firstRejected schema.acceptedName schema.params with h | ⟨rejection, h⟩
    · obtain ⟨hreserved, hnodup, hknown, hordered, hreads⟩ := Param.clear_iff.mp h
      exact .inl ⟨hn, hi, hreserved, hnodup, hknown, hordered, hreads⟩
    · exact .inr ⟨rejection, .param hn hi h⟩
  · exact .inr ⟨_, .items hn hi⟩

end Schema

namespace Signature

section Schemas

variable {schema : Schema} {s : Signature} {rejection : Rejection}

theorem ofSchema_of_wellFormed (h : schema.WellFormed) : ofSchema schema =
    .ok ⟨schema.accepted, needed schema.params, schema.params.length⟩ := by
  have hc : countRequired schema.acceptedName [] false 0 schema.params =
      .ok (needed schema.params) :=
    countRequired_of_clear
      (Param.clear_iff.mpr ⟨h.unreserved, h.nodup, h.known, h.ordered, h.reads⟩)
  rw [Schema.acceptedName] at hc
  rw [ofSchema, if_neg h.named, if_neg (Schema.itemsFit_iff.mp h.items)]
  simp only [hc]
  rfl

theorem ofSchema_of_rejected (h : schema.Rejected rejection) :
    ofSchema schema = .error rejection := by
  cases h with
  | unnamed hn => rw [ofSchema, if_pos hn]
  | items hn hi =>
    rw [ofSchema, if_neg hn, if_pos (Classical.not_not.mp (mt Schema.itemsFit_iff.mpr hi))]
  | param hn hi hp =>
    have hc := countRequired_of_firstRejected hp
    rw [Schema.acceptedName] at hc
    rw [ofSchema, if_neg hn, if_neg (Schema.itemsFit_iff.mp hi)]
    simp only [hc]

theorem ofSchema_eq_error : ofSchema schema = .error rejection ↔ schema.Rejected rejection := by
  constructor
  · intro h
    rcases schema.wellFormed_or_rejected with hw | ⟨other, ho⟩
    · cases (ofSchema_of_wellFormed hw).symm.trans h
    · cases (ofSchema_of_rejected ho).symm.trans h
      exact ho
  · exact ofSchema_of_rejected

theorem wellFormed_of_ofSchema (h : ofSchema schema = .ok s) : schema.WellFormed := by
  rcases schema.wellFormed_or_rejected with hw | ⟨rejection, hr⟩
  · exact hw
  · cases (ofSchema_of_rejected hr).symm.trans h

theorem name_of_ofSchema (h : ofSchema schema = .ok s) : s.name = schema.acceptedName := by
  cases (ofSchema_of_wellFormed (wellFormed_of_ofSchema h)).symm.trans h
  rfl

/-- What a signature says of the schema that it was made of. -/
structure Describes (s : Signature) (schema : Schema) : Prop where
  required : s.required = needed schema.params
  required_first : ∀ i p, schema.params[i]? = some p → (i < s.required ↔ p.default = none)
  maximum : s.maximum = schema.params.length
  renamed : s.schema = { schema with name := s.name }
  kept : schema.kind ≠ .reducer → s.schema = schema
  again : ofSchema s.schema = .ok s

theorem describes_of_ofSchema (h : ofSchema schema = .ok s) : s.Describes schema := by
  have hw := wellFormed_of_ofSchema h
  cases (ofSchema_of_wellFormed hw).symm.trans h
  refine ⟨rfl, fun i p => lt_needed_iff hw.ordered, rfl, rfl, ?_, ?_⟩
  · intro hk
    rw [Schema.accepted, Schema.acceptedName_eq_self hk]
  · rw [ofSchema_of_wellFormed hw.accepted, Schema.accepted, Schema.acceptedName_accepted]
    rfl

/-- Exactly the well-formed schemas are accepted, as they are but for the mark of a reducer. Any
other schema is rejected for the first fault in the order in which the checks are made. -/
theorem ofSchema_ok_iff_wellFormed (schema : Schema) :
    ((∃ s, ofSchema schema = .ok s) ↔ schema.WellFormed) ∧
    (∀ s, ofSchema schema = .ok s → s.Describes schema) ∧
    ∀ rejection, ofSchema schema = .error rejection ↔ schema.Rejected rejection := by
  refine ⟨⟨?_, ?_⟩, fun s => describes_of_ofSchema, fun rejection => ofSchema_eq_error⟩
  · rintro ⟨s, h⟩
    exact wellFormed_of_ofSchema h
  · exact fun h => ⟨_, ofSchema_of_wellFormed h⟩

example : ofSchema ((Schema.bare "scale" .parallel "Multiply the items").inPlace "item"
    |>.param ⟨"by", "int", some "2", "Factor"⟩
    |>.param ⟨"by", "rational", none, "Divisor"⟩
    |>.param ⟨"kind", "bool", none, "Rounding"⟩) = .error (.repeatedParam "scale" "by") := rfl

end Schemas

end Signature

end DirectiveFlow
