import DirectiveFlow.Proofs.Locating
import DirectiveFlow.Proofs.Validating
import DirectiveFlow.Standard

namespace DirectiveFlow

theorem LiteralType.name_of_ofName? {name : String} {type : LiteralType}
    (h : ofName? name = some type) : type.name = name := by
  unfold ofName? at h
  split at h <;> cases h <;> rfl

theorem Value.ofLiteral_eq_ok {typeName text : String} {value : Value}
    (h : ofLiteral typeName text = .ok value) :
    ∃ type, LiteralType.ofName? typeName = some type ∧ type.read? text = some value := by
  rw [ofLiteral] at h
  cases ht : LiteralType.ofName? typeName with
  | none =>
    rw [ht] at h
    cases h
  | some type =>
    cases hr : type.read? text with
    | none =>
      simp only [ht, hr] at h
      cases h
    | some read =>
      simp only [ht, hr] at h
      cases h
      exact ⟨type, rfl, hr⟩

/-- The getter of a type answers with the value. -/
def Arguments.Gives (arguments : Arguments) (name : String) (value : Value) : LiteralType → Prop
  | .int => ∃ n, arguments.int name = .ok n ∧ value = .int n
  | .float => ∃ x, arguments.float name = .ok x ∧ value = .float x
  | .string => ∃ text, arguments.string name = .ok text ∧ value = .string text
  | .bool => ∃ b, arguments.bool name = .ok b ∧ value = .bool b

theorem Arguments.gives_of_read {arguments : Arguments} {name text : String} {value : Value}
    {type : LiteralType} (ha : arguments[name]? = some value) (hr : type.read? text = some value) :
    arguments.Gives name value type := by
  have htyped {α : Type} {expected : String} {view : Value → Option α} {a : α}
      (hv : view value = some a) : arguments.typed expected view name = .ok a := by
    simp only [typed, ha, hv]
  cases type with
  | int =>
    obtain ⟨n, -, rfl⟩ := Option.map_eq_some_iff.mp hr
    exact ⟨n, htyped rfl, rfl⟩
  | float =>
    obtain ⟨x, -, rfl⟩ := Option.map_eq_some_iff.mp hr
    exact ⟨x, htyped rfl, rfl⟩
  | string =>
    cases hr
    exact ⟨text, htyped rfl, rfl⟩
  | bool =>
    simp only [LiteralType.read?] at hr
    split at hr
    all_goals cases hr
    all_goals exact ⟨_, htyped rfl, rfl⟩

namespace Param

/-- A parameter of a known type that reads its own default. -/
structure Sound (p : Param) : Prop where
  known : ∃ type, LiteralType.ofName? p.typeName = some type
  reads_default : ∀ text, p.default = some text → p.Reads text

end Param

namespace Signature

/-- Parameters that a call can bind: of different names, sound, those with a default last. -/
structure Bindable (params : List Param) : Prop where
  nodup : (params.map Param.name).Nodup
  sound : ∀ p ∈ params, p.Sound
  default : ∀ p ∈ params.drop (needed params), p.default ≠ none

theorem Bindable.of_wellFormed {schema : Schema} (h : schema.WellFormed) :
    Bindable schema.params := by
  refine ⟨h.nodup, fun p hp => ⟨?_, h.reads p hp⟩, fun p hp hn => ?_⟩
  · apply Option.ne_none_iff_exists'.mp
    intro ht
    exact LiteralType.ofName?_eq_none.mp ht (h.known p hp)
  · obtain ⟨i, hi⟩ := List.mem_iff_getElem?.mp hp
    rw [List.getElem?_drop] at hi
    exact Nat.not_lt_of_le (Nat.le_add_right _ i) ((lt_needed_iff h.ordered hi).mpr hn)

theorem bindable_of_ofSchema {schema : Schema} {s : Signature} (h : ofSchema schema = .ok s) :
    Bindable schema.params ∧ s.schema.params = schema.params ∧
      s.required = needed schema.params ∧ s.maximum = schema.params.length := by
  have hd := describes_of_ofSchema h
  refine ⟨.of_wellFormed (wellFormed_of_ofSchema h), ?_, hd.required, hd.maximum⟩
  rw [hd.renamed]

/-- The text of each parameter: its literal, or its default when the literals have ended. -/
def supplied : List Param → List String → List (Param × String)
  | [], _ => []
  | p :: rest, literals =>
    match literals.head? <|> p.default with
    | none => supplied rest literals.tail
    | some text => (p, text) :: supplied rest literals.tail

/-- Takes the value of one parameter from its text. -/
def readOne (step : String) (arguments : Arguments) (given : Param × String) :
    Except CallFault Arguments :=
  match Value.ofLiteral given.1.typeName given.2 with
  | .error _ => .error (.badLiteral step given.1.name given.1.typeName)
  | .ok value => .ok (arguments.insert given.1.name value)

def defaults (params : List Param) : List (Param × String) :=
  params.filterMap fun p => p.default.map (p, ·)

section Reading

variable {step : String} {arguments arguments' : Arguments} {p : Param} {params : List Param}
  {text : String} {literals : List String} {given before after : List (Param × String)}

theorem readFrom_eq (step : String) (arguments : Arguments) (params : List Param)
    (literals : List String) : readFrom step arguments params literals =
      (supplied params literals).foldlM (readOne step) arguments := by
  induction params generalizing arguments literals with
  | nil => rfl
  | cons p params ih =>
    rw [readFrom, supplied]
    cases ht : literals.head? <|> p.default with
    | none => exact ih arguments literals.tail
    | some text =>
      simp only [List.foldlM_cons, readOne]
      cases hv : Value.ofLiteral p.typeName text with
      | error cause => rfl
      | ok value => exact ih (arguments.insert p.name value) literals.tail

theorem supplied_eq_append (params : List Param) (literals : List String) :
    supplied params literals =
      params.zip literals ++ defaults (params.drop literals.length) := by
  induction params generalizing literals with
  | nil =>
    rw [List.drop_nil]
    rfl
  | cons p params ih =>
    rw [supplied, ih]
    cases literals with
    | cons literal literals => rfl
    | nil =>
      cases hd : p.default with
      | none => simp [hd, defaults]
      | some text => simp [hd, defaults]

theorem map_fst_supplied (h : ∀ p ∈ params.drop literals.length, p.default ≠ none) :
    (supplied params literals).map Prod.fst = params := by
  induction params generalizing literals with
  | nil => rfl
  | cons p params ih =>
    rw [supplied]
    cases literals with
    | cons literal literals => exact congrArg (p :: ·) (ih h)
    | nil =>
      obtain ⟨hp, h⟩ := List.forall_mem_cons.mp h
      obtain ⟨text, ht⟩ := Option.ne_none_iff_exists'.mp hp
      rw [ht]
      exact congrArg (p :: ·) (ih h)

/-- Each parameter has the text at its own place, and its default only past the last literal. -/
theorem mem_supplied (h : ∀ p ∈ params.drop literals.length, p.default ≠ none) {i : Nat}
    (hp : params[i]? = some p) :
    ∃ text, (literals[i]? <|> p.default) = some text ∧ (p, text) ∈ supplied params literals := by
  induction params generalizing literals i with
  | nil => cases hp
  | cons q params ih =>
    rw [supplied]
    cases literals with
    | cons literal literals =>
      cases i with
      | zero =>
        cases hp
        exact ⟨literal, rfl, List.mem_cons_self⟩
      | succ i =>
        obtain ⟨text, ht, hm⟩ := ih h hp
        exact ⟨text, ht, List.mem_cons_of_mem _ hm⟩
    | nil =>
      obtain ⟨hq, h⟩ := List.forall_mem_cons.mp h
      obtain ⟨default, hd⟩ := Option.ne_none_iff_exists'.mp hq
      rw [hd]
      cases i with
      | zero =>
        cases hp
        exact ⟨default, hd, List.mem_cons_self⟩
      | succ i =>
        have h : ∀ p ∈ params.drop ([] : List String).length, p.default ≠ none := h
        obtain ⟨text, ht, hm⟩ := ih h hp
        exact ⟨text, ht, List.mem_cons_of_mem _ hm⟩

theorem foldlM_readOne (step : String) (h : ∀ g ∈ given, g.1.Reads g.2)
    (hn : (given.map (·.1.name)).Nodup) (hf : ∀ g ∈ given, g.1.name ∉ arguments) :
    ∃ arguments', given.foldlM (readOne step) arguments = .ok arguments' ∧
      arguments'.size = arguments.size + given.length ∧
      (∀ name, name ∈ arguments' ↔ name ∈ given.map (·.1.name) ∨ name ∈ arguments) ∧
      (∀ name ∉ given.map (·.1.name), arguments'[name]? = arguments[name]?) ∧
      ∀ g ∈ given, ∃ value, Value.ofLiteral g.1.typeName g.2 = .ok value ∧
        arguments'[g.1.name]? = some value := by
  induction given generalizing arguments with
  | nil => exact ⟨arguments, rfl, rfl, by simp, fun _ _ => rfl, nofun⟩
  | cons g given ih =>
    obtain ⟨⟨value, hv⟩, h⟩ := List.forall_mem_cons.mp h
    obtain ⟨hg, hf⟩ := List.forall_mem_cons.mp hf
    rw [List.map_cons, List.nodup_cons] at hn
    have hfresh : ∀ g' ∈ given, g'.1.name ∉ arguments.insert g.1.name value := by
      intro g' hg' hm
      rcases Std.ExtTreeMap.mem_insert.mp hm with he | hm
      · exact hn.1 (List.mem_map.mpr ⟨g', hg', (Std.compare_eq_iff_eq.mp he).symm⟩)
      · exact hf g' hg' hm
    obtain ⟨arguments', hfold, hsize, hmem, hother, hentry⟩ := ih h hn.2 hfresh
    have hread : readOne step arguments g = .ok (arguments.insert g.1.name value) := by
      rw [readOne, hv]
    refine ⟨arguments', ?_, ?_, ?_, ?_, ?_⟩
    · rw [List.foldlM_cons, hread]
      exact hfold
    · rw [hsize, Std.ExtTreeMap.size_insert, if_neg (mt Std.ExtTreeMap.mem_iff_contains.mpr hg),
        List.length_cons]
      omega
    · intro name
      rw [hmem, Std.ExtTreeMap.mem_insert, Std.compare_eq_iff_eq, List.map_cons, List.mem_cons]
      grind
    · intro name hname
      rw [List.map_cons, List.mem_cons, not_or] at hname
      rw [hother name hname.2, Std.ExtTreeMap.getElem?_insert, if_neg]
      exact fun he => hname.1 (Std.compare_eq_iff_eq.mp he).symm
    · intro g' hg'
      rcases List.mem_cons.mp hg' with rfl | hg'
      · exact ⟨value, hv, by rw [hother _ hn.1, Std.ExtTreeMap.getElem?_insert_self]⟩
      · exact hentry g' hg'

theorem foldlM_readOne_of_unread (h : ∀ g ∈ before, g.1.Reads g.2) (hp : ¬ p.Reads text) :
    (before ++ (p, text) :: after).foldlM (readOne step) arguments =
      .error (.badLiteral step p.name p.typeName) := by
  induction before generalizing arguments with
  | nil =>
    have hread :
        readOne step arguments (p, text) = .error (.badLiteral step p.name p.typeName) := by
      rw [readOne]
      cases hv : Value.ofLiteral p.typeName text with
      | error cause => rfl
      | ok value => exact (hp ⟨value, hv⟩).elim
    rw [List.nil_append, List.foldlM_cons, hread]
    rfl
  | cons g before ih =>
    obtain ⟨⟨value, hv⟩, h⟩ := List.forall_mem_cons.mp h
    have hread : readOne step arguments g = .ok (arguments.insert g.1.name value) := by
      rw [readOne, hv]
    rw [List.cons_append, List.foldlM_cons, hread]
    exact ih h

end Reading

end Signature

/-- One argument for each parameter and no other: what its literal is read as, or its default
when there is no literal at its place. The getter of its type answers with it. -/
structure Arguments.Bind (arguments : Arguments) (params : List Param) (literals : List String) :
    Prop where
  size : arguments.size = params.length
  mem_iff : ∀ name, name ∈ arguments ↔ name ∈ params.map Param.name
  entry : ∀ (i : Nat) (p : Param), params[i]? = some p → ∃ text value type,
    (literals[i]? <|> p.default) = some text ∧ Value.ofLiteral p.typeName text = .ok value ∧
      arguments[p.name]? = some value ∧ type.name = p.typeName ∧ arguments.Gives p.name value type

namespace Signature

/-- Neither too few literals for the parameters nor too many. -/
def Counts (params : List Param) (literals : List String) : Prop :=
  needed params ≤ literals.length ∧ literals.length ≤ params.length

/-- The first parameter that can not read the literal at its place. -/
def FirstUnread (params : List Param) (literals : List String) (p : Param) : Prop :=
  ∃ before text after, params.zip literals = before ++ (p, text) :: after ∧
    (∀ given ∈ before, given.1.Reads given.2) ∧ ¬ p.Reads text

/-- The answer to literals, by what is wrong with them. -/
inductive Answer (step : String) (params : List Param) (literals : List String) :
    Except CallFault Arguments → Prop
  | few : literals.length < needed params →
      Answer step params literals (.error (.tooFewLiterals step (needed params) literals.length))
  | many : params.length < literals.length →
      Answer step params literals (.error (.tooManyLiterals step params.length literals.length))
  | unread {p : Param} : Counts params literals → FirstUnread params literals p →
      Answer step params literals (.error (.badLiteral step p.name p.typeName))
  | read {arguments : Arguments} : Counts params literals →
      (∀ given ∈ params.zip literals, given.1.Reads given.2) → arguments.Bind params literals →
      Answer step params literals (.ok arguments)

section Arguments

variable {schema : Schema} {s : Signature} {literals : List String} {p : Param}

theorem arguments_of_few (h : ofSchema schema = .ok s)
    (hl : literals.length < needed schema.params) : s.arguments literals =
      .error (.tooFewLiterals s.name (needed schema.params) literals.length) := by
  obtain ⟨-, -, hr, -⟩ := bindable_of_ofSchema h
  rw [arguments, hr, if_pos hl]

theorem arguments_of_many (h : ofSchema schema = .ok s)
    (hl : schema.params.length < literals.length) : s.arguments literals =
      .error (.tooManyLiterals s.name schema.params.length literals.length) := by
  obtain ⟨-, -, hr, hm⟩ := bindable_of_ofSchema h
  have hn := needed_le_length schema.params
  rw [arguments, hr, hm, if_neg (by omega), if_pos hl]

theorem arguments_eq_foldlM (h : ofSchema schema = .ok s) (hc : Counts schema.params literals) :
    s.arguments literals = (schema.params.zip literals ++
      defaults (schema.params.drop literals.length)).foldlM (readOne s.name) ∅ := by
  obtain ⟨-, hp, hr, hm⟩ := bindable_of_ofSchema h
  obtain ⟨hfew, hmany⟩ := hc
  rw [arguments, hr, hm, if_neg (by omega), if_neg (by omega), readFrom_eq, supplied_eq_append, hp]

theorem arguments_of_unread (h : ofSchema schema = .ok s) (hc : Counts schema.params literals)
    (hu : FirstUnread schema.params literals p) :
    s.arguments literals = .error (.badLiteral s.name p.name p.typeName) := by
  obtain ⟨before, text, after, he, hbefore, hp⟩ := hu
  rw [arguments_eq_foldlM h hc, he, List.append_assoc, List.cons_append]
  exact foldlM_readOne_of_unread hbefore hp

theorem arguments_of_read (h : ofSchema schema = .ok s) (hc : Counts schema.params literals)
    (hl : ∀ given ∈ schema.params.zip literals, given.1.Reads given.2) :
    ∃ arguments, s.arguments literals = .ok arguments ∧
      arguments.Bind schema.params literals := by
  obtain ⟨hb, -⟩ := bindable_of_ofSchema h
  have hdefault : ∀ p ∈ schema.params.drop literals.length, p.default ≠ none := by
    intro p hp
    apply hb.default p
    rw [← Nat.add_sub_cancel' hc.1, ← List.drop_drop] at hp
    exact List.mem_of_mem_drop hp
  have hnames :
      (supplied schema.params literals).map (·.1.name) = schema.params.map Param.name := by
    have he := congrArg (List.map Param.name) (map_fst_supplied hdefault)
    rwa [List.map_map] at he
  have hreads : ∀ given ∈ supplied schema.params literals, given.1.Reads given.2 := by
    intro given hg
    rw [supplied_eq_append] at hg
    rcases List.mem_append.mp hg with hg | hg
    · exact hl given hg
    · obtain ⟨p, hp, hd⟩ := List.mem_filterMap.mp hg
      obtain ⟨text, ht, rfl⟩ := Option.map_eq_some_iff.mp hd
      exact (hb.sound p (List.mem_of_mem_drop hp)).reads_default text ht
  have hfresh : ∀ given ∈ supplied schema.params literals,
      given.1.name ∉ (∅ : Arguments) := fun _ _ => Std.ExtTreeMap.not_mem_empty
  obtain ⟨arguments, hfold, hsize, hmem, -, hentry⟩ :=
    foldlM_readOne s.name hreads (hnames ▸ hb.nodup) hfresh
  refine ⟨arguments, ?_, ?_, ?_, ?_⟩
  · rw [arguments_eq_foldlM h hc, ← supplied_eq_append]
    exact hfold
  · rw [hsize, ← List.length_map (f := (·.1.name)), hnames, List.length_map]
    exact Nat.zero_add _
  · intro name
    rw [hmem, hnames]
    simp
  · intro i p hp
    obtain ⟨text, ht, hm⟩ := mem_supplied hdefault hp
    obtain ⟨value, hv, ha⟩ := hentry (p, text) hm
    obtain ⟨type, htype, hr⟩ := Value.ofLiteral_eq_ok hv
    exact ⟨text, value, type, ht, hv, ha, LiteralType.name_of_ofName? htype,
      Arguments.gives_of_read ha hr⟩

theorem arguments_answer (h : ofSchema schema = .ok s) (literals : List String) :
    Answer s.name schema.params literals (s.arguments literals) := by
  by_cases hfew : literals.length < needed schema.params
  · rw [arguments_of_few h hfew]
    exact .few hfew
  by_cases hmany : schema.params.length < literals.length
  · rw [arguments_of_many h hmany]
    exact .many hmany
  have hc : Counts schema.params literals := ⟨Nat.le_of_not_lt hfew, Nat.le_of_not_lt hmany⟩
  rcases forall_or_first (fun given : Param × String => given.1.Reads given.2)
    (schema.params.zip literals) with hl | ⟨before, ⟨p, text⟩, after, he, hbefore, hp⟩
  · obtain ⟨arguments, ha, hb⟩ := arguments_of_read h hc hl
    rw [ha]
    exact .read hc hl hb
  · have hu : FirstUnread schema.params literals p := ⟨before, text, after, he, hbefore, hp⟩
    rw [arguments_of_unread h hc hu]
    exact .unread hc hu

/-- A call of an accepted step type fails for its literals alone: for their number, or for the
first of them that is not read, never for a default. Otherwise every parameter is bound. -/
theorem arguments_complete (h : ofSchema schema = .ok s) (literals : List String) :
    (∀ step required received,
      s.arguments literals = .error (.tooFewLiterals step required received) ↔
        literals.length < needed schema.params ∧
          step = s.name ∧ required = needed schema.params ∧ received = literals.length) ∧
    (∀ step maximum received,
      s.arguments literals = .error (.tooManyLiterals step maximum received) ↔
        schema.params.length < literals.length ∧
          step = s.name ∧ maximum = schema.params.length ∧ received = literals.length) ∧
    (∀ step param expected,
      s.arguments literals = .error (.badLiteral step param expected) ↔
        Counts schema.params literals ∧ ∃ p, FirstUnread schema.params literals p ∧
          step = s.name ∧ param = p.name ∧ expected = p.typeName) ∧
    ((∃ arguments, s.arguments literals = .ok arguments) ↔
      Counts schema.params literals ∧
        ∀ given ∈ schema.params.zip literals, given.1.Reads given.2) ∧
    ∀ arguments, s.arguments literals = .ok arguments →
      arguments.Bind schema.params literals := by
  have ha := arguments_answer h literals
  refine ⟨?_, ?_, ?_, ?_, ?_⟩
  · intro step required received
    constructor
    · intro hr
      rw [hr] at ha
      cases ha with
      | few hfew => exact ⟨hfew, rfl, rfl, rfl⟩
    · rintro ⟨hfew, rfl, rfl, rfl⟩
      exact arguments_of_few h hfew
  · intro step maximum received
    constructor
    · intro hr
      rw [hr] at ha
      cases ha with
      | many hmany => exact ⟨hmany, rfl, rfl, rfl⟩
    · rintro ⟨hmany, rfl, rfl, rfl⟩
      exact arguments_of_many h hmany
  · intro step param expected
    constructor
    · intro hr
      rw [hr] at ha
      cases ha with
      | unread hc hu => exact ⟨hc, _, hu, rfl, rfl, rfl⟩
    · rintro ⟨hc, p, hu, rfl, rfl, rfl⟩
      exact arguments_of_unread h hc hu
  · constructor
    · rintro ⟨arguments, hr⟩
      rw [hr] at ha
      cases ha with
      | read hc hl => exact ⟨hc, hl⟩
    · rintro ⟨hc, hl⟩
      obtain ⟨arguments, hr, -⟩ := arguments_of_read h hc hl
      exact ⟨arguments, hr⟩
  · intro arguments hr
    rw [hr] at ha
    cases ha with
    | read hc hl hb => exact hb

/-- A step type with one parameter that needs a literal and two that have a default. -/
def picking : Schema :=
  (Schema.bare "pick" .parallel "Keep the items up to a limit").inPlace "item"
    |>.param ⟨"limit", "int", none, "Largest item to keep"⟩
    |>.param ⟨"label", "string", some "item", "Name of what is kept"⟩
    |>.param ⟨"strict", "bool", some "no", "Fail on other items"⟩

theorem arguments_complete_of_picking : ∃ s, ofSchema picking = .ok s ∧
    (∃ arguments, s.arguments ["5", "x"] = .ok arguments ∧
      arguments.Bind picking.params ["5", "x"]) ∧
    s.arguments ["5", "x", "maybe"] = .error (.badLiteral "pick" "strict" "bool") ∧
    s.arguments [] = .error (.tooFewLiterals "pick" 1 0) := by
  have hs : ofSchema picking = .ok ⟨picking, 1, 3⟩ := rfl
  have hread : ∀ given ∈ picking.params.zip ["5", "x"], given.1.Reads given.2 :=
    List.forall_mem_cons.mpr ⟨⟨_, rfl⟩, List.forall_mem_cons.mpr ⟨⟨_, rfl⟩, nofun⟩⟩
  have hstrict : FirstUnread picking.params ["5", "x", "maybe"]
      ⟨"strict", "bool", some "no", "Fail on other items"⟩ :=
    ⟨picking.params.zip ["5", "x"], "maybe", [], rfl, hread, fun ⟨_, h⟩ => nomatch h⟩
  obtain ⟨-, -, -, hok, hbind⟩ := arguments_complete hs ["5", "x"]
  obtain ⟨-, -, hbad, -⟩ := arguments_complete hs ["5", "x", "maybe"]
  obtain ⟨hfew, -⟩ := arguments_complete hs []
  obtain ⟨arguments, ha⟩ := hok.mpr ⟨⟨by decide, by decide⟩, hread⟩
  refine ⟨_, hs, ⟨arguments, ha, hbind arguments ha⟩, ?_, ?_⟩
  · exact (hbad _ _ _).mpr ⟨⟨by decide, by decide⟩, _, hstrict, rfl, rfl, rfl⟩
  · exact (hfew _ _ _).mpr ⟨by decide, rfl, rfl, rfl⟩

end Arguments

end Signature

end DirectiveFlow
