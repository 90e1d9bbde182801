import DirectiveFlow.CommandLine.Options
import DirectiveFlow.Proofs.Numerals

namespace DirectiveFlow.CommandLine

/-- What one unit of a command line chooses. -/
inductive Choice where
  | workers (count : Nat)
  | reportStep (step : Float)
  | settings (path : String)
  | debug
  | script (path : String)

namespace Choice

inductive Kind where
  | workers
  | reportStep
  | settings
  | debug
  | script
  deriving DecidableEq

def kind : Choice → Kind
  | .workers _ => .workers
  | .reportStep _ => .reportStep
  | .settings _ => .settings
  | .debug => .debug
  | .script _ => .script

def workers? : Choice → Option Nat
  | .workers count => some count
  | _ => none

def reportStep? : Choice → Option Float
  | .reportStep step => some step
  | _ => none

def settings? : Choice → Option String
  | .settings path => some path
  | _ => none

def script? : Choice → Option String
  | .script path => some path
  | _ => none

/-- The arguments of a unit. The value of an option may look like an option or a script. -/
inductive Written : Choice → List String → Prop
  | workers {option value : String} {count : Nat} (ho : option ∈ ["-n", "--workers"])
    (hv : Integer.Unsigned value.toList count) : Written (.workers count) [option, value]
  | reportStep {option value : String} {step : Float} (ho : option ∈ ["-r", "--report-step"])
    (hv : Decimal.readFloat value = .ok step) : Written (.reportStep step) [option, value]
  | settings (path : String) : Written (.settings path) ["--config", path]
  | debug : Written .debug ["--debug"]
  | script {path : String} (h : path.toList.head? ≠ some '-') : Written (.script path) [path]

theorem filterMap_filter_kind {α : Type} {f : Choice → Option α} {kind : Kind}
    (hf : ∀ choice a, f choice = some a → choice.kind = kind) (choices : List Choice) :
    (choices.filter (·.kind = kind)).filterMap f = choices.filterMap f := by
  rw [List.filterMap_filter]
  apply List.filterMap_congr
  intro choice _
  split
  · rfl
  · rename_i hk
    cases hc : f choice with
    | none => rfl
    | some a => exact (hk (decide_eq_true (hf choice a hc))).elim

end Choice

/-- The arguments are those of units, one for each choice, from left to right. -/
inductive Spelled : List Choice → List String → Prop
  | nil : Spelled [] []
  | cons {choice : Choice} {choices : List Choice} {unit args : List String}
    (hu : choice.Written unit) (hs : Spelled choices args) :
    Spelled (choice :: choices) (unit ++ args)

def scripts (choices : List Choice) : List String :=
  choices.filterMap Choice.script?

namespace Options

/-- The options that choices come to: the last choice of a kind counts. -/
def ofChoices (choices : List Choice) : Options where
  script := (scripts choices).getLast?
  workers := (choices.filterMap Choice.workers?).getLast?
  debug := choices.any (·.kind = .debug)
  reportStep := (choices.filterMap Choice.reportStep?).getLast?
  settingsPath := (choices.filterMap Choice.settings?).getLast?

def choose (o : Options) : Choice → Options
  | .workers count => { o with workers := some count }
  | .reportStep step => { o with reportStep := some step }
  | .settings path => { o with settingsPath := some path }
  | .debug => { o with debug := true }
  | .script path => { o with script := some path }

variable {o o' : Options} {choice : Choice} {choices choices' before : List Choice}
  {unit args : List String}

theorem ofChoices_snoc (choices : List Choice) (choice : Choice) :
    ofChoices (choices ++ [choice]) = (ofChoices choices).choose choice := by
  cases choice <;>
    simp [ofChoices, choose, scripts, Choice.kind, Choice.script?, Choice.workers?,
      Choice.reportStep?, Choice.settings?]

/-- A unit is read as its choice, whatever stands behind it. -/
theorem readFrom_of_written (h : choice.Written unit) (o : Options) (args : List String) :
    o.readFrom (unit ++ args) =
      if choice.kind = .script ∧ o.script.isSome then .error .secondScript
      else (o.choose choice).readFrom args := by
  cases h with
  | workers ho hv =>
    have hread := Integer.readUnsigned_eq_ok.mpr hv
    rcases List.mem_pair.mp ho with rfl | rfl
    · simp [readFrom, hread, Choice.kind, choose]
    · simp [readFrom, hread, Choice.kind, choose]
  | reportStep ho hv =>
    rcases List.mem_pair.mp ho with rfl | rfl
    · simp [readFrom, hv, Choice.kind, choose]
    · simp [readFrom, hv, Choice.kind, choose]
  | settings path => simp [readFrom, Choice.kind, choose]
  | debug =>
    rw [List.singleton_append, readFrom.eq_def]
    simp [Choice.kind, choose]
  | @script path h =>
    have hne (option : String) (ho : option.toList.head? = some '-') : path ≠ option := by
      rintro rfl
      exact h ho
    rw [List.singleton_append, readFrom.eq_def]
    simp [hne "-n" rfl, hne "--workers" rfl, hne "-r" rfl, hne "--report-step" rfl,
      hne "--config" rfl, hne "--debug" rfl, h, Choice.kind, choose]

theorem exists_spelled (h : o.readFrom args = .ok o') : ∃ choices, Spelled choices args := by
  fun_induction readFrom o args with
  | case1 => exact ⟨[], .nil⟩
  | case4 o option ho value rest n hn ih =>
    obtain ⟨choices, hs⟩ := ih h
    have hu : (Choice.workers n).Written [option, value] :=
      .workers (List.mem_pair.mpr ho) (Integer.readUnsigned_eq_ok.mp hn)
    exact ⟨.workers n :: choices, .cons hu hs⟩
  | case7 o option _ ho value rest x hx ih =>
    obtain ⟨choices, hs⟩ := ih h
    have hu : (Choice.reportStep x).Written [option, value] :=
      .reportStep (List.mem_pair.mpr ho) hx
    exact ⟨.reportStep x :: choices, .cons hu hs⟩
  | case9 o path rest _ _ ih =>
    obtain ⟨choices, hs⟩ := ih h
    exact ⟨.settings path :: choices, .cons (.settings path) hs⟩
  | case10 o rest _ _ _ ih =>
    obtain ⟨choices, hs⟩ := ih h
    exact ⟨.debug :: choices, .cons .debug hs⟩
  | case13 o path rest _ _ _ _ hp _ ih =>
    obtain ⟨choices, hs⟩ := ih h
    exact ⟨.script path :: choices, .cons (.script hp) hs⟩
  | _ => cases h

theorem scripts_append (before choices : List Choice) :
    scripts (before ++ choices) = scripts before ++ scripts choices :=
  List.filterMap_append ..

theorem one_script_snoc (hb : (scripts before).length ≤ 1) :
    (scripts (before ++ [choice])).length ≤ 1 ↔
      ¬ (choice.kind = .script ∧ (ofChoices before).script.isSome) := by
  rw [scripts_append, List.length_append]
  cases choice with
  | script path => simp [scripts, Choice.script?, Choice.kind, ofChoices]
  | _ => simpa [scripts, List.filterMap_cons, Choice.script?, Choice.kind] using hb

/-- Read on from the options of the units before, the arguments give the options of all units,
unless there is a second script among these. -/
theorem readFrom_of_spelled (h : Spelled choices args) (hb : (scripts before).length ≤ 1) :
    (ofChoices before).readFrom args =
      if (scripts (before ++ choices)).length ≤ 1 then .ok (ofChoices (before ++ choices))
      else .error .secondScript := by
  induction h generalizing before with
  | nil => rw [List.append_nil, if_pos hb, readFrom]
  | @cons choice choices unit args hu hs ih =>
    rw [readFrom_of_written hu, ← ofChoices_snoc, List.append_cons before choice choices]
    by_cases hone : (scripts (before ++ [choice])).length ≤ 1
    · rw [if_neg ((one_script_snoc hb).mp hone), ih hone]
    · have hmany : ¬ (scripts (before ++ [choice] ++ choices)).length ≤ 1 := by
        rw [scripts_append, List.length_append]
        omega
      rw [if_pos (not_not.mp ((one_script_snoc hb).not.mp hone)), if_neg hmany]

theorem ofArguments_of_spelled (h : Spelled choices args) : ofArguments args =
    if (scripts choices).length ≤ 1 then .ok (ofChoices choices) else .error .secondScript := by
  have hnone : (scripts []).length ≤ 1 := Nat.zero_le 1
  exact readFrom_of_spelled h hnone

theorem alike_of_kinds (h : ∀ kind : Choice.Kind,
      choices.filter (·.kind = kind) = choices'.filter (·.kind = kind)) :
    scripts choices = scripts choices' ∧ ofChoices choices = ofChoices choices' := by
  have hsame {α : Type} (f : Choice → Option α) (kind : Choice.Kind)
      (hf : ∀ choice a, f choice = some a → choice.kind = kind) :
      choices.filterMap f = choices'.filterMap f := by
    rw [← Choice.filterMap_filter_kind hf choices, h kind, Choice.filterMap_filter_kind hf]
  have hscripts : scripts choices = scripts choices' :=
    hsame Choice.script? .script fun choice _ hc => by cases choice <;> cases hc; rfl
  have hworkers : choices.filterMap Choice.workers? = choices'.filterMap Choice.workers? :=
    hsame Choice.workers? .workers fun choice _ hc => by cases choice <;> cases hc; rfl
  have hreport : choices.filterMap Choice.reportStep? = choices'.filterMap Choice.reportStep? :=
    hsame Choice.reportStep? .reportStep fun choice _ hc => by cases choice <;> cases hc; rfl
  have hsettings : choices.filterMap Choice.settings? = choices'.filterMap Choice.settings? :=
    hsame Choice.settings? .settings fun choice _ hc => by cases choice <;> cases hc; rfl
  have hany (choices : List Choice) : choices.any (·.kind = .debug) =
      (choices.filter (·.kind = .debug)).any (·.kind = .debug) := by
    rw [List.any_filter]
    simp
  have hdebug : choices.any (·.kind = .debug) = choices'.any (·.kind = .debug) := by
    rw [hany, h .debug, ← hany]
  refine ⟨hscripts, ?_⟩
  rw [ofChoices, ofChoices, hscripts, hworkers, hdebug, hreport, hsettings]

/-- Arguments are accepted if and only if they are units with at most one script among them, and
then give what the units choose. Units of different kinds may change places. -/
theorem ofArguments_grammar (args : List String) :
    (∀ o, ofArguments args = .ok o ↔ ∃ choices, Spelled choices args ∧
      (scripts choices).length ≤ 1 ∧ o = ofChoices choices) ∧
    ∀ choices choices' args', Spelled choices args → Spelled choices' args' →
      (∀ kind : Choice.Kind, choices.filter (·.kind = kind) = choices'.filter (·.kind = kind)) →
        ofArguments args = ofArguments args' := by
  constructor
  · intro o
    constructor
    · intro h
      obtain ⟨choices, hs⟩ := exists_spelled h
      rw [ofArguments_of_spelled hs] at h
      split at h
      · rename_i hone
        cases h
        exact ⟨choices, hs, hone, rfl⟩
      · cases h
    · rintro ⟨choices, hs, hone, rfl⟩
      rw [ofArguments_of_spelled hs, if_pos hone]
  · intro choices choices' args' hs hs' h
    obtain ⟨hscripts, ho⟩ := alike_of_kinds h
    rw [ofArguments_of_spelled hs, ofArguments_of_spelled hs', hscripts, ho]

theorem ofArguments_grammar_of_value_like_option :
    Spelled [.settings "--debug", .script "flow", .workers 4]
      ["--config", "--debug", "flow", "-n", "+4"] ∧
    Spelled [.workers 4, .settings "--debug", .script "flow"]
      ["-n", "+4", "--config", "--debug", "flow"] ∧
    ofArguments ["--config", "--debug", "flow", "-n", "+4"] =
      .ok ⟨some "flow", some 4, false, .none, some "--debug"⟩ ∧
    ofArguments ["-n", "+4", "--config", "--debug", "flow"] =
      .ok ⟨some "flow", some 4, false, .none, some "--debug"⟩ := by
  have hfour : Integer.Unsigned "+4".toList 4 := Integer.readUnsigned_eq_ok.mp (by rfl)
  have hworkers : (Choice.workers 4).Written ["-n", "+4"] := .workers (by decide) hfour
  have hscript : (Choice.script "flow").Written ["flow"] := .script (by decide)
  have hs : Spelled [.settings "--debug", .script "flow", .workers 4]
      ["--config", "--debug", "flow", "-n", "+4"] :=
    .cons (.settings "--debug") (.cons hscript (.cons hworkers .nil))
  have hs' : Spelled [.workers 4, .settings "--debug", .script "flow"]
      ["-n", "+4", "--config", "--debug", "flow"] :=
    .cons hworkers (.cons (.settings "--debug") (.cons hscript .nil))
  obtain ⟨haccepts, hmoves⟩ := ofArguments_grammar ["--config", "--debug", "flow", "-n", "+4"]
  have ho := (haccepts _).mpr ⟨_, hs, by decide, rfl⟩
  exact ⟨hs, hs', ho, (hmoves _ _ _ hs hs' fun kind => by cases kind <;> rfl).symm.trans ho⟩

end Options

end DirectiveFlow.CommandLine
