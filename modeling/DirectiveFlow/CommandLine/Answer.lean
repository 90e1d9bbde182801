import DirectiveFlow.CommandLine.Options
import DirectiveFlow.Flow.Draft
import DirectiveFlow.Run.Flow
import DirectiveFlow.Settings.File
import DirectiveFlow.Standard
import DirectiveFlow.Text.Lines

namespace DirectiveFlow.CommandLine

inductive ReadFault where
  | notFound
  | notADirectory
  | isADirectory
  | nameTooLong
  | other (message : String)
  deriving DecidableEq, Repr

def ReadFault.message : ReadFault → String
  | .notFound => "No such file or directory (os error 2)"
  | .notADirectory => "Not a directory (os error 20)"
  | .isADirectory => "Is a directory (os error 21)"
  | .nameTooLong => "File name too long (os error 36)"
  | .other message => message

/-- The files around a call: where the settings are by default, and what reading a path gives. -/
structure Files where
  defaultSettings : Option String
  read : String → Except ReadFault String

structure Answer where
  code : UInt32
  output : String
  errors : String

def Answer.success (output : String) : Answer := ⟨0, output, ""⟩

/-- A failure before any line is read, with its cause if there is one. -/
def Answer.failure (message : String) (cause : Option String) : Answer :=
  let tail := match cause with
    | some cause => "\n\nCaused by:\n    " ++ cause
    | none => ""
  ⟨1, "", "Error: " ++ message ++ tail ++ "\n"⟩

def Answer.flowFailure (printed : String) (fault : FlowFault) : Answer :=
  ⟨1, printed, fault.kind ++ " error: " ++ fault.render ++ "\n"⟩

def versionText : String := "0.1.0"

def helpText : String :=
  "sluice v" ++ versionText ++ "

Usage:
  sluice <script> [OPTIONS]    Assemble and run a directive script
  sluice --list                List available steps
  sluice --info <step>         Describe one step

Options:
  -n, --workers <N>            Workers per parallel stage (default: CPU count)
  -r, --report-step <F>        Progress line every F of a partition (0 disables)
      --debug                  Run one item on one worker per parallel stage
      --config <path>          Config file (default: ~/.config/sluice/sluice.toml)
  -h, --help                   Show this help
  -V, --version                Show version

Script lines:
  name [ (in ... > out ...) ] [param ...]   # comment

"

def padded (width : Nat) (text : String) : String :=
  text.pushn ' ' (width - text.length)

def listText (r : Repertoire) : String :=
  String.join (r.names.map fun name =>
    let description := match r.find? name with
      | some signature => signature.schema.description
      | none => ""
    padded 14 name ++ " " ++ description ++ "\n")

def info (r : Repertoire) : List String → Answer
  | [] => .failure "--info requires a step name" none
  | name :: _ =>
    match r.help? name with
    | some text => .success text
    | none => ⟨1, "", "No such step: " ++ name ++ "\n"⟩

inductive SettingsFault where
  | noDirectory
  | unreadable (path : String) (cause : ReadFault)
  | malformed (path : String)
  deriving DecidableEq, Repr

def SettingsFault.answer : SettingsFault → Answer
  | .noDirectory => .failure "could not determine config directory" none
  | .unreadable path cause =>
    .failure ("failed to read config from " ++ path) (some cause.message)
  | .malformed path => .failure ("failed to parse config from " ++ path) none

def Files.settings (files : Files) (path : String) : Except SettingsFault Settings :=
  match files.read path with
  | .error cause => .error (.unreadable path cause)
  | .ok text =>
    match Settings.read text with
    | some settings => .ok settings
    | none => .error (.malformed path)

/-- Settings from the file that options name, or else from the default one if it is there. -/
def Files.settingsFor (files : Files) (o : Options) : Except SettingsFault Settings :=
  match o.settingsPath with
  | some path => files.settings path
  | none =>
    match files.defaultSettings with
    | none => .error .noDirectory
    | some path =>
      match files.settings path with
      | .error (.unreadable _ .notFound) => .ok .standard
      | .error (.unreadable _ .notADirectory) => .ok .standard
      | .error (.unreadable _ .nameTooLong) => .ok .standard
      | result => result

/-- Options come before settings, and either of them turns debugging on. -/
def Options.override (o : Options) (s : Settings) : Settings where
  workers := o.workers.getD s.workers
  debug := s.debug || o.debug
  reportStep := o.reportStep.getD s.reportStep

/-- Runs the flow of a script. The last of the output is the environment at its end. -/
def perform (settings : Settings) (source : String) : Answer :=
  match Flow.ofLines Standard.repertoire (Text.lines source) with
  | .error fault => .flowFailure "" fault
  | .ok flow =>
    let run := flow.run settings
    match run.result with
    | .error fault => .flowFailure run.printed fault
    | .ok env => .success (run.printed ++ env.toJson.pretty 0 ++ "\n")

def script (files : Files) (args : List String) : Answer :=
  match Options.ofArguments args with
  | .error fault => .failure fault.message fault.cause?
  | .ok o =>
    match o.script with
    | none => .failure "no script given" none
    | some path =>
      match files.read path with
      | .error cause => .failure ("Failed to read script: " ++ path) (some cause.message)
      | .ok source =>
        match files.settingsFor o with
        | .error fault => fault.answer
        | .ok settings => perform (o.override settings) source

def answer (files : Files) (args : List String) : Answer :=
  match args with
  | [] => .success helpText
  | first :: rest =>
    if first = "--help" ∨ first = "-h" then .success helpText
    else if first = "--version" ∨ first = "-V" then .success ("sluice " ++ versionText ++ "\n")
    else if first = "--list" then .success (listText Standard.repertoire)
    else if first = "--info" then info Standard.repertoire rest
    else script files args

/-- The files that an answer may depend on. -/
def filesNeeded (defaultSettings : Option String) (args : List String) : List String :=
  match Options.ofArguments args with
  | .error _ => []
  | .ok o => o.script.toList ++ (o.settingsPath <|> defaultSettings).toList

end DirectiveFlow.CommandLine
