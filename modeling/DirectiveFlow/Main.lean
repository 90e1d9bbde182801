import DirectiveFlow.CommandLine.Answer

namespace DirectiveFlow.CommandLine

/-- The system gives the number of an error as it is or negated. -/
def errorNumber (code : UInt32) : UInt32 := min code (-code)

def ReadFault.ofError : IO.Error → ReadFault
  | .noFileOrDirectory .. => .notFound
  | .noSuchThing .. => .notFound
  | .inappropriateType _ code details =>
    if errorNumber code = 20 then .notADirectory
    else if errorNumber code = 21 then .isADirectory
    else .other details
  | .invalidArgument _ code details =>
    if errorNumber code = 36 then .nameTooLong else .other details
  | .permissionDenied .. => .other "Permission denied (os error 13)"
  | e => .other e.toString

def readFile (path : String) : IO (Except ReadFault String) := do
  try
    let bytes ← IO.FS.readBinFile path
    match String.fromUTF8? bytes with
    | some text => return .ok text
    | none => return .error (.other "stream did not contain valid UTF-8")
  catch e => return .error (.ofError e)

/-- The directory for configuration files, as the environment gives it. -/
def configDirectory : IO (Option String) := do
  match ← IO.getEnv "XDG_CONFIG_HOME" with
  | some path => if path.startsWith "/" then return some path
  | none => pure ()
  return (← IO.getEnv "HOME").map fun home => home ++ "/.config"

def run (args : List String) : IO UInt32 := do
  let defaultSettings := (← configDirectory).map fun path => path ++ "/sluice/sluice.toml"
  let contents ← (filesNeeded defaultSettings args).mapM fun path => do
    return (path, ← readFile path)
  let files : Files := ⟨defaultSettings, fun path => (contents.lookup path).getD (.error .notFound)⟩
  let answer := CommandLine.answer files args
  IO.print answer.output
  IO.eprint answer.errors
  return answer.code

end DirectiveFlow.CommandLine

def main (args : List String) : IO UInt32 :=
  DirectiveFlow.CommandLine.run args
