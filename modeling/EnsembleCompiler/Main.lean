import EnsembleCompiler.CommandLine.Run

/-!
# The program

Reads the arguments, the environment and the input, and makes the run that they ask for.
-/

open EnsembleCompiler CommandLine

namespace EnsembleCompiler.CommandLine

/-- The number of a system error, which some operations report negated. -/
def errorNumber (code : UInt32) : UInt32 := if code < 0x80000000 then code else 0 - code

/-- The cause of a failure of the file system. -/
def FileError.ofIO (error : IO.Error) : FileError :=
  match error with
  | .noFileOrDirectory .. => .notFound
  | .inappropriateType _ code _ | .invalidArgument _ code _ =>
    if errorNumber code = 20 then .notDirectory
    else if errorNumber code = 21 then .isDirectory
    else if errorNumber code = 36 then .nameTooLong
    else .other (toString error)
  | _ => .other (toString error)

/-- A result of the file system as a value. -/
def fileResult {α : Type} (action : IO α) : IO (Except FileError α) := do
  match ← action.toBaseIO with
  | .ok a => return .ok a
  | .error e => return .error (.ofIO e)

/-- Says what a run says, and gives its exit code. -/
def finish (outcome : Outcome) : IO UInt32 := do
  IO.print outcome.output
  for line in outcome.errors do
    IO.eprintln line
  return outcome.exit.toUInt32

/-- Makes a run on the files of the machine. -/
def perform (isVerbose : Bool) (command : Command) : IO UInt32 := do
  let filter := filterOf (← IO.getEnv "RUST_LOG") isVerbose
  let bytes ← fileResult (IO.FS.readBinFile command.input)
  match command.answer filter (bytes.map ByteArray.toList) with
  | .finish outcome => finish outcome
  | .write path text before =>
    finish (afterWrite path before (← fileResult (IO.FS.writeFile path text)))

end EnsembleCompiler.CommandLine

def main (args : List String) : IO UInt32 := do
  match Request.ofArguments args with
  | none => finish usageOutcome
  | some .version => finish ⟨0, versionText, []⟩
  | some .help => finish ⟨0, usageText, []⟩
  | some (.run isVerbose command) => perform isVerbose command
