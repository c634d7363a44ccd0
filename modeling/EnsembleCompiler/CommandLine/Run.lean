import EnsembleCompiler.CommandLine.Arguments
import EnsembleCompiler.CommandLine.FileSystem
import EnsembleCompiler.CommandLine.LogFilter
import EnsembleCompiler.Diagnostic.Report

/-!
# Runs

What a run does with the file that it is given: it may write a file, and it says something. The
answer to a read file is a value, so that the same run can be made on any file system.
-/

namespace EnsembleCompiler.CommandLine

/-- Why a command fails. -/
inductive Failure where
  | read (path : String) (error : FileError)
  | write (path : String) (error : FileError)
  | rejected (path : String) (count : Nat)
  | compile (error : CompileError)

def Failure.message : Failure → String
  | read path error => "cannot read '" ++ path ++ "': " ++ error.message
  | write path error => "cannot write '" ++ path ++ "': " ++ error.message
  | rejected path count => Nat.repr count ++ " syntax error(s) in '" ++ path ++ "'"
  | compile error => error.message

/-- The end of a run. `errors` are the lines for the error stream. -/
structure Outcome where
  exit : Nat
  output : String
  errors : List String
  deriving DecidableEq, Repr

/-- The lines of a text each of whose lines is ended by a line feed. -/
def linesOfText (current : List Char) : List Char → List String
  | [] => if current.isEmpty then [] else [String.ofList current.reverse]
  | '\n' :: rest => String.ofList current.reverse :: linesOfText [] rest
  | c :: rest => linesOfText (c :: current) rest

/-- The lines of the reports of diagnostics. -/
def reportLines (diagnostics : List Diagnostic) (filename source : String) : List String :=
  diagnostics.flatMap fun d => linesOfText [] (d.render filename source).toList

/-- The end of a run that fails. A generated text that does not parse is shown with its faults. -/
def Failure.outcome (failure : Failure) (before : List String) : Outcome :=
  let reports :=
    match failure with
    | .compile (.integrity diagnostics source) => reportLines diagnostics "<generated>" source
    | _ => []
  ⟨1, "", before ++ reports ++ linesOfText [] ("error: " ++ failure.message).toList⟩

/-- What a run does once it has read its input: it ends, or it writes a file and ends then. -/
inductive Action where
  | finish (outcome : Outcome)
  | write (path : String) (text : String) (before : List String)

/-- Base scores: digits without exponent, and no point in whole numbers. -/
def scoreLayout : FloatLayout := ⟨fun _ => true, false, false, .upward⟩

/-- The lines that tell about a document. -/
def inspectLines (input : String) (source : String) (e : Ensemble) (listsTrees : Bool) :
    List String :=
  let features :=
    match e.numFeatures with
    | some n => Nat.repr n.toNat
    | none => "unknown"
  let depth := (e.trees.map (·.root.depth)).foldl max 0
  let leaves := e.trees.foldr (fun tree total => tree.root.leafCount + total) 0
  ["model:       " ++ input,
    "fingerprint: blake3:" ++ fingerprint source,
    "trees:       " ++ Nat.repr e.trees.length,
    "classes:     " ++ Nat.repr e.numClasses.toNat,
    "features:    " ++ features,
    "base score:  " ++ scoreLayout.text e.baseScore,
    "max depth:   " ++ Nat.repr depth,
    "leaves:      " ++ Nat.repr leaves]
    ++ (if e.isMulticlass then
      (List.range e.numClasses.toNat).map fun c =>
        "  class " ++ Nat.repr c ++ ": " ++ Nat.repr (e.treesForClass c) ++ " tree(s)"
    else [])
    ++ (if listsTrees then
      e.trees.map fun tree =>
        "  tree " ++ Nat.repr tree.position ++ ": class " ++ Nat.repr tree.classIndex.toNat
          ++ ", depth " ++ Nat.repr tree.root.depth ++ ", " ++ Nat.repr tree.root.leafCount
          ++ " leaves"
    else [])

/-- The events of a list that a filter shows, as lines. -/
def shownLines (filter : List Directive) (events : List Event) : List String :=
  (events.filter (shows filter)).map Event.line

namespace Command

def input : Command → String
  | build input _ _ => input
  | check input => input
  | inspect input _ => input

/-- The file that a build writes: by default the input with the extension of target texts. -/
def outputPath (input : String) (output : Option String) : String :=
  output.getD (withExtension input "rs")

/-- What a command does with the text of its input. -/
def respond (filter : List Directive) (source : String) : Command → Action
  | build input output options =>
    let lines := shownLines filter (Journal.ofCompile source options)
    match EnsembleCompiler.compile source options with
    | .error e => .finish (Failure.outcome (.compile e) lines)
    | .ok text => .write (outputPath input output) text lines
  | check input =>
    match Target.check source with
    | [] => .finish ⟨0, "", ["OK: " ++ input]⟩
    | diagnostics =>
      .finish <| Failure.outcome (.rejected input diagnostics.length)
        (reportLines diagnostics input source)
  | inspect input listsTrees =>
    let lines := shownLines filter (Journal.ofLoad source)
    match loadEnsemble source with
    | .error e => .finish (Failure.outcome (.compile e) lines)
    | .ok ensemble =>
      .finish ⟨0, String.join ((inspectLines input source ensemble listsTrees).map (· ++ "\n")),
        lines⟩

/-- What a command does when its input has been read, or cannot be. -/
def answer (filter : List Directive) (command : Command) (bytes : Except FileError (List UInt8)) :
    Action :=
  match bytes with
  | .error e => .finish (Failure.outcome (.read command.input e) [])
  | .ok bytes =>
    match String.fromUTF8? bytes.toByteArray with
    | none => .finish (Failure.outcome (.read command.input .notText) [])
    | some source => command.respond filter source

end Command

/-- The end of a run that has written its file, or could not. -/
def afterWrite (path : String) (before : List String) (result : Except FileError Unit) : Outcome :=
  match result with
  | .ok () => ⟨0, "", before ++ ["Compiled -> " ++ path]⟩
  | .error e => Failure.outcome (.write path e) before

def versionText : String := "boostc 0.1.0\n"

def usageText : String :=
  "Usage: boostc [-v] build INPUT [-o OUTPUT] [--namespace NAME] [--function NAME]\n"
    ++ "                    [--precision f32|f64] [--missing nan|option]\n"
    ++ "       boostc [-v] check INPUT\n"
    ++ "       boostc [-v] inspect INPUT [--trees]\n"

/-- The end of a run whose arguments make no sense. -/
def usageOutcome : Outcome := ⟨2, "", linesOfText [] usageText.toList⟩

/-- A command on a file system. -/
def Command.execute (filter : List Directive) (command : Command) (fs : FileSystem) :
    Outcome × FileSystem :=
  match command.answer filter (fs.read command.input) with
  | .finish outcome => (outcome, fs)
  | .write path text before =>
    match fs.write path text.toUTF8.toList with
    | .ok written => (afterWrite path before (.ok ()), written)
    | .error e => (afterWrite path before (.error e), fs)

/-- A run on a file system. -/
def run (args : List String) (logSetting : Option String) (fs : FileSystem) :
    Outcome × FileSystem :=
  match Request.ofArguments args with
  | none => (usageOutcome, fs)
  | some .version => (⟨0, versionText, []⟩, fs)
  | some .help => (⟨0, usageText, []⟩, fs)
  | some (.run isVerbose command) => command.execute (filterOf logSetting isVerbose) fs

end EnsembleCompiler.CommandLine
