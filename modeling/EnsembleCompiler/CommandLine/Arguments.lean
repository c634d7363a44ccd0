import EnsembleCompiler.Emission.Options

/-!
# Arguments

What the arguments of a run ask for. Options have a long name after two dashes and may have a
letter after one; letters may stand together, and the value of an option may stand in the same
argument. After two dashes alone, no argument is an option.

Arguments are taken apart as the package `clap` documents it for its fourth version; the texts of
its own messages are left out.
-/

namespace EnsembleCompiler.CommandLine

/-- What the value of an option has to be. -/
inductive ValueKind where
  | text
  | path
  | precision
  | missingMode
  deriving DecidableEq, Repr

/-- Whether a text is a value of a kind. Only paths have to be more than nothing. -/
def ValueKind.accepts (kind : ValueKind) (value : String) : Bool :=
  match kind with
  | text => true
  | path => value ≠ ""
  | precision => (Precision.ofName? value).isSome
  | missingMode => (MissingMode.ofName? value).isSome

/-- An option of a command, with the kind of its value if it takes one. -/
structure OptionSpec where
  long : String
  letter : Option Char
  value : Option ValueKind
  deriving DecidableEq, Repr

inductive Command where
  /-- Compiles a document into a file. -/
  | build (input : String) (output : Option String) (options : Options)
  /-- Checks that a target text parses. -/
  | check (input : String)
  /-- Tells about a document, and about its trees. -/
  | inspect (input : String) (listsTrees : Bool)
  deriving DecidableEq, Repr

/-- What a run is asked for. -/
inductive Request where
  | run (isVerbose : Bool) (command : Command)
  | version
  | help
  deriving DecidableEq, Repr

/-- Why reading stops before the last argument: the arguments make no sense, or one of them asks
for something that needs no others. -/
inductive Stop where
  | usage
  | answer (request : Request)
  deriving DecidableEq, Repr

/-- The arguments read so far: options with their values, and the input. -/
structure Given where
  options : List (String × String)
  input : Option String
  deriving DecidableEq, Repr

namespace Given

def has (given : Given) (long : String) : Bool := given.options.any (·.1 = long)

def value? (given : Given) (long : String) : Option String :=
  (given.options.find? (·.1 = long)).map Prod.snd

/-- Adds an option, which may not have been given before. -/
def add (given : Given) (long value : String) : Except Stop Given :=
  if given.has long then .error .usage
  else .ok { given with options := (long, value) :: given.options }

/-- Adds a value of an option, which is looked at as soon as it is read. -/
def addValue (given : Given) (long : String) (kind : ValueKind) (value : String) :
    Except Stop Given :=
  if kind.accepts value then given.add long value else .error .usage

/-- Adds the input, of which there is one. -/
def addInput (given : Given) (arg : String) : Except Stop Given :=
  if given.input.isSome || !ValueKind.path.accepts arg then .error .usage
  else .ok { given with input := some arg }

end Given

def verboseSpec : OptionSpec := ⟨"verbose", some 'v', none⟩

def helpSpec : OptionSpec := ⟨"help", some 'h', none⟩

def versionSpec : OptionSpec := ⟨"version", some 'V', none⟩

/-- What an option without value asks for at once. -/
def answerOf? (spec : OptionSpec) : Option Request :=
  if spec = helpSpec then some .help
  else if spec = versionSpec then some .version
  else none

/-- Whether an argument can be the value of the option before it. -/
def isValue (arg : String) : Bool :=
  match arg.toList with
  | '-' :: _ :: _ => false
  | _ => true

/-- Takes an option without value. -/
def takeFlag (given : Given) (spec : OptionSpec) : Except Stop Given :=
  match answerOf? spec with
  | some request => .error (.answer request)
  | none => given.add spec.long ""

/-- Reads the letters of an argument. The value of a letter is the rest of the argument, after an
equals sign if there is one, or the next argument. -/
def readLetters (specs : List OptionSpec) (given : Given) (following : List String) :
    List Char → Except Stop (Given × List String)
  | [] => .ok (given, following)
  | c :: rest =>
    match specs.find? (·.letter = some c) with
    | none => .error .usage
    | some spec =>
      match spec.value, rest, following with
      | none, _, _ => do readLetters specs (← takeFlag given spec) following rest
      | some kind, '=' :: value, _ => do
        return (← given.addValue spec.long kind (String.ofList value), following)
      | some kind, d :: value, _ => do
        return (← given.addValue spec.long kind (String.ofList (d :: value)), following)
      | some kind, [], next :: others =>
        if isValue next then do return (← given.addValue spec.long kind next, others)
        else .error .usage
      | some _, [], [] => .error .usage

/-- Reads an option by its long name. -/
def readLong (specs : List OptionSpec) (given : Given) (following : List String)
    (cs : List Char) : Except Stop (Given × List String) :=
  let name := String.ofList (cs.takeWhile (· ≠ '='))
  let value := cs.dropWhile (· ≠ '=')
  match specs.find? (·.long = name) with
  | none => .error .usage
  | some spec =>
    match spec.value, value, following with
    | none, [], _ => do return (← takeFlag given spec, following)
    | none, _ :: _, _ => .error .usage
    | some kind, _ :: text, _ => do
      return (← given.addValue spec.long kind (String.ofList text), following)
    | some kind, [], next :: others =>
      if isValue next then do return (← given.addValue spec.long kind next, others)
      else .error .usage
    | some _, [], [] => .error .usage

/-- Reads the arguments of a command. Each takes one step at most; `steps` is their number. -/
def readArguments (specs : List OptionSpec) (given : Given) :
    (steps : Nat) → List String → Except Stop Given
  | 0, _ | _, [] => .ok given
  | steps + 1, arg :: rest =>
    match arg.toList with
    | ['-', '-'] => rest.foldlM Given.addInput given
    | '-' :: '-' :: name => do
      let (given, rest) ← readLong specs given rest name
      readArguments specs given steps rest
    | '-' :: c :: letters => do
      let (given, rest) ← readLetters specs given rest (c :: letters)
      readArguments specs given steps rest
    | _ => do readArguments specs (← given.addInput arg) steps rest

/-- The options of a command besides those of every command. -/
def specsOf (command : String) : Option (List OptionSpec) :=
  if command = "build" then
    some [⟨"output", some 'o', some .path⟩, ⟨"namespace", none, some .text⟩,
      ⟨"function", none, some .text⟩, ⟨"precision", none, some .precision⟩,
      ⟨"missing", none, some .missingMode⟩]
  else if command = "check" then some []
  else if command = "inspect" then some [⟨"trees", none, none⟩]
  else none

/-- The options of a compilation. -/
def optionsOf (given : Given) : Options :=
  ⟨(given.value? "namespace").getD Options.default.moduleName,
    (given.value? "function").getD Options.default.functionName,
    ((given.value? "precision").bind Precision.ofName?).getD Options.default.precision,
    ((given.value? "missing").bind MissingMode.ofName?).getD Options.default.missing⟩

/-- The command of a name with its arguments. It needs an input. -/
def commandOf (name : String) (given : Given) : Except Stop Command :=
  match given.input with
  | none => .error .usage
  | some input =>
    if name = "build" then .ok (.build input (given.value? "output") (optionsOf given))
    else if name = "check" then .ok (.check input)
    else .ok (.inspect input (given.has "trees"))

/-- Whether there is help about what the arguments name: everything, or one command. -/
def isTopic : List String → Bool
  | [] => true
  | [name] => name = "help" || (specsOf name).isSome
  | _ => false

/-- Reads the arguments before the name of the command, and those after it. -/
def readRequest (given : Given) : (steps : Nat) → List String → Except Stop Request
  | 0, _ | _, [] => .error .usage
  | steps + 1, arg :: rest =>
    match arg.toList with
    | ['-', '-'] => .error .usage
    | '-' :: '-' :: name => do
      let (given, rest) ← readLong [verboseSpec, helpSpec, versionSpec] given rest name
      readRequest given steps rest
    | '-' :: c :: letters => do
      let (given, rest) ← readLetters [verboseSpec, helpSpec, versionSpec] given rest (c :: letters)
      readRequest given steps rest
    | _ =>
      if arg = "help" then if isTopic rest then .ok .help else .error .usage
      else
        match specsOf arg with
        | none => .error .usage
        | some specs => do
          let inner ← readArguments (verboseSpec :: helpSpec :: specs) ⟨[], none⟩ rest.length rest
          return .run (given.has "verbose" || inner.has "verbose") (← commandOf arg inner)

/-- What the arguments ask for; nothing if they make no sense. -/
def Request.ofArguments (args : List String) : Option Request :=
  match readRequest ⟨[], none⟩ args.length args with
  | .ok request => some request
  | .error (.answer request) => some request
  | .error .usage => none

end EnsembleCompiler.CommandLine
