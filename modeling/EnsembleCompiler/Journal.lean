import EnsembleCompiler.Compile

/-!
# The journal of a compilation

What a run reports about its stages, in their order. A stage that fails reports nothing further.
-/

namespace EnsembleCompiler

/-- How important an event is. -/
inductive Level where
  | error
  | warn
  | info
  | debug
  | trace
  deriving DecidableEq, Repr

namespace Level

def name : Level → String
  | error => "ERROR"
  | warn => "WARN"
  | info => "INFO"
  | debug => "DEBUG"
  | trace => "TRACE"

/-- How many levels are more important. -/
def rank : Level → Nat
  | error => 1
  | warn => 2
  | info => 3
  | debug => 4
  | trace => 5

end Level

/-- Something that a stage reports: a message, and values under names. -/
structure Event where
  level : Level
  /-- The part of the program that reports. -/
  target : String
  message : String
  fields : List (String × String)
  deriving DecidableEq, Repr

namespace Event

/-- An event as a line: its level, its message, and each field with its value. -/
def line (e : Event) : String :=
  e.level.name ++ " " ++ e.message
    ++ String.join (e.fields.map fun (name, value) => " " ++ name ++ "=" ++ value)

/-- Whether an event says something under a name. The message has a name too. -/
def carries (e : Event) (name : String) : Bool :=
  name = "message" || e.fields.any (·.1 = name)

/-- A document has been decoded. -/
def decoded (raw : RawEnsemble) : Event :=
  let best :=
    match raw.bestIteration with
    | some k => "Some(" ++ Int.repr k.toInt ++ ")"
    | none => "None"
  ⟨.info, "boostc::api", "decoded model document", [("trees", Nat.repr raw.trees.length),
    ("classes", Nat.repr raw.numClasses.toNat), ("best_iteration", best)]⟩

/-- Trees are dropped. -/
def truncating (kept dropped : Nat) : Event :=
  ⟨.debug, "boostc::model::ensemble", "truncating ensemble at best iteration",
    [("kept", Nat.repr kept), ("dropped", Nat.repr dropped)]⟩

/-- Nodes of a tree are left out. -/
def skipping (position skipped : Nat) : Event :=
  ⟨.debug, "boostc::model::tree", "skipping nodes unreachable from the root",
    [("tree", Nat.repr position), ("skipped", Nat.repr skipped)]⟩

/-- A tree has been assembled. -/
def assembled (tree : Tree) : Event :=
  ⟨.debug, "boostc::model::ensemble", "assembled tree", [("tree", Nat.repr tree.position),
    ("class", Nat.repr tree.classIndex.toNat), ("depth", Nat.repr tree.root.depth),
    ("leaves", Nat.repr tree.root.leafCount)]⟩

/-- The text has been written. -/
def emitted (text : String) : Event :=
  ⟨.debug, "boostc::api", "emitted source", [("bytes", Nat.repr text.utf8ByteSize)]⟩

/-- The text has been accepted. -/
def generated (ensemble : Ensemble) (options : Options) : Event :=
  ⟨.info, "boostc::api", "generated scoring module",
    [("trees", Nat.repr ensemble.trees.length),
      ("classes", Nat.repr ensemble.numClasses.toNat), ("namespace", options.moduleName)]⟩

end Event

namespace Journal

/-- The events of the kept trees up to the first that fails. -/
def ofTrees : List (Nat × RawTree × Int64) → List Event
  | [] => []
  | (position, raw, entry) :: rest =>
    match Ensemble.classOf position entry with
    | .error _ => []
    | .ok _ =>
      let skipped :=
        match raw.unreachableCount? with
        | some (n + 1) => [Event.skipping position (n + 1)]
        | _ => []
      match Ensemble.treeOf position raw entry with
      | .error _ => skipped
      | .ok tree => skipped ++ Event.assembled tree :: ofTrees rest

/-- The events of the assembly of an ensemble. -/
def ofRaw (raw : RawEnsemble) : List Event :=
  if raw.treeInfo.length < raw.trees.length then []
  else
    match Ensemble.keptCount raw.bestIteration raw.trees.length with
    | .error _ => []
    | .ok kept =>
      (if kept < raw.trees.length then [Event.truncating kept (raw.trees.length - kept)] else [])
        ++ ofTrees (Ensemble.keptEntries raw kept)

/-- The events of loading a document. -/
def ofLoad (source : String) : List Event :=
  match decodeDocument source with
  | .error _ => []
  | .ok raw => Event.decoded raw :: ofRaw raw

/-- The events of writing an ensemble. -/
def ofEmission (ensemble : Ensemble) (options : Options) (fingerprint : Option String) :
    List Event :=
  let text := Emitter.moduleText ⟨options, fingerprint⟩ ensemble
  match checkGenerated text with
  | .ok _ => [Event.emitted text, Event.generated ensemble options]
  | .error _ => [Event.emitted text]

/-- The events of compiling a document. -/
def ofCompile (source : String) (options : Options) : List Event :=
  match validateOptions options with
  | .error _ => []
  | .ok () =>
    ofLoad source ++
      match loadEnsemble source with
      | .error _ => []
      | .ok ensemble => ofEmission ensemble options (some (fingerprint source))

end Journal

end EnsembleCompiler
