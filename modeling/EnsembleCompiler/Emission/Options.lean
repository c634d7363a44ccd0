import EnsembleCompiler.Target.Lexeme

/-!
# Options of a compilation

The names that the generated module uses, the floating-point type it computes in, and how its
callers mark missing features.
-/

namespace EnsembleCompiler

/-- The floating-point type of generated code. -/
inductive Precision where
  | single
  | double
  deriving DecidableEq, Repr

namespace Precision

def typeName : Precision → String
  | single => "f32"
  | double => "f64"

def format : Precision → FloatFormat
  | single => .single
  | double => .double

def ofName? (name : String) : Option Precision :=
  if name = "f32" then some single else if name = "f64" then some double else none

/-- The message for a name that is no precision. -/
def unknownMessage (name : String) : String :=
  "unknown precision `" ++ name ++ "`, expected `f32` or `f64`"

end Precision

/-- How callers mark a missing feature: by not-a-number alone, or by an absent value as well. -/
inductive MissingMode where
  | nan
  | absent
  deriving DecidableEq, Repr

namespace MissingMode

def name : MissingMode → String
  | nan => "nan"
  | absent => "option"

def ofName? (name : String) : Option MissingMode :=
  if name = "nan" then some nan else if name = "option" then some absent else none

/-- The message for a name that is no mode. -/
def unknownMessage (name : String) : String :=
  "unknown missing-value mode `" ++ name ++ "`, expected `nan` or `option`"

/-- The type of the elements of a feature vector. -/
def elementType (mode : MissingMode) (precision : Precision) : String :=
  match mode with
  | nan => precision.typeName
  | absent => "Option<" ++ precision.typeName ++ ">"

end MissingMode

/-- The options of a compilation. -/
structure Options where
  /-- The name of the generated module. -/
  moduleName : String
  /-- The name of the scoring function, with which those of the trees begin. -/
  functionName : String
  precision : Precision
  missing : MissingMode
  deriving DecidableEq, Repr

/-- Names that the generated module defines itself. -/
def definedNames : List String := ["feature_value", "NUM_CLASSES", "NUM_FEATURES", "BASE_SCORE"]

/-- The options that hold a name. -/
inductive NameOption where
  | moduleName
  | functionName
  deriving DecidableEq, Repr

def NameOption.text : NameOption → String
  | moduleName => "namespace"
  | functionName => "function_name"

/-- Why a name cannot be used. -/
inductive NameCause where
  | notIdentifier
  | alreadyDefined
  deriving DecidableEq, Repr

/-- A name that cannot be used. -/
structure NameError where
  option : NameOption
  name : String
  cause : NameCause
  deriving DecidableEq, Repr

def NameError.message (e : NameError) : String :=
  match e.cause with
  | .notIdentifier => "`" ++ e.name ++ "` is not a valid Rust identifier"
  | .alreadyDefined => "`" ++ e.name ++ "` clashes with a name the generated module defines"

namespace Options

def default : Options := ⟨"model", "predict", .single, .nan⟩

instance : Inhabited Options := ⟨default⟩

/-- A name has to be an identifier that the module does not define itself. -/
def checkName (option : NameOption) (name : String) : Except NameError Unit :=
  if !Target.isIdentifier name then .error ⟨option, name, .notIdentifier⟩
  else if name ∈ definedNames then .error ⟨option, name, .alreadyDefined⟩
  else .ok ()

/-- Checks both names. -/
def validate (options : Options) : Except NameError Unit := do
  checkName .moduleName options.moduleName
  checkName .functionName options.functionName

end Options

end EnsembleCompiler
