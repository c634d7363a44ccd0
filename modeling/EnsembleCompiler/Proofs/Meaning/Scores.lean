import EnsembleCompiler.Model.Ensemble
import EnsembleCompiler.Proofs.Emission.ModuleTree
import EnsembleCompiler.Proofs.Meaning.Values

/-!
# The scores of an ensemble

What a generated module has to compute, said of the ensemble alone: every tree sends a feature
vector to a leaf, and the weights of the leaves are added up for each class. `read` gives the value
that a number of the model has in the code.
-/

namespace EnsembleCompiler

/-! ### Feature vectors -/

/-- The elements of a feature vector, by how callers mark a missing feature. -/
def MissingMode.Element (mode : MissingMode) (α : Type) : Type :=
  match mode with
  | .nan => α
  | .absent => Option α

def MissingMode.present (mode : MissingMode) {α : Type} : mode.Element α → Option α :=
  match mode with
  | .nan => some
  | .absent => id

/-- The value of a feature, unless it is missing: outside the vector, absent or not a number. -/
def MissingMode.known (mode : MissingMode) {f : FloatFormat}
    (features : List (mode.Element (Binary f))) (feature : UInt64) : Option (Binary f) :=
  (features[feature.toNat]?.bind mode.present).filter fun x => !x.isNaN

section

variable {f : FloatFormat} (read : Binary64 → Binary f) (known : UInt64 → Option (Binary f))

/-- Whether a feature vector goes left at a split. -/
def goesLeft (feature : UInt64) (threshold : Binary64) (defaultLeft : Bool) : Bool :=
  match known feature with
  | none => defaultLeft
  | some x => x.lt (read threshold)

/-- The weight of the leaf that a feature vector reaches. -/
def Node.weight : Node → Binary f
  | .leaf _ weight => read weight
  | .split _ feature threshold defaultLeft left right =>
    if goesLeft read known feature threshold defaultLeft then left.weight else right.weight

namespace Ensemble

/-- The sum of the trees of a class, after what has been added before. -/
def sumFrom (start : Binary f) (trees : List Tree) (c : Nat) : Binary f :=
  (trees.filter (·.classIndex.toNat = c)).foldl
    (fun sum tree => sum.add (tree.root.weight read known)) start

/-- The score of a class: its trees in order from zero, and then the base score. An ensemble
without trees scores the base score itself. -/
def score (e : Ensemble) (c : Nat) : Binary f :=
  if e.trees.isEmpty then read e.baseScore
  else (sumFrom read known (.zero f false) e.trees c).add (read e.baseScore)

end Ensemble

end

/-! ### Values in generated code -/

open Target

/-- What the literal of a value stands for: the value rounded to the precision of the code, written
in its shortest digits, read at 64 bits and rounded again. -/
def Precision.readBack (p : Precision) (x : Binary64) : Binary p.format :=
  match x.convert p.format with
  | .nan => .nan
  | .infinite negative => .infinite negative
  | .finite negative rank =>
    let magnitude := (Emitter.readMagnitude rank).convert p.format
    if negative then magnitude.neg else magnitude

/-- An element of a feature vector in generated code. -/
def MissingMode.value (mode : MissingMode) (p : Precision) : mode.Element (Binary p.format) → Value :=
  match mode with
  | .nan => fun x => .float p x
  | .absent => fun o => .option (o.map fun x => .float p x)

/-- A feature vector in generated code. -/
def Options.featureVector (options : Options)
    (features : List (options.missing.Element (Binary options.precision.format))) : Value :=
  .array (features.map (options.missing.value options.precision))

/-- The scores in generated code: one of them, or one for each class. -/
def Ensemble.scoreValue (e : Ensemble) (p : Precision) (read : Binary64 → Binary p.format)
    (known : UInt64 → Option (Binary p.format)) : Value :=
  if e.isMulticlass then
    .array ((List.range e.numClasses.toNat).map fun c => .float p (e.score read known c))
  else .float p (e.score read known 0)

end EnsembleCompiler
