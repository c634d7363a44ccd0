import EnsembleCompiler.Proofs.Assembly.Ensemble
import EnsembleCompiler.Proofs.Binary.Shortest
import EnsembleCompiler.Proofs.Compilation
import EnsembleCompiler.Proofs.Meaning.Sums

/-!
# Compiled models score as their ensembles do

The text of an accepted model parses, and the public function of what is read from it returns the
scores of the ensemble: in double precision with the numbers of the model themselves, in single
precision with what their literals stand for.
-/

namespace EnsembleCompiler

open Target

/-! ### Numbers of the model -/

/-- In double precision a literal stands for the value itself. -/
theorem Precision.readBack_double (x : Binary64) : Precision.double.readBack x = x := by
  have hformat : Binary.IsStandard .double := .inr rfl
  have hself : x.convert Precision.double.format = x :=
    Binary.convert_self hformat.precision_pos x
  unfold readBack
  rw [hself]
  cases x with
  | nan => rfl
  | infinite negative => rfl
  | finite negative rank =>
    have hread : (Emitter.readMagnitude rank).convert .double = .finite false rank := by
      rw [Emitter.readMagnitude_double, Binary.convert_self hformat.precision_pos]
    show (if negative then ((Emitter.readMagnitude rank).convert .double).neg
      else (Emitter.readMagnitude rank).convert .double) = _
    rw [hread]
    cases negative <;> rfl

/-! ### Scores -/

/-- The compiled model computes the scores of its ensemble, when its literals stand for what `read`
gives: the text parses, and the public function settles on the scores of every feature vector. -/
def ComputesScores (read : (p : Precision) → Binary64 → Binary p.format) (raw : RawEnsemble)
    (options : Options) : Prop :=
  ∃ ensemble text file, Ensemble.ofRaw raw = .ok ensemble ∧ compileModel raw options = .ok text ∧
    parse text = .ok file ∧
    ∀ features : List (options.missing.Element (Binary options.precision.format)),
      Settles (file.erase.callPublic options.moduleName options.functionName
          [options.featureVector features])
        (ensemble.scoreValue options.precision (read options.precision)
          (options.missing.known features))

theorem computesScores_readBack {raw : RawEnsemble} {ensemble : Ensemble} {options : Options}
    (hraw : Ensemble.ofRaw raw = .ok ensemble) (hoptions : options.validate = .ok ()) :
    ComputesScores Precision.readBack raw options := by
  have htext : compileModel raw options = .ok (Emitter.moduleText ⟨options, none⟩ ensemble) := by
    rw [compileModel_eq hoptions, assembleEnsemble, hraw]
    rfl
  have hparse := parse_moduleText hoptions none (by simp) ensemble
  cases hfile : parse (Emitter.moduleText ⟨options, none⟩ ensemble) with
  | error diagnostics =>
    rw [hfile] at hparse
    cases hparse
  | ok file =>
    rw [hfile] at hparse
    refine ⟨ensemble, _, file, hraw, htext, hfile, fun features => ?_⟩
    have herase : file.erase = Emitter.moduleTree ⟨options, none⟩ ensemble := by
      injection hparse
    rw [herase]
    exact Emitter.settles_callPublic ⟨options, none⟩ features rfl
      (Options.functionName_not_mem hoptions) (Ensemble.nodup_positions hraw)

theorem ComputesScores.scoreValue_eq {raw : RawEnsemble} {ensemble : Ensemble} {options : Options}
    {read read' : (p : Precision) → Binary64 → Binary p.format}
    (hraw : Ensemble.ofRaw raw = .ok ensemble) (h : ComputesScores read raw options)
    (h' : ComputesScores read' raw options)
    (features : List (options.missing.Element (Binary options.precision.format))) :
    ensemble.scoreValue options.precision (read options.precision)
        (options.missing.known features) =
      ensemble.scoreValue options.precision (read' options.precision)
        (options.missing.known features) := by
  obtain ⟨first, text, file, hfirst, htext, hfile, hscores⟩ := h
  obtain ⟨second, text', file', hsecond, htext', hfile', hscores'⟩ := h'
  rw [hraw] at hfirst hsecond
  cases hfirst
  cases hsecond
  rw [htext] at htext'
  cases htext'
  rw [hfile] at hfile'
  cases hfile'
  exact (hscores features).unique (hscores' features)

/-- **Compiled models score as their ensembles do.** For every accepted model and all accepted
options the text of the model parses, and its public function returns the scores of the ensemble
for every feature vector, each number of the model being what its literal stands for. At 64 bits
that is the number itself. -/
theorem compileModel_scores :
    (∀ raw ensemble options, Ensemble.ofRaw raw = .ok ensemble → options.validate = .ok () →
      ComputesScores Precision.readBack raw options) ∧
    ∀ x, Precision.double.readBack x = x :=
  ⟨fun _ _ _ hraw hoptions => computesScores_readBack hraw hoptions, Precision.readBack_double⟩

/-- A model with one split, for the second of two classes. -/
def stump : RawEnsemble where
  trees := [⟨#[1, -1, -1], #[2, -1, -1], #[3, 0, 0], #[.infinite true, .zero .double true, .nan],
    #[true, false, false]⟩]
  treeInfo := [1]
  bestIteration := some 0
  baseScore := .zero .double false
  numClasses := 2
  numFeatures := none

def stumpEnsemble : Ensemble where
  trees := [⟨0, 1, .split 0 3 (.infinite true) true (.leaf 1 (.zero .double true)) (.leaf 2 .nan)⟩]
  baseScore := .zero .double false
  numClasses := 2
  numFeatures := none
  numClasses_pos := by decide
  class_lt := by decide

theorem ofRaw_stump : Ensemble.ofRaw stump = .ok stumpEnsemble :=
  Ensemble.ofRaw_eq_ok.2 ⟨by decide, 1, stumpEnsemble.trees, by decide, by decide +kernel,
    Ensemble.ofTrees_eq_ok (by decide) (by decide)⟩

theorem compileModel_scores_stump :
    Ensemble.ofRaw stump = .ok stumpEnsemble ∧ Options.default.validate = .ok () ∧
      ComputesScores Precision.readBack stump .default := by
  have hoptions : Options.default.validate = .ok () := by decide
  exact ⟨ofRaw_stump, hoptions, compileModel_scores.1 stump stumpEnsemble .default ofRaw_stump hoptions⟩

/-! ### Rounded twice -/

/-- A model of one leaf. Its weight, 7.038530691851209e-26, is a 32-bit value with the shortest digits
7.038531e-26; they lie so near to the middle between two 32-bit values that the 64-bit value which
is read from them rounds to the other one. -/
def doublyRounded : RawEnsemble where
  trees := [⟨#[-1], #[-1], #[0], #[.ofRank .double false 4230507875455205376], #[false]⟩]
  treeInfo := [0]
  bestIteration := none
  baseScore := .zero .double false
  numClasses := 1
  numFeatures := none

def doublyRoundedEnsemble : Ensemble where
  trees := [⟨0, 0, .leaf 0 (.ofRank .double false 4230507875455205376)⟩]
  baseScore := .zero .double false
  numClasses := 1
  numFeatures := none
  numClasses_pos := by decide
  class_lt := by decide

theorem ofRaw_doublyRounded : Ensemble.ofRaw doublyRounded = .ok doublyRoundedEnsemble :=
  Ensemble.ofRaw_eq_ok.2 ⟨by decide, 1, doublyRoundedEnsemble.trees, by decide, by decide +kernel,
    Ensemble.ofTrees_eq_ok (by decide) (by decide)⟩

/-- A number of the model is not always rounded to the precision of the code and no further. -/
theorem not_computesScores_convert :
    ¬ ∀ raw ensemble options, Ensemble.ofRaw raw = .ok ensemble → options.validate = .ok () →
      ComputesScores (fun p x => x.convert p.format) raw options := by
  intro hall
  have hoptions : Options.default.validate = .ok () := by decide
  have hrounded := hall doublyRounded doublyRoundedEnsemble .default ofRaw_doublyRounded hoptions
  have hread := computesScores_readBack ofRaw_doublyRounded hoptions
  have hvalue := hread.scoreValue_eq ofRaw_doublyRounded hrounded []
  let known : UInt64 → Option Binary32 := Options.default.missing.known []
  have hscore : doublyRoundedEnsemble.score (f := .single) Precision.single.readBack known 0 =
      doublyRoundedEnsemble.score (·.convert .single) known 0 := by
    injection hvalue
  exact absurd hscore (by decide +kernel)

end EnsembleCompiler
