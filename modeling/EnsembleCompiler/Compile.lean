import EnsembleCompiler.Blake3
import EnsembleCompiler.Emission.Emitter
import EnsembleCompiler.Error
import EnsembleCompiler.Model.Document
import EnsembleCompiler.Target.Check

/-!
# Compilation

A model document becomes the text of a module: it is decoded, its trees are assembled, the text is
written, and it is handed out only if it parses.
-/

namespace EnsembleCompiler

/-- The model that a document holds. -/
def decodeDocument (source : String) : Except CompileError RawEnsemble :=
  match Document.shape.parse source with
  | .error e => .error (.json e)
  | .ok document => (Document.modelOf document).mapError .model

/-- The ensemble of a raw one. -/
def assembleEnsemble (raw : RawEnsemble) : Except CompileError Ensemble :=
  (Ensemble.ofRaw raw).mapError .model

/-- The ensemble that a document holds, up to its best iteration. -/
def loadEnsemble (source : String) : Except CompileError Ensemble := do
  assembleEnsemble (← decodeDocument source)

/-- A text that parses, unchanged. -/
def checkGeneratedOn (host : Target.Host) (source : String) : Except CompileError String :=
  match Target.checkOn host source with
  | [] => .ok source
  | diagnostics => .error (.integrity diagnostics source)

/-- Checks the options. -/
def validateOptions (options : Options) : Except CompileError Unit :=
  options.validate.mapError .option

/-- The text of an ensemble, if it parses. -/
def emitCheckedOn (host : Target.Host) (ensemble : Ensemble) (options : Options)
    (fingerprint : Option String) : Except CompileError String :=
  checkGeneratedOn host (Emitter.moduleText ⟨options, fingerprint⟩ ensemble)

/-- Compiles an ensemble. -/
def compileEnsembleOn (host : Target.Host) (ensemble : Ensemble) (options : Options) :
    Except CompileError String := do
  validateOptions options
  emitCheckedOn host ensemble options none

/-- Compiles a raw ensemble. -/
def compileModelOn (host : Target.Host) (raw : RawEnsemble) (options : Options) :
    Except CompileError String := do
  validateOptions options
  let ensemble ← assembleEnsemble raw
  emitCheckedOn host ensemble options none

/-- Compiles a document; the text names the fingerprint of the document. -/
def compileOn (host : Target.Host) (source : String) (options : Options) :
    Except CompileError String := do
  validateOptions options
  let ensemble ← loadEnsemble source
  emitCheckedOn host ensemble options (some (fingerprint source))

/-! ### On a host that starts every thread -/

def checkGenerated (source : String) : Except CompileError String := checkGeneratedOn .ample source

def compileEnsemble (ensemble : Ensemble) (options : Options) : Except CompileError String :=
  compileEnsembleOn .ample ensemble options

def compileModel (raw : RawEnsemble) (options : Options) : Except CompileError String :=
  compileModelOn .ample raw options

def compile (source : String) (options : Options) : Except CompileError String :=
  compileOn .ample source options

end EnsembleCompiler
