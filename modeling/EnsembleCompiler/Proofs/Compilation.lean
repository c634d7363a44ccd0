import EnsembleCompiler.Compile
import EnsembleCompiler.Proofs.Binary.Shortest
import EnsembleCompiler.Proofs.Emission.ReadBack

/-!
# Compilation hands out every text that is written

Options that pass their check have identifiers for names, and a fingerprint is a text of
hexadecimal digits. So the generated text is always accepted, and a compilation fails only where
the options, the document or the model are at fault.
-/

namespace EnsembleCompiler

open Target

/-! ### Names and fingerprints -/

theorem Precision.isStandard (p : Precision) : Binary.IsStandard p.format := by
  cases p with
  | single => exact .inl rfl
  | double => exact .inr rfl

theorem Options.checkName_eq_ok {option : NameOption} {name : String} :
    checkName option name = .ok () ↔ isIdentifier name = true ∧ name ∉ definedNames := by
  unfold checkName
  by_cases hname : isIdentifier name = true
  · by_cases hdefined : name ∈ definedNames <;> simp [hname, hdefined]
  · simp [hname]

/-- Both names of accepted options pass their checks. -/
theorem Options.checkName_of_validate {options : Options} (h : options.validate = .ok ()) :
    checkName .moduleName options.moduleName = .ok () ∧
      checkName .functionName options.functionName = .ok () := by
  unfold validate at h
  cases hmodule : checkName .moduleName options.moduleName with
  | error e =>
    rw [hmodule] at h
    cases h
  | ok _ =>
    rw [hmodule] at h
    exact ⟨rfl, h⟩

theorem Options.isIdentifier_of_validate {options : Options} (h : options.validate = .ok ()) :
    isIdentifier options.moduleName = true ∧ isIdentifier options.functionName = true := by
  obtain ⟨hmodule, hfunction⟩ := checkName_of_validate h
  exact ⟨(checkName_eq_ok.1 hmodule).1, (checkName_eq_ok.1 hfunction).1⟩

theorem Options.functionName_not_mem {options : Options} (h : options.validate = .ok ()) :
    options.functionName ∉ definedNames :=
  (checkName_eq_ok.1 (checkName_of_validate h).2).2

namespace Blake3

def hexDigits : List Char := "0123456789abcdef".toList

/-- A text of hexadecimal digits. -/
def IsHex (text : String) : Prop := ∀ c ∈ text.toList, c ∈ hexDigits

theorem digitChar_mem_hexDigits {n : Nat} (h : n < 16) : Nat.digitChar n ∈ hexDigits := by
  revert n
  decide

theorem isHex_hexText (words : Chain) : IsHex (hexText words) := by
  intro c hc
  rw [hexText, String.toList_ofList] at hc
  obtain ⟨w, -, hc⟩ := List.mem_flatMap.1 hc
  obtain ⟨i, -, hc⟩ := List.mem_flatMap.1 hc
  simp only [hexByte, List.mem_cons, List.not_mem_nil, or_false] at hc
  rcases hc with rfl | rfl <;> exact digitChar_mem_hexDigits (Nat.mod_lt _ (by decide))

theorem IsHex.not_mem_lineFeed {text : String} (h : IsHex text) : '\n' ∉ text.toList := by
  intro hmem
  exact absurd (h '\n' hmem) (by decide)

end Blake3

theorem isHex_fingerprint (source : String) : Blake3.IsHex (fingerprint source) :=
  Blake3.isHex_hexText _

/-- The fingerprint of a document stays on its line. -/
theorem lineFeed_notMem_fingerprint (source : String) :
    ∀ text ∈ some (fingerprint source), '\n' ∉ text.toList := by
  simpa using (isHex_fingerprint source).not_mem_lineFeed

/-! ### The generated text -/

section

variable {options : Options}

/-- What becomes of a text that is accepted: it is handed out, unless the host cannot parse it. -/
def handOut (host : Host) (text : String) : Except CompileError String :=
  match host.refuses? (nestingDepth (lexemesOf text)) with
  | none => .ok text
  | some diagnostic => .error (.integrity [diagnostic] text)

theorem checkGeneratedOn_of_parse (host : Host) {text : String} {file : File Span}
    (h : parse text = .ok file) : checkGeneratedOn host text = handOut host text := by
  rw [checkGeneratedOn, checkOn_of_parse host h, handOut]
  cases host.refuses? (nestingDepth (lexemesOf text)) <;> rfl

/-- No thread that a text may need is refused. -/
def Target.Host.StartsThreads (host : Host) : Prop := ∀ bytes, host.refusal? bytes = none

theorem startsThreads_ample : Host.ample.StartsThreads := fun _ => rfl

theorem handOut_of_startsThreads {host : Host} (h : host.StartsThreads) (text : String) :
    handOut host text = .ok text := by
  cases hrefuses : host.refuses? (nestingDepth (lexemesOf text)) with
  | none => rw [handOut, hrefuses]
  | some d =>
    obtain ⟨-, reason, hreason, -⟩ := Host.refuses?_eq_some.1 hrefuses
    rw [h] at hreason
    cases hreason

/-- The text is accepted with every fingerprint that stays on its line. -/
theorem emitCheckedOn_eq (host : Host) (h : options.validate = .ok ()) (fingerprint : Option String)
    (hfingerprint : ∀ text ∈ fingerprint, '\n' ∉ text.toList) (ensemble : Ensemble) :
    emitCheckedOn host ensemble options fingerprint =
      handOut host (Emitter.moduleText ⟨options, fingerprint⟩ ensemble) := by
  obtain ⟨hmodule, hfunction⟩ := Options.isIdentifier_of_validate h
  obtain ⟨file, htree, -⟩ :=
    Emitter.moduleText_tree ⟨options, fingerprint⟩ ensemble hmodule hfunction hfingerprint
  exact checkGeneratedOn_of_parse host htree

/-- What is read from the text of an ensemble. -/
theorem parse_moduleText (h : options.validate = .ok ()) (fingerprint : Option String)
    (hfingerprint : ∀ text ∈ fingerprint, '\n' ∉ text.toList) (ensemble : Ensemble) :
    (parse (Emitter.moduleText ⟨options, fingerprint⟩ ensemble)).map File.erase =
      .ok (Emitter.moduleTree ⟨options, fingerprint⟩ ensemble) := by
  obtain ⟨hmodule, hfunction⟩ := Options.isIdentifier_of_validate h
  obtain ⟨file, htree, herase⟩ :=
    Emitter.moduleText_tree ⟨options, fingerprint⟩ ensemble hmodule hfunction hfingerprint
  rw [show parse (Emitter.moduleText ⟨options, fingerprint⟩ ensemble) = .ok file from htree, ← herase]
  rfl

/-- At 64 bits the digits of a literal read as the magnitude they were written for. -/
theorem Emitter.readMagnitude_double (rank : Fin FloatFormat.double.infinityRank) :
    readMagnitude rank = .finite false rank :=
  Binary.ofDecimal_shortestDecimal (.inr rfl) .upward rank

theorem Emitter.literalTree_double (e : Emitter) (h : e.options.precision = .double)
    (negative : Bool) (rank : Fin FloatFormat.double.infinityRank) :
    e.literalTree (.finite negative rank) =
      if negative then .unary () .neg (.literal () (.float (.finite false rank) (some "f64")))
      else .literal () (.float (.finite false rank) (some "f64")) := by
  have hself : (.finite negative rank : Binary64).convert .double = .finite negative rank :=
    Binary.convert_self (by decide) _
  rw [literalTree, typeName, h]
  show literalForm "f64" ((.finite negative rank : Binary64).convert .double) = _
  rw [hself, literalForm, readMagnitude_double]

/-- **The text reads back.** What is read from the text of an ensemble is the tree of its module.
The digits of each of its literals stand for the value that they were written for, and at 64 bits
that value is in the tree. -/
theorem moduleText_reads_back (h : options.validate = .ok ()) {fingerprint : Option String}
    (hfingerprint : ∀ text ∈ fingerprint, '\n' ∉ text.toList) (ensemble : Ensemble) :
    (parse (Emitter.moduleText ⟨options, fingerprint⟩ ensemble)).map File.erase =
        .ok (Emitter.moduleTree ⟨options, fingerprint⟩ ensemble) ∧
      (∀ rank : Fin options.precision.format.infinityRank,
        Binary.ofDecimal options.precision.format false
          (Binary.shortestDecimal options.precision.format .upward rank) = .finite false rank) ∧
      (options.precision = .double → ∀ negative (rank : Fin FloatFormat.double.infinityRank),
        Emitter.literalTree ⟨options, fingerprint⟩ (.finite negative rank) =
          if negative then .unary () .neg (.literal () (.float (.finite false rank) (some "f64")))
          else .literal () (.float (.finite false rank) (some "f64"))) := by
  refine ⟨parse_moduleText h fingerprint hfingerprint ensemble, fun rank => ?_, fun hdouble => ?_⟩
  · exact Binary.ofDecimal_shortestDecimal options.precision.isStandard .upward rank
  · exact Emitter.literalTree_double ⟨options, fingerprint⟩ hdouble

/-- One tree for the second of two classes, with values of every kind, and a fingerprint. -/
theorem moduleText_reads_back_split :
    let options : Options := ⟨"model", "predict", .double, .absent⟩
    let root : Node := .split 0 2 (.infinite true) true (.leaf 1 (.zero .double true)) (.leaf 2 .nan)
    let ensemble : Ensemble := ⟨[⟨3, 1, root⟩], .nan, 2, some 7, by decide, by decide⟩
    options.validate = .ok () ∧
      (parse (Emitter.moduleText ⟨options, some "c0ffee"⟩ ensemble)).map File.erase =
        .ok (Emitter.moduleTree ⟨options, some "c0ffee"⟩ ensemble) := by
  intro options root ensemble
  have hoptions : options.validate = .ok () := by decide
  have hfingerprint : ∀ text ∈ some "c0ffee", '\n' ∉ text.toList := by decide
  exact ⟨hoptions, (moduleText_reads_back hoptions hfingerprint ensemble).1⟩

theorem compileEnsembleOn_eq (host : Host) (h : options.validate = .ok ()) (ensemble : Ensemble) :
    compileEnsembleOn host ensemble options =
      handOut host (Emitter.moduleText ⟨options, none⟩ ensemble) := by
  rw [compileEnsembleOn, validateOptions, h]
  exact emitCheckedOn_eq host h none (by simp) ensemble

theorem compileModelOn_eq (host : Host) (h : options.validate = .ok ()) (raw : RawEnsemble) :
    compileModelOn host raw options = assembleEnsemble raw >>= fun ensemble =>
      handOut host (Emitter.moduleText ⟨options, none⟩ ensemble) := by
  rw [compileModelOn, validateOptions, h]
  cases assembleEnsemble raw with
  | error e => rfl
  | ok ensemble => exact emitCheckedOn_eq host h none (by simp) ensemble

theorem compileOn_eq (host : Host) (h : options.validate = .ok ()) (source : String) :
    compileOn host source options = loadEnsemble source >>= fun ensemble =>
      handOut host (Emitter.moduleText ⟨options, some (fingerprint source)⟩ ensemble) := by
  rw [compileOn, validateOptions, h]
  cases loadEnsemble source with
  | error e => rfl
  | ok ensemble => exact emitCheckedOn_eq host h _ (lineFeed_notMem_fingerprint source) ensemble

/-- Where every text is handed out, the texts of a result are. -/
theorem bind_handOut {α : Type} {host : Host} (h : host.StartsThreads) (result : Except CompileError α)
    (text : α → String) : (result >>= fun a => handOut host (text a)) = result.map text := by
  cases result with
  | error e => rfl
  | ok a => exact handOut_of_startsThreads h (text a)

theorem compileEnsemble_eq (h : options.validate = .ok ()) (ensemble : Ensemble) :
    compileEnsemble ensemble options = .ok (Emitter.moduleText ⟨options, none⟩ ensemble) :=
  (compileEnsembleOn_eq .ample h ensemble).trans (handOut_of_startsThreads startsThreads_ample _)

theorem compileModel_eq (h : options.validate = .ok ()) (raw : RawEnsemble) :
    compileModel raw options =
      (assembleEnsemble raw).map (Emitter.moduleText ⟨options, none⟩) :=
  (compileModelOn_eq .ample h raw).trans (bind_handOut startsThreads_ample _ _)

theorem compile_eq (h : options.validate = .ok ()) (source : String) :
    compile source options =
      (loadEnsemble source).map (Emitter.moduleText ⟨options, some (fingerprint source)⟩) :=
  (compileOn_eq .ample h source).trans (bind_handOut startsThreads_ample _ _)

end

/-! ### Errors -/

/-- The result is no fault of the generated text. -/
def Trusted {α : Type} (result : Except CompileError α) : Prop :=
  ∀ diagnostics text, result ≠ .error (.integrity diagnostics text)

/-- The generated text is at fault only where the host did not start the thread that its parser
needs. -/
def TrustedOn (host : Host) (result : Except CompileError String) : Prop :=
  ∀ diagnostics text, result = .error (.integrity diagnostics text) →
    ∃ depth reason, inlineNesting < depth ∧ host.refusal? (parserStack depth) = some reason ∧
      diagnostics = [threadDiagnostic depth reason]

theorem Trusted.mapError {α ε : Type} (result : Except ε α) {f : ε → CompileError}
    (h : ∀ e diagnostics text, f e ≠ .integrity diagnostics text) : Trusted (result.mapError f) := by
  intro diagnostics text hresult
  cases result with
  | ok a => cases hresult
  | error e => exact h e diagnostics text (Except.error.inj hresult)

theorem Trusted.bind {α β : Type} {result : Except CompileError α} {f : α → Except CompileError β}
    (h : Trusted result) (hf : ∀ a, Trusted (f a)) : Trusted (result >>= f) := by
  intro diagnostics text hresult
  cases result with
  | ok a => exact hf a diagnostics text hresult
  | error e => exact h diagnostics text (congrArg Except.error (Except.error.inj hresult))

theorem trusted_assembleEnsemble (raw : RawEnsemble) : Trusted (assembleEnsemble raw) :=
  .mapError _ fun _ _ _ => CompileError.noConfusion

theorem trusted_decodeDocument (source : String) : Trusted (decodeDocument source) := by
  unfold decodeDocument
  split
  · exact fun _ _ h => by cases h
  · exact .mapError _ fun _ _ _ => CompileError.noConfusion

theorem trusted_loadEnsemble (source : String) : Trusted (loadEnsemble source) :=
  (trusted_decodeDocument source).bind trusted_assembleEnsemble

theorem Trusted.thenOn {α : Type} {host : Host} {result : Except CompileError α}
    {f : α → Except CompileError String} (h : Trusted result) (hf : ∀ a, TrustedOn host (f a)) :
    TrustedOn host (result >>= f) := by
  intro diagnostics text hresult
  cases result with
  | ok a => exact hf a diagnostics text hresult
  | error e => exact absurd (congrArg Except.error (Except.error.inj hresult)) (h diagnostics text)

theorem trustedOn_handOut (host : Host) (text : String) : TrustedOn host (handOut host text) := by
  intro diagnostics source hresult
  unfold handOut at hresult
  split at hresult
  · cases hresult
  · next d hrefuses =>
    cases hresult
    obtain ⟨hdepth, reason, hreason, rfl⟩ := Host.refuses?_eq_some.1 hrefuses
    exact ⟨_, reason, hdepth, hreason, rfl⟩

/-- On a host that starts every thread, no text is at fault. -/
theorem TrustedOn.trusted {host : Host} {result : Except CompileError String}
    (h : TrustedOn host result) (hhost : host.StartsThreads) : Trusted result := by
  intro diagnostics text hresult
  obtain ⟨depth, reason, -, hreason, -⟩ := h diagnostics text hresult
  -- only a refused thread puts a text at fault, and none is refused
  rw [hhost] at hreason
  cases hreason

/-- Options are checked before anything else. -/
theorem trustedOn_of_validate {host : Host} {options : Options}
    {result : Except CompileError String}
    (h : options.validate = .ok () → TrustedOn host result) :
    TrustedOn host (validateOptions options >>= fun _ => result) := by
  cases hoptions : options.validate with
  | ok _ =>
    rw [validateOptions, hoptions]
    exact h hoptions
  | error e =>
    rw [validateOptions, hoptions]
    exact fun _ _ hresult => by cases hresult

theorem trustedOn_emitCheckedOn {host : Host} {options : Options} (h : options.validate = .ok ())
    {fingerprint : Option String} (hfingerprint : ∀ text ∈ fingerprint, '\n' ∉ text.toList)
    (ensemble : Ensemble) : TrustedOn host (emitCheckedOn host ensemble options fingerprint) := by
  rw [emitCheckedOn_eq host h fingerprint hfingerprint]
  exact trustedOn_handOut host _

theorem trustedOn_compileEnsembleOn (host : Host) (ensemble : Ensemble) (options : Options) :
    TrustedOn host (compileEnsembleOn host ensemble options) :=
  trustedOn_of_validate fun h => trustedOn_emitCheckedOn h (by simp) ensemble

theorem trustedOn_compileModelOn (host : Host) (raw : RawEnsemble) (options : Options) :
    TrustedOn host (compileModelOn host raw options) :=
  trustedOn_of_validate fun h => (trusted_assembleEnsemble raw).thenOn fun ensemble =>
    trustedOn_emitCheckedOn h (by simp) ensemble

theorem trustedOn_compileOn (host : Host) (source : String) (options : Options) :
    TrustedOn host (compileOn host source options) :=
  trustedOn_of_validate fun h => (trusted_loadEnsemble source).thenOn fun ensemble =>
    trustedOn_emitCheckedOn h (lineFeed_notMem_fingerprint source) ensemble

/-- **The gate never rejects what the emitter writes.** Under valid options every ensemble compiles to
its text, and a document fails exactly as the ensemble in it does; no compilation ends with a fault
of the generated text. That is so on every host that starts the threads it is asked for. Another host
may refuse one to the parser of a text that nests deeper than its stack has room for, and then the
compilation ends with that refusal; this is the only way in which a text is not handed out. -/
theorem compile_exact :
    (∀ host : Host, host.StartsThreads →
      (∀ options : Options, options.validate = .ok () →
        (∀ ensemble, compileEnsembleOn host ensemble options =
          .ok (Emitter.moduleText ⟨options, none⟩ ensemble)) ∧
        (∀ ensemble text, Blake3.IsHex text → emitCheckedOn host ensemble options (some text) =
          .ok (Emitter.moduleText ⟨options, some text⟩ ensemble)) ∧
        (∀ source, compileOn host source options =
          (loadEnsemble source).map (Emitter.moduleText ⟨options, some (fingerprint source)⟩)) ∧
        ∀ source error, compileOn host source options = .error error ↔
          loadEnsemble source = .error error) ∧
      ∀ options : Options,
        (∀ source, Trusted (compileOn host source options)) ∧
        (∀ raw, Trusted (compileModelOn host raw options)) ∧
        ∀ ensemble, Trusted (compileEnsembleOn host ensemble options)) ∧
    ∀ (host : Host) (options : Options),
      (options.validate = .ok () →
        (∀ ensemble, compileEnsembleOn host ensemble options =
          handOut host (Emitter.moduleText ⟨options, none⟩ ensemble)) ∧
        (∀ ensemble text, Blake3.IsHex text → emitCheckedOn host ensemble options (some text) =
          handOut host (Emitter.moduleText ⟨options, some text⟩ ensemble)) ∧
        ∀ source, compileOn host source options = loadEnsemble source >>= fun ensemble =>
          handOut host (Emitter.moduleText ⟨options, some (fingerprint source)⟩ ensemble)) ∧
      (∀ source, TrustedOn host (compileOn host source options)) ∧
      (∀ raw, TrustedOn host (compileModelOn host raw options)) ∧
      ∀ ensemble, TrustedOn host (compileEnsembleOn host ensemble options) := by
  have hemit (host : Host) {options : Options} (h : options.validate = .ok ()) (ensemble : Ensemble)
      (text : String) (htext : Blake3.IsHex text) : emitCheckedOn host ensemble options (some text) =
        handOut host (Emitter.moduleText ⟨options, some text⟩ ensemble) :=
    emitCheckedOn_eq host h _ (by simpa using htext.not_mem_lineFeed) ensemble
  constructor
  · intro host hhost
    constructor
    · intro options h
      have hcompile (source : String) : compileOn host source options =
          (loadEnsemble source).map (Emitter.moduleText ⟨options, some (fingerprint source)⟩) :=
        (compileOn_eq host h source).trans (bind_handOut hhost _ _)
      refine ⟨fun ensemble => ?_, fun ensemble text htext => ?_, hcompile, fun source error => ?_⟩
      · exact (compileEnsembleOn_eq host h ensemble).trans (handOut_of_startsThreads hhost _)
      · exact (hemit host h ensemble text htext).trans (handOut_of_startsThreads hhost _)
      · rw [hcompile]
        cases loadEnsemble source <;> simp [Except.map]
    · intro options
      exact ⟨fun source => (trustedOn_compileOn host source options).trusted hhost,
        fun raw => (trustedOn_compileModelOn host raw options).trusted hhost,
        fun ensemble => (trustedOn_compileEnsembleOn host ensemble options).trusted hhost⟩
  · intro host options
    refine ⟨fun h => ⟨compileEnsembleOn_eq host h, hemit host h, compileOn_eq host h⟩, ?_⟩
    exact ⟨fun source => trustedOn_compileOn host source options,
      fun raw => trustedOn_compileModelOn host raw options,
      fun ensemble => trustedOn_compileEnsembleOn host ensemble options⟩

/-- The text for one split, with names of its own, at 64 bits and with absent features. -/
theorem compile_exact_split :
    let options : Options := ⟨"scorer", "margin", .double, .absent⟩
    let half : Binary64 := .finite false ⟨0x3FE0000000000000, by decide⟩
    let weight : Binary64 := .finite true ⟨0x3FF4000000000000, by decide⟩
    let root : Node := .split 0 2 half true (.leaf 1 weight) (.leaf 2 .nan)
    let ensemble : Ensemble := ⟨[⟨0, 0, root⟩], .zero .double false, 1, some 3, by decide, by decide⟩
    let lines : List String :=
      ["// Code generated by boostc from an XGBoost model. DO NOT EDIT.",
        "",
        "pub mod scorer \x7b",
        "    pub const NUM_CLASSES: usize = 1;",
        "    pub const NUM_FEATURES: usize = 3;",
        "    pub const BASE_SCORE: f64 = 0.0f64;",
        "",
        "    /// Scores one feature vector. `None` marks a missing feature.",
        "    pub fn margin(features: &[Option<f64>]) -> f64 \x7b",
        "        let mut score = 0.0f64;",
        "        score += margin_tree_0(features);",
        "        score + BASE_SCORE",
        "    \x7d",
        "",
        "    fn feature_value(features: &[Option<f64>], index: usize) -> Option<f64> \x7b",
        "        features.get(index).copied().flatten().filter(|value| !value.is_nan())",
        "    \x7d",
        "",
        "    fn margin_tree_0(features: &[Option<f64>]) -> f64 \x7b",
        "        if feature_value(features, 2).map_or(true, |value| value < 0.5f64) \x7b",
        "            -1.25f64",
        "        \x7d else \x7b",
        "            f64::NAN",
        "        \x7d",
        "    \x7d",
        "\x7d"]
    options.validate = .ok () ∧ Host.ample.StartsThreads ∧
      compileEnsembleOn .ample ensemble options = .ok (joinLines lines ++ "\n") := by
  intro options half weight root ensemble lines
  have hoptions : options.validate = .ok () := by decide
  have hlines : Emitter.moduleLines ⟨options, none⟩ ensemble = lines := by decide +kernel
  have htext := ((compile_exact.1 .ample startsThreads_ample).1 options hoptions).1 ensemble
  rw [Emitter.moduleText, hlines] at htext
  exact ⟨hoptions, startsThreads_ample, htext⟩

end EnsembleCompiler
