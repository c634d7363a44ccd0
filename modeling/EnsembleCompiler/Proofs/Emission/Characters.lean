import EnsembleCompiler.Proofs.Emission.Functions
import EnsembleCompiler.Proofs.Compilation
import EnsembleCompiler.Proofs.Target.Marks

/-!
# The characters of a generated module

Code is written with ASCII characters, without strings and, apart from the lines that are remarks,
without comments; remarks hold no bracket and no semicolon. So the generated text is calm.
-/

namespace EnsembleCompiler

open Target

/-- A character of one byte that begins no string and has no part in a comment. -/
def isCodeChar (c : Char) : Bool :=
  c.toNat ≤ 127 && c != '"' && c != '*' && c != '/'

/-- A text of such characters. -/
def IsCode (text : String) : Prop := ∀ c ∈ text.toList, isCodeChar c = true

instance (text : String) : Decidable (IsCode text) :=
  decidable_of_iff (text.toList.all isCodeChar = true) List.all_eq_true

@[simp] theorem isCode_append (s t : String) : IsCode (s ++ t) ↔ IsCode s ∧ IsCode t := by
  simp [IsCode, or_imp, forall_and]

theorem isCode_intercalate {separator : String} {texts : List String} (h : IsCode separator)
    (htexts : ∀ text ∈ texts, IsCode text) : IsCode (separator.intercalate texts) := by
  rw [IsCode, String.toList_intercalate]
  induction texts with
  | nil => simp
  | cons first rest ih =>
    obtain ⟨hfirst, hrest⟩ := List.forall_mem_cons.1 htexts
    cases rest with
    | nil =>
      rw [List.map_singleton, List.intercalate_singleton]
      exact hfirst
    | cons second rest =>
      rw [List.map_cons, List.map_cons, List.intercalate_cons_cons, ← List.map_cons]
      intro c hc
      rcases List.mem_append.1 hc with hc | hc
      · exact (List.mem_append.1 hc).elim (hfirst c) (h c)
      · exact ih hrest c hc

theorem isCodeChar_of_continuesWord {c : Char} (h : continuesWord c = true) :
    isCodeChar c = true := by
  have hsize : c.toNat ≤ 127 := by
    simpa [UInt32.le_iff_toNat_le] using Char.utf8Size_eq_one_iff.1 (utf8Size_of_continuesWord h)
  have hother : ∀ d : Char, continuesWord d = false → c ≠ d := by
    rintro d hd rfl
    rw [h] at hd
    cases hd
  simp [isCodeChar, hsize, hother '"' (by decide), hother '*' (by decide), hother '/' (by decide)]

theorem isCodeChar_of_isDigit {c : Char} (h : c.isDigit = true) : isCodeChar c = true :=
  isCodeChar_of_continuesWord (continuesWord_of_isDigit h)

/-! ### Names and numbers -/

theorem isCode_of_isIdentifier {name : String} (h : isIdentifier name = true) : IsCode name := by
  obtain ⟨c, word, htext, hc, hword, -⟩ := startsLexeme_ident h
  rw [IsCode, htext, List.forall_mem_cons]
  exact ⟨isCodeChar_of_continuesWord (continuesWord_of_startsWord hc),
    fun d hd => isCodeChar_of_continuesWord (hword d hd)⟩

@[simp] theorem isCode_repr (n : Nat) : IsCode (Nat.repr n) := by
  intro c hc
  rw [Nat.repr_eq_ofList_toDigits, String.toList_ofList] at hc
  exact isCodeChar_of_isDigit ((digits_toDigits n).isDigit c hc)

@[simp] theorem isCode_indent (level : Nat) : IsCode (indent level) := by
  intro c hc
  rw [indent, String.toList_ofList] at hc
  rw [(List.mem_replicate.1 hc).2]
  decide

@[simp] theorem isCode_precision (p : Precision) : IsCode p.typeName := by
  cases p <;> decide

/-- A literal is made of the characters of words and of the marks of numbers and paths. -/
theorem mem_literalText {f : FloatFormat} (p : Precision) (x : Binary f) {c : Char}
    (hc : c ∈ (literalText p.typeName x).toList) :
    continuesWord c = true ∨ c ∈ ['.', '-', ':'] := by
  have htype : ∀ c ∈ p.typeName.toList, continuesWord c = true :=
    List.all_eq_true.1 (by cases p <;> decide)
  have hconstant : ∀ name ∈ ["::NAN", "::INFINITY", "::NEG_INFINITY"],
      c ∈ (p.typeName ++ name).toList → continuesWord c = true ∨ c ∈ ['.', '-', ':'] := by
    have hnames : ∀ name ∈ ["::NAN", "::INFINITY", "::NEG_INFINITY"],
        name.toList.all (fun c => continuesWord c || c = ':') = true := by decide
    intro name hname hc
    rw [String.toList_append] at hc
    rcases List.mem_append.1 hc with hc | hc
    · exact .inl (htype c hc)
    · have hchar := List.all_eq_true.1 (hnames name hname) c hc
      rw [Bool.or_eq_true, decide_eq_true_eq] at hchar
      exact hchar.imp_right fun hcolon => by simp [hcolon]
  -- the values that are no numbers are written by constants, the others by digits
  cases x with
  | nan => exact hconstant _ (by simp) hc
  | infinite negative => exact hconstant _ (by cases negative <;> simp) hc
  | finite negative rank =>
    rw [literalText, FloatLayout.text, String.toList_append, String.toList_ofList,
      FloatLayout.chars, List.append_assoc] at hc
    rcases List.mem_append.1 hc with hsign | hc
    · cases negative with
      | false => cases hsign
      | true => exact .inr (by simp [List.mem_singleton.1 hsign])
    rcases List.mem_append.1 hc with hdigits | hc
    · obtain ⟨n, zeros, htext, -⟩ :=
        spelt_decimalChars (Binary.shortestDecimal f literalLayout.tie rank)
      rw [htext] at hdigits
      rcases mem_chars n hdigits with hdigit | hmark
      · exact .inl (continuesWord_of_isDigit hdigit)
      · simp only [List.mem_cons, List.not_mem_nil, or_false] at hmark
        rcases hmark with rfl | rfl | rfl <;> decide
    · exact .inl (htype c hc)

@[simp] theorem isCode_literalText {f : FloatFormat} (p : Precision) (x : Binary f) :
    IsCode (literalText p.typeName x) := by
  intro c hc
  rcases mem_literalText p x hc with hword | hmark
  · exact isCodeChar_of_continuesWord hword
  · simp only [List.mem_cons, List.not_mem_nil, or_false] at hmark
    rcases hmark with rfl | rfl | rfl <;> decide

namespace Emitter

variable (e : Emitter)

@[simp] theorem isCode_typeName : IsCode e.typeName := isCode_precision _

@[simp] theorem isCode_elementType : IsCode e.elementType := by
  unfold elementType MissingMode.elementType
  cases e.options.missing with
  | nan => exact isCode_precision _
  | absent => simp +decide

@[simp] theorem isCode_literal (x : Binary64) : IsCode (e.literal x) := isCode_literalText _ _

theorem isCode_treeName (h : IsCode e.options.functionName) (position : Nat) :
    IsCode (e.treeName position) := by
  simp +decide [treeName, h]

@[simp] theorem isCode_parameterName (isUsed : Bool) : IsCode (parameterName isUsed) := by
  cases isUsed <;> decide

/-! ### Lines of code -/

@[simp] theorem isCode_condition (feature : UInt64) (threshold : Binary64) (defaultLeft : Bool) :
    IsCode (e.condition feature threshold defaultLeft) := by
  unfold condition
  simp only [isCode_append, isCode_repr, isCode_literal]
  cases defaultLeft <;> decide

theorem isCode_nodeLines (node : Node) (level : Nat) :
    ∀ line ∈ e.nodeLines node level, IsCode line := by
  rw [nodeLines_eq]
  induction node generalizing level with
  | leaf id weight => simp [subtreeLines]
  | split id feature threshold defaultLeft left right ihl ihr =>
    simp +decide [subtreeLines, or_imp, forall_and]
    exact ⟨ihl _, ihr _⟩

theorem isCode_treeLines (h : IsCode e.options.functionName) (tree : Tree) :
    ∀ line ∈ e.treeLines tree, IsCode line := by
  have hname := e.isCode_treeName h tree.position
  have hnodes := e.isCode_nodeLines tree.root 2
  simp +decide [treeLines, or_imp, forall_and, hname]
  exact hnodes

theorem isCode_lookupLines : ∀ line ∈ e.lookupLines, IsCode line := by
  unfold lookupLines
  cases e.options.missing <;> simp +decide [or_imp, forall_and]

theorem isCode_constantLines (ensemble : Ensemble) :
    ∀ line ∈ e.constantLines ensemble, IsCode line := by
  unfold constantLines
  cases ensemble.numFeatures <;> simp +decide [or_imp, forall_and]

theorem isCode_singleBody (h : IsCode e.options.functionName) (ensemble : Ensemble) :
    ∀ line ∈ e.singleBody ensemble, IsCode line := by
  have hname := e.isCode_treeName h
  unfold singleBody
  split <;> simp +decide [or_imp, forall_and, hname]

theorem isCode_multiclassBody (h : IsCode e.options.functionName) (ensemble : Ensemble) :
    ∀ line ∈ e.multiclassBody ensemble, IsCode line := by
  have hname := e.isCode_treeName h
  unfold multiclassBody
  split
  · simp +decide
  · simp +decide [or_imp, forall_and, hname]
    refine isCode_intercalate (by decide) fun text htext => ?_
    obtain ⟨c, -, rfl⟩ := List.mem_map.1 htext
    simp +decide

end Emitter

/-! ### Lines of a calm text -/

/-- A character of one byte that begins no string and no block comment and is no mark. -/
def isRemarkChar (c : Char) : Bool :=
  c.toNat ≤ 127 && c != '"' && c != '*' && (marksIn [c]).isEmpty

/-- A text of such characters. -/
def IsRemark (text : String) : Prop := ∀ c ∈ text.toList, isRemarkChar c = true

instance (text : String) : Decidable (IsRemark text) :=
  decidable_of_iff (text.toList.all isRemarkChar = true) List.all_eq_true

theorem isRemark_append (s t : String) : IsRemark (s ++ t) ↔ IsRemark s ∧ IsRemark t := by
  simp [IsRemark, or_imp, forall_and]

/-- A line of code or a remark. -/
def CalmLine (line : String) : Prop := IsCode line ∨ IsRemark line

theorem CalmLine.char {line : String} (h : CalmLine line) {c : Char} (hc : c ∈ line.toList) :
    c.utf8Size = 1 ∧ c ≠ '"' ∧ c ≠ '*' := by
  have hchar : c.toNat ≤ 127 ∧ c ≠ '"' ∧ c ≠ '*' := by
    rcases h with h | h
    · have hcode := h c hc
      simp only [isCodeChar, Bool.and_eq_true, decide_eq_true_eq, bne_iff_ne] at hcode
      exact ⟨hcode.1.1.1, hcode.1.1.2, hcode.1.2⟩
    · have hremark := h c hc
      simp only [isRemarkChar, Bool.and_eq_true, decide_eq_true_eq, bne_iff_ne] at hremark
      exact ⟨hremark.1.1.1, hremark.1.1.2, hremark.1.2⟩
  exact ⟨utf8Size_eq_one hchar.1, hchar.2⟩

theorem noMark_of_isRemarkChar {c : Char} (h : isRemarkChar c = true) : NoMark c := by
  simp only [isRemarkChar, Bool.and_eq_true] at h
  exact List.isEmpty_iff.1 h.2

/-- A line with a slash is a remark. -/
theorem CalmLine.noMark {line : String} (h : CalmLine line) (hslash : '/' ∈ line.toList) {c : Char}
    (hc : c ∈ line.toList) : NoMark c := by
  rcases h with h | h
  · exact absurd (h '/' hslash) (by decide)
  · exact noMark_of_isRemarkChar (h c hc)

/-- The characters of lines that are ended. -/
def linesChars (lines : List String) : List Char := lines.flatMap fun line => line.toList ++ ['\n']

theorem linesChars_cons (line : String) (lines : List String) :
    linesChars (line :: lines) = line.toList ++ '\n' :: linesChars lines := by
  simp [linesChars]

theorem char_of_mem_linesChars {lines : List String} (h : ∀ line ∈ lines, CalmLine line) {c : Char}
    (hc : c ∈ linesChars lines) : c.utf8Size = 1 ∧ c ≠ '"' ∧ c ≠ '*' := by
  obtain ⟨line, hline, hc⟩ := List.mem_flatMap.1 hc
  rcases List.mem_append.1 hc with hc | hc
  · exact (h line hline).char hc
  · rw [List.mem_singleton.1 hc]
    decide +kernel

theorem calm_linesChars {lines : List String} (h : ∀ line ∈ lines, CalmLine line) :
    Calm (linesChars lines) := by
  refine ⟨fun hc => (char_of_mem_linesChars h hc).2.1 rfl,
    fun hc => (char_of_mem_linesChars h hc).2.2 rfl, ?_⟩
  induction lines with
  | nil =>
    intro tail htail
    exact absurd (List.suffix_nil.1 htail) (by simp)
  | cons line lines ih =>
    obtain ⟨hline, hlines⟩ := List.forall_mem_cons.1 h
    rintro tail ⟨before, htext⟩
    rw [linesChars_cons] at htext
    rcases List.append_eq_append_iff.1 htext with ⟨more, hmore, hrest⟩ | ⟨more, hmore, hrest⟩
    · cases more with
      | nil => cases hrest
      | cons d more =>
        -- the slash is on this line, which is a remark up to its end
        rw [List.cons_append, List.cons.injEq] at hrest
        obtain ⟨rfl, rfl⟩ := hrest
        refine marksIn_eq_nil.2 fun c hc => hline.noMark (by simp [hmore]) ?_
        have hmem : c ∈ more := by
          rw [List.takeWhile_append] at hc
          split at hc
          · simpa using hc
          · exact (List.takeWhile_sublist _).mem hc
        simp [hmore, hmem]
    · cases more with
      | nil => cases hrest
      | cons d more =>
        rw [List.cons_append, List.cons.injEq] at hrest
        exact ih hlines tail ⟨more, hrest.2.symm⟩

theorem marksIn_linesChars {lines : List String} (h : ∀ line ∈ lines, IsRemark line) :
    marksIn (linesChars lines) = [] := by
  have hfeed : NoMark '\n' := rfl
  refine marksIn_eq_nil.2 fun c hc => ?_
  obtain ⟨line, hline, hc⟩ := List.mem_flatMap.1 hc
  rcases List.mem_append.1 hc with hc | hc
  · exact noMark_of_isRemarkChar (h line hline c hc)
  · rw [List.mem_singleton.1 hc]
    exact hfeed

/-! ### The lines of a module -/

namespace Emitter

variable (e : Emitter)

/-- The lines above the module hold no mark. -/
theorem isRemark_headLines (h : ∀ text ∈ e.fingerprint, Blake3.IsHex text) :
    ∀ line ∈ e.headLines, IsRemark line := by
  have hfirst : IsRemark "// Code generated by boostc from an XGBoost model. DO NOT EDIT." := by
    decide +kernel
  have hblank : IsRemark "" := by decide
  unfold headLines
  cases hfingerprint : e.fingerprint with
  | none => simpa using ⟨hfirst, hblank⟩
  | some text =>
    have htext : IsRemark text := fun c hc => by
      have hdigits : Blake3.hexDigits.all isRemarkChar = true := by decide
      exact List.all_eq_true.1 hdigits c (h text hfingerprint c hc)
    have hsecond : IsRemark ("// model fingerprint: blake3:" ++ text) :=
      (isRemark_append _ _).2 ⟨by decide, htext⟩
    simpa using ⟨hfirst, hsecond, hblank⟩

theorem calmLine_scoringLines (h : IsCode e.options.functionName) (ensemble : Ensemble) :
    ∀ line ∈ e.scoringLines ensemble, CalmLine line := by
  have hremark : IsRemark (indent 1 ++ e.scoringRemark) := by
    rw [isRemark_append, scoringRemark]
    exact ⟨by decide, by cases e.options.missing <;> decide +kernel⟩
  have hresult : IsCode
      (if ensemble.isMulticlass then "[" ++ e.typeName ++ "; NUM_CLASSES]" else e.typeName) := by
    split <;> simp +decide
  have hbody : ∀ line ∈
      if ensemble.isMulticlass then e.multiclassBody ensemble else e.singleBody ensemble,
      IsCode line := by
    split
    · exact e.isCode_multiclassBody h ensemble
    · exact e.isCode_singleBody h ensemble
  unfold scoringLines
  simp only [List.forall_mem_append, List.forall_mem_cons, List.forall_mem_map]
  refine ⟨⟨⟨.inr hremark, .inl ?_, by simp⟩, fun line hline => .inl ?_⟩, .inl (by decide), by simp⟩
  · simp +decide [h, hresult]
  · exact (isCode_append _ _).2 ⟨isCode_indent 2, hbody line hline⟩

/-- The lines between the one that opens the module and the one that closes it. -/
def bodyLines (ensemble : Ensemble) : List String :=
  e.constantLines ensemble ++ [""] ++ e.scoringLines ensemble
    ++ (if hasSplits ensemble then [""] ++ e.lookupLines else [])
    ++ ensemble.trees.flatMap fun tree => [""] ++ e.treeLines tree

theorem calmLine_bodyLines (h : IsCode e.options.functionName) (ensemble : Ensemble) :
    ∀ line ∈ e.bodyLines ensemble, CalmLine line := by
  have hblank : ∀ {lines : List String}, (∀ line ∈ lines, CalmLine line) →
      ∀ line ∈ [""] ++ lines, CalmLine line := fun hlines =>
    List.forall_mem_append.2 ⟨by simpa using .inl (by decide), hlines⟩
  have hcode : ∀ {lines : List String}, (∀ line ∈ lines, IsCode line) →
      ∀ line ∈ lines, CalmLine line := fun hlines line hline => .inl (hlines line hline)
  have hconstants := hcode (e.isCode_constantLines ensemble)
  have hscoring := hblank (e.calmLine_scoringLines h ensemble)
  have hlookup : ∀ line ∈ if hasSplits ensemble then [""] ++ e.lookupLines else [],
      CalmLine line := by
    split
    · exact hblank (hcode e.isCode_lookupLines)
    · simp
  have htrees : ∀ line ∈ ensemble.trees.flatMap fun tree => [""] ++ e.treeLines tree,
      CalmLine line := by
    intro line hline
    obtain ⟨tree, -, hline⟩ := List.mem_flatMap.1 hline
    exact hblank (hcode (e.isCode_treeLines h tree)) line hline
  rw [bodyLines, List.append_assoc (e.constantLines ensemble)]
  -- the parts of the body in their order: constants, scoring function, lookup, trees
  simp only [List.forall_mem_append] at hscoring ⊢
  exact ⟨⟨⟨hconstants, hscoring⟩, hlookup⟩, htrees⟩

end Emitter

end EnsembleCompiler
