import EnsembleCompiler.Proofs.Emission.Characters

/-!
# Generated texts that are cut off

A generated text that is cut off behind the beginning of its module and in front of its last brace
is no target text. Up to the brace that opens the module it has a word and no mark; from there on
more brackets are opened than closed, since the lines of the module are nested by themselves.
-/

namespace EnsembleCompiler

open Target

namespace Emitter

variable (e : Emitter)

/-! ### The parts of a text -/

/-- The text above the module. -/
def headText : String := joinLines e.headLines ++ "\n"

theorem toList_headText : e.headText.toList = linesChars e.headLines :=
  toList_joinLines (by simp [headLines])

/-- The text between the first word of the module and its last brace. -/
def bodyText (ensemble : Ensemble) : String :=
  e.options.moduleName ++ " \x7b\n" ++ String.ofList (linesChars (e.bodyLines ensemble))

theorem moduleText_eq (ensemble : Ensemble) :
    e.moduleText ensemble = e.headText ++ "pub mod " ++ e.bodyText ensemble ++ "\x7d\n" := by
  have hlines : e.moduleLines ensemble = e.headLines ++
      (("pub mod " ++ e.options.moduleName ++ " \x7b") :: e.bodyLines ensemble) ++ ["\x7d"] := by
    simp [moduleLines, bodyLines]
  have htext : (e.moduleText ensemble).toList = linesChars (e.moduleLines ensemble) :=
    toList_joinLines (by simp [moduleLines])
  refine String.toList_injective ?_
  rw [htext, hlines]
  simp [bodyText, toList_headText, linesChars, String.toList_append]

/-- The lines above the module are comments and a blank line. -/
theorem trivia_headLines (h : ∀ text ∈ e.fingerprint, Blake3.IsHex text) :
    Trivia (linesChars e.headLines) := by
  have hcomment : ∀ text : String, '\n' ∉ text.toList → Trivia (("//" ++ text).toList ++ ['\n']) := by
    intro text htext
    have hline := trivia_lineComment htext
    simpa [String.toList_append] using hline
  have hfirst := hcomment " Code generated by boostc from an XGBoost model. DO NOT EDIT." (by decide)
  have hblank : Trivia ['\n'] := trivia_blank (by decide)
  unfold headLines
  cases hfingerprint : e.fingerprint with
  | none => simpa [linesChars] using hfirst.append hblank
  | some text =>
    have hfeed : '\n' ∉ (" model fingerprint: blake3:" ++ text).toList := by
      have htext := (h text hfingerprint).not_mem_lineFeed
      simpa [String.toList_append] using htext
    have hsecond := hcomment _ hfeed
    simpa [linesChars, String.toList_append] using hfirst.append (hsecond.append hblank)

/-- The marks of the lines of a module, under a name that nothing unfolds, are nested. -/
theorem nested_bodyLines (hname : isIdentifier e.options.functionName = true)
    (ensemble : Ensemble) :
    ∃ marks, marksIn (linesChars (e.bodyLines ensemble)) = marks ∧ Nested 0 marks := by
  obtain ⟨pairs, hlines, hitems, -⟩ := e.writesItems_module ensemble hname
  have hspells : Spells (linesChars (e.bodyLines ensemble)) (pairs.flatMap Prod.fst) := by
    have hbody := hlines [] [] spells_nil
    rw [List.append_nil, List.append_nil] at hbody
    exact hbody
  have hcalm := calm_linesChars (e.calmLine_bodyLines (isCode_of_isIdentifier hname) ensemble)
  refine ⟨_, hspells.marksIn_eq hcalm, nested_marksOf.2 (nested_flatMap fun pair hpair => ?_)⟩
  have hfile := (hitems pair hpair).ofLexemes
  exact (bracketed_of_ofLexemes hfile).nested

/-! ### Beginnings of a text -/

/-- What stands in front of the brace that opens the module. -/
def openingText : String := "pub mod " ++ e.options.moduleName ++ " "

theorem marksIn_openingText (h : isIdentifier e.options.moduleName = true) :
    marksIn e.openingText.toList = [] := by
  rw [openingText, String.toList_append, String.toList_append, marksIn_append, marksIn_append,
    marksIn_of_isIdentifier h]
  rfl

/-- The lines in front of the one that closes the module. -/
def openLines (ensemble : Ensemble) : List String :=
  e.headLines ++ (e.openingText ++ "\x7b") :: e.bodyLines ensemble

theorem linesChars_openLines (ensemble : Ensemble) :
    linesChars (e.openLines ensemble) = linesChars e.headLines ++
      (e.openingText.toList ++ '\x7b' :: '\n' :: linesChars (e.bodyLines ensemble)) := by
  simp [openLines, linesChars, String.toList_append]

theorem calmLine_openLines (hfingerprint : ∀ text ∈ e.fingerprint, Blake3.IsHex text)
    (hmodule : isIdentifier e.options.moduleName = true)
    (hfunction : isIdentifier e.options.functionName = true) (ensemble : Ensemble) :
    ∀ line ∈ e.openLines ensemble, CalmLine line := by
  have hopening : IsCode (e.openingText ++ "\x7b") := by
    simp +decide [openingText, isCode_of_isIdentifier hmodule]
  refine List.forall_mem_append.2 ⟨fun line hline => ?_, List.forall_mem_cons.2 ⟨.inl hopening, ?_⟩⟩
  · exact .inr (e.isRemark_headLines hfingerprint line hline)
  · exact e.calmLine_bodyLines (isCode_of_isIdentifier hfunction) ensemble

section

variable {e} {ensemble : Ensemble} {part : List Char}

/-- A text that ends in front of the brace that opens the module is rejected: it has a word and no
mark. -/
theorem check_cutBeforeBrace (hfingerprint : ∀ text ∈ e.fingerprint, Blake3.IsHex text)
    (hmodule : isIdentifier e.options.moduleName = true)
    (hcalm : Calm (linesChars e.headLines ++ part)) (hne : part ≠ [])
    (hpart : part <+: e.openingText.toList) :
    check (String.ofList (linesChars e.headLines ++ part)) ≠ [] := by
  intro hcheck
  have hmarks : marksIn (linesChars e.headLines ++ part) = [] := by
    have hopening := marksIn_prefix hpart
    rw [e.marksIn_openingText hmodule, List.prefix_nil] at hopening
    rw [marksIn_append, marksIn_linesChars (e.isRemark_headLines hfingerprint), hopening,
      List.append_nil]
  obtain ⟨word, rfl⟩ : ∃ word, part = 'p' :: word := by
    obtain ⟨rest, hrest⟩ := hpart
    cases part with
    | nil => exact absurd rfl hne
    | cons c word =>
      rw [openingText, String.toList_append, String.toList_append,
        show "pub mod ".toList = 'p' :: "ub mod ".toList from rfl, List.cons_append] at hrest
      exact ⟨word, by rw [(List.cons.inj hrest).1]⟩
  -- a text that passes without a bracket in it is blanks and comments only, but here a word follows
  -- them
  have hskip := skipTrivia_of_check hcheck (by simpa using hcalm) (by simpa using hmarks)
  rw [String.toList_ofList, e.trivia_headLines hfingerprint, skipTrivia_of_startsLexeme
    (startsLexeme_of (by decide) (by decide) _)] at hskip
  cases hskip

/-- A text whose marks are not nested is rejected. -/
theorem check_of_marksIn {source : String} {marks : List Lexeme} (hcalm : Calm source.toList)
    (hmarks : marksIn source.toList = marks) (hnested : ¬ Nested 0 marks) : check source ≠ [] := by
  intro hcheck
  exact hnested (hmarks ▸ nested_of_check hcheck hcalm)

/-- A text that ends behind the brace that opens the module, but in front of the last brace, is
rejected: it opens more brackets than it closes. -/
theorem check_cutBehindBrace (hfingerprint : ∀ text ∈ e.fingerprint, Blake3.IsHex text)
    (hmodule : isIdentifier e.options.moduleName = true)
    (hfunction : isIdentifier e.options.functionName = true)
    (hcalm : Calm (linesChars e.headLines ++ (e.openingText.toList ++ '\x7b' :: part)))
    (hpart : part <+: '\n' :: linesChars (e.bodyLines ensemble)) :
    check (String.ofList (linesChars e.headLines ++ (e.openingText.toList ++ '\x7b' :: part))) ≠
      [] := by
  have hbrace : marksIn ['\x7b'] = [.symbol .leftBrace] := rfl
  have hmarks : marksIn (linesChars e.headLines ++ (e.openingText.toList ++ '\x7b' :: part)) =
      .symbol .leftBrace :: marksIn part := by
    rw [marksIn_append, marksIn_append, marksIn_cons, hbrace,
      marksIn_linesChars (e.isRemark_headLines hfingerprint), e.marksIn_openingText hmodule,
      List.nil_append, List.nil_append, List.singleton_append]
  refine check_of_marksIn (by simpa using hcalm) (by simpa using hmarks) fun hnested => ?_
  have hinner : Nested 1 (marksIn part) := hnested
  have hfeed : NoMark '\n' := rfl
  have hbody := marksIn_prefix hpart
  obtain ⟨marks, hmarks, hnested⟩ := e.nested_bodyLines hfunction ensemble
  rw [hfeed.cons, hmarks] at hbody
  have hle := hinner.le_of_prefix hnested hbody
  omega

/-- A text that ends behind the first character of the module, but in front of the last brace. -/
theorem check_cutOff (hfingerprint : ∀ text ∈ e.fingerprint, Blake3.IsHex text)
    (hmodule : isIdentifier e.options.moduleName = true)
    (hfunction : isIdentifier e.options.functionName = true) (hne : part ≠ [])
    (hpart : part <+:
      e.openingText.toList ++ '\x7b' :: '\n' :: linesChars (e.bodyLines ensemble)) :
    check (String.ofList (linesChars e.headLines ++ part)) ≠ [] := by
  have hcalm : Calm (linesChars e.headLines ++ part) := by
    have hlines := calm_linesChars (e.calmLine_openLines hfingerprint hmodule hfunction ensemble)
    rw [linesChars_openLines] at hlines
    exact hlines.cut ((List.prefix_append_right_inj _).2 hpart)
  rcases List.prefix_or_prefix_of_prefix hpart (List.prefix_append _ _) with hcut | ⟨more, rfl⟩
  · exact check_cutBeforeBrace hfingerprint hmodule hcalm hne hcut
  rw [List.prefix_append_right_inj] at hpart
  cases more with
  | nil =>
    rw [List.append_nil] at hcalm hne ⊢
    exact check_cutBeforeBrace hfingerprint hmodule hcalm hne (List.prefix_refl _)
  | cons c more =>
    obtain ⟨rfl, hmore⟩ := List.cons_prefix_cons.1 hpart
    exact check_cutBehindBrace hfingerprint hmodule hfunction hcalm hmore

end

end Emitter

/-! ### Bytes -/

theorem utf8ByteSize_eq_length {text : String} (h : ∀ c ∈ text.toList, c.utf8Size = 1) :
    text.utf8ByteSize = text.toList.length := by
  have hbytes := byteLength_eq_utf8ByteSize text.toList
  rw [String.ofList_toList] at hbytes
  rw [← hbytes, byteLength_eq_length h]

/-- The first bytes of a text are its first characters where these have one byte each. -/
theorem toUTF8_take {text rest : String} {n : Nat} (h : ∀ c ∈ text.toList, c.utf8Size = 1)
    (hn : n ≤ text.utf8ByteSize) :
    (String.ofList (text.toList.take n)).toUTF8 = (text ++ rest).toUTF8.extract 0 n := by
  let kept := String.ofList (text.toList.take n)
  have hkept : kept.toList = text.toList.take n := String.toList_ofList
  have htext : text ++ rest = kept ++ (String.ofList (text.toList.drop n) ++ rest) := by
    refine String.toList_injective ?_
    rw [String.toList_append, String.toList_append, String.toList_append, hkept,
      String.toList_ofList, ← List.append_assoc, List.take_append_drop]
  have hsize : kept.utf8ByteSize = n := by
    rw [utf8ByteSize_eq_length h] at hn
    rw [utf8ByteSize_eq_length fun c hc => h c (List.mem_of_mem_take (hkept ▸ hc)), hkept,
      List.length_take_of_le hn]
  rw [htext, String.toUTF8_eq_toByteArray, String.toUTF8_eq_toByteArray, String.toByteArray_append]
  exact (ByteArray.extract_append_eq_left (hsize.symm.trans String.size_toByteArray.symm)).symm

/-- **A text that is cut off is rejected.** Whichever bytes of a generated text are kept from its
beginning on, if the first byte of the module is among them and its last brace is not, they are a
text that does not pass the check. -/
theorem moduleText_cutOff {options : Options} (h : options.validate = .ok ())
    {fingerprint : Option String} (hfingerprint : ∀ text ∈ fingerprint, Blake3.IsHex text)
    (ensemble : Ensemble) :
    let e : Emitter := ⟨options, fingerprint⟩
    e.moduleText ensemble = e.headText ++ "pub mod " ++ e.bodyText ensemble ++ "\x7d\n" ∧
      ∀ n, e.headText.utf8ByteSize < n →
        n ≤ (e.headText ++ "pub mod " ++ e.bodyText ensemble).utf8ByteSize →
        ∃ source : String, source.toUTF8 = (e.moduleText ensemble).toUTF8.extract 0 n ∧
          check source ≠ [] := by
  intro e
  refine ⟨e.moduleText_eq ensemble, fun n hhead hn => ?_⟩
  obtain ⟨hmodule, hfunction⟩ := Options.isIdentifier_of_validate h
  let kept := e.headText ++ "pub mod " ++ e.bodyText ensemble
  have hkept : kept.toList = linesChars (e.openLines ensemble) := by
    simp [kept, Emitter.bodyText, Emitter.toList_headText, Emitter.linesChars_openLines,
      Emitter.openingText, String.toList_append]
  -- all characters are single bytes, so a cut at a byte is a cut at a character
  have hbytes : ∀ c ∈ kept.toList, c.utf8Size = 1 := by
    have hlines := e.calmLine_openLines hfingerprint hmodule hfunction ensemble
    exact fun c hc => (char_of_mem_linesChars hlines (hkept ▸ hc)).1
  refine ⟨String.ofList (kept.toList.take n), ?_, ?_⟩
  · rw [e.moduleText_eq]
    exact toUTF8_take hbytes hn
  rw [e.linesChars_openLines] at hkept
  have hlength : (linesChars e.headLines).length < n := by
    rw [← e.toList_headText]
    rw [utf8ByteSize_eq_length fun c hc => hbytes c ?_] at hhead
    · exact hhead
    · rw [hkept, ← e.toList_headText]
      exact List.mem_append_left _ hc
  rw [hkept, List.take_append, List.take_of_length_le (by omega)]
  refine Emitter.check_cutOff hfingerprint hmodule hfunction ?_ (List.take_prefix _ _)
  refine List.ne_nil_of_length_pos ?_
  rw [List.length_take, List.length_append, List.length_cons]
  omega

/-- An ensemble without trees, cut off inside the name of its module. -/
theorem moduleText_cutOff_insideName :
    let ensemble : Ensemble := ⟨[], .nan, 1, none, by decide, by simp⟩
    let e : Emitter := ⟨.default, some "c0ffee"⟩
    Options.default.validate = .ok () ∧ (∀ text ∈ some "c0ffee", Blake3.IsHex text) ∧
      ∃ source : String, source.toUTF8 = (e.moduleText ensemble).toUTF8.extract 0 110 ∧
        check source ≠ [] := by
  intro ensemble e
  have hoptions : Options.default.validate = .ok () := by decide
  have hhex : "c0ffee".toList.all (· ∈ Blake3.hexDigits) = true := by decide
  have hfingerprint : ∀ text ∈ some "c0ffee", Blake3.IsHex text := by
    rintro _ ⟨⟩ c hc
    simpa using List.all_eq_true.1 hhex c hc
  have hsize : e.headText.utf8ByteSize < 110 ∧
      110 ≤ (e.headText ++ "pub mod " ++ e.bodyText ensemble).utf8ByteSize := by
    decide +kernel
  exact ⟨hoptions, hfingerprint,
    (moduleText_cutOff hoptions hfingerprint ensemble).2 110 hsize.1 hsize.2⟩

end EnsembleCompiler
