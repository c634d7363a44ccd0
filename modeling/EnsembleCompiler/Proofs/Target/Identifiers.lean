import EnsembleCompiler.Proofs.Compilation
import EnsembleCompiler.Proofs.Target.Joining
import EnsembleCompiler.Proofs.Target.TokenFaults

/-!
# Names that are read as identifiers

Whether a name can stand for itself is decided on its characters; what a text is read as is decided
by the scanner, which skips trivia, reads the longest word and looks it up among the words of the
language. Both agree: an identifier that the scanner reads anywhere in a text passes the test, and a
name that passes it is read as one token, in front of every text that does not go on with the word.

Main statement: `isIdentifier_iff_scan`.
-/

namespace EnsembleCompiler.Target

/-! ### What is read as an identifier -/

theorem eq_of_ofWord_ident {word name : String} (h : Lexeme.ofWord word = .ident name) :
    word = name := by
  unfold Lexeme.ofWord at h
  split at h
  · cases h
  · split_ifs at h
    exact Lexeme.ident.inj h

/-- Where an identifier is read, a word is. -/
theorem scanLexeme?_of_ident {c : Char} {rest : List Char} {s : Scanned} {name : String}
    (h : scanLexeme? c rest = some s) (hs : s.lexeme = .ident name) :
    startsWord c = true ∧ s = scanWord (c :: rest) := by
  unfold scanLexeme? at h
  split at h
  · next hc =>
    cases h
    exact ⟨hc, rfl⟩
  · split at h
    · cases h
      have hnumber := isNumber_scanNumber (c :: rest)
      rw [hs] at hnumber
      cases hnumber
    · split at h
      · cases h
        obtain ⟨text, htext⟩ := lexeme_scanString false ⟨1, [], []⟩ rest
        rw [htext] at hs
        cases hs
      · obtain ⟨sign, width, behind, -, rfl⟩ := eq_of_scanSymbol? h
        cases hs

/-- The word that is read as an identifier is one. -/
theorem isIdentifier_of_scanWord {c : Char} {rest : List Char} {name : String}
    (hc : startsWord c = true) (h : (scanWord (c :: rest)).lexeme = .ident name) :
    isIdentifier name = true := by
  obtain rfl := eq_of_ofWord_ident h
  have hword : (String.ofList ((c :: rest).takeWhile continuesWord)).toList =
      c :: rest.takeWhile continuesWord := by
    rw [String.toList_ofList, List.takeWhile_cons_of_pos (continuesWord_of_startsWord hc)]
  have hall : (rest.takeWhile continuesWord).all continuesWord = true :=
    List.all_eq_true.2 fun d hd => List.mem_takeWhile_imp hd
  rw [isIdentifier, hword]
  simp only [hc, hall, Bool.true_and, decide_eq_true_eq]
  exact h

/-- Wherever an identifier is read, it passes the test of names. -/
theorem isIdentifier_of_mem_scan {source name : String} {t : Token}
    (ht : t ∈ (scan source).tokens) (h : t.lexeme = .ident name) : isIdentifier name = true := by
  obtain ⟨before, c, rest, s, -, hs, rfl, -⟩ := readsIn_scan source t ht
  obtain ⟨hc, rfl⟩ := scanLexeme?_of_ident hs h
  exact isIdentifier_of_scanWord hc h

/-! ### How a name is read -/

/-- A name that passes the test is read as itself, and what stands behind it as by itself. -/
theorem scan_ident {name : String} (h : isIdentifier name = true) {rest : String}
    (hrest : NextChar (fun c => continuesWord c = false) rest.toList) :
    scan (name ++ rest) =
      (scan rest).behind [⟨.ident name, ⟨0, name.utf8ByteSize⟩⟩] name.utf8ByteSize := by
  obtain ⟨c, word, htext, hc, hword, hof⟩ := startsLexeme_ident h
  have hall : ∀ d ∈ c :: word, continuesWord d = true :=
    List.forall_mem_cons.2 ⟨continuesWord_of_startsWord hc, hword⟩
  have hwidth : (c :: word).length = name.utf8ByteSize := by
    rw [← byteLength_eq_length fun d hd => utf8Size_of_continuesWord (hall d hd),
      byteLength_eq_utf8ByteSize, ← htext, String.ofList_toList]
  have hlexeme : scanLexeme? c (word ++ rest.toList) =
      some ⟨.ident name, name.utf8ByteSize, rest.toList, []⟩ := by
    rw [scanLexeme?_word hc hword hrest, ← htext, String.ofList_toList, hof, htext, hwidth]
  have hstart : skipTrivia .between 0 (name ++ rest).toList =
      ⟨0, c :: (word ++ rest.toList), []⟩ := by
    rw [String.toList_append, htext, List.cons_append]
    exact skipTrivia_of_startsLexeme (startsLexeme_of_continuesWord (hall c (by simp)) _) 0
  -- what stands behind the name is scanned as at the beginning of a text, with its places moved
  have hbehind : scanFrom (0 + name.utf8ByteSize) rest.toList
      [⟨.ident name, ⟨0, name.utf8ByteSize⟩⟩] [] =
        (scan rest).behind [⟨.ident name, ⟨0, name.utf8ByteSize⟩⟩] name.utf8ByteSize :=
    scanFrom_shift name.utf8ByteSize [⟨.ident name, ⟨0, name.utf8ByteSize⟩⟩] [] []
  rw [scan, scanFrom_lexeme hstart hlexeme]
  simpa using hbehind

/-- **The test of names agrees with the scanner.** A name passes it exactly if it is read without a
fault as one token, the identifier of that name. So the names of accepted options are read as
themselves, in front of every text that does not go on with a word, and the rest as by itself. -/
theorem isIdentifier_iff_scan :
    (∀ name : String, isIdentifier name = true ↔
      (scan name).faults = [] ∧ (scan name).tokens.map (·.lexeme) = [.ident name]) ∧
    ∀ options : Options, options.validate = .ok () →
      ∀ name ∈ [options.moduleName, options.functionName], ∀ rest : String,
        NextChar (fun c => continuesWord c = false) rest.toList →
          scan (name ++ rest) =
            (scan rest).behind [⟨.ident name, ⟨0, name.utf8ByteSize⟩⟩] name.utf8ByteSize := by
  refine ⟨fun name => ⟨fun h => ?_, fun h => ?_⟩, fun options hvalid name hname rest => ?_⟩
  · have hspell : Spells (name.toList ++ []) [.ident name] :=
      .ident h (by simp [NextChar]) spells_nil
    rw [List.append_nil] at hspell
    exact hspell.scan
  · obtain ⟨t, htokens, hlexeme⟩ := List.map_eq_singleton_iff.1 h.2
    have ht : t ∈ (scan name).tokens := htokens ▸ List.mem_singleton_self t
    exact isIdentifier_of_mem_scan ht hlexeme
  · obtain ⟨hmodule, hfunction⟩ := Options.isIdentifier_of_validate hvalid
    refine scan_ident ?_
    rcases List.mem_cons.1 hname with rfl | hname
    · exact hmodule
    · rwa [List.mem_singleton.1 hname]

/-- A keyword with an underscore behind it, in front of a comment and of a character that begins no
lexeme. -/
theorem isIdentifier_iff_scan_underscored :
    isIdentifier "_0" = true ∧ (scan "_0").tokens.map (·.lexeme) = [.ident "_0"] ∧
      Options.validate ⟨"Self_", "_0", .single, .nan⟩ = .ok () ∧
      NextChar (fun c => continuesWord c = false) "/*é*/é".toList ∧
      scan ("Self_" ++ "/*é*/é") =
        (scan "/*é*/é").behind [⟨.ident "Self_", ⟨0, "Self_".utf8ByteSize⟩⟩] "Self_".utf8ByteSize := by
  have hname : isIdentifier "_0" = true := by decide +kernel
  have hvalid : Options.validate ⟨"Self_", "_0", .single, .nan⟩ = .ok () := by decide +kernel
  have hrest : NextChar (fun c => continuesWord c = false) "/*é*/é".toList :=
    .cons (by decide)
  exact ⟨hname, ((isIdentifier_iff_scan.1 "_0").1 hname).2, hvalid, hrest,
    isIdentifier_iff_scan.2 _ hvalid _ (List.mem_cons_self ..) _ hrest⟩

end EnsembleCompiler.Target
