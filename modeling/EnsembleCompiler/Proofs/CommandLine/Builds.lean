import EnsembleCompiler.CommandLine.Run
import EnsembleCompiler.Proofs.CommandLine.Effects
import EnsembleCompiler.Proofs.Compilation
import EnsembleCompiler.Proofs.Json.Rules

/-!
# What a build changes

A build without an output path reads its input and writes at most one file, the path of the input
with the extension of target texts. If the input has that extension already, then that file is the
input: the document is replaced by the text.
-/

namespace EnsembleCompiler

/-! ### Documents and texts -/

/-- No document begins with a slash. -/
theorem decodeDocument_slash {source : String} (h : source.toList.head? = some '/')
    (raw : RawEnsemble) : decodeDocument source ≠ .ok raw := by
  obtain ⟨rest, hsource⟩ := List.head?_eq_some_iff.1 h
  have hread : (Document.shape.read Json.nestingLimit).on ('/' :: rest) = none := by
    simp [Document.shape, Json.Shape.read, Json.Reader.record, Json.Reader.on_peekToken,
      Json.isJsonBlank]
  have hrun : Document.shape.readDocument.on ('/' :: rest) = none := by
    rw [Json.Shape.readDocument, Json.Reader.on_bind, hread, Option.bind_none]
  rw [decodeDocument, Json.Shape.parse, hsource]
  rw [Json.Reader.on] at hrun
  cases hresult : Document.shape.readDocument.run ⟨0, '/' :: rest⟩ with
  | ok result => simp [hresult, Json.outcome] at hrun
  | error e => cases e <;> simp

theorem decodeDocument_empty (raw : RawEnsemble) : decodeDocument "" ≠ .ok raw := by
  have hread : (decodeDocument "").toOption = none := by decide +kernel
  intro h
  simp [h, Except.toOption] at hread

/-- Every text begins with a comment. -/
theorem Emitter.head?_moduleText (e : Emitter) (ensemble : Ensemble) :
    (e.moduleText ensemble).toList.head? = some '/' := by
  obtain ⟨lines, hlines⟩ : ∃ lines, e.moduleLines ensemble =
      "// Code generated by boostc from an XGBoost model. DO NOT EDIT." :: lines := by
    simp [moduleLines, headLines]
  rw [moduleText, toList_joinLines (by simp [hlines]), hlines]
  rfl

/-- A document that compiles is neither empty nor the text that it compiles to. -/
theorem ne_of_compile {document text : String} {options : Options}
    (h : compile document options = .ok text) : document ≠ "" ∧ document ≠ text := by
  rw [compile, compileOn] at h
  cases hoptions : options.validate with
  | error e => simp [validateOptions, hoptions, Except.mapError, bind, Except.bind] at h
  | ok u =>
    have htext := compile_eq hoptions document
    rw [compile, compileOn, h] at htext
    cases hraw : decodeDocument document with
    | error e => simp [loadEnsemble, hraw, Except.map, bind, Except.bind] at htext
    | ok raw =>
      refine ⟨fun hempty => decodeDocument_empty raw (hempty ▸ hraw), fun heq => ?_⟩
      cases hload : loadEnsemble document with
      | error e => simp [hload, Except.map] at htext
      | ok ensemble =>
        simp only [hload, Except.map, Except.ok.injEq] at htext
        have hhead : document.toList.head? = some '/' := by
          rw [heq, htext, Emitter.head?_moduleText]
        exact decodeDocument_slash hhead raw hraw

/-- Under valid options a document compiles if it holds an ensemble. -/
theorem exists_compile {document : String} {options : Options} (hoptions : options.validate = .ok ())
    (hload : (loadEnsemble document).toOption.isSome) :
    ∃ text, compile document options = .ok text := by
  rw [compile_eq hoptions]
  cases h : loadEnsemble document with
  | error e => simp [h, Except.toOption] at hload
  | ok ensemble => exact ⟨_, rfl⟩

namespace CommandLine

/-! ### Bytes -/

theorem toList_loop (bytes : ByteArray) (i : Nat) (read : List UInt8) :
    ByteArray.toList.loop bytes i read = read.reverse ++ bytes.data.toList.drop i := by
  rw [ByteArray.toList.loop]
  split
  · rename_i h
    have hi : i < bytes.data.toList.length := by simpa using h
    have hget : bytes.get! i = bytes.data.toList[i] := by
      change bytes.data[i]! = _
      rw [getElem!_pos bytes.data i h, Array.getElem_toList]
    rw [toList_loop bytes (i + 1), List.drop_eq_getElem_cons hi, List.reverse_cons, hget]
    simp
  · rename_i h
    rw [List.drop_eq_nil_of_le (by simpa using h), List.append_nil]
termination_by bytes.size - i

theorem toList_eq (bytes : ByteArray) : bytes.toList = bytes.data.toList := toList_loop bytes 0 []

/-- Bytes are those of at most one text. -/
theorem fromUTF8?_eq_some {bytes : List UInt8} {text : String} :
    String.fromUTF8? bytes.toByteArray = some text ↔ bytes = text.toUTF8.toList := by
  rw [toList_eq, String.fromUTF8?]
  constructor
  · intro h
    split at h
    · cases h
      simp [String.fromUTF8]
    · cases h
  · rintro rfl
    have harray : text.toUTF8.data.toList.toByteArray = text.toUTF8 := by
      rw [ByteArray.ext_iff, List.data_toByteArray]
    rw [dif_pos (by rw [harray]; exact text.isValidUTF8)]
    exact congrArg some (String.toByteArray_inj.1 harray)

theorem toUTF8_toList_inj {s t : String} (h : s.toUTF8.toList = t.toUTF8.toList) : s = t := by
  have ht := fromUTF8?_eq_some.2 h
  rw [fromUTF8?_eq_some.2 rfl] at ht
  exact Option.some.inj ht

theorem toList_empty : "".toUTF8.toList = [] := by
  rw [toList_eq]
  rfl

/-! ### Locations of a build -/

namespace FileSystem

variable {fs : FileSystem}

/-- The target of a build is another file than its input, unless the input has the extension of
target texts. -/
theorem leadsTo_target {input : String} {bytes : List UInt8} {location : Location}
    (hread : fs.read input = .ok bytes)
    (htarget : fs.target (withExtension input "rs") = .ok location) :
    ∃ l, fs.LeadsTo input l ∧ fs.Holds l bytes ∧ (l = location ↔ HasTargetExtension input) := by
  obtain ⟨l, hleads, hholds⟩ := read_eq_ok.1 hread
  refine ⟨l, hleads, hholds, ?_⟩
  obtain ⟨directory, name, hparts, hdirectory, hslash⟩ := exists_parts input.toList
  obtain rfl : input = String.ofList (directory ++ name) := by rw [← hparts, String.ofList_toList]
  obtain ⟨start, route, hroute⟩ := exists_route hdirectory
  obtain ⟨hstart, hsplit⟩ := hroute name hslash
  obtain ⟨d, hd, hstep⟩ := hleads.step (by rw [String.toList_ofList, hsplit])
  obtain ⟨hdirectory', hcases⟩ := step_eq_ok.1 hstep
  -- neither an empty name nor a dot leads to a file
  have hentry : ¬(String.ofList name = "" ∨ String.ofList name = ".") := by
    intro hstay
    obtain rfl : l = d := by grind
    exact hholds.not_directory hdirectory'
  have hname : IsName name := by
    refine ⟨?_, ?_, hslash⟩
    · rintro rfl
      exact hentry (.inl rfl)
    · rintro rfl
      exact hentry (.inr rfl)
  have hslash' : '/' ∉ renamed name := slash_notMem_renamed hslash
  obtain ⟨hstart', hsplit'⟩ := hroute (renamed name) hslash'
  rw [withExtension_parts hdirectory hname] at htarget
  obtain ⟨hdots, d', hd', rfl⟩ := target_route htarget (by rw [String.toList_ofList, hsplit'])
    (by simpa [String.ext_iff] using renamed_ne_nil name)
  obtain rfl : d = d' := by
    rw [hstart] at hd
    rw [hstart', hd] at hd'
    exact Except.ok.inj hd'
  rw [hasTargetExtension_parts hdirectory hslash]
  rcases hcases with ⟨hstay, -⟩ | ⟨hup, -⟩ | ⟨-, -, -, rfl⟩
  · exact absurd hstay hentry
  · have hup' : name = ['.', '.'] := String.ofList_inj.1 hup
    exact absurd (by rw [hup']; rfl) hdots
  · constructor
    · intro heq
      have hsame : name = renamed name := by simpa [String.ofList_inj] using heq
      refine (exists_of_renamed_eq hname hsame.symm).resolve_left fun h => hdots ?_
      rw [← hsame, h]
    · rintro ⟨front, c, rfl⟩
      have hsame := (renamed_of_extension front c).resolve_right fun h => hdots (by rw [h])
      rw [hsame]

end FileSystem

/-! ### Builds -/

/-- Why a build without an output path fails. -/
inductive BuildFails (fs : FileSystem) (input : String) (options : Options) : Failure → Prop
  | read {e : FileError} : fs.read input = .error e → BuildFails fs input options (.read input e)
  | notText {bytes : List UInt8} :
    fs.read input = .ok bytes → (∀ document : String, bytes ≠ document.toUTF8.toList) →
    BuildFails fs input options (.read input .notText)
  | compile {document : String} {e : CompileError} :
    fs.read input = .ok document.toUTF8.toList → compile document options = .error e →
    BuildFails fs input options (.compile e)
  | write {document text : String} {e : FileError} :
    fs.read input = .ok document.toUTF8.toList → compile document options = .ok text →
    fs.write (withExtension input "rs") text.toUTF8.toList = .error e →
    BuildFails fs input options (.write (withExtension input "rs") e)

variable {filter : List Directive} {input : String} {options : Options} {fs after : FileSystem}
  {document text : String} {location : Location}

theorem respond_build (filter : List Directive) (input : String) (options : Options)
    (source : String) :
    (Command.build input none options).respond filter source =
      match EnsembleCompiler.compile source options with
      | .error e =>
        .finish ((Failure.compile e).outcome (shownLines filter (Journal.ofCompile source options)))
      | .ok text =>
        .write (withExtension input "rs") text
          (shownLines filter (Journal.ofCompile source options)) :=
  rfl

/-- A build whose text can be written says so, and the file system is as the write leaves it. -/
theorem execute_of_write (hread : fs.read input = .ok document.toUTF8.toList)
    (hcompile : EnsembleCompiler.compile document options = .ok text)
    (hwrite : fs.write (withExtension input "rs") text.toUTF8.toList = .ok after) :
    ((Command.build input none options).execute filter fs).1.exit = 0 ∧
      ((Command.build input none options).execute filter fs).2 = after := by
  have hdocument := fromUTF8?_eq_some.2 (rfl : document.toUTF8.toList = document.toUTF8.toList)
  have hanswer : (Command.build input none options).answer filter (fs.read input) =
      .write (withExtension input "rs") text
        (shownLines filter (Journal.ofCompile document options)) := by
    simp only [hread, Command.answer, hdocument, respond_build, hcompile]
  have hexecute : (Command.build input none options).execute filter fs =
      (afterWrite (withExtension input "rs")
        (shownLines filter (Journal.ofCompile document options)) (.ok ()), after) := by
    simp only [Command.execute, Command.input, hanswer, hwrite]
  rw [hexecute]
  exact ⟨rfl, rfl⟩

/-- A build either writes the text that its document compiles to, or it fails and changes nothing. -/
theorem execute_cases (filter : List Directive) (input : String) (options : Options)
    (fs : FileSystem) :
    (∃ failure lines, BuildFails fs input options failure ∧
      (Command.build input none options).execute filter fs = (failure.outcome lines, fs)) ∨
    ∃ document text after, fs.read input = .ok document.toUTF8.toList ∧
      EnsembleCompiler.compile document options = .ok text ∧
      fs.write (withExtension input "rs") text.toUTF8.toList = .ok after := by
  -- in the order of the run: the first step that fails decides the outcome
  cases hread : fs.read input with
  | error e =>
    exact .inl ⟨_, [], .read hread, by simp [Command.execute, Command.answer, Command.input, hread]⟩
  | ok bytes =>
    cases htext : String.fromUTF8? bytes.toByteArray with
    | none =>
      refine .inl ⟨_, [], .notText hread fun document hbytes => ?_, ?_⟩
      · rw [fromUTF8?_eq_some.2 hbytes] at htext
        cases htext
      · simp [Command.execute, Command.answer, Command.input, hread, htext]
    | some document =>
      obtain rfl := fromUTF8?_eq_some.1 htext
      cases hcompile : EnsembleCompiler.compile document options with
      | error e =>
        refine .inl ⟨_, shownLines filter (Journal.ofCompile document options),
          .compile hread hcompile, ?_⟩
        simp only [Command.execute, Command.answer, Command.input, hread, htext, respond_build,
          hcompile]
      | ok text =>
        cases hwrite : fs.write (withExtension input "rs") text.toUTF8.toList with
        | error e =>
          refine .inl ⟨_, shownLines filter (Journal.ofCompile document options),
            .write hread hcompile hwrite, ?_⟩
          simp only [Command.execute, Command.answer, Command.input, hread, htext, respond_build,
            hcompile, hwrite, afterWrite]
        | ok after => exact .inr ⟨document, text, after, rfl, hcompile, hwrite⟩

/-- After a build the input is the document as before, or the text if its name has the extension of
target texts. -/
theorem read_after_build (hread : fs.read input = .ok document.toUTF8.toList)
    (hcompile : EnsembleCompiler.compile document options = .ok text)
    (htarget : fs.target (withExtension input "rs") = .ok location)
    (hwrites : fs.Writes location text.toUTF8.toList after) :
    (¬HasTargetExtension input → after.read input = fs.read input) ∧
      (HasTargetExtension input → after.read input = .ok text.toUTF8.toList) := by
  obtain ⟨l, hleads, hholds, hsame⟩ := fs.leadsTo_target hread htarget
  constructor
  · intro hother
    rw [hread]
    exact hwrites.read_other hleads (mt hsame.1 hother) hholds
  · intro hextension
    obtain rfl := hsame.2 hextension
    exact hwrites.read_written hleads hholds fun hempty =>
      (ne_of_compile hcompile).1 (toUTF8_toList_inj (hempty.trans toList_empty.symm))

/-- **What a build changes.** A build without an output path, on any file system without links,
either fails with exit code 1, because its input cannot be read, the document does not compile or the
text cannot be written, and then it changes nothing; or it writes the text that its document compiles
to at the location of the input with the extension of target texts, where a sink swallows it, and
changes no other entry. The input is still the document exactly if its name has another extension:
else it is the text. -/
theorem execute_build (filter : List Directive) (input : String) (options : Options)
    (fs : FileSystem) :
    let result := (Command.build input none options).execute filter fs
    (result.1.exit = 1 ∧ result.2 = fs ∧
      ∃ failure lines, BuildFails fs input options failure ∧ result.1 = failure.outcome lines) ∨
    (result.1.exit = 0 ∧ ∃ document text location,
      fs.read input = .ok document.toUTF8.toList ∧
      EnsembleCompiler.compile document options = .ok text ∧
      fs.target (withExtension input "rs") = .ok location ∧
      fs.Writes location text.toUTF8.toList result.2 ∧
      (result.2.read input = fs.read input ↔ ¬HasTargetExtension input) ∧
      (HasTargetExtension input → result.2.read input = .ok text.toUTF8.toList)) := by
  rcases execute_cases filter input options fs with
    ⟨failure, lines, hfails, hresult⟩ | ⟨document, text, after, hread, hcompile, hwrite⟩
  · refine .inl ⟨?_, ?_, failure, lines, hfails, ?_⟩ <;> rw [hresult]
    rfl
  · obtain ⟨location, htarget, hwrites⟩ := fs.writes_of_write hwrite
    obtain ⟨hexit, hafter⟩ := execute_of_write hread hcompile hwrite
    obtain ⟨hother, hsame⟩ := read_after_build hread hcompile htarget hwrites
    refine .inr ⟨hexit, document, text, location, hread, hcompile, htarget, ?_⟩
    rw [hafter]
    refine ⟨hwrites, ⟨fun heq hextension => ?_, hother⟩, hsame⟩
    -- the input would be the text that it compiles to, but no document compiles to itself
    rw [hsame hextension, hread, Except.ok.injEq] at heq
    exact (ne_of_compile hcompile).2 (toUTF8_toList_inj heq).symm

/-- A document without trees, with two of its records as lists of their fields. -/
def treelessDocument : String :=
  "\x7b\"learner\":\x7b\"gradient_booster\":[\"gbtree\",[[],[]]],"
    ++ "\"learner_model_param\":[\"0\",\"0\",\"4\"]\x7d\x7d"

/-- A directory with a document that is named as a target text. -/
def misnamed : FileSystem := ⟨[(["m.rs"], .file treelessDocument.toUTF8.toList)]⟩

theorem run_build_misnamed : run ["build", "m.rs"] none misnamed =
    (Command.build "m.rs" none .default).execute (filterOf none false) misnamed :=
  rfl

/-- The build of a document that is named as a target text succeeds and does not leave it. -/
theorem run_misnamed :
    misnamed.read "m.rs" = .ok treelessDocument.toUTF8.toList ∧
      (run ["build", "m.rs"] none misnamed).1.exit = 0 ∧
      (run ["build", "m.rs"] none misnamed).2.read "m.rs" ≠ misnamed.read "m.rs" := by
  have hleads : misnamed.LeadsTo "m.rs" ["m.rs"] := by
    constructor <;> decide
  have hread : misnamed.read "m.rs" = .ok treelessDocument.toUTF8.toList :=
    FileSystem.read_eq_ok.2 ⟨_, hleads, .inl rfl⟩
  have hoptions : Options.default.validate = .ok () := by decide
  have hload : (loadEnsemble treelessDocument).toOption.isSome := by decide +kernel
  obtain ⟨text, hcompile⟩ := exists_compile hoptions hload
  have htarget : misnamed.target (withExtension "m.rs" "rs") = .ok ["m.rs"] := by decide
  obtain ⟨after, hwrite⟩ :
      ∃ after, misnamed.write (withExtension "m.rs" "rs") text.toUTF8.toList = .ok after := by
    rw [FileSystem.write, htarget]
    exact ⟨_, rfl⟩
  obtain ⟨hexit, hafter⟩ := execute_of_write hread hcompile hwrite
  obtain ⟨location, hlocation, hwrites⟩ := misnamed.writes_of_write hwrite
  have htext := (read_after_build hread hcompile hlocation hwrites).2 ⟨[], 'm', by decide, by decide⟩
  rw [run_build_misnamed]
  refine ⟨hread, hexit, ?_⟩
  rw [hafter, htext, hread, ne_eq, Except.ok.injEq]
  exact fun heq => (ne_of_compile hcompile).2 (toUTF8_toList_inj heq).symm

end CommandLine

end EnsembleCompiler
