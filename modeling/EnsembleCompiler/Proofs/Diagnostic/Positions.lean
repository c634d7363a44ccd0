import EnsembleCompiler.Span
import Mathlib.Algebra.Ring.Nat
import Mathlib.Data.List.Basic

/-!
# Positions of offsets

A position is taken from the line feeds before an offset and the last of them. Among the bytes of a
text the first lines end at those line feeds, so the number of them tells where the line begins, and
the column tells how far behind that the offset is. Line and column together give the offset back,
and they grow with it.

Main statement: `position_determines_start`.
-/

namespace EnsembleCompiler

/-- The bytes of a text in its UTF-8 form. -/
def utf8Bytes (source : String) : List UInt8 := source.toUTF8.data.toList

/-- The byte of a line feed. -/
def lineFeed : UInt8 := 10

/-- The offset at which a line begins: behind all lines before it, each with its line feed. -/
def lineStart (source : String) (line : Nat) : Nat :=
  ((((utf8Bytes source).splitOn lineFeed).take (line - 1)).map (·.length + 1)).sum

/-- A position in front of another one: on an earlier line, or on the same one further left. -/
def Position.Before (p q : Position) : Prop :=
  p.line < q.line ∨ p.line = q.line ∧ p.column < q.column

/-! ### The bytes of line feeds -/

theorem utf8Bytes_eq (source : String) :
    utf8Bytes source = source.toList.flatMap String.utf8EncodeChar := by
  conv_lhs => rw [← String.ofList_toList (s := source)]
  rw [utf8Bytes, String.toUTF8_eq_toByteArray, String.toByteArray_ofList, List.utf8Encode,
    List.data_toByteArray]

theorem length_utf8Bytes (source : String) : (utf8Bytes source).length = source.utf8ByteSize := by
  rw [utf8Bytes, Array.length_toList, String.toUTF8_eq_toByteArray]
  exact String.size_toByteArray

/-- No other character has the byte of a line feed in its form. -/
theorem lineFeed_notMem_utf8EncodeChar {c : Char} (h : c ≠ '\n') :
    lineFeed ∉ String.utf8EncodeChar c := by
  have hcode : c.val.toNat ≠ 10 := fun hc => h (Char.ext (UInt32.toNat_inj.1 hc))
  have hbyte : ∀ code : Nat, lineFeed = UInt8.ofNat code → code % 256 = 10 := fun code hfeed => by
    simpa [lineFeed] using (congrArg UInt8.toNat hfeed).symm
  intro hmem
  rw [String.utf8EncodeChar.eq_def] at hmem
  dsimp only at hmem
  -- the form of one byte is the code itself, and all bytes of a longer one are at least 128
  split_ifs at hmem <;> simp only [List.mem_cons, List.not_mem_nil, or_false] at hmem
  · exact absurd (hbyte _ hmem) (by omega)
  · rcases hmem with hmem | hmem <;> exact absurd (hbyte _ hmem) (by omega)
  · rcases hmem with hmem | hmem | hmem <;> exact absurd (hbyte _ hmem) (by omega)
  · rcases hmem with hmem | hmem | hmem | hmem <;> exact absurd (hbyte _ hmem) (by omega)

theorem idxsOf_utf8EncodeChar (c : Char) (start : Nat) :
    (String.utf8EncodeChar c).idxsOf lineFeed start = if c = '\n' then [start] else [] := by
  split
  · next h =>
    subst h
    rfl
  · next h =>
    rw [List.idxsOf_eq_nil_iff]
    intro b hb
    rw [beq_eq_false_iff_ne]
    rintro rfl
    exact lineFeed_notMem_utf8EncodeChar h hb

/-- The offsets of the line feeds of a text are those of their bytes. -/
theorem lineFeeds_eq (start : Nat) (cs : List Char) :
    lineFeeds start cs = (cs.flatMap String.utf8EncodeChar).idxsOf lineFeed start := by
  induction cs generalizing start with
  | nil => rfl
  | cons c cs ih =>
    rw [lineFeeds, List.flatMap_cons, List.idxsOf_append, idxsOf_utf8EncodeChar,
      String.length_utf8EncodeChar, ← ih]
    split <;> rfl

/-- The places of a byte before an offset are its places in the bytes before it. -/
theorem filter_idxsOf_lt (bytes : List UInt8) (b : UInt8) (offset : Nat) :
    (bytes.idxsOf b).filter (· < offset) = (bytes.take offset).idxsOf b := by
  have hlength : (bytes.take offset).length = min offset bytes.length := List.length_take
  have hbefore : ∀ i ∈ (bytes.take offset).idxsOf b, decide (i < offset) = true := fun i hi => by
    have := List.lt_add_of_mem_idxsOf i hi
    exact decide_eq_true (by omega)
  have hbehind : ∀ i ∈ (bytes.drop offset).idxsOf b (0 + (bytes.take offset).length),
      ¬ decide (i < offset) = true := fun i hi => by
    have hge := List.ge_of_mem_idxsOf i hi
    have hlt := List.lt_add_of_mem_idxsOf i hi
    rw [List.length_drop] at hlt
    rw [decide_eq_true_eq]
    omega
  conv_lhs => rw [← List.take_append_drop offset bytes]
  rw [List.idxsOf_append, List.filter_append, List.filter_eq_self.2 hbefore,
    List.filter_eq_nil_iff.2 hbehind, List.append_nil]

/-- The position of an offset, from the places of the line feeds in the bytes before it. -/
theorem positionOf_eq (source : String) (offset : Nat) :
    let before := (utf8Bytes source).take offset
    let feeds := before.idxsOf lineFeed
    positionOf source offset =
      ⟨feeds.length + 1, before.length - (feeds.getLast?.map (· + 1)).getD 0 + 1⟩ := by
  intro before feeds
  have hlength : before.length = min offset source.utf8ByteSize := by
    rw [List.length_take, length_utf8Bytes]
  have htake : (utf8Bytes source).take before.length = before := by
    rw [List.length_take, ← List.take_eq_take_min]
  have hfeeds : (lineFeeds 0 source.toList).filter (· < before.length) = feeds := by
    rw [lineFeeds_eq, ← utf8Bytes_eq, filter_idxsOf_lt, htake]
  rw [positionOf, ← hlength, hfeeds]

/-! ### Lines of bytes -/

/-- Each byte that is split at ends a part, and one more part stands behind the last of them. -/
theorem length_splitOn (b : UInt8) (bytes : List UInt8) :
    (bytes.splitOn b).length = bytes.count b + 1 := by
  induction bytes with
  | nil => rfl
  | cons c bytes ih =>
    rw [List.splitOn, List.splitOnP_cons_eq_if_modifyHead, List.count_cons]
    split <;> simp_all [List.splitOn]

/-- Every part but the last is one byte shorter than what it takes. -/
theorem sum_length_splitOn (b : UInt8) (bytes : List UInt8) :
    ((bytes.splitOn b).map (·.length + 1)).sum = bytes.length + 1 := by
  induction bytes with
  | nil => rfl
  | cons c bytes ih =>
    obtain ⟨first, more, hparts⟩ := List.exists_cons_of_ne_nil (List.splitOnP_ne_nil (· == b) bytes)
    rw [List.splitOn, hparts, List.map_cons, List.sum_cons] at ih
    rw [List.splitOn, List.splitOnP_cons_eq_if_modifyHead, hparts]
    split
    · simp only [List.map_cons, List.sum_cons, List.length_nil, List.length_cons]
      omega
    · simp only [List.modifyHead_cons, List.map_cons, List.sum_cons, List.length_cons]
      omega

/-- Bytes hold no line feed, or there is a last one. -/
theorem lastLine_cases (bytes : List UInt8) : lineFeed ∉ bytes ∨
    ∃ lines current, bytes = lines ++ lineFeed :: current ∧ lineFeed ∉ current := by
  induction bytes with
  | nil => exact .inl List.not_mem_nil
  | cons b bytes ih =>
    rcases ih with hnone | ⟨lines, current, rfl, hcurrent⟩
    · by_cases hb : b = lineFeed
      · exact .inr ⟨[], bytes, by rw [hb, List.nil_append], hnone⟩
      · exact .inl (by simp [hnone, Ne.symm hb])
    · exact .inr ⟨b :: lines, current, rfl, hcurrent⟩

/-- A line begins where the lines before it end. -/
theorem lineStart_of_append {source : String} {lines rest : List UInt8}
    (h : utf8Bytes source = lines ++ lineFeed :: rest) :
    lineStart source (lines.count lineFeed + 2) = lines.length + 1 := by
  have htake : ((utf8Bytes source).splitOn lineFeed).take (lines.count lineFeed + 1) =
      lines.splitOn lineFeed := by
    rw [h, List.splitOn_append_cons_self, ← length_splitOn, List.take_left']
    rfl
  show ((((utf8Bytes source).splitOn lineFeed).take (lines.count lineFeed + 1)).map
    (·.length + 1)).sum = _
  rw [htake, sum_length_splitOn]

/-! ### Lines and columns -/

section

variable {source : String} {offset : Nat}

theorem idxsOf_eq_nil {bytes : List UInt8} (h : lineFeed ∉ bytes) (start : Nat) :
    bytes.idxsOf lineFeed start = [] := by
  rw [List.idxsOf_eq_nil_iff]
  exact fun b hb => beq_eq_false_iff_ne.2 fun heq => h (heq ▸ hb)

/-- On the first line, all bytes before an offset are counted. -/
theorem positionOf_firstLine (h : lineFeed ∉ (utf8Bytes source).take offset) :
    positionOf source offset = ⟨1, ((utf8Bytes source).take offset).length + 1⟩ := by
  have hposition := positionOf_eq source offset
  simp only [idxsOf_eq_nil h 0] at hposition
  exact hposition

/-- On a later line, those behind the last line feed are. -/
theorem positionOf_laterLine {lines current : List UInt8}
    (h : (utf8Bytes source).take offset = lines ++ lineFeed :: current)
    (hcurrent : lineFeed ∉ current) :
    positionOf source offset = ⟨lines.count lineFeed + 2, current.length + 1⟩ := by
  have hfeeds : (lines ++ lineFeed :: current).idxsOf lineFeed =
      lines.idxsOf lineFeed ++ [lines.length] := by
    rw [List.idxsOf_append, List.idxsOf_cons, if_pos (beq_self_eq_true _),
      idxsOf_eq_nil hcurrent, Nat.zero_add]
  have hposition := positionOf_eq source offset
  simp only [h, hfeeds, List.length_append, List.length_idxsOf, List.length_cons, List.length_nil,
    List.getLast?_concat, Option.map_some, Option.getD_some] at hposition
  rw [hposition, Position.mk.injEq]
  exact ⟨rfl, by omega⟩

theorem line_positionOf_eq_count :
    (positionOf source offset).line = ((utf8Bytes source).take offset).count lineFeed + 1 := by
  rw [positionOf_eq, List.length_idxsOf]

/-- The line and the column of an offset lead back to it. -/
theorem lineStart_add_column (h : offset ≤ source.utf8ByteSize) :
    0 < (positionOf source offset).column ∧
      lineStart source (positionOf source offset).line + ((positionOf source offset).column - 1) =
        offset := by
  have hlength : ((utf8Bytes source).take offset).length = offset := by
    rw [List.length_take, length_utf8Bytes, Nat.min_eq_left h]
  rcases lastLine_cases ((utf8Bytes source).take offset) with
    hnone | ⟨lines, current, hbefore, hcurrent⟩
  · rw [positionOf_firstLine hnone, hlength]
    exact ⟨Nat.succ_pos _, Nat.zero_add _⟩
  · have hbytes : utf8Bytes source =
        lines ++ lineFeed :: (current ++ (utf8Bytes source).drop offset) := by
      rw [← List.cons_append, ← List.append_assoc, ← hbefore, List.take_append_drop]
    rw [hbefore, List.length_append, List.length_cons] at hlength
    rw [positionOf_laterLine hbefore hcurrent, lineStart_of_append hbytes]
    refine ⟨Nat.succ_pos _, ?_⟩
    show lines.length + 1 + (current.length + 1 - 1) = offset
    omega

/-- A later offset has a later position. -/
theorem positionOf_before {later : Nat} (hlt : offset < later) (hle : later ≤ source.utf8ByteSize) :
    (positionOf source offset).Before (positionOf source later) := by
  have hline : (positionOf source offset).line ≤ (positionOf source later).line := by
    rw [line_positionOf_eq_count, line_positionOf_eq_count]
    have hpart := (List.take_prefix_take_left (l := utf8Bytes source) (Nat.le_of_lt hlt)).sublist
    exact Nat.add_le_add_right (hpart.count_le lineFeed) 1
  obtain ⟨hpos, hoffset⟩ := lineStart_add_column (Nat.le_trans (Nat.le_of_lt hlt) hle)
  obtain ⟨hpos', hlater⟩ := lineStart_add_column hle
  rcases Nat.lt_or_eq_of_le hline with hless | hsame
  · exact .inl hless
  · rw [hsame] at hoffset
    exact .inr ⟨hsame, by omega⟩

end

/-- **Line and column determine the offset.** Among the places of a source, a later start of a span
has a later position. Its line is told by the line feeds among the bytes before it, and the column
by how far behind the beginning of that line it is, so both together give it back. Starts past the
end have the position of the end. -/
theorem position_determines_start (source : String) :
    (∀ s t : Span, s.start < t.start → t.start ≤ source.utf8ByteSize →
      (s.position source).Before (t.position source)) ∧
    (∀ s : Span,
      (s.position source).line = 1 + ((utf8Bytes source).take s.start).count lineFeed) ∧
    (∀ s : Span, s.start ≤ source.utf8ByteSize →
      0 < (s.position source).column ∧
        lineStart source (s.position source).line + ((s.position source).column - 1) = s.start) ∧
    ∀ s t : Span, source.utf8ByteSize ≤ s.start → t.start = source.utf8ByteSize →
      s.position source = t.position source := by
  refine ⟨fun s t => positionOf_before, fun s => ?_, fun s => lineStart_add_column, ?_⟩
  · rw [Nat.add_comm]
    exact line_positionOf_eq_count
  · intro s t hs ht
    rw [Span.position, Span.position, positionOf, positionOf, ht, Nat.min_eq_right hs, Nat.min_self]

/-- An empty line, an offset inside a character of two bytes, and one past the end. -/
theorem position_determines_start_emptyLine :
    (Span.position ⟨2, 3⟩ "a\n\né").Before (Span.position ⟨4, 5⟩ "a\n\né") ∧
      Span.position ⟨2, 3⟩ "a\n\né" = ⟨2, 1⟩ ∧ Span.position ⟨4, 5⟩ "a\n\né" = ⟨3, 2⟩ ∧
      lineStart "a\n\né" 3 + (2 - 1) = 4 ∧
      Span.position ⟨9, 9⟩ "a\n\né" = Span.position ⟨5, 5⟩ "a\n\né" := by
  obtain ⟨hbefore, -, hback, hpast⟩ := position_determines_start "a\n\né"
  have hsize : "a\n\né".utf8ByteSize = 5 := by decide +kernel
  have hinner : Span.position ⟨4, 5⟩ "a\n\né" = ⟨3, 2⟩ := by decide +kernel
  obtain ⟨-, hstart⟩ := hback ⟨4, 5⟩ (by rw [hsize]; decide)
  rw [hinner] at hstart
  exact ⟨hbefore ⟨2, 3⟩ ⟨4, 5⟩ (by decide) (by rw [hsize]; decide), by decide +kernel, hinner,
    hstart, hpast ⟨9, 9⟩ ⟨5, 5⟩ (by rw [hsize]; decide) hsize.symm⟩

end EnsembleCompiler
