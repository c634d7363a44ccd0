import EnsembleCompiler.Diagnostic.Report
import EnsembleCompiler.Proofs.Target.Locations

/-!
# The line that a report shows

Where a text has no line breaks but line feeds, its lines are counted by its line feeds. A report
takes the byte offsets of a span for offsets of characters, so it counts the line feeds of a part of
the text that is longer than the part before the span, by as many characters as that part has bytes
beyond one for each of its own. Among characters of one byte it shows the line of the span.
-/

namespace EnsembleCompiler

namespace Report

variable {cs current : List Char} {start offset : Nat}

/-! ### The lines of a source -/

/-- The text has no line breaks but line feeds. -/
def OnlyLineFeeds (cs : List Char) : Prop := ∀ c ∈ cs, isTerminator c = true → c = '\n'

theorem OnlyLineFeeds.tail {c : Char} (h : OnlyLineFeeds (c :: cs)) : OnlyLineFeeds cs :=
  fun d hd => h d (List.mem_cons_of_mem c hd)

/-- Lines found before stay in front. -/
theorem splitLines_append (current : List Char) (done found : List (List Char)) (cs : List Char) :
    splitLines current (done ++ found) cs = found.reverse ++ splitLines current done cs := by
  fun_induction splitLines current done cs with
  | case1 current done => cases current <;> simp [splitLines]
  | case2 current done rest ih => rw [splitLines, ← List.cons_append, ih]
  | case3 current done c rest hreturn hbreak ih =>
    rw [splitLines.eq_3 _ _ _ _ hreturn, if_pos hbreak, ← List.cons_append, ih]
  | case4 current done c rest hreturn hbreak ih =>
    rw [splitLines.eq_3 _ _ _ _ hreturn, if_neg hbreak, ih]

theorem splitLines_lineFeed (current cs : List Char) :
    splitLines current [] ('\n' :: cs) = ('\n' :: current).reverse :: splitLines [] [] cs := by
  rw [splitLines.eq_3 _ _ _ _ (by simp), if_pos (by decide)]
  exact splitLines_append [] [] [_] cs

theorem splitLines_other {c : Char} (h : isTerminator c = false) (current cs : List Char) :
    splitLines current [] (c :: cs) = splitLines (c :: current) [] cs := by
  have hreturn : ∀ rest, c = '\r' → cs = '\n' :: rest → False := by
    rintro rest rfl
    exact absurd h (by decide)
  rw [splitLines.eq_3 _ _ _ _ hreturn, if_neg (by simp [h])]

/-- Lines placed before stay in front. -/
theorem placeLines_append (start : Nat) (done : List Line) (lines : List (List Char)) :
    placeLines.go start done lines = done.reverse ++ placeLines.go start [] lines := by
  induction lines generalizing start done with
  | nil => simp [placeLines.go]
  | cons line lines ih =>
    rw [placeLines.go, placeLines.go, ih, ih (start + line.length) [_]]
    simp

theorem placeLines_cons (start : Nat) (line : List Char) (lines : List (List Char)) :
    placeLines.go start [] (line :: lines) =
      ⟨start, line⟩ :: placeLines.go (start + line.length) [] lines := by
  rw [placeLines.go, placeLines_append]
  rfl

/-- The number of the characters of all lines. -/
def totalLength (lines : List Line) : Nat :=
  lines.foldr (fun line total => line.chars.length + total) 0

theorem totalLength_splitLines (start : Nat) (h : OnlyLineFeeds cs) (current : List Char) :
    totalLength (placeLines.go start [] (splitLines current [] cs)) =
      current.length + cs.length := by
  induction cs generalizing start current with
  | nil => cases current <;> simp [splitLines, placeLines.go, totalLength]
  | cons c cs ih =>
    by_cases hc : isTerminator c = true
    · obtain rfl : c = '\n' := h c (by simp) hc
      have hrest := ih (start + ('\n' :: current).reverse.length) h.tail []
      rw [splitLines_lineFeed, placeLines_cons]
      rw [totalLength, List.foldr_cons]
      change _ + totalLength _ = _
      rw [hrest]
      simp
      omega
    · rw [splitLines_other (by simpa using hc), ih start h.tail]
      simp
      omega

/-- How many lines begin at an offset or before it. -/
def begunLines (offset : Nat) (lines : List Line) : Nat :=
  (lines.takeWhile (·.start ≤ offset)).length

theorem begunLines_of_lt (h : offset < start) (lines : List (List Char)) :
    begunLines offset (placeLines.go start [] lines) = 0 := by
  cases lines with
  | nil => rfl
  | cons line lines =>
    have hnot : ¬ start ≤ offset := by omega
    rw [placeLines_cons, begunLines, List.takeWhile_cons]
    simp [hnot]

theorem begunLines_cons (h : start ≤ offset) (line : List Char) (lines : List (List Char)) :
    begunLines offset (placeLines.go start [] (line :: lines)) =
      begunLines offset (placeLines.go (start + line.length) [] lines) + 1 := by
  rw [placeLines_cons, begunLines, List.takeWhile_cons]
  simp [h, begunLines]

/-- The lines that have begun are the first one and those behind line feeds. The last character of
the text does not begin a line. -/
theorem begunLines_splitLines (hfeeds : OnlyLineFeeds cs) (hstart : start ≤ offset)
    (hne : current ≠ [] ∨ cs ≠ []) :
    begunLines offset (placeLines.go start [] (splitLines current [] cs)) =
      (cs.dropLast.take (offset - start - current.length)).count '\n' + 1 := by
  -- character by character: `current` is the line that has begun at `start`, in reverse
  induction cs generalizing start current with
  | nil =>
    have hcurrent : current ≠ [] := by simpa using hne
    have hlines : splitLines current [] [] = [current.reverse] := by simp [splitLines, hcurrent]
    rw [hlines, begunLines_cons hstart]
    simp [begunLines, placeLines.go]
  | cons c cs ih =>
    by_cases hc : isTerminator c = true
    · obtain rfl : c = '\n' := hfeeds c (by simp) hc
      rw [splitLines_lineFeed, begunLines_cons hstart]
      cases cs with
      | nil => simp [splitLines, begunLines, placeLines.go]
      | cons d cs =>
        -- the line feed ends a line; whether the next line has begun depends on where the offset is
        by_cases hbegun : start + ('\n' :: current).reverse.length ≤ offset
        · have hlength : offset - start - current.length =
              offset - (start + ('\n' :: current).reverse.length) - 0 + 1 := by
            simp at hbegun ⊢
            omega
          rw [ih hfeeds.tail hbegun (.inr (by simp)), List.dropLast_cons_cons, hlength,
            List.take_succ_cons, List.count_cons_self]
          rfl
        · have hzero : offset - start - current.length = 0 := by
            simp at hbegun
            omega
          rw [begunLines_of_lt (by omega), hzero]
          simp
    · have hother : c ≠ '\n' := by
        rintro rfl
        exact hc (by decide)
      rw [splitLines_other (by simpa using hc), ih hfeeds.tail hstart (.inl (by simp))]
      cases cs with
      | nil => simp
      | cons d cs =>
        rw [List.dropLast_cons_cons, List.length_cons, Nat.sub_add_eq]
        cases hlength : offset - start - current.length with
        | zero => simp
        | succ k => simp [List.take_succ_cons, hother]

/-- The line that is shown for an offset of a text: the line feeds before it are counted. The end
of the text belongs to its last line. -/
theorem locate_linesOf {source : String} (hfeeds : OnlyLineFeeds source.toList)
    (hne : source.toList ≠ []) (offset : Nat) :
    locate (linesOf source) offset =
      if source.toList.length < offset then none
      else some ((source.toList.dropLast.take offset).count '\n') := by
  have htotal := totalLength_splitLines 0 hfeeds []
  have hlines : ([] : List Char) ≠ [] ∨ source.toList ≠ [] := .inr hne
  have hbegun := begunLines_splitLines hfeeds (Nat.zero_le offset) hlines
  simp only [List.length_nil, Nat.sub_zero, Nat.zero_add] at htotal hbegun
  show (if totalLength (linesOf source) < offset || begunLines offset (linesOf source) = 0
    then none else some (begunLines offset (linesOf source) - 1)) = _
  rw [linesOf, placeLines, htotal, hbegun]
  simp

/-- A line that is located is there. -/
theorem getElem?_of_locate {lines : List Line} {i : Nat} (h : locate lines offset = some i) :
    ∃ line, lines[i]? = some line := by
  unfold locate at h
  dsimp only at h
  split at h
  · cases h
  · rename_i hbegun
    have hle :=
      (List.takeWhile_sublist (fun line : Line => decide (line.start ≤ offset)) (l := lines)).length_le
    simp only [Bool.or_eq_true, decide_eq_true_eq, not_or] at hbegun
    have hlt : i < lines.length := by
      simp only [Option.some.injEq] at h
      omega
    exact ⟨lines[i], List.getElem?_eq_getElem hlt⟩

/-! ### The head of a drawing -/

/-- The row that opens a report. -/
def heading (d : Diagnostic) : List Char :=
  (match d.severity with
    | .error => "Error: "
    | .warning => "Warning: ").toList ++ d.message.toList

/-- What the first row of a drawing holds behind its blanks. -/
def placeMark (filename : String) (line column : Nat) : List Char :=
  "╭─[".toList ++ (filename.toList ++ ':' :: (Nat.toDigits 10 line ++
    ':' :: (Nat.toDigits 10 column ++ [']'])))

/-- The first row of a drawing tells its line. -/
theorem line_eq_of_placeMark {filename : String} {blanks blanks' line line' column column' : Nat}
    {more more' : List Char}
    (h : List.replicate blanks ' ' ++ (placeMark filename line column ++ more) =
      List.replicate blanks' ' ' ++ (placeMark filename line' column' ++ more')) : line = line' := by
  have hmark : ∀ blanks line column more,
      (List.replicate blanks ' ' ++ (placeMark filename line column ++ more)).dropWhile (· = ' ') =
        placeMark filename line column ++ more := by
    intro blanks line column more
    refine dropWhile_append_of_next (fun c hc => ?_) (.cons (by decide))
    simp [(List.mem_replicate.1 hc).2]
  have hdigits : ∀ line rest, (Nat.toDigits 10 line ++ ':' :: rest).takeWhile Char.isDigit =
      Nat.toDigits 10 line := by
    intro line rest
    exact takeWhile_append_of_next (digits_toDigits line).isDigit (.cons (by decide))
  have hmarks := congrArg (List.dropWhile (· = ' ')) h
  rw [hmark, hmark] at hmarks
  simp only [placeMark, List.append_assoc, List.cons_append] at hmarks
  have hlines := List.append_cancel_left (List.append_cancel_left hmarks)
  have hnumbers := congrArg (List.takeWhile Char.isDigit) (List.cons.inj hlines).2
  rw [hdigits, hdigits] at hnumbers
  rw [← Nat.ofDigitChars_ten_toDigits (n := line), hnumbers, Nat.ofDigitChars_ten_toDigits]

theorem lastOffset_eq (s : Span) :
    (if s.start < s.stop then s.stop - 1 else s.start) = max s.start (s.stop - 1) := by
  split <;> omega

variable {d : Diagnostic} {filename source : String}

/-- Where the end of a span is on no line, nothing is drawn. -/
theorem rows_eq_heading
    (h : locate (linesOf source) (max d.span.start (d.span.stop - 1)) = none) :
    rows d filename source = [heading d] := by
  unfold rows
  dsimp only
  rw [lastOffset_eq, h]
  split
  · next hnone => cases hnone
  · rfl

theorem toList_place (filename : String) (line column : Nat) :
    s!"╭─[{filename}:{line}:{column}]".toList = placeMark filename line column := by
  have hnumber : ∀ n : Nat, (toString n).toList = Nat.toDigits 10 n := fun n => by
    rw [Nat.toString_eq_repr, Nat.toList_repr]
  simp only [String.toList_append, placeMark, List.append_assoc, hnumber]
  rfl

theorem rows_eq_drawing {i j : Nat} (hi : locate (linesOf source) d.span.start = some i)
    (hj : locate (linesOf source) (max d.span.start (d.span.stop - 1)) = some j) :
    ∃ blanks column more, rows d filename source =
      heading d :: (List.replicate blanks ' ' ++ placeMark filename (i + 1) column) :: more := by
  obtain ⟨first, hfirst⟩ := getElem?_of_locate hi
  obtain ⟨last, hlast⟩ := getElem?_of_locate hj
  have hrows : rows d filename source = heading d :: drawing d filename first last i j := by
    unfold rows
    dsimp only
    rw [lastOffset_eq, hi, hj]
    dsimp only
    rw [hfirst, hlast]
    rfl
  rw [hrows, drawing, toList_place]
  exact ⟨_, _, _, rfl⟩

end Report

namespace Diagnostic

open Report

variable {d : Diagnostic} {filename source : String}

/-- The report shows the line of this number: below the heading, the drawing opens with the name of
the file, the line and a column. -/
def ShowsLine (d : Diagnostic) (filename source : String) (line : Nat) : Prop :=
  ∃ blanks column more, (d.render filename source).toList =
    heading d ++ '\n' :: (List.replicate blanks ' ' ++
      (placeMark filename line column ++ '\n' :: more))

theorem toList_render : (d.render filename source).toList =
    (rows d filename source).flatMap (· ++ ['\n']) := String.toList_ofList

/-- A report shows one line at most. -/
theorem ShowsLine.unique {line line' : Nat} (h : d.ShowsLine filename source line)
    (h' : d.ShowsLine filename source line') : line = line' := by
  obtain ⟨blanks, column, more, h⟩ := h
  obtain ⟨blanks', column', more', h'⟩ := h'
  have hrest := List.append_cancel_left (h.symm.trans h')
  exact line_eq_of_placeMark (List.cons.inj hrest).2

/-- A span that ends in the text shows the line of the character at its start. -/
theorem showsLine_iff (hfeeds : OnlyLineFeeds source.toList) (hne : source.toList ≠ [])
    (line : Nat) : d.ShowsLine filename source line ↔
      max d.span.start (d.span.stop - 1) ≤ source.toList.length ∧
        line = (source.toList.dropLast.take d.span.start).count '\n' + 1 := by
  have hlocate := locate_linesOf hfeeds hne
  by_cases hend : max d.span.start (d.span.stop - 1) ≤ source.toList.length
  · have hi := hlocate d.span.start
    have hj := hlocate (max d.span.start (d.span.stop - 1))
    rw [if_neg (by omega)] at hi hj
    obtain ⟨blanks, column, more, hrows⟩ : ∃ blanks column more, rows d filename source = _ :=
      rows_eq_drawing hi hj
    have hshown : d.ShowsLine filename source
        ((source.toList.dropLast.take d.span.start).count '\n' + 1) :=
      ⟨blanks, column, more.flatMap (· ++ ['\n']), by rw [toList_render, hrows]; simp⟩
    exact ⟨fun h => ⟨hend, h.unique hshown⟩, fun h => h.2 ▸ hshown⟩
  · have hj := hlocate (max d.span.start (d.span.stop - 1))
    rw [if_pos (by omega)] at hj
    refine ⟨?_, fun h => absurd h.1 hend⟩
    -- the report is its heading alone, which has no line with a mark
    rintro ⟨blanks, column, more, htext⟩
    rw [toList_render, rows_eq_heading hj, List.flatMap_singleton] at htext
    have hrest := (List.cons.inj (List.append_cancel_left htext)).2
    simp [placeMark] at hrest

end Diagnostic

/-! ### The line of a span -/

theorem lineFeeds_filter_lt {start offset : Nat} (h : offset ≤ start) (cs : List Char) :
    (lineFeeds start cs).filter (· < offset) = [] := by
  induction cs generalizing start with
  | nil => rfl
  | cons c cs ih =>
    have hnot : ¬ start < offset := by omega
    unfold lineFeeds
    split <;> simp [hnot, ih (show offset ≤ start + c.utf8Size by omega)]

theorem length_lineFeeds_filter (start : Nat) (before after : List Char) :
    ((lineFeeds start (before ++ after)).filter (· < start + byteLength before)).length =
      before.count '\n' := by
  induction before generalizing start with
  | nil =>
    rw [byteLength_nil, Nat.add_zero, List.nil_append, lineFeeds_filter_lt (Nat.le_refl start)]
    rfl
  | cons c before ih =>
    have hrest := ih (start + c.utf8Size)
    rw [Nat.add_assoc, ← byteLength_cons] at hrest
    rw [List.cons_append, lineFeeds]
    by_cases hc : c = '\n'
    · have hlt : start < start + byteLength (c :: before) := by
        have := c.utf8Size_pos
        rw [byteLength_cons]
        omega
      rw [if_pos hc, List.filter_cons_of_pos (by simpa using hlt), List.length_cons, hrest, hc,
        List.count_cons_self]
    · rw [if_neg hc, hrest, List.count_cons_of_ne hc]

/-- The line of a position is told by the line feeds before it. -/
theorem line_positionOf {source : String} {before after : List Char}
    (htext : source.toList = before ++ after) :
    (positionOf source (byteLength before)).line = before.count '\n' + 1 := by
  have hsize : byteLength before ≤ source.utf8ByteSize := by
    rw [← String.ofList_toList (s := source), ← Target.byteLength_eq_utf8ByteSize, htext,
      byteLength_append]
    omega
  have hfeeds := length_lineFeeds_filter 0 before after
  rw [Nat.zero_add] at hfeeds
  show ((lineFeeds 0 source.toList).filter (· < min (byteLength before) source.utf8ByteSize)).length
    + 1 = _
  rw [Nat.min_eq_left hsize, htext, hfeeds]

namespace Target

open Report

theorem length_le_byteLength (cs : List Char) : cs.length ≤ byteLength cs := by
  induction cs with
  | nil => simp
  | cons c cs ih =>
    have := c.utf8Size_pos
    rw [List.length_cons, byteLength_cons]
    omega

/-- The characters before an offset, when it is taken for one of characters: those before the
boundary, and some of those behind it. -/
theorem take_byteLength (before : List Char) {after : List Char} (hne : after ≠ []) :
    (before ++ after).dropLast.take (byteLength before) =
      before ++ after.dropLast.take (byteLength before - before.length) := by
  rw [List.dropLast_append_of_ne_nil hne, List.take_append,
    List.take_of_length_le (length_le_byteLength before)]

/-- In a text of one-byte characters the end of a diagnostic is in the text. -/
theorem stop_le_of_checkOn {host : Host} {source : String} {d : Diagnostic}
    (h : d ∈ checkOn host source)
    (hascii : ∀ c ∈ source.toList, c.utf8Size = 1) :
    max d.span.start (d.span.stop - 1) ≤ source.toList.length := by
  have hlength := byteLength_eq_length hascii
  rcases liesIn_of_checkOn h with h | h
  · have hle := h.le
    have hstop := h.stop.le
    omega
  · cases h with
    | cuts before c after htext hlong hstart hstop =>
      have hc := hascii c (by simp [htext])
      omega
    | passes before htext hstart hstop =>
      have hle := hstart.le
      omega

/-- **The line of a report.** In a source whose only line breaks are line feeds, the report of a
diagnostic that starts inside the source takes the byte offsets of the span for offsets of
characters. It shows a line if the last of them is no larger than the number of characters, and then
the line feeds of the text before the span are counted and also those of as many characters behind
its start as the text before has bytes more than characters. So the line is that of the span if and
only if no line feed is among these, as always in a source of one-byte characters. -/
theorem check_showsLine {host : Host} {source : String} (hfeeds : OnlyLineFeeds source.toList)
    {d : Diagnostic} (hd : d ∈ checkOn host source) (hstart : d.span.start < source.utf8ByteSize)
    (filename : String) :
    ∃ before after, source.toList = before ++ after ∧ d.span.start = byteLength before ∧
      (d.span.position source).line = before.count '\n' + 1 ∧
      let misread := after.dropLast.take (byteLength before - before.length)
      (∀ line, d.ShowsLine filename source line ↔
        max d.span.start (d.span.stop - 1) ≤ source.toList.length ∧
          line = before.count '\n' + misread.count '\n' + 1) ∧
      (d.ShowsLine filename source (d.span.position source).line ↔
        max d.span.start (d.span.stop - 1) ≤ source.toList.length ∧ '\n' ∉ misread) ∧
      ((∀ c ∈ source.toList, c.utf8Size = 1) →
        d.ShowsLine filename source (d.span.position source).line) := by
  -- only the end of a span can lie inside a character; its start never does
  have hboundary : Boundary source.toList d.span.start := by
    rcases liesIn_of_checkOn hd with h | h
    · exact h.start
    · cases h with
      | cuts before c after htext hlong hstart hstop => exact ⟨before, _, htext, hstart⟩
      | passes before htext hstart hstop => exact hstart
  obtain ⟨before, after, htext, hbefore⟩ := hboundary
  have hafter : after ≠ [] := by
    rintro rfl
    rw [← String.ofList_toList (s := source), ← byteLength_eq_utf8ByteSize, htext,
      List.append_nil] at hstart
    omega
  have hposition : (d.span.position source).line = before.count '\n' + 1 := by
    rw [Span.position, hbefore]
    exact line_positionOf htext
  have hshows : ∀ line, d.ShowsLine filename source line ↔
      max d.span.start (d.span.stop - 1) ≤ source.toList.length ∧
        line = before.count '\n' +
          (after.dropLast.take (byteLength before - before.length)).count '\n' + 1 := by
    intro line
    have hne : source.toList ≠ [] := by simp [htext, hafter]
    rw [Diagnostic.showsLine_iff hfeeds hne, htext, hbefore, take_byteLength before hafter,
      List.count_append]
  have hspan : d.ShowsLine filename source (d.span.position source).line ↔
      max d.span.start (d.span.stop - 1) ≤ source.toList.length ∧
        '\n' ∉ after.dropLast.take (byteLength before - before.length) := by
    rw [hshows, hposition, ← List.count_eq_zero]
    omega
  refine ⟨before, after, htext, hbefore, hposition, hshows, hspan, fun hascii => ?_⟩
  have hlength : byteLength before = before.length :=
    byteLength_eq_length fun c hc => hascii c (by simp [htext, hc])
  exact hspan.2 ⟨stop_le_of_checkOn hd hascii, by simp [hlength]⟩

theorem check_showsLine_operand : OnlyLineFeeds "fn f() \x7b\n  1 +\n\n  ;\x7d".toList ∧
    ∃ d ∈ check "fn f() \x7b\n  1 +\n\n  ;\x7d", d.span = ⟨18, 19⟩ ∧
      d.ShowsLine "model.rs" "fn f() \x7b\n  1 +\n\n  ;\x7d" 4 := by
  have hfeeds : OnlyLineFeeds "fn f() \x7b\n  1 +\n\n  ;\x7d".toList := by
    simp [OnlyLineFeeds, isTerminator]
  have hspans : ⟨18, 19⟩ ∈ (check "fn f() \x7b\n  1 +\n\n  ;\x7d").map (·.span) := by decide +kernel
  have hsizes : "fn f() \x7b\n  1 +\n\n  ;\x7d".toList.all (·.utf8Size = 1) = true := by decide +kernel
  have hascii : ∀ c ∈ "fn f() \x7b\n  1 +\n\n  ;\x7d".toList, c.utf8Size = 1 := by simpa using hsizes
  obtain ⟨d, hd, hspan⟩ := List.mem_map.1 hspans
  have hstart : d.span.start < "fn f() \x7b\n  1 +\n\n  ;\x7d".utf8ByteSize := by
    rw [hspan]
    decide +kernel
  have hline : (d.span.position "fn f() \x7b\n  1 +\n\n  ;\x7d").line = 4 := by
    rw [hspan]
    decide +kernel
  obtain ⟨before, after, -, -, -, -, -, hshows⟩ := check_showsLine hfeeds hd hstart "model.rs"
  rw [hline] at hshows
  exact ⟨hfeeds, d, hd, hspan, hshows hascii⟩

/-- Two characters of two bytes before a fault move its report from the second line to the third. -/
theorem check_showsLine_behind : OnlyLineFeeds "//éé\n@\n\n".toList ∧
    ∃ d ∈ check "//éé\n@\n\n", d.span.start < "//éé\n@\n\n".utf8ByteSize ∧
      (d.span.position "//éé\n@\n\n").line = 2 ∧ d.ShowsLine "model.rs" "//éé\n@\n\n" 3 ∧
      ¬ d.ShowsLine "model.rs" "//éé\n@\n\n" (d.span.position "//éé\n@\n\n").line := by
  have hspans : ⟨7, 8⟩ ∈ (check "//éé\n@\n\n").map (·.span) := by decide +kernel
  obtain ⟨d, hd, hspan⟩ := List.mem_map.1 hspans
  have hline : (d.span.position "//éé\n@\n\n").line = 2 := by
    rw [hspan]
    decide +kernel
  have hfeeds : OnlyLineFeeds "//éé\n@\n\n".toList := by simp [OnlyLineFeeds, isTerminator]
  have hshows : d.ShowsLine "model.rs" "//éé\n@\n\n" 3 := by
    rw [Diagnostic.showsLine_iff hfeeds (by decide +kernel), hspan]
    decide +kernel
  refine ⟨hfeeds, d, hd, by rw [hspan]; decide +kernel, hline, hshows, fun h => ?_⟩
  have hsame := hshows.unique h
  omega

end Target

end EnsembleCompiler
