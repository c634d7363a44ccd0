import EnsembleCompiler.Diagnostic.Basic
import EnsembleCompiler.Text.Blank
import EnsembleCompiler.Text.Width

/-!
# Reports

The drawing of a diagnostic: the lines that its span touches, a mark under or beside them, the
message at the mark, and help and notes below. The ends of the span are taken as character
offsets into the source, and lines end at every line terminator that Unicode names.

The drawing follows the documented behaviour of the package `ariadne` in version 0.4, for a report
with one label and without colours.
-/

namespace EnsembleCompiler.Report

/-- A line of a source with its terminator, and the offset of its first character. -/
structure Line where
  start : Nat
  chars : List Char
  deriving Repr

/-- Whether a line ends after this character. -/
def isTerminator (c : Char) : Bool :=
  c = '\n' || c = '\r' || c = '\x0b' || c = '\x0c' || c = '\x85' || c = '\u2028' || c = '\u2029'

/-- The lines of a text, each with its terminator; carriage return and line feed are one. The
characters of the line being read are kept in `current`, last first. -/
def splitLines (current : List Char) (done : List (List Char)) : List Char → List (List Char)
  | [] => (if current.isEmpty then done else current.reverse :: done).reverse
  | '\r' :: '\n' :: rest => splitLines [] (('\n' :: '\r' :: current).reverse :: done) rest
  | c :: rest =>
    if isTerminator c then splitLines [] ((c :: current).reverse :: done) rest
    else splitLines (c :: current) done rest

/-- Lines with the offsets at which they start. -/
def placeLines : List (List Char) → List Line :=
  go 0 []
where
  go (start : Nat) (done : List Line) : List (List Char) → List Line
    | [] => done.reverse
    | cs :: rest => go (start + cs.length) (⟨start, cs⟩ :: done) rest

/-- The lines of a source. -/
def linesOf (source : String) : List Line := placeLines (splitLines [] [] source.toList)

/-- The index of the line that holds an offset: the last that does not start after it. Offsets
past the end are on no line. -/
def locate (lines : List Line) (offset : Nat) : Option Nat :=
  let total := lines.foldr (fun line total => line.chars.length + total) 0
  let begun := (lines.takeWhile (·.start ≤ offset)).length
  if total < offset || begun = 0 then none else some (begun - 1)

/-- The cells of the character at a column: a tab reaches to the next multiple of four, any
other blank is a space. -/
def cells (column : Nat) (c : Char) : List Char :=
  if c = '\t' then List.replicate (4 - column % 4) ' '
  else if Text.isBlank c then [' ']
  else [c]

/-- The number of cells of the character at a column. -/
def cellWidth (column : Nat) (c : Char) : Nat :=
  if Text.isBlank c then (cells column c).length else Text.width c

/-- A line as it is drawn, without the blanks at its end. -/
def Line.drawn (line : Line) : List Char :=
  (Text.trimEnd line.chars).mapIdx cells |>.flatten

/-- The widths of the first `count` columns of a line; columns past its text are one wide. -/
def Line.widths (line : Line) (count : Nat) : List Nat :=
  let known := ((Text.trimEnd line.chars).mapIdx cellWidth).take count
  known ++ List.replicate (count - known.length) 1

/-- A cell of the given width that starts with one character and goes on with another. -/
def fill (width : Nat) (first tail : Char) : List Char :=
  match width with
  | 0 => []
  | n + 1 => first :: List.replicate n tail

/-- A row of cells, one for each column. -/
def drawColumns (widths : List Nat) (cell : Nat → Char × Char) : List Char :=
  (widths.mapIdx fun column width => fill width (cell column).1 (cell column).2).flatten

/-- The measures that all rows of a report share. -/
structure Frame where
  /-- The number of digits of the largest line number that is shown. -/
  digits : Nat

namespace Frame

def pad (frame : Frame) : List Char := List.replicate (frame.digits + 2) ' '

/-- The start of a row without line number. -/
def plain (frame : Frame) : List Char := frame.pad ++ ['│', ' ']

/-- The start of a row with the number of the line of this index. -/
def numbered (frame : Frame) (index : Nat) : List Char :=
  let number := Nat.toDigits 10 (index + 1)
  ' ' :: List.replicate (frame.digits - number.length) ' ' ++ number ++ [' ', '│', ' ']

end Frame

/-- The rows for a span within one line: the line, the marks under it, and the message at the
middle of the span. A span that goes on past the line shows an empty row. -/
def singleLineRows (frame : Frame) (line : Line) (index : Nat) (span : Span) (message : String) :
    List (List Char) :=
  if line.start + line.chars.length < span.stop then [frame.plain]
  else
    let widths := line.widths (span.stop - line.start + 2)
    let middle := max span.start ((span.start + span.stop) / 2)
    let inside (column : Nat) : Bool :=
      span.start ≤ line.start + column && line.start + column < span.stop
    let underline := drawColumns widths fun column =>
      if line.start + column = middle then
        if inside column then ('┬', '─') else ('│', ' ')
      else if inside column then ('─', '─') else (' ', ' ')
    let pointer := drawColumns widths fun column =>
      if line.start + column < middle then (' ', ' ')
      else if line.start + column = middle then ('╰', '─')
      else ('─', '─')
    [frame.numbered index ++ line.drawn,
      frame.plain ++ underline,
      frame.plain ++ pointer ++ ' ' :: message.toList]

/-- The rows for a span over several lines: the first and the last line beside a bar, one row for
all lines between, and the message under the last. -/
def multiLineRows (frame : Frame) (first last : Line) (firstIndex lastIndex : Nat)
    (message : String) : List (List Char) :=
  let widths := last.widths (last.chars.length + 2)
  let between : List (List Char) :=
    if firstIndex + 1 < lastIndex then [frame.pad ++ "┆ ┆   ".toList] else []
  [frame.numbered firstIndex ++ "╭─▶ ".toList ++ first.drawn] ++ between ++
    [frame.numbered lastIndex ++ "├─▶ ".toList ++ last.drawn,
      frame.plain ++ "│   ".toList ++ drawColumns widths fun _ => (' ', ' '),
      frame.plain ++ "╰───".toList ++ (drawColumns widths fun _ => ('─', '─'))
        ++ ' ' :: message.toList]

/-- The rows of help and notes below the drawing. Only the last note is shown. -/
def remarkRows (start : List Char) (d : Diagnostic) : List (List Char) :=
  let remark (label : String) (text : String) : List (List Char) :=
    [start, start ++ label.toList ++ text.toList]
  (match d.help with
    | some help => remark "Help: " help
    | none => []) ++
  (match d.notes.getLast? with
    | some note => remark "Note: " note
    | none => [])

/-- The drawing of a diagnostic whose span starts on one line and ends on another or the same. -/
def drawing (d : Diagnostic) (filename : String) (first last : Line) (firstIndex lastIndex : Nat) :
    List (List Char) :=
  let frame : Frame := ⟨(Nat.toDigits 10 (lastIndex + 1)).length⟩
  let column := d.span.start - first.start + 1
  let place := s!"╭─[{filename}:{firstIndex + 1}:{column}]"
  let one : Bool := firstIndex = lastIndex
  let body :=
    if one then singleLineRows frame first firstIndex d.span d.message
    else multiLineRows frame first last firstIndex lastIndex d.message
  let remarkStart :=
    if one then frame.plain
    else if firstIndex = 1 && d.span.start = first.start then frame.plain ++ "│   ".toList
    else frame.plain ++ "    ".toList
  [frame.pad ++ place.toList, frame.pad ++ ['│']] ++ body ++ remarkRows remarkStart d ++
    [List.replicate (frame.digits + 2) '─' ++ ['╯']]

/-- The rows of a report. A span that lies outside the source shows its message alone. -/
def rows (d : Diagnostic) (filename : String) (source : String) : List (List Char) :=
  let kind :=
    match d.severity with
    | .error => "Error: "
    | .warning => "Warning: "
  let header := kind.toList ++ d.message.toList
  let lines := linesOf source
  let lastOffset := if d.span.start < d.span.stop then d.span.stop - 1 else d.span.start
  match locate lines d.span.start, locate lines lastOffset with
  | some i, some j =>
    match lines[i]?, lines[j]? with
    | some first, some last => header :: drawing d filename first last i j
    | _, _ => [header]
  | _, _ => [header]

end EnsembleCompiler.Report

namespace EnsembleCompiler

/-- The report of a diagnostic about a source, each row ended by a line feed. -/
def Diagnostic.render (d : Diagnostic) (filename : String) (source : String) : String :=
  String.ofList ((Report.rows d filename source).flatMap (· ++ ['\n']))

end EnsembleCompiler
