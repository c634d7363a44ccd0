/-!
# Spans

A place in a source text is a byte offset in its UTF-8 form; a span is a range of them. Readers
see a place as a line and a column, both counted from one, the column in bytes.
-/

namespace EnsembleCompiler

/-- A range of byte offsets of a source text; `stop` is the offset after the last byte. Texts are
taken to be shorter than 2^32 bytes, so that an offset has a word of 32 bits to itself and is never
cut down to one. -/
structure Span where
  start : Nat
  stop : Nat
  deriving DecidableEq, Repr

/-- A line and a column, both counted from one. -/
structure Position where
  line : Nat
  column : Nat
  deriving DecidableEq, Repr

/-- The number of bytes of a text. -/
def byteLength (cs : List Char) : Nat := cs.foldr (fun c total => c.utf8Size + total) 0

@[simp] theorem byteLength_nil : byteLength [] = 0 := rfl

@[simp] theorem byteLength_cons (c : Char) (cs : List Char) :
    byteLength (c :: cs) = c.utf8Size + byteLength cs := rfl

@[simp] theorem byteLength_append (cs ds : List Char) :
    byteLength (cs ++ ds) = byteLength cs + byteLength ds := by
  induction cs with
  | nil => simp
  | cons c cs ih => simp [ih, Nat.add_assoc]

theorem byteLength_eq_zero {cs : List Char} (h : byteLength cs = 0) : cs = [] := by
  cases cs with
  | nil => rfl
  | cons c rest =>
    have := c.utf8Size_pos
    simp at h
    omega

/-- The offsets of the line feeds of a text that begins at offset `start`. -/
def lineFeeds (start : Nat) : List Char → List Nat
  | [] => []
  | c :: rest =>
    if c = '\n' then start :: lineFeeds (start + c.utf8Size) rest
    else lineFeeds (start + c.utf8Size) rest

/-- The position of an offset: the lines that end before it are counted, and the bytes since the
last of them. Offsets past the end are taken as the end. -/
def positionOf (source : String) (offset : Nat) : Position :=
  let offset := min offset source.utf8ByteSize
  let before := (lineFeeds 0 source.toList).filter (· < offset)
  let lineStart := (before.getLast?.map (· + 1)).getD 0
  ⟨before.length + 1, offset - lineStart + 1⟩

namespace Span

/-- The span where there is no place to point to. -/
def dummy : Span := ⟨0, 0⟩

/-- The smallest span that covers both. -/
def merge (s t : Span) : Span := ⟨min s.start t.start, max s.stop t.stop⟩

/-- The span moved by a number of bytes. -/
def shift (s : Span) (n : Nat) : Span := ⟨s.start + n, s.stop + n⟩

/-- The position of the start of a span. -/
def position (s : Span) (source : String) : Position := positionOf source s.start

end Span

end EnsembleCompiler
