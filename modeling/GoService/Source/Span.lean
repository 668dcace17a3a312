/-!
# Byte ranges and line numbers

A `Span` is a range of bytes of a source text. A `LineTable` holds the offsets at which the lines
of a text begin; only a line feed ends a line, so a carriage return before it belongs to the line.

Offsets, lines and columns are kept in 32 bits. A span is cut off at the largest number that there
is (`Span.clamp`), so a text of 4 GiB or more is read, but its far places are not told apart. Line
numbers, columns and the starts of lines lose the bits that do not fit (`wrapped`).
-/

namespace GoService.Source

/-- The bytes from `start` up to, not including, `stop`. -/
structure Span where
  start : Nat
  stop : Nat
  deriving DecidableEq, Inhabited

namespace Span

/-- The largest offset that a span holds. -/
def maxOffset : Nat := 4294967295

/-- The span between two offsets, each cut off at `maxOffset`. -/
def clamped (start stop : Nat) : Span :=
  ⟨min start maxOffset, min stop maxOffset⟩

/-- The span as it is kept, cut off at `maxOffset`. -/
def clamp (s : Span) : Span :=
  .clamped s.start s.stop

/-- The span at an offset that holds no byte. -/
def emptyAt (offset : Nat) : Span :=
  ⟨offset, offset⟩

/-- The smallest span that has two spans in it. -/
def cover (a b : Span) : Span :=
  ⟨min a.start b.start, max a.stop b.stop⟩

/-- The number of bytes in the span. -/
def size (s : Span) : Nat :=
  s.stop - s.start

/-- Whether the span holds no byte. -/
def isEmpty (s : Span) : Bool :=
  s.size == 0

end Span

/-- What 32 bits keep of a number. -/
def wrapped (n : Nat) : Nat :=
  n % (Span.maxOffset + 1)

/-- The difference of two numbers of 32 bits, kept in 32 bits. -/
def wrappedSub (m n : Nat) : Nat :=
  wrapped (m + (Span.maxOffset + 1 - n))

/-- The number of bytes that a text takes in UTF-8. -/
def byteSize : List Char → Nat
  | [] => 0
  | c :: cs => c.utf8Size + byteSize cs

/-- The bytes of two parts are those of the first and those of the second. -/
@[simp]
theorem byteSize_append (as bs : List Char) : byteSize (as ++ bs) = byteSize as + byteSize bs := by
  induction as with
  | nil => exact (Nat.zero_add _).symm
  | cons a as ih => rw [List.cons_append, byteSize, byteSize, ih, Nat.add_assoc]

/-- Every character takes a byte at least. -/
theorem byteSize_pos {cs : List Char} (h : cs ≠ []) : 0 < byteSize cs := by
  cases cs with
  | nil => exact absurd rfl h
  | cons c cs => exact Nat.add_pos_left c.utf8Size_pos _

/-- The characters of a text between two byte offsets; none when an offset lies inside a character,
beyond the end, or the offsets are out of order. -/
def sliceBytes : List Char → Nat → Nat → Option (List Char)
  | _, 0, 0 => some []
  | [], _, _ => none
  | c :: cs, 0, stop =>
    if c.utf8Size ≤ stop then (sliceBytes cs 0 (stop - c.utf8Size)).map (c :: ·) else none
  | c :: cs, start + 1, stop =>
    if c.utf8Size ≤ start + 1 ∧ c.utf8Size ≤ stop then
      sliceBytes cs (start + 1 - c.utf8Size) (stop - c.utf8Size)
    else none

/-- The text that a source has at a span; none at all where the span does not cut whole characters
out. -/
def textAt (src : List Char) (s : Span) : String :=
  String.ofList ((sliceBytes src s.start s.stop).getD [])

/-- A line and a column, both counted from one; the column counts bytes. -/
structure Position where
  line : Nat
  col : Nat
  deriving DecidableEq

/-- The position as it is shown in messages. -/
def Position.text (p : Position) : String :=
  s!"{p.line}:{p.col}"

/-- The offsets at which the lines of a text begin, as 32 bits keep them. They ascend unless the
text has 4 GiB or more. -/
structure LineTable where
  starts : List Nat
  deriving DecidableEq, Inhabited

namespace LineTable

/-- The offsets directly after the line feeds of a text that begins at `offset`. -/
def startsAfter (offset : Nat) : List Char → List Nat
  | [] => []
  | c :: cs =>
    let next := offset + c.utf8Size
    if c = '\n' then next :: startsAfter next cs else startsAfter next cs

/-- The lines of a text. -/
def ofChars (cs : List Char) : LineTable :=
  ⟨0 :: (startsAfter 0 cs).map wrapped⟩

/-- The number of lines. -/
def size (ix : LineTable) : Nat :=
  ix.starts.length

/-- The line that holds the byte at an offset, counted from one. The starts of lines are searched as
if they were in order; where they are not, a search by halves may find another line, unless all of
them are up to the offset. -/
def line (ix : LineTable) (offset : Nat) : Nat :=
  wrapped (ix.starts.takeWhile (· ≤ offset)).length

/-- The number of the line below a line. -/
def lineBelow (line : Nat) : Nat :=
  wrapped (line + 1)

/-- The position of the byte at an offset. -/
def positionOf (ix : LineTable) (offset : Nat) : Position :=
  let n := ix.line offset
  ⟨n, wrapped (wrappedSub offset (ix.starts.getD (wrappedSub n 1) 0) + 1)⟩

/-- The lines of the first and of the last byte of a span. -/
def linesOf (ix : LineTable) (s : Span) : Nat × Nat :=
  (ix.line s.start, ix.line (if s.stop > s.start then s.stop - 1 else s.stop))

end LineTable

end GoService.Source
