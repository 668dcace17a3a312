import GoService.Proofs.Source.Width
import GoService.Proofs.Text.Bytes
import Mathlib.Data.List.GetD
import Mathlib.Data.List.Induction
import Mathlib.Data.List.Infix
import Mathlib.Data.List.TakeWhile

/-!
# Positions of bytes

A position says in which line a byte stands and how far from the start of the line. The table of
lines is made from the line feeds among the bytes of a text (`starts_ofChars`), so the position of
an offset counts the line feeds before it and the bytes after the last of these, as far as 32 bits
can count them. Positions are in the order of offsets, and each leads back to its offset
(`positions_exact`). In a text one byte short of 4 GiB the last offset may have no position
(`end_overflows`).
-/

namespace GoService.Source

open Text (utf8)
open String (utf8EncodeChar)

/-- The byte that ends a line. -/
def lineFeed : UInt8 := '\n'.toUInt8

/-- The offsets directly after the line feeds among bytes that begin at `offset`. -/
def feedEnds (offset : Nat) : List UInt8 → List Nat
  | [] => []
  | b :: bs => if b = lineFeed then (offset + 1) :: feedEnds (offset + 1) bs
    else feedEnds (offset + 1) bs

section

variable {offset m n : Nat} {as bs : List UInt8}

/-- The line feeds in two parts are those of the first and those of the second, further on. -/
lemma feedEnds_append (offset : Nat) (as bs : List UInt8) :
    feedEnds offset (as ++ bs) = feedEnds offset as ++ feedEnds (offset + as.length) bs := by
  induction as generalizing offset with
  | nil => rfl
  | cons a as ih =>
    rw [List.cons_append, feedEnds, feedEnds, ih, List.length_cons, Nat.add_right_comm offset,
      Nat.add_assoc]
    split
    · rfl
    · rfl

/-- Bytes without a line feed have no end of one. -/
lemma feedEnds_eq_nil (h : lineFeed ∉ bs) : feedEnds offset bs = [] := by
  induction bs generalizing offset with
  | nil => rfl
  | cons b bs ih =>
    rw [List.mem_cons, not_or] at h
    rw [feedEnds, if_neg (Ne.symm h.1), ih h.2]

/-- There is one end for each line feed. -/
lemma length_feedEnds (offset : Nat) (bs : List UInt8) :
    (feedEnds offset bs).length = bs.count lineFeed := by
  induction bs generalizing offset with
  | nil => rfl
  | cons b bs ih =>
    rw [feedEnds]
    split
    · next h => rw [h, List.count_cons_self, List.length_cons, ih]
    · next h => rw [List.count_cons_of_ne h, ih]

/-- A line feed ends within the bytes. -/
lemma bounds_of_mem_feedEnds (h : m ∈ feedEnds offset bs) :
    offset < m ∧ m ≤ offset + bs.length := by
  induction bs generalizing offset with
  | nil => cases h
  | cons b bs ih =>
    have hrest (h : m ∈ feedEnds (offset + 1) bs) :
        offset < m ∧ m ≤ offset + (bs.length + 1) := by
      have hbounds := ih h
      omega
    rw [feedEnds] at h
    split at h
    · cases h with
      | head => exact ⟨Nat.lt_succ_self _, Nat.add_le_add_left (Nat.le_add_left ..) _⟩
      | tail _ h => exact hrest h
    · exact hrest h

/-- Line feeds before an offset are those among the bytes before it. -/
lemma takeWhile_feedEnds (offset n : Nat) (bs : List UInt8) :
    (feedEnds offset bs).takeWhile (· ≤ offset + n) = feedEnds offset (bs.take n) := by
  have hbefore : ∀ m ∈ feedEnds offset (bs.take n), decide (m ≤ offset + n) = true := by
    intro m hm
    have hbounds := bounds_of_mem_feedEnds hm
    rw [List.length_take] at hbounds
    exact decide_eq_true (by omega)
  have hafter : (feedEnds (offset + (bs.take n).length) (bs.drop n)).takeWhile
      (· ≤ offset + n) = [] := by
    cases hends : feedEnds (offset + (bs.take n).length) (bs.drop n) with
    | nil => rfl
    | cons m ms =>
      have hmem : m ∈ feedEnds (offset + (bs.take n).length) (bs.drop n) :=
        hends ▸ List.mem_cons_self
      have hbounds := bounds_of_mem_feedEnds hmem
      rw [List.length_take, List.length_drop] at hbounds
      have hgt : ¬ m ≤ offset + n := by omega
      exact List.takeWhile_cons_of_neg (by simpa using hgt)
  conv_lhs => rw [← List.take_append_drop n bs, feedEnds_append]
  rw [List.takeWhile_append_of_pos hbefore, hafter, List.append_nil]

end

/-! ## Where a line starts -/

/-- The line of an offset starts at another one: there begins the text or ends a line feed, and no
line feed stands from there to the offset. -/
structure IsLineStart (bytes : List UInt8) (offset start : Nat) : Prop where
  le : start ≤ offset
  begins : start = 0 ∨ 0 < start ∧ bytes[start - 1]? = some lineFeed
  unbroken : ∀ i, start ≤ i → i < offset → bytes[i]? ≠ some lineFeed

/-- Bytes after an offset do not change where its line starts. -/
lemma IsLineStart.of_take {bytes : List UInt8} {n start : Nat}
    (h : IsLineStart (bytes.take n) (bytes.take n).length start) : IsLineStart bytes n start := by
  have hsame {i : Nat} (hi : i < n) : (bytes.take n)[i]? = bytes[i]? := List.getElem?_take_of_lt hi
  have hle : start ≤ n := Nat.le_trans h.le (List.length_take_le ..)
  refine ⟨hle, ?_, fun i hi hlt => ?_⟩
  · refine h.begins.imp_right fun ⟨hpos, hfeed⟩ => ⟨hpos, ?_⟩
    rwa [hsame (by omega)] at hfeed
  · rw [← hsame hlt]
    rcases Nat.lt_or_ge i (bytes.take n).length with hin | hout
    · exact h.unbroken i hi hin
    · rw [List.getElem?_eq_none hout]
      exact (Option.some_ne_none _).symm

/-- The line of an offset starts at one place. -/
lemma IsLineStart.unique {bytes : List UInt8} {n start start' : Nat}
    (h : IsLineStart bytes n start) (h' : IsLineStart bytes n start') : start = start' := by
  -- the feed before the later start would stand between the earlier one and the offset
  have hle {a b : Nat} (ha : IsLineStart bytes n a) (hb : IsLineStart bytes n b) : b ≤ a := by
    refine Nat.le_of_not_lt fun hlt => ?_
    rcases hb.begins with rfl | ⟨hpos, hfeed⟩
    · exact Nat.not_lt_zero _ hlt
    · have hbound := hb.le
      exact ha.unbroken (b - 1) (by omega) (by omega) hfeed
  exact Nat.le_antisymm (hle h' h) (hle h h')

/-- The line of an offset starts the text if and only if no line feed stands before the offset. -/
lemma IsLineStart.eq_zero_iff {bytes : List UInt8} {n start : Nat}
    (h : IsLineStart bytes n start) : start = 0 ↔ lineFeed ∉ bytes.take n := by
  constructor
  · intro hzero hmem
    obtain ⟨i, hi, hfeed⟩ := List.getElem_of_mem hmem
    rw [List.length_take] at hi
    rw [List.getElem_take] at hfeed
    exact h.unbroken i (hzero ▸ Nat.zero_le i) (by omega)
      (hfeed ▸ List.getElem?_eq_getElem (by omega))
  · intro hnone
    rcases h.begins with hzero | ⟨hpos, hfeed⟩
    · exact hzero
    · have hle := h.le
      refine absurd (List.mem_of_getElem? (i := start - 1) ?_) hnone
      rw [List.getElem?_take_of_lt (by omega), hfeed]

/-- The last line of a text starts after its last line feed. -/
lemma isLineStart_getLastD (bytes : List UInt8) :
    IsLineStart bytes bytes.length ((feedEnds 0 bytes).getLastD 0) := by
  induction bytes using List.reverseRecOn with
  | nil => exact ⟨Nat.le_refl _, .inl rfl, fun i _ hlt => absurd hlt (Nat.not_lt_zero i)⟩
  | append_singleton bytes b ih =>
    have hends : feedEnds 0 (bytes ++ [b]) =
        feedEnds 0 bytes ++ if b = lineFeed then [bytes.length + 1] else [] := by
      rw [feedEnds_append, Nat.zero_add]
      rfl
    by_cases hb : b = lineFeed
    · subst hb
      rw [hends, if_pos rfl, List.getLastD_concat]
      refine ⟨by simp, .inr ⟨Nat.succ_pos _, ?_⟩, fun i hle hlt => ?_⟩
      · rw [Nat.add_sub_cancel, List.getElem?_concat_length]
      · rw [List.length_append, List.length_singleton] at hlt
        omega
    · rw [hends, if_neg hb, List.append_nil]
      refine ⟨?_, ?_, fun i hle hlt => ?_⟩
      · exact Nat.le_trans ih.le (by simp)
      · refine ih.begins.imp_right fun ⟨hpos, hfeed⟩ => ⟨hpos, ?_⟩
        have hle := ih.le
        rw [List.getElem?_append_left (by omega)]
        exact hfeed
      · rw [List.length_append, List.length_singleton] at hlt
        rcases Nat.lt_or_eq_of_le (Nat.le_of_lt_succ hlt) with hlt | rfl
        · rw [List.getElem?_append_left hlt]
          exact ih.unbroken i hle hlt
        · rw [List.getElem?_concat_length]
          exact fun heq => hb (Option.some.inj heq)

/-! ## Positions of offsets -/

/-- Positions in the order of their lines and, in a line, of their columns. -/
def Position.Before (p q : Position) : Prop :=
  p.line < q.line ∨ p.line = q.line ∧ p.col < q.col

/-- Of two positions at most one is before the other. -/
lemma Position.Before.asymm {p q : Position} (h : p.Before q) : ¬ q.Before p := by
  unfold Before at *
  omega

/-- The position of an offset among bytes: its line is one more than the line feeds before it, and
its column one more than the bytes from the start of the line to it. -/
structure Position.IsOf (bytes : List UInt8) (n : Nat) (p : Position) : Prop where
  line : p.line = 1 + (bytes.take n).count lineFeed
  col : ∃ start, IsLineStart bytes n start ∧ p.col = 1 + (n - start)

/-- Line and column can be counted in 32 bits. -/
def Position.Fits (p : Position) : Prop :=
  p.line ≤ Span.maxOffset ∧ p.col ≤ Span.maxOffset

namespace Position

variable {bytes : List UInt8} {a b n : Nat} {p q : Position}

/-- An offset has one position. -/
lemma IsOf.unique (h : p.IsOf bytes n) (h' : q.IsOf bytes n) : p = q := by
  obtain ⟨start, hstart, hcol⟩ := h.col
  obtain ⟨start', hstart', hcol'⟩ := h'.col
  obtain rfl := hstart.unique hstart'
  cases p
  cases q
  rw [Position.mk.injEq]
  exact ⟨h.line.trans h'.line.symm, hcol.trans hcol'.symm⟩

/-- Positions are in the order of offsets. -/
lemma IsOf.before (hp : p.IsOf bytes a) (hq : q.IsOf bytes b) (h : a < b) : p.Before q := by
  obtain ⟨start, hstart, hcol⟩ := hp.col
  obtain ⟨start', hstart', hcol'⟩ := hq.col
  have hline : (bytes.take a).count lineFeed ≤ (bytes.take b).count lineFeed :=
    (List.take_sublist_take_left h.le).count_le _
  rcases Nat.lt_or_eq_of_le hline with hlt | heq
  · refine .inl ?_
    rw [hp.line, hq.line]
    omega
  · -- no line feed stands between the two, so the later offset has the same start of the line
    have hsame : IsLineStart bytes b start := by
      refine ⟨Nat.le_trans hstart.le h.le, hstart.begins, fun i hle hlt hfeed => ?_⟩
      rcases Nat.lt_or_ge i a with hi | hi
      · exact hstart.unbroken i hle hi hfeed
      · refine Nat.ne_of_lt ?_ heq
        have hmore : (bytes.take (i + 1)).count lineFeed = (bytes.take i).count lineFeed + 1 := by
          rw [List.take_add_one, hfeed, List.count_append, Option.toList_some,
            List.count_singleton_self]
        have hbefore : (bytes.take a).count lineFeed ≤ (bytes.take i).count lineFeed :=
          (List.take_sublist_take_left hi).count_le _
        have hafter : (bytes.take (i + 1)).count lineFeed ≤ (bytes.take b).count lineFeed :=
          (List.take_sublist_take_left hlt).count_le _
        omega
    obtain rfl := hsame.unique hstart'
    have hle := hstart.le
    refine .inr ⟨by rw [hp.line, hq.line, heq], ?_⟩
    omega

/-- Offsets are ordered as their positions are. -/
lemma IsOf.before_iff (hp : p.IsOf bytes a) (hq : q.IsOf bytes b) : a < b ↔ p.Before q := by
  refine ⟨hp.before hq, fun h => Nat.lt_of_not_le fun hle => ?_⟩
  rcases Nat.lt_or_eq_of_le hle with hlt | rfl
  · exact h.asymm (hq.before hp hlt)
  · rw [hp.unique hq] at h
    exact h.asymm h

/-- The position of an offset can be counted unless the offset is the largest one that there is,
behind a single line or behind nothing but line feeds. -/
lemma IsOf.fits_iff (h : p.IsOf bytes n) (hn : n ≤ bytes.length) (hmax : n ≤ Span.maxOffset) :
    p.Fits ↔ n < Span.maxOffset ∨
      lineFeed ∈ bytes.take n ∧ ∃ b ∈ bytes.take n, b ≠ lineFeed := by
  obtain ⟨start, hstart, hcol⟩ := h.col
  have hlength : (bytes.take n).length = n := List.length_take_of_le hn
  have hle := hstart.le
  have hmore : (bytes.take n).count lineFeed ≤ n :=
    Nat.le_trans List.count_le_length hlength.le
  have hfeeds : (bytes.take n).count lineFeed = n ↔ ¬ ∃ b ∈ bytes.take n, b ≠ lineFeed := by
    have hcount : (bytes.take n).count lineFeed = (bytes.take n).length ↔
        ∀ b ∈ bytes.take n, lineFeed = b := List.count_eq_length
    rw [hlength] at hcount
    simp only [hcount, not_exists, not_and, not_not, eq_comm]
  have hline := hstart.eq_zero_iff
  rw [Fits, h.line, hcol, ← not_iff_not, not_or, not_and_or, not_and_or, ← hline, ← hfeeds]
  have hpos : 0 < Span.maxOffset := by decide
  omega

end Position

/-! ## Lines of a text -/

namespace LineTable

/-- The offset at a position. -/
def offsetOf (ix : LineTable) (p : Position) : Nat :=
  ix.starts.getD (p.line - 1) 0 + (p.col - 1)

/-- A character ends a line exactly if it is the line feed. -/
lemma feedEnds_utf8EncodeChar (offset : Nat) (c : Char) :
    feedEnds offset (utf8EncodeChar c) = if c = '\n' then [offset + c.utf8Size] else [] := by
  split
  · next h =>
    subst h
    rfl
  · next h =>
    refine feedEnds_eq_nil fun hmem => h ?_
    exact (Text.mem_utf8EncodeChar (by rfl) hmem).1 rfl

/-- The lines of a text start where its line feeds end. -/
lemma startsAfter_eq_feedEnds (offset : Nat) (cs : List Char) :
    startsAfter offset cs = feedEnds offset (utf8 cs) := by
  induction cs generalizing offset with
  | nil => rfl
  | cons c cs ih =>
    rw [Text.utf8_cons, feedEnds_append, feedEnds_utf8EncodeChar, String.length_utf8EncodeChar,
      startsAfter, ih]
    split
    · rfl
    · rfl

section

variable {cs : List Char} {n : Nat}

/-- The lines of a text start at its first byte and after each line feed among its bytes. -/
lemma starts_ofChars (h : byteSize cs ≤ Span.maxOffset) :
    (ofChars cs).starts = 0 :: feedEnds 0 (utf8 cs) := by
  rw [ofChars_eq h, startsAfter_eq_feedEnds]

/-- The line starts up to an offset are the ends of the line feeds before it. -/
lemma takeWhile_starts (h : byteSize cs ≤ Span.maxOffset) (n : Nat) :
    (ofChars cs).starts.takeWhile (· ≤ n) = 0 :: feedEnds 0 ((utf8 cs).take n) := by
  have hends := takeWhile_feedEnds 0 n (utf8 cs)
  rw [Nat.zero_add] at hends
  rw [starts_ofChars h, List.takeWhile_cons_of_pos (by simp), hends]

/-- The line of an offset is counted by the line feeds before it, and wraps. -/
lemma line_ofChars (h : byteSize cs ≤ Span.maxOffset) (n : Nat) :
    (ofChars cs).line n = wrapped (((utf8 cs).take n).count lineFeed + 1) := by
  rw [line, takeWhile_starts h, List.length_cons, length_feedEnds]

/-- The table has the start of the line of each offset. -/
lemma isLineStart_getD (h : byteSize cs ≤ Span.maxOffset) (n : Nat) :
    IsLineStart (utf8 cs) n
      ((ofChars cs).starts.getD (((utf8 cs).take n).count lineFeed) 0) := by
  have hlast (as bs : List Nat) : (0 :: as ++ bs).getD as.length 0 = as.getLastD 0 := by
    have hend : (0 :: as)[as.length]? = (0 :: as).getLast? := List.getLast?_eq_getElem?.symm
    rw [List.getD_append _ _ _ _ (Nat.lt_succ_self _), List.getD_eq_getElem?_getD, hend,
      List.getLast?_cons, Option.getD_some, List.getLastD_eq_getLast?]
  have hsplit := List.takeWhile_append_dropWhile (p := (· ≤ n)) (l := (ofChars cs).starts)
  rw [takeWhile_starts h] at hsplit
  rw [← length_feedEnds 0, ← hsplit, hlast]
  exact (isLineStart_getLastD ((utf8 cs).take n)).of_take

/-- The position that the table gives for an offset is what 32 bits keep of that of the offset. -/
lemma positionOf_eq (h : byteSize cs ≤ Span.maxOffset) (hn : n ≤ byteSize cs) {p : Position}
    (hp : p.IsOf (utf8 cs) n) : (ofChars cs).positionOf n = ⟨wrapped p.line, wrapped p.col⟩ := by
  obtain ⟨start, hstart, hcol⟩ := hp.col
  have hmax : n ≤ Span.maxOffset := Nat.le_trans hn h
  have hcount : ((utf8 cs).take n).count lineFeed ≤ n :=
    Nat.le_trans List.count_le_length (List.length_take_le ..)
  have hindex : wrappedSub ((ofChars cs).line n) 1 = ((utf8 cs).take n).count lineFeed := by
    rw [line_ofChars h]
    simp only [wrappedSub, wrapped, Span.maxOffset] at *
    omega
  have hle := hstart.le
  rw [positionOf, hindex, (isLineStart_getD h n).unique hstart, line_ofChars h, hp.line, hcol,
    wrappedSub_eq hle hmax, Nat.add_comm 1, Nat.add_comm 1]

/-- The table gives the position of an offset if and only if it can be counted. -/
lemma positionOf_eq_iff (h : byteSize cs ≤ Span.maxOffset) (hn : n ≤ byteSize cs) {p : Position}
    (hp : p.IsOf (utf8 cs) n) : (ofChars cs).positionOf n = p ↔ p.Fits := by
  rw [positionOf_eq h hn hp]
  constructor
  · intro heq
    have hline := congrArg Position.line heq
    have hcol := congrArg Position.col heq
    exact ⟨hline ▸ wrapped_le _, hcol ▸ wrapped_le _⟩
  · rintro ⟨hline, hcol⟩
    rw [wrapped_eq hline, wrapped_eq hcol]

/-- Every offset has a position. -/
lemma exists_isOf (h : byteSize cs ≤ Span.maxOffset) (n : Nat) :
    ∃ p : Position, p.IsOf (utf8 cs) n :=
  ⟨⟨_, _⟩, rfl, _, isLineStart_getD h n, rfl⟩

/-- An offset before the end of a text of less than 4 GiB has its position in the table. -/
lemma positionOf_isOf (h : byteSize cs ≤ Span.maxOffset) (hn : n < byteSize cs) :
    ((ofChars cs).positionOf n).IsOf (utf8 cs) n := by
  obtain ⟨p, hp⟩ := exists_isOf h n
  have hfits : p.Fits := (hp.fits_iff (Text.length_utf8 cs ▸ hn.le) (by omega)).2 (.inl (by omega))
  rw [(positionOf_eq_iff h hn.le hp).2 hfits]
  exact hp

/-- A position leads back to its offset. -/
lemma offsetOf_eq (h : byteSize cs ≤ Span.maxOffset) {p : Position} (hp : p.IsOf (utf8 cs) n) :
    (ofChars cs).offsetOf p = n := by
  obtain ⟨start, hstart, hcol⟩ := hp.col
  have hle := hstart.le
  rw [offsetOf, hp.line, Nat.add_sub_cancel_left, (isLineStart_getD h n).unique hstart, hcol]
  omega

end

/-- A line feed at the end of a span or behind it is followed by a later line than the last one of
the span. -/
lemma line_lt_of_feed {bytes : List UInt8} {m n : Nat} {p q : Position} (hp : p.IsOf bytes n)
    (hq : q.IsOf bytes (m + 1)) (hn : n ≤ m) (hfeed : bytes[m]? = some lineFeed) :
    p.line < q.line := by
  have hbefore : (bytes.take n).count lineFeed ≤ (bytes.take m).count lineFeed :=
    (List.take_sublist_take_left hn).count_le _
  rw [hp.line, hq.line, List.take_add_one, hfeed, List.count_append, Option.toList_some,
    List.count_singleton_self]
  omega

/-- In a text of less than 4 GiB each offset has one position, which the table gives if and only if
line and column can be counted in 32 bits. They can but at the largest offset, where the text before
it is one line or has nothing but line feeds. A position leads back to its offset, and positions are
in the order of their offsets. The lines of a span that is not empty are those of its first and of
its last byte; the line after a line feed at its end or behind it is not among them. -/
theorem positions_exact (cs : List Char) (h : byteSize cs ≤ Span.maxOffset) :
    (∀ n ≤ byteSize cs, ∃ p : Position, (∀ q : Position, q.IsOf (utf8 cs) n ↔ q = p) ∧
      ((ofChars cs).positionOf n = p ↔ n < Span.maxOffset ∨
        lineFeed ∈ utf8 cs ∧ ∃ b ∈ utf8 cs, b ≠ lineFeed) ∧
      (ofChars cs).offsetOf p = n) ∧
    (∀ (a b : Nat) (p q : Position), p.IsOf (utf8 cs) a → q.IsOf (utf8 cs) b →
      (a < b ↔ p.Before q)) ∧
    ∀ s : Span, s.start < s.stop → s.stop ≤ byteSize cs → ∃ p q : Position,
      p.IsOf (utf8 cs) s.start ∧ q.IsOf (utf8 cs) (s.stop - 1) ∧
      (ofChars cs).linesOf s = (p.line, q.line) ∧
      ∀ m, s.stop ≤ m + 1 → (utf8 cs)[m]? = some lineFeed →
        ∀ r : Position, r.IsOf (utf8 cs) (m + 1) → q.line < r.line := by
  refine ⟨fun n hn => ?_, fun a b p q hp hq => hp.before_iff hq, fun s hs hstop => ?_⟩
  · obtain ⟨p, hp⟩ := exists_isOf h n
    refine ⟨p, fun q => ⟨fun hq => hq.unique hp, fun heq => heq ▸ hp⟩, ?_, offsetOf_eq h hp⟩
    rw [positionOf_eq_iff h hn hp, hp.fits_iff (Text.length_utf8 cs ▸ hn) (Nat.le_trans hn h)]
    refine or_congr_right' fun hlast => ?_
    have hall : (utf8 cs).take n = utf8 cs :=
      List.take_of_length_le (by rw [Text.length_utf8]; omega)
    rw [hall]
  · have hlast : ((ofChars cs).positionOf (s.stop - 1)).IsOf (utf8 cs) (s.stop - 1) :=
      positionOf_isOf h (by omega)
    refine ⟨_, _, positionOf_isOf h (by omega), hlast, ?_, fun m hm hfeed r hr => ?_⟩
    · rw [linesOf, if_pos hs]
      rfl
    · exact line_lt_of_feed hlast hr (by omega) hfeed

/-- A comment of two lines that ends before a line feed. -/
theorem comment_positions :
    let ix := ofChars "// a\n// é\nx".toList
    byteSize "// a\n// é\nx".toList ≤ Span.maxOffset ∧
    ix.positionOf 9 = ⟨2, 5⟩ ∧ ix.offsetOf ⟨2, 5⟩ = 9 ∧ ix.linesOf ⟨0, 10⟩ = (1, 2) := by
  have hsize : byteSize "// a\n// é\nx".toList ≤ Span.maxOffset := by decide
  obtain ⟨hpos, -, hlines⟩ := positions_exact _ hsize
  have hplace : (Position.mk 2 5).IsOf (utf8 "// a\n// é\nx".toList) 9 := by
    refine ⟨by decide, 5, ⟨by decide, .inr ⟨by decide, by decide⟩, fun i hi hlt => ?_⟩, rfl⟩
    have hcases : i = 5 ∨ i = 6 ∨ i = 7 ∨ i = 8 := by omega
    rcases hcases with rfl | rfl | rfl | rfl <;> decide
  obtain ⟨p, hp, hposition, hoffset⟩ := hpos 9 (by decide)
  obtain rfl := (hp _).1 hplace
  obtain ⟨p, q, hp, hq, hspan, -⟩ := hlines ⟨0, 10⟩ (by decide) (by decide)
  refine ⟨hsize, hposition.2 (.inl (by decide)), hoffset, ?_⟩
  rw [hspan, hp.line, hq.line]
  decide

/-- The end of a single line has the column after all its bytes, and the table gives what 32 bits
keep of that. -/
lemma positionOf_end {n : Nat} (h : n ≤ Span.maxOffset) :
    byteSize (List.replicate n 'x') = n ∧
    (Position.mk 1 (n + 1)).IsOf (utf8 (List.replicate n 'x')) n ∧
    (ofChars (List.replicate n 'x')).positionOf n = ⟨1, wrapped (n + 1)⟩ := by
  have hbytes : utf8 (List.replicate n 'x') = List.replicate n 120 := by
    clear h
    induction n with
    | zero => rfl
    | succ n ih => rw [List.replicate_succ, Text.utf8_cons, ih]; rfl
  have hsize : byteSize (List.replicate n 'x') = n := by
    rw [← Text.length_utf8, hbytes, List.length_replicate]
  have hnone : lineFeed ∉ List.replicate n (120 : UInt8) :=
    fun hmem => absurd (List.eq_of_mem_replicate hmem) (by decide)
  have hplace : (Position.mk 1 (n + 1)).IsOf (utf8 (List.replicate n 'x')) n := by
    rw [hbytes]
    refine ⟨?_, 0, ⟨Nat.zero_le n, .inl rfl, fun i _ _ hfeed => hnone (List.mem_of_getElem? hfeed)⟩,
      Nat.add_comm n 1⟩
    rw [List.count_eq_zero_of_not_mem fun hmem => hnone (List.mem_of_mem_take hmem)]
  refine ⟨hsize, hplace, ?_⟩
  rw [positionOf_eq (by rwa [hsize]) (by rw [hsize]) hplace]
  rfl

/-- In a single line of one byte less than 4 GiB the end has no column in the table. -/
theorem end_overflows :
    byteSize (List.replicate Span.maxOffset 'x') = Span.maxOffset ∧
    (Position.mk 1 (Span.maxOffset + 1)).IsOf (utf8 (List.replicate Span.maxOffset 'x'))
      Span.maxOffset ∧
    (ofChars (List.replicate Span.maxOffset 'x')).positionOf Span.maxOffset = ⟨1, 0⟩ := by
  have hend := positionOf_end (Nat.le_refl Span.maxOffset)
  rwa [wrapped, Nat.mod_self] at hend

end LineTable

end GoService.Source
