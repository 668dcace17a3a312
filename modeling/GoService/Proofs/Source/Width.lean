import GoService.Source.Span
import Mathlib.Data.List.TakeWhile
import Mathlib.Tactic.Lemma

/-!
# Numbers of 32 bits

A number that fits into 32 bits is kept as it is (`wrapped_eq`, `wrappedSub_eq`), and so is a span
between such numbers (`Span.clamp_eq`). In a text of less than 4 GiB the lines are therefore where
they are written (`LineTable.ofChars_eq`), and unless there are more lines than numbers each line
has its number (`Numbered.line_eq`).
-/

namespace GoService.Source

section

variable {m n : Nat}

/-- A number that fits is kept. -/
lemma wrapped_eq (h : n ≤ Span.maxOffset) : wrapped n = n :=
  Nat.mod_eq_of_lt (Nat.lt_succ_of_le h)

/-- What is kept of a number fits. -/
lemma wrapped_le (n : Nat) : wrapped n ≤ Span.maxOffset :=
  Nat.le_of_lt_succ (Nat.mod_lt _ (Nat.succ_pos _))

/-- What is kept of a difference is what is kept of it without the wrap. -/
lemma wrappedSub_eq_wrapped (h : n ≤ m) (hn : n ≤ Span.maxOffset) :
    wrappedSub m n = wrapped (m - n) := by
  have hsum : m + (Span.maxOffset + 1 - n) = m - n + (Span.maxOffset + 1) := by omega
  rw [wrappedSub, hsum, wrapped, Nat.add_mod_right, wrapped]

/-- A difference that fits is kept. -/
lemma wrappedSub_eq (h : n ≤ m) (hm : m ≤ Span.maxOffset) : wrappedSub m n = m - n := by
  rw [wrappedSub_eq_wrapped h (Nat.le_trans h hm), wrapped_eq (Nat.le_trans (Nat.sub_le ..) hm)]

end

namespace Span

variable {s : Span}

/-- A span that fits is kept. -/
lemma clamp_eq (hstart : s.start ≤ maxOffset) (hstop : s.stop ≤ maxOffset) : s.clamp = s := by
  rw [clamp, clamped, Nat.min_eq_left hstart, Nat.min_eq_left hstop]

/-- Clamping keeps the order of offsets. -/
lemma clamp_le {t : Span} (h : s.stop ≤ t.start) : s.clamp.stop ≤ t.clamp.start :=
  Nat.le_min.2 ⟨Nat.le_trans (Nat.min_le_left ..) h, Nat.min_le_right ..⟩

/-- Clamping keeps a span from running backwards. -/
lemma clamp_forward (h : s.start ≤ s.stop) : s.clamp.start ≤ s.clamp.stop :=
  Nat.le_min.2 ⟨Nat.le_trans (Nat.min_le_left ..) h, Nat.min_le_right ..⟩

end Span

/-- Characters of one byte take as many bytes as there are of them. -/
lemma byteSize_replicate (n : Nat) {c : Char} (hc : c.utf8Size = 1) :
    byteSize (List.replicate n c) = n := by
  induction n with
  | zero => rfl
  | succ n ih =>
    rw [List.replicate_succ, byteSize, ih, hc]
    exact Nat.add_comm 1 n

/-! ## Lines of a text -/

namespace LineTable

/-- The lines of a text that is put together. -/
lemma startsAfter_append (offset : Nat) (as bs : List Char) :
    startsAfter offset (as ++ bs) =
      startsAfter offset as ++ startsAfter (offset + byteSize as) bs := by
  induction as generalizing offset with
  | nil => rfl
  | cons a as ih =>
    rw [List.cons_append, startsAfter, startsAfter, byteSize, ih, Nat.add_assoc]
    split
    · rfl
    · rfl

/-- A line begins after each line feed. -/
lemma length_startsAfter (offset : Nat) (cs : List Char) :
    (startsAfter offset cs).length = cs.count '\n' := by
  induction cs generalizing offset with
  | nil => rfl
  | cons c cs ih =>
    rw [startsAfter]
    split
    · next h => rw [h, List.count_cons_self, List.length_cons, ih]
    · next h => rw [List.count_cons_of_ne h, ih]

/-- A line begins after the first character of the text, and no later than where the text ends. -/
lemma bounds_of_mem_startsAfter {offset n : Nat} {cs : List Char} (h : n ∈ startsAfter offset cs) :
    (∀ c ∈ cs.head?, offset + c.utf8Size ≤ n) ∧ n ≤ offset + byteSize cs := by
  induction cs generalizing offset with
  | nil => cases h
  | cons c cs ih =>
    have hrest (h : n ∈ startsAfter (offset + c.utf8Size) cs) :
        offset + c.utf8Size ≤ n ∧ n ≤ offset + byteSize (c :: cs) := by
      have hbounds := ih h
      rw [byteSize, ← Nat.add_assoc]
      refine ⟨?_, hbounds.2⟩
      cases cs with
      | nil => cases h
      | cons d cs => exact Nat.le_trans (Nat.le_add_right ..) (hbounds.1 d rfl)
    have hbounds : offset + c.utf8Size ≤ n ∧ n ≤ offset + byteSize (c :: cs) := by
      rw [startsAfter] at h
      split at h
      · rcases List.mem_cons.1 h with rfl | h
        · exact ⟨Nat.le_refl _, Nat.add_le_add_left (Nat.le_add_right ..) _⟩
        · exact hrest h
      · exact hrest h
    refine ⟨?_, hbounds.2⟩
    rintro _ ⟨⟩
    exact hbounds.1

variable {cs : List Char}

/-- The table of a text that fits has the exact starts of its lines. -/
lemma ofChars_eq (h : byteSize cs ≤ Span.maxOffset) : ofChars cs = ⟨0 :: startsAfter 0 cs⟩ := by
  have hsame : ∀ n ∈ startsAfter 0 cs, wrapped n = id n := by
    intro n hn
    have hbound := (bounds_of_mem_startsAfter hn).2
    rw [Nat.zero_add] at hbound
    exact wrapped_eq (Nat.le_trans hbound h)
  rw [ofChars, List.map_congr_left hsame, List.map_id]

/-- There is a line for each line feed, and the first one. -/
lemma size_ofChars (cs : List Char) : (ofChars cs).size = cs.count '\n' + 1 := by
  rw [size, ofChars, List.length_cons, List.length_map, length_startsAfter]

/-- How many lines of a text begin up to an offset. -/
def lineCount (cs : List Char) (offset : Nat) : Nat :=
  ((0 :: startsAfter 0 cs).takeWhile (· ≤ offset)).length

/-- Up to the place of a character as many lines begin as line feeds come before it, and one
more. -/
lemma lineCount_eq {before after : List Char} {n : Nat} (h : byteSize before ≤ n)
    (hchar : ∀ c ∈ after.head?, n < byteSize before + c.utf8Size) :
    lineCount (before ++ after) n = before.count '\n' + 1 := by
  have hbefore : ∀ m ∈ 0 :: startsAfter 0 before, decide (m ≤ n) = true := by
    refine List.forall_mem_cons.2 ⟨decide_eq_true (Nat.zero_le n), fun m hm => ?_⟩
    have hbounds := (bounds_of_mem_startsAfter hm).2
    exact decide_eq_true (by omega)
  have hafter : (startsAfter (0 + byteSize before) after).takeWhile (· ≤ n) = [] := by
    refine List.takeWhile_eq_nil_iff.2 fun hpos hle => ?_
    have hbounds := (bounds_of_mem_startsAfter (List.getElem_mem hpos)).1
    cases after with
    | nil => exact absurd hpos (Nat.lt_irrefl 0)
    | cons c after =>
      have hlt := hchar c rfl
      have hge := hbounds c rfl
      have hle : (startsAfter (0 + byteSize before) (c :: after))[0] ≤ n := of_decide_eq_true hle
      omega
  rw [lineCount, startsAfter_append, ← List.cons_append,
    List.takeWhile_append_of_pos hbefore, hafter, List.append_nil, List.length_cons,
    length_startsAfter]

/-- Up to the end of a part as many lines begin as line feeds are in it, and one more. -/
lemma lineCount_byteSize (before after : List Char) :
    lineCount (before ++ after) (byteSize before) = before.count '\n' + 1 :=
  lineCount_eq (Nat.le_refl _) fun c _ => Nat.lt_add_of_pos_right c.utf8Size_pos

/-- The more offsets, the more lines. -/
lemma lineCount_mono (cs : List Char) {m n : Nat} (h : m ≤ n) :
    lineCount cs m ≤ lineCount cs n := by
  unfold lineCount
  generalize 0 :: startsAfter 0 cs = starts
  have hsplit := List.takeWhile_append_dropWhile (p := fun k => decide (k ≤ m)) (l := starts)
  have hall : ∀ k ∈ starts.takeWhile (fun k => decide (k ≤ m)), decide (k ≤ n) = true := by
    intro k hk
    have hle : k ≤ m := of_decide_eq_true (List.mem_takeWhile_imp (p := fun k => decide (k ≤ m)) hk)
    exact decide_eq_true (Nat.le_trans hle h)
  have hmore : (starts.takeWhile (fun k => decide (k ≤ m)) ++
      starts.dropWhile fun k => decide (k ≤ m)).takeWhile (fun k => decide (k ≤ n)) = _ :=
    List.takeWhile_append_of_pos hall
  rw [hsplit] at hmore
  rw [hmore, List.length_append]
  exact Nat.le_add_right ..

/-- The number that a line has in a text that fits. -/
lemma line_eq_wrapped (h : byteSize cs ≤ Span.maxOffset) (offset : Nat) :
    (ofChars cs).line offset = wrapped (lineCount cs offset) := by
  rw [line, ofChars_eq h, lineCount]

/-- No more lines begin up to an offset than there are. -/
lemma lineCount_le_size (cs : List Char) (offset : Nat) :
    lineCount cs offset ≤ (ofChars cs).size := by
  rw [size_ofChars, ← length_startsAfter 0, ← List.length_cons]
  exact (List.takeWhile_prefix _).length_le

/-- With fewer lines than there are numbers, the line below a line has the next number. -/
lemma lineBelow_line {ix : LineTable} (h : ix.size < Span.maxOffset) (offset : Nat) :
    lineBelow (ix.line offset) = ix.line offset + 1 := by
  have hle : ix.line offset ≤ ix.size :=
    Nat.le_trans (Nat.mod_le ..) (List.takeWhile_prefix _).length_le
  exact wrapped_eq (Nat.le_trans (Nat.succ_le_succ hle) h)

end LineTable

/-- The offsets of a source fit into 32 bits, and so do the numbers of its lines and of the line
below each. -/
structure Numbered (src : List Char) : Prop where
  size : byteSize src ≤ Span.maxOffset
  lines : (LineTable.ofChars src).size < Span.maxOffset

namespace Numbered

variable {src : List Char}

/-- Each line has its number. -/
lemma line_eq (h : Numbered src) (offset : Nat) :
    (LineTable.ofChars src).line offset = LineTable.lineCount src offset := by
  rw [LineTable.line_eq_wrapped h.size,
    wrapped_eq (Nat.le_trans (LineTable.lineCount_le_size ..) h.lines.le)]

/-- Lines are in the order of offsets. -/
lemma line_mono (h : Numbered src) {m n : Nat} (hmn : m ≤ n) :
    (LineTable.ofChars src).line m ≤ (LineTable.ofChars src).line n := by
  rw [h.line_eq, h.line_eq]
  exact LineTable.lineCount_mono src hmn

end Numbered

end GoService.Source
