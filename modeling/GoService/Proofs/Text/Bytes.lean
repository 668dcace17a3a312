import GoService.Source.Span
import Mathlib.Order.Basic
import Mathlib.Tactic.Common

/-!
# Texts as bytes

The bytes of a text in UTF-8. A character below 128 is one byte, and that byte occurs nowhere else
(`mem_utf8EncodeChar`), so a search for such characters finds the same places in the bytes of a
text as in its characters (`takeWhile_utf8`, `dropWhile_utf8`). A text whose bytes come first in
another one comes first in it itself (`isPrefix_of_utf8`).
-/

namespace GoService.Text

open String (utf8EncodeChar)

/-- The bytes of a text in UTF-8. -/
def utf8 (cs : List Char) : List UInt8 :=
  cs.flatMap utf8EncodeChar

/-- No characters have no bytes. -/
@[simp]
lemma utf8_nil : utf8 [] = [] :=
  rfl

/-- The bytes of a first character come before those of the others. -/
@[simp]
lemma utf8_cons (c : Char) (cs : List Char) : utf8 (c :: cs) = utf8EncodeChar c ++ utf8 cs :=
  List.flatMap_cons

/-- The bytes of two parts are those of the first and those of the second. -/
@[simp]
lemma utf8_append (as bs : List Char) : utf8 (as ++ bs) = utf8 as ++ utf8 bs :=
  List.flatMap_append

/-- There are as many bytes as the characters take. -/
lemma length_utf8 (cs : List Char) : (utf8 cs).length = Source.byteSize cs := by
  induction cs with
  | nil => rfl
  | cons c cs ih =>
    rw [utf8_cons, List.length_append, String.length_utf8EncodeChar, ih, Source.byteSize]

/-- Only the empty text has no bytes. -/
lemma utf8_eq_nil {cs : List Char} : utf8 cs = [] ↔ cs = [] := by
  cases cs with
  | nil => simp
  | cons c cs => simp [String.utf8EncodeChar_ne_nil]

/-- The bytes of a text as core keeps them. -/
lemma utf8_toList (s : String) : (utf8 s.toList).toByteArray = s.toByteArray :=
  String.utf8Encode_toList

/-- Bytes at the front of a text are those of characters at its front. -/
lemma isPrefix_of_utf8 {as cs : List Char} (h : utf8 as <+: utf8 cs) : as <+: cs := by
  obtain ⟨bs, h⟩ := h
  refine List.isPrefix_of_utf8Encode_append_eq_utf8Encode bs.toByteArray ?_
  calc as.utf8Encode ++ bs.toByteArray = (utf8 as ++ bs).toByteArray := by
        rw [List.toByteArray_append]; rfl
    _ = cs.utf8Encode := by rw [h]; rfl

/-- Texts with the same bytes are the same. -/
lemma utf8_injective {as bs : List Char} (h : utf8 as = utf8 bs) : as = bs := by
  have hpre : utf8 as <+: utf8 bs := h ▸ List.prefix_rfl
  obtain ⟨rest, rfl⟩ := isPrefix_of_utf8 hpre
  rw [utf8_append, List.self_eq_append_right, utf8_eq_nil] at h
  rw [h, List.append_nil]

/-- A text stands at the front of another exactly if its bytes do. -/
lemma isPrefix_utf8_iff {as cs : List Char} : utf8 as <+: utf8 cs ↔ as <+: cs := by
  constructor
  · exact isPrefix_of_utf8
  · intro ⟨bs, h⟩
    rw [← h, utf8_append]
    exact List.prefix_append ..

/-- The bytes of the first characters are the first bytes. -/
lemma take_utf8 (cs : List Char) (n : Nat) :
    (utf8 cs).take (Source.byteSize (cs.take n)) = utf8 (cs.take n) := by
  rw [← length_utf8]
  conv => lhs; rw [← List.take_append_drop n cs, utf8_append]
  simp

/-- The bytes of the other characters are the other bytes. -/
lemma drop_utf8 (cs : List Char) (n : Nat) :
    (utf8 cs).drop (Source.byteSize (cs.take n)) = utf8 (cs.drop n) := by
  rw [← length_utf8]
  conv => lhs; rw [← List.take_append_drop n cs, utf8_append]
  simp

/-! ## Single bytes -/

/-- The byte of a character of one byte is the character. -/
lemma utf8EncodeChar_of_single {c : Char} (h : c.utf8Size = 1) :
    utf8EncodeChar c = [c.toUInt8] := by
  rw [String.utf8EncodeChar_eq_singleton h, Char.toUInt8_val]

/-- The bytes of a text that begins with a character of one byte. -/
lemma utf8_cons_of_single {c : Char} (h : c.utf8Size = 1) (cs : List Char) :
    utf8 (c :: cs) = c.toUInt8 :: utf8 cs := by
  rw [utf8_cons, utf8EncodeChar_of_single h, List.singleton_append]

/-- A character of one byte is below 128. -/
lemma toNat_lt_of_single {c : Char} (h : c.utf8Size = 1) : c.toNat < 128 := by
  rw [Char.utf8Size_eq_one_iff, UInt32.le_iff_toNat_le] at h
  exact Nat.lt_succ_of_le h

/-- The byte of a character of one byte has the number of the character. -/
lemma toNat_toUInt8_of_single {c : Char} (h : c.utf8Size = 1) : c.toUInt8.toNat = c.toNat := by
  have hlt := toNat_lt_of_single h
  rw [Char.toUInt8, UInt32.toNat_toUInt8]
  exact Nat.mod_eq_of_lt (Nat.lt_trans hlt (by decide))

/-- A byte from 128 on keeps its number. -/
lemma le_toNat_ofNat {n : Nat} (hle : 128 ≤ n) (hlt : n < 256) : 128 ≤ (UInt8.ofNat n).toNat := by
  rw [UInt8.toNat_ofNat', Nat.mod_eq_of_lt hlt]
  exact hle

/-- The bytes of a character that takes several are not below 128. -/
lemma le_of_mem_utf8EncodeChar {c : Char} (h : c.utf8Size ≠ 1) {b : UInt8}
    (hb : b ∈ utf8EncodeChar c) : 128 ≤ b.toNat := by
  rw [← String.length_utf8EncodeChar] at h
  revert hb
  fun_cases utf8EncodeChar c with
  | case1 v hv => exact absurd (congrArg List.length (if_pos hv)) h
  | case2 v =>
    simp only [List.mem_cons, List.not_mem_nil, or_false]
    rintro (rfl | rfl) <;> exact le_toNat_ofNat (by omega) (by omega)
  | case3 v =>
    simp only [List.mem_cons, List.not_mem_nil, or_false]
    rintro (rfl | rfl | rfl) <;> exact le_toNat_ofNat (by omega) (by omega)
  | case4 v =>
    simp only [List.mem_cons, List.not_mem_nil, or_false]
    rintro (rfl | rfl | rfl | rfl) <;> exact le_toNat_ofNat (by omega) (by omega)

/-- The byte of a character below 128 occurs in that character only. -/
lemma mem_utf8EncodeChar {c k : Char} (hk : k.utf8Size = 1) {b : UInt8}
    (hb : b ∈ utf8EncodeChar c) : b = k.toUInt8 ↔ c = k := by
  have hk' := toNat_toUInt8_of_single hk
  have hlt := toNat_lt_of_single hk
  by_cases hc : c.utf8Size = 1
  · rw [utf8EncodeChar_of_single hc, List.mem_singleton] at hb
    rw [hb, ← UInt8.toNat_inj, toNat_toUInt8_of_single hc, hk', Char.toNat_inj]
  · have hge := le_of_mem_utf8EncodeChar hc hb
    refine iff_of_false ?_ ?_
    · rintro rfl
      omega
    · rintro rfl
      exact hc hk

/-- Characters of one byte are the same exactly if their bytes are. -/
lemma toUInt8_inj {c k : Char} (hc : c.utf8Size = 1) (hk : k.utf8Size = 1) :
    c.toUInt8 = k.toUInt8 ↔ c = k := by
  refine mem_utf8EncodeChar hk ?_
  rw [utf8EncodeChar_of_single hc]
  exact List.mem_singleton_self _

/-- Bytes are in the order of their characters, as far as these are below 128. -/
lemma toUInt8_lt_iff {c k : Char} (hk : k.utf8Size = 1) {b : UInt8} (hb : b ∈ utf8EncodeChar c) :
    k.toUInt8 < b ↔ k < c := by
  rw [UInt8.lt_iff_toNat_lt, Char.lt_def, UInt32.lt_iff_toNat_lt, toNat_toUInt8_of_single hk]
  have hlt := toNat_lt_of_single hk
  by_cases hc : c.utf8Size = 1
  · rw [utf8EncodeChar_of_single hc, List.mem_singleton] at hb
    rw [hb, toNat_toUInt8_of_single hc]
    rfl
  · have hge := le_of_mem_utf8EncodeChar hc hb
    rw [Char.utf8Size_eq_one_iff, UInt32.le_iff_toNat_le] at hc
    have hgt : 127 < c.val.toNat := Nat.not_le.1 hc
    exact iff_of_true (Nat.lt_of_lt_of_le hlt hge) (Nat.lt_of_lt_of_le hlt hgt)

/-- A character has a first byte, and the others are not below 128. -/
lemma exists_utf8EncodeChar_eq_cons (c : Char) :
    ∃ b bs, utf8EncodeChar c = b :: bs ∧ c.utf8Size = bs.length + 1 ∧
      ∀ k : Char, k.utf8Size = 1 → ∀ b ∈ bs, b ≠ k.toUInt8 := by
  cases hbytes : utf8EncodeChar c with
  | nil => exact absurd hbytes String.utf8EncodeChar_ne_nil
  | cons b bs =>
    have hsize : c.utf8Size = bs.length + 1 := by
      rw [← String.length_utf8EncodeChar, hbytes, List.length_cons]
    refine ⟨b, bs, rfl, hsize, ?_⟩
    intro k hk b' hb'
    have hc : c.utf8Size ≠ 1 := by
      have hpos := List.length_pos_of_mem hb'
      omega
    have hge := le_of_mem_utf8EncodeChar hc (hbytes ▸ List.mem_cons_of_mem b hb')
    have hlt := toNat_lt_of_single hk
    rw [← toNat_toUInt8_of_single hk] at hlt
    rintro rfl
    omega

/-! ## Searching -/

section

variable {p : Char → Bool} {q : UInt8 → Bool}

/-- A run of bytes of a kind has the characters of that kind. -/
lemma takeWhile_utf8 (h : ∀ c, ∀ b ∈ utf8EncodeChar c, q b = p c) (cs : List Char) :
    (utf8 cs).takeWhile q = utf8 (cs.takeWhile p) := by
  induction cs with
  | nil => rfl
  | cons c cs ih =>
    rw [utf8_cons]
    cases hc : p c with
    | true =>
      have hall : ∀ b ∈ utf8EncodeChar c, q b = true := fun b hb => hc ▸ h c b hb
      rw [List.takeWhile_append_of_pos hall, List.takeWhile_cons_of_pos hc, utf8_cons, ih]
    | false =>
      rw [List.takeWhile_cons_of_neg (by simp [hc]), utf8_nil]
      cases hbs : utf8EncodeChar c with
      | nil => exact absurd hbs String.utf8EncodeChar_ne_nil
      | cons b bs =>
        have hb : q b = false := hc ▸ h c b (hbs ▸ List.mem_cons_self)
        rw [List.cons_append, List.takeWhile_cons_of_neg (by simp [hb])]

/-- What follows a run of bytes of a kind follows the characters of that kind. -/
lemma dropWhile_utf8 (h : ∀ c, ∀ b ∈ utf8EncodeChar c, q b = p c) (cs : List Char) :
    (utf8 cs).dropWhile q = utf8 (cs.dropWhile p) := by
  have hall : utf8 (cs.takeWhile p) ++ (utf8 cs).dropWhile q =
      utf8 (cs.takeWhile p) ++ utf8 (cs.dropWhile p) := by
    rw [← takeWhile_utf8 h, List.takeWhile_append_dropWhile, takeWhile_utf8 h, ← utf8_append,
      List.takeWhile_append_dropWhile]
  exact List.append_cancel_left hall

end

end GoService.Text
