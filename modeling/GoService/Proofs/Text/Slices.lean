import GoService.Proofs.Text.Bytes

/-!
# Slices at byte offsets

A slice of a text exists exactly if both offsets lie between characters (`sliceBytes_eq_some`), as
the size of a first part of the text does (`sliceBytes_left`, `sliceBytes_right`).
-/

namespace GoService.Source

open Text

variable {cs t : List Char} {start stop : Nat}

/-- A slice behind a character is a slice of what follows it. -/
lemma sliceBytes_skip (c : Char) (cs : List Char) (start stop : Nat) :
    sliceBytes (c :: cs) (c.utf8Size + start) (c.utf8Size + stop) = sliceBytes cs start stop := by
  obtain ⟨k, hk⟩ : ∃ k, c.utf8Size + start = k + 1 :=
    Nat.exists_eq_succ_of_ne_zero (by have := c.utf8Size_pos; omega)
  rw [hk, sliceBytes, if_pos (by omega), ← hk, Nat.add_sub_cancel_left, Nat.add_sub_cancel_left]

/-- A slice with a character at its front is a slice of what follows, with it. -/
lemma sliceBytes_keep (c : Char) (cs : List Char) (stop : Nat) :
    sliceBytes (c :: cs) 0 (c.utf8Size + stop) = (sliceBytes cs 0 stop).map (c :: ·) := by
  have hpos := c.utf8Size_pos
  rw [sliceBytes, if_pos (Nat.le_add_right ..), Nat.add_sub_cancel_left]
  omega

/-- The slice between two parts of a text is what stands between them. -/
lemma sliceBytes_append (before t after : List Char) :
    sliceBytes (before ++ t ++ after) (byteSize before) (byteSize before + byteSize t) =
      some t := by
  induction before with
  | nil =>
    rw [List.nil_append, byteSize, Nat.zero_add]
    induction t with
    | nil => rw [byteSize, sliceBytes]
    | cons c t ih => rw [List.cons_append, byteSize, sliceBytes_keep, ih, Option.map_some]
  | cons c before ih =>
    rw [List.cons_append, List.cons_append, byteSize, Nat.add_assoc, sliceBytes_skip, ih]

/-- Only the empty text takes no bytes. -/
lemma byteSize_eq_zero : byteSize cs = 0 ↔ cs = [] := by
  rw [← length_utf8, List.length_eq_zero_iff, utf8_eq_nil]

/-- The text between two offsets is what is left when the bytes before and after are taken away. -/
lemma sliceBytes_eq_some : sliceBytes cs start stop = some t ↔
    ∃ before after, cs = before ++ t ++ after ∧ start = byteSize before ∧
      stop = byteSize before + byteSize t := by
  constructor
  · intro h
    fun_induction sliceBytes cs start stop generalizing t with
    | case1 cs =>
      obtain rfl := Option.some.inj h
      exact ⟨[], cs, rfl, rfl, rfl⟩
    | case2 => cases h
    | case3 stop c cs hstop hle ih =>
      obtain ⟨t, ht, rfl⟩ := Option.map_eq_some_iff.1 h
      obtain ⟨before, after, rfl, hbefore, hsize⟩ := ih ht
      obtain rfl := byteSize_eq_zero.1 hbefore.symm
      refine ⟨[], after, rfl, rfl, ?_⟩
      rw [byteSize] at hsize ⊢
      rw [byteSize]
      omega
    | case4 => cases h
    | case5 c cs start stop hle ih =>
      obtain ⟨before, after, rfl, hbefore, hsize⟩ := ih h
      refine ⟨c :: before, after, rfl, ?_, ?_⟩
      · rw [byteSize]
        omega
      · rw [byteSize]
        omega
    | case6 => cases h
  · rintro ⟨before, after, rfl, rfl, rfl⟩
    rw [sliceBytes_append]

/-- The slice up to the end of the first part is the first part. -/
lemma sliceBytes_left {as bs : List Char} (h : cs = as ++ bs) :
    sliceBytes cs 0 (byteSize as) = some as :=
  sliceBytes_eq_some.2 ⟨[], bs, h, rfl, (Nat.zero_add _).symm⟩

/-- The slice from the end of the first part on is the second part. -/
lemma sliceBytes_right {as bs : List Char} (h : cs = as ++ bs) :
    sliceBytes cs (byteSize as) (byteSize cs) = some bs := by
  refine sliceBytes_eq_some.2 ⟨as, [], ?_, rfl, ?_⟩
  · rw [h, List.append_nil]
  · rw [h, byteSize_append]

end GoService.Source
