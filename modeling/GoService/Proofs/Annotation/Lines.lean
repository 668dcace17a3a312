import GoService.Annotation
import GoService.Proofs.Text.Lines

/-!
# Lines that annotate

What a line that annotates looks like, said of its text (`Annotates`): white space, the sign, a
name, and either nothing more or white space and a value. It is what is looked for on a line
(`annotates_of_ofLine?`, `ofLine?_of_annotates`), so what a line says does not depend on white space
at its ends.
-/

namespace GoService.Annotations

/-- The name of an annotation: a letter or `_`, then letters, digits or `_`. -/
inductive IsName : List Char → Prop
  | intro (hc : isNameStart c) (hcs : ∀ d ∈ cs, isNamePart d) : IsName (c :: cs)

/-- A name begins with a character that can begin one, and the others can stand in one. -/
lemma isName_cons_iff {c : Char} {cs : List Char} :
    IsName (c :: cs) ↔ isNameStart c ∧ cs.all isNamePart := by
  rw [List.all_eq_true]
  constructor
  · rintro ⟨hc, hcs⟩
    exact ⟨hc, hcs⟩
  · rintro ⟨hc, hcs⟩
    exact .intro hc hcs

instance : DecidablePred IsName
  | [] => isFalse nofun
  | _ :: _ => decidable_of_iff _ isName_cons_iff.symm

/-- The line annotates with a name and a value, which is trimmed. -/
inductive Annotates : List Char → List Char → List Char → Prop
  | intro (hindent : ∀ c ∈ indent, Text.isBlank c) (hname : IsName name)
      (htail : ∀ c ∈ tail.head?, Text.isBlank c) :
      Annotates (indent ++ '@' :: (name ++ tail)) name (Text.trim tail)

/-- The line begins an annotation. -/
def Begins (line : List Char) : Prop :=
  ∃ name value, Annotates line name value

/-- The line opens a fence. -/
def Opens (line : List Char) : Prop :=
  ∃ name, Annotates line name fenceStart

/-! ## White space and names -/

/-- The code points of the blank characters. -/
def blankCodes : List Nat :=
  [9, 10, 11, 12, 13, 32, 0x85, 0xA0, 0x1680, 0x2000, 0x2001, 0x2002, 0x2003, 0x2004, 0x2005,
    0x2006, 0x2007, 0x2008, 0x2009, 0x200A, 0x2028, 0x2029, 0x202F, 0x205F, 0x3000]

/-- Every blank character has one of the listed codes. -/
lemma toNat_mem_blankCodes {c : Char} (h : Text.isBlank c) : c.toNat ∈ blankCodes := by
  simp only [Text.isBlank, Bool.or_eq_true, Bool.and_eq_true, decide_eq_true_eq, beq_iff_eq] at h
  simp only [blankCodes, List.mem_cons, List.not_mem_nil, or_false]
  omega

/-- No listed code is that of a character in a name. -/
lemma not_isNamePart_of_mem_blankCodes :
    ∀ n ∈ blankCodes, isNamePart (Char.ofNat n) = false := by
  decide +kernel

/-- White space ends a name. -/
lemma not_isNamePart_of_isBlank {c : Char} (h : Text.isBlank c) : isNamePart c = false := by
  have hcode := not_isNamePart_of_mem_blankCodes c.toNat (toNat_mem_blankCodes h)
  rwa [Char.ofNat_toNat] at hcode

/-- What can begin a name can stand in one. -/
lemma isNamePart_of_isNameStart {c : Char} (h : isNameStart c) : isNamePart c := by
  rw [isNameStart, Bool.or_eq_true] at h
  rw [isNamePart, Bool.or_eq_true, Text.isAlphanumeric, Bool.or_eq_true]
  exact h.imp_left .inl

/-- All characters of a name can stand in one. -/
lemma IsName.isNamePart {name : List Char} (h : IsName name) : ∀ c ∈ name, isNamePart c := by
  cases h with
  | intro hc hcs => exact List.forall_mem_cons.2 ⟨isNamePart_of_isNameStart hc, hcs⟩

/-- A name has no blank characters. -/
lemma IsName.not_isBlank {name : List Char} (h : IsName name) :
    ∀ c ∈ name, Text.isBlank c = false := by
  intro c hc
  by_contra hblank
  have hpart := not_isNamePart_of_isBlank (by simpa using hblank)
  rw [h.isNamePart c hc] at hpart
  cases hpart

/-- A name has no line feed. -/
lemma IsName.lineFeed_notMem {name : List Char} (h : IsName name) : '\n' ∉ name :=
  fun hmem => Bool.false_ne_true ((h.not_isBlank _ hmem).symm.trans (by decide))

/-! ## What is looked for -/

/-- Behind a name only white space is trimmed. -/
lemma trimEnd_name {name : List Char} (h : IsName name) (tail : List Char) :
    Text.trimEnd ('@' :: (name ++ tail)) = '@' :: (name ++ Text.trimEnd tail) := by
  have hblank := h.not_isBlank
  obtain ⟨init, c, rfl⟩ : ∃ init c, name = init ++ [c] := by
    cases h with
    | intro => exact ⟨_, _, (List.dropLast_append_getLast (List.cons_ne_nil _ _)).symm⟩
  have hc : Text.isBlank c = false := hblank c (by simp)
  have htrim := Text.trimEnd_append_of_not_isBlank ('@' :: init) hc tail
  simpa using htrim

/-- Trimming the end first changes nothing. -/
lemma trim_trimEnd (cs : List Char) : Text.trim (Text.trimEnd cs) = Text.trim cs := by
  obtain ⟨back, hback, heq⟩ := Text.exists_append_trimEnd cs
  conv_rhs => rw [heq]
  rw [Text.trim_append_right _ hback]

/-- What trimming the end leaves begins with a blank character if the text does. -/
lemma head?_trimEnd {cs : List Char} (h : ∀ c ∈ cs.head?, Text.isBlank c) :
    ∀ c ∈ (Text.trimEnd cs).head?, Text.isBlank c := by
  intro c hc
  obtain ⟨rest, hrest⟩ := List.head?_eq_some_iff.1 hc
  obtain ⟨tail, htail⟩ := Text.trimEnd_prefix cs
  exact h c (by rw [← htail, hrest]; rfl)

/-- Where a name ends, and what is left to read. -/
lemma span_name {name : List Char} {c : Char} {cs tail : List Char} (hname : name = c :: cs)
    (h : IsName name) (htail : ∀ c ∈ tail.head?, Text.isBlank c) :
    (cs ++ tail).takeWhile isNamePart = cs ∧ (cs ++ tail).dropWhile isNamePart = tail := by
  subst hname
  have hcs : ∀ d ∈ cs, isNamePart d := fun d hd => h.isNamePart d (List.mem_cons_of_mem _ hd)
  rw [List.takeWhile_append_of_pos hcs, List.dropWhile_append_of_pos hcs]
  cases tail with
  | nil => exact ⟨List.append_nil cs, rfl⟩
  | cons d tail =>
    have hd : isNamePart d = false := not_isNamePart_of_isBlank (htail d rfl)
    rw [List.takeWhile_cons_of_neg (by simp [hd]), List.dropWhile_cons_of_neg (by simp [hd])]
    exact ⟨List.append_nil cs, rfl⟩

/-- What a line that begins with an at sign annotates is settled by what follows the name. -/
lemma ofLine?_of_trim {line : List Char} {c : Char} {rest : List Char}
    (h : Text.trim line = '@' :: c :: rest) : ofLine? line =
      if isNameStart c then
        if (rest.dropWhile isNamePart).isEmpty ||
            (rest.dropWhile isNamePart).head?.any Text.isBlank then
          some (c :: rest.takeWhile isNamePart, Text.trim (rest.dropWhile isNamePart))
        else none
      else none := by
  rw [ofLine?, h]
  rfl

/-- A line that annotates is read as what it annotates. -/
lemma ofLine?_of_annotates {line name value : List Char} (h : Annotates line name value) :
    ofLine? line = some (name, value) := by
  cases h with
  | @intro indent name tail hindent hname htail =>
    obtain ⟨c, cs, hcons⟩ : ∃ c cs, name = c :: cs := by
      cases hname with
      | intro => exact ⟨_, _, rfl⟩
    have htrim : Text.trim (indent ++ '@' :: (name ++ tail)) =
        '@' :: c :: (cs ++ Text.trimEnd tail) := by
      rw [Text.trim_append_left hindent, Text.trim, Text.trimStart_of_not_isBlank (by decide),
        trimEnd_name hname, hcons, List.cons_append]
    have htail := head?_trimEnd htail
    obtain ⟨htake, hdrop⟩ := span_name hcons hname htail
    rw [ofLine?_of_trim htrim, htake, hdrop, trim_trimEnd, hcons]
    cases hcons ▸ hname with
    | intro hc =>
      rw [if_pos hc, if_pos]
      cases hback : Text.trimEnd tail with
      | nil => rfl
      | cons d back => exact htail d (by rw [hback]; rfl)

/-- What is read of a line is what it annotates. -/
lemma annotates_of_ofLine? {line name value : List Char} (h : ofLine? line = some (name, value)) :
    Annotates line name value := by
  obtain ⟨front, back, hfront, hback, hline⟩ := Text.exists_append_trim line
  by_cases htrim : ∃ c rest, Text.trim line = '@' :: c :: rest
  · obtain ⟨c, rest, htrim⟩ := htrim
    rw [ofLine?_of_trim htrim] at h
    split at h
    · next hc =>
      split at h
      · next hend =>
        obtain ⟨rfl, rfl⟩ := Prod.mk.inj (Option.some.inj h)
        have hname : IsName (c :: rest.takeWhile isNamePart) :=
          .intro hc fun d hd => List.mem_takeWhile_imp hd
        -- behind the name there is a blank, which may be one that was trimmed
        have htail : ∀ d ∈ (rest.dropWhile isNamePart ++ back).head?, Text.isBlank d := by
          intro d hd
          cases hdrop : rest.dropWhile isNamePart with
          | nil =>
            rw [hdrop, List.nil_append] at hd
            exact hback d (List.mem_of_head? hd)
          | cons e es =>
            rw [hdrop] at hd hend
            cases hd
            exact hend
        have hrest : rest.takeWhile isNamePart ++ (rest.dropWhile isNamePart ++ back) =
            rest ++ back := by
          rw [← List.append_assoc, List.takeWhile_append_dropWhile]
        have hwhole : line = front ++ '@' ::
            (c :: rest.takeWhile isNamePart ++ (rest.dropWhile isNamePart ++ back)) := by
          rw [hline, htrim]
          exact congrArg (fun cs => front ++ '@' :: c :: cs) hrest.symm
        have hintro := Annotates.intro hfront hname htail
        rw [← hwhole, Text.trim_append_right _ hback] at hintro
        exact hintro
      · cases h
    · cases h
  · rw [ofLine?] at h
    split at h
    · next c rest hcons => exact absurd ⟨c, rest, hcons⟩ htrim
    · cases h

/-- Nothing is read of a line exactly if it begins no annotation. -/
lemma ofLine?_eq_none_iff {line : List Char} : ofLine? line = none ↔ ¬ Begins line := by
  rw [Option.eq_none_iff_forall_ne_some]
  constructor
  · rintro h ⟨name, value, hannotates⟩
    exact h _ (ofLine?_of_annotates hannotates)
  · rintro h ⟨name, value⟩ heq
    exact h ⟨name, value, annotates_of_ofLine? heq⟩

/-- White space around a line does not matter. -/
lemma ofLine?_congr {l l' : List Char} (h : Text.trim l = Text.trim l') :
    ofLine? l = ofLine? l' := by
  rw [ofLine?, ofLine?, h]

end GoService.Annotations
