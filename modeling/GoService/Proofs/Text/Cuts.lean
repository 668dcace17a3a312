import GoService.Annotation
import GoService.Proofs.Text.Slices
import GoService.Proofs.Text.TagLookup

/-!
# Cutting texts by bytes

The readers of literals, tags and annotations once more, with every text cut out between two byte
offsets; a cut that is out of range or inside a character gives none. The offsets come from counts
and searches in bytes. A literal is cut off at its first and at its last byte, which fails exactly
if one of them is only a part of a character (`unquoteCut?_eq_none`). The cuts of tags and
annotations never fail, and what they give is what the readers give (`readPairsCut?_eq`,
`ofLineCut?_eq`).
-/

namespace GoService

open Source Text
open String (utf8EncodeChar)

/-! ## Literals -/

namespace Source

/-- Cuts off one byte at either end, and looks at the two bytes afterwards. -/
def unquoteCut? (literal : String) : Option (Except LiteralError String) :=
  let cs := literal.toList
  if byteSize cs < 2 then some (.error .notQuoted)
  else do
    let body ← sliceBytes cs 1 (byteSize cs - 1)
    if (utf8 cs).head? = some '\x60'.toUInt8 ∧ (utf8 cs).getLast? = some '\x60'.toUInt8 then
      return .ok (String.ofList (body.filter (· != '\r')))
    else if (utf8 cs).head? = some '"'.toUInt8 ∧ (utf8 cs).getLast? = some '"'.toUInt8 then
      return (escapedBytes 1 body).bind decodeBytes
    else return .error .notQuoted

/-- A literal of two bytes or more begins or ends with a character that takes several. -/
def EndsInCharacter (literal : String) : Prop :=
  2 ≤ byteSize literal.toList ∧
    ∃ c, (literal.toList.head? = some c ∨ literal.toList.getLast? = some c) ∧ c.utf8Size ≠ 1

/-- One byte is one character that takes one. -/
lemma byteSize_eq_one {cs : List Char} :
    byteSize cs = 1 ↔ ∃ c : Char, cs = [c] ∧ c.utf8Size = 1 := by
  constructor
  · intro h
    match cs with
    | [] => cases h
    | [c] => exact ⟨c, rfl, h⟩
    | c :: d :: cs =>
      have hc := c.utf8Size_pos
      have hd := d.utf8Size_pos
      rw [byteSize, byteSize] at h
      omega
  · rintro ⟨c, rfl, h⟩
    exact h

/-- The text between the first and the last byte. -/
lemma sliceBytes_between {cs body : List Char} (h : 2 ≤ byteSize cs) :
    sliceBytes cs 1 (byteSize cs - 1) = some body ↔
      ∃ first last : Char, cs = first :: (body ++ [last]) ∧ first.utf8Size = 1 ∧
        last.utf8Size = 1 := by
  rw [sliceBytes_eq_some]
  constructor
  · intro ⟨before, after, hcs, hbefore, hbody⟩
    have hafter : byteSize after = 1 := by
      have hsize := congrArg byteSize hcs
      rw [byteSize_append, byteSize_append] at hsize
      omega
    obtain ⟨first, rfl, hfirst⟩ := byteSize_eq_one.1 hbefore.symm
    obtain ⟨last, rfl, hlast⟩ := byteSize_eq_one.1 hafter
    exact ⟨first, last, hcs, hfirst, hlast⟩
  · intro ⟨first, last, hcs, hfirst, hlast⟩
    refine ⟨[first], [last], hcs, hfirst.symm, ?_⟩
    simp only [hcs, byteSize, byteSize_append, hfirst, hlast]
    omega

/-- A literal between characters of one byte does not begin or end with a longer one. -/
lemma not_endsInCharacter {literal : String} {first last : Char} {body : List Char}
    (h : literal.toList = first :: (body ++ [last])) (hfirst : first.utf8Size = 1)
    (hlast : last.utf8Size = 1) : ¬ EndsInCharacter literal := by
  rintro ⟨-, c, hc, hne⟩
  rw [h, List.head?_cons, ← List.cons_append, List.getLast?_concat] at hc
  rcases hc with hc | hc
  · cases hc
    exact hne hfirst
  · cases hc
    exact hne hlast

/-- A literal that does not begin or end with a longer character is between characters of one byte.
-/
lemma exists_between {literal : String} (hsize : 2 ≤ byteSize literal.toList)
    (h : ¬ EndsInCharacter literal) :
    ∃ (first last : Char) (body : List Char), literal.toList = first :: (body ++ [last]) ∧
      first.utf8Size = 1 ∧ last.utf8Size = 1 := by
  have hsingle : ∀ c, literal.toList.head? = some c ∨ literal.toList.getLast? = some c →
      c.utf8Size = 1 := by
    intro c hc
    by_contra hne
    exact h ⟨hsize, c, hc, hne⟩
  cases hcs : literal.toList with
  | nil =>
    rw [hcs] at hsize
    cases hsize
  | cons first cs =>
    rw [hcs] at hsize hsingle
    have hfirst := hsingle first (.inl rfl)
    rcases List.eq_nil_or_concat cs with rfl | ⟨body, last, rfl⟩
    · rw [byteSize, byteSize, hfirst] at hsize
      exact absurd hsize (by decide)
    · refine ⟨first, last, body, by rw [List.concat_eq_append], hfirst, hsingle last (.inr ?_)⟩
      rw [List.concat_eq_append, ← List.cons_append, List.getLast?_concat]

/-- The bytes of a text between characters of one byte. -/
lemma utf8_between (first last : Char) (body : List Char) (hfirst : first.utf8Size = 1)
    (hlast : last.utf8Size = 1) :
    utf8 (first :: (body ++ [last])) = first.toUInt8 :: (utf8 body ++ [last.toUInt8]) := by
  rw [utf8_cons_of_single hfirst, utf8_append, utf8_cons_of_single hlast, utf8_nil]

/-- A literal is cut as it is read, if it does not begin or end with a longer character. -/
lemma unquoteCut?_eq {literal : String} (h : ¬ EndsInCharacter literal) :
    unquoteCut? literal = some (unquote literal) := by
  by_cases hsize : byteSize literal.toList < 2
  · rw [unquoteCut?, unquote]
    simp only [hsize, if_true]
  · have hsize : 2 ≤ byteSize literal.toList := Nat.not_lt.1 hsize
    obtain ⟨first, last, body, hcs, hfirst, hlast⟩ := exists_between hsize h
    have hbody := (sliceBytes_between hsize).2 ⟨first, last, hcs, hfirst, hlast⟩
    have hhead : (utf8 literal.toList).head? = some first.toUInt8 := by
      rw [hcs, utf8_between first last body hfirst hlast, List.head?_cons]
    have hlast' : (utf8 literal.toList).getLast? = some last.toUInt8 := by
      rw [hcs, utf8_between first last body hfirst hlast, ← List.cons_append, List.getLast?_concat]
    rw [unquoteCut?, if_neg (Nat.not_lt.2 hsize), hbody, hhead, hlast',
      unquote_between first last hfirst hlast hcs]
    -- both look for the same quotes, one of them in bytes
    simp only [Option.some.injEq, toUInt8_inj hfirst (k := '"') (by decide),
      toUInt8_inj hlast (k := '"') (by decide), toUInt8_inj hfirst (k := '\x60') (by decide),
      toUInt8_inj hlast (k := '\x60') (by decide), Option.bind_eq_bind, Option.bind_some]
    split
    · next h =>
      obtain ⟨rfl, rfl⟩ := h
      rfl
    · next hraw =>
      split
      · next h =>
        obtain ⟨rfl, rfl⟩ := h
        rfl
      · next hquoted =>
        split
        · next h h' => exact absurd ⟨Option.some.inj h, Option.some.inj h'⟩ hraw
        · next h h' => exact absurd ⟨Option.some.inj h, Option.some.inj h'⟩ hquoted
        · rfl

/-- The error that stands for a failed cut is the error in just these cases. -/
lemma unquote_eq_splitCharacter {literal : String} :
    unquote literal = .error .splitCharacter ↔ EndsInCharacter literal := by
  constructor
  · intro hsplit
    by_contra h
    by_cases hsize : byteSize literal.toList < 2
    · rw [unquote, if_pos hsize] at hsplit
      cases hsplit
    · obtain ⟨first, last, body, hcs, hfirst, hlast⟩ := exists_between (Nat.not_lt.1 hsize) h
      rw [unquote_between first last hfirst hlast hcs] at hsplit
      split at hsplit
      · cases hsplit
      · rw [decoded_eq_error] at hsplit
        rcases hsplit with ⟨n, -, hn⟩ | ⟨hn, -⟩ <;> cases hn
      · cases hsplit
  · rintro ⟨hsize, c, hc, hne⟩
    have hany : literal.toList.head?.any (·.utf8Size != 1) ||
        literal.toList.getLast?.any (·.utf8Size != 1) := by
      rcases hc with hc | hc <;> simp [hc, hne]
    rw [unquote]
    simp only [if_neg (Nat.not_lt.2 hsize), hany, if_true]

/-- A literal cannot be cut exactly if it begins or ends with a longer character. -/
lemma unquoteCut?_eq_none {literal : String} :
    unquoteCut? literal = none ↔ EndsInCharacter literal := by
  constructor
  · intro hnone
    by_contra h
    rw [unquoteCut?_eq h] at hnone
    cases hnone
  · intro h
    have hslice : sliceBytes literal.toList 1 (byteSize literal.toList - 1) = none := by
      cases hslice : sliceBytes literal.toList 1 (byteSize literal.toList - 1) with
      | none => rfl
      | some body =>
        obtain ⟨first, last, hcs, hfirst, hlast⟩ := (sliceBytes_between h.1).1 hslice
        exact absurd h (not_endsInCharacter hcs hfirst hlast)
    rw [unquoteCut?, if_neg (Nat.not_lt.2 h.1), hslice]
    rfl

end Source

/-! ## Tags -/

namespace Tags

/-- The first pair of a text and what comes after it. -/
def pairCut? (cs : List Char) : Option (Option ((String × List String) × List Char)) := do
  let n := ((utf8 cs).takeWhile isKeyByte).length
  let marked ← sliceBytes cs n (byteSize cs)
  if n = 0 ∨ ¬ [':', '"'] <+: marked then return none
  let key ← sliceBytes cs 0 n
  let quoted ← sliceBytes cs (n + 1) (byteSize cs)
  match closingQuote? ((utf8 quoted).drop 1) with
  | none => return none
  | some stop =>
    let value ← sliceBytes quoted 0 (stop + 1)
    let rest ← sliceBytes quoted (stop + 1) (byteSize quoted)
    match ← unquoteCut? (String.ofList value) with
    | .error _ => return none
    | .ok value => return some ((String.ofList key, splitString ',' value), rest)

/-- Reads the pairs of a tag, each of them by cutting. -/
def readPairsCut? (found : Tags) : Nat → List Char → Option Tags
  | 0, _ => some found
  | fuel + 1, cs => do
    match ← pairCut? (cs.dropWhile (· == ' ')) with
    | none => return found
    | some ((key, values), rest) =>
      readPairsCut? (if found.contains key then found else found.insert key values) fuel rest

/-- A string that closes ends with its quote. -/
lemma exists_of_quoteEnd? {cs : List Char} {n : Nat} (h : quoteEnd? cs = some n) :
    ∃ body, cs.take n = body ++ ['"'] := by
  induction cs using quoteEnd?.induct generalizing n with
  | case1 => cases h
  | case2 cs =>
    cases h
    exact ⟨[], rfl⟩
  | case3 => cases h
  | case4 c cs ih =>
    rw [quoteEnd?] at h
    obtain ⟨m, hm, rfl⟩ := Option.map_eq_some_iff.1 h
    obtain ⟨body, hbody⟩ := ih hm
    exact ⟨'\\' :: c :: body, by simp [hbody]⟩
  | case5 c cs hquote hlast hback ih =>
    rw [quoteEnd?.eq_5 c cs hquote hlast hback] at h
    obtain ⟨m, hm, rfl⟩ := Option.map_eq_some_iff.1 h
    obtain ⟨body, hbody⟩ := ih hm
    exact ⟨c :: body, by simp [hbody]⟩

/-- A quoted string that closes can be cut. -/
lemma unquoteCut?_quoted {cs : List Char} {n : Nat} (h : quoteEnd? cs = some n) :
    unquoteCut? (String.ofList ('"' :: cs.take n)) =
      some (unquote (String.ofList ('"' :: cs.take n))) := by
  obtain ⟨body, hbody⟩ := exists_of_quoteEnd? h
  have htext : (String.ofList ('"' :: cs.take n)).toList = '"' :: (body ++ ['"']) := by
    rw [String.toList_ofList, hbody]
  exact unquoteCut?_eq (not_endsInCharacter htext (by decide) (by decide))

/-- A pair is cut as it is read. -/
lemma pairCut?_eq (cs : List Char) : pairCut? cs = some (pair? cs) := by
  have hsplit : cs = cs.takeWhile isKeyChar ++ cs.dropWhile isKeyChar :=
    List.takeWhile_append_dropWhile.symm
  have hlen : ((utf8 cs).takeWhile isKeyByte).length = byteSize (cs.takeWhile isKeyChar) := by
    rw [takeWhile_utf8 isKeyByte_eq, length_utf8]
  rw [pairCut?, hlen, sliceBytes_right hsplit, sliceBytes_left hsplit]
  simp only [Option.bind_eq_bind, Option.bind_some]
  by_cases h : cs.takeWhile isKeyChar ≠ [] ∧ [':', '"'] <+: cs.dropWhile isKeyChar
  · obtain ⟨r, hr⟩ := h.2
    have hrest : cs.dropWhile isKeyChar = ':' :: '"' :: r := hr.symm
    -- the colon takes one byte, so the quoted value begins right behind it
    have hcolon : cs = (cs.takeWhile isKeyChar ++ [':']) ++ '"' :: r := by
      rw [List.append_assoc, List.singleton_append, ← hrest]
      exact hsplit
    have hquoted : sliceBytes cs (byteSize (cs.takeWhile isKeyChar) + 1) (byteSize cs) =
        some ('"' :: r) := by
      have hone : byteSize [':'] = 1 := by decide
      rw [← hone, ← byteSize_append]
      exact sliceBytes_right hcolon
    have hbytes : (utf8 ('"' :: r)).drop 1 = utf8 r := by
      rw [utf8_cons_of_single (by decide), List.drop_one, List.tail_cons]
    rw [if_neg (by simpa [byteSize_eq_zero] using h), hquoted, pair?_of_isPrefix h.1 hrest]
    simp only [Option.bind_some, hbytes, closingQuote?_utf8]
    cases hend : quoteEnd? r with
    | none => rfl
    | some n =>
      have hvalue : '"' :: r = ('"' :: r.take n) ++ r.drop n := by
        rw [List.cons_append, List.take_append_drop]
      have hsize : byteSize (r.take n) + 1 = byteSize ('"' :: r.take n) := by
        rw [byteSize, Nat.add_comm]
        rfl
      simp only [Option.map_some, hsize, sliceBytes_left hvalue, sliceBytes_right hvalue,
        unquoteCut?_quoted hend, Option.bind_some]
      cases unquote (String.ofList ('"' :: r.take n)) <;> rfl
  · rw [if_pos (by simpa [byteSize_eq_zero, or_iff_not_imp_left] using h),
      pair?_of_not_isPrefix h]
    rfl

/-- The pairs of a tag are cut as they are read. -/
lemma readPairsCut?_eq (found : Tags) (fuel : Nat) (cs : List Char) :
    readPairsCut? found fuel cs = some (readPairs found fuel cs) := by
  induction fuel generalizing found cs with
  | zero => rfl
  | succ fuel ih =>
    rw [readPairsCut?, readPairs, pairCut?_eq]
    cases pair? (cs.dropWhile (· == ' ')) with
    | none => rfl
    | some p => exact ih _ p.2

end Tags

/-! ## Annotations -/

namespace Annotations

/-- Reads the annotation on a line by cutting. -/
def ofLineCut? (line : List Char) : Option (Option (List Char × List Char)) :=
  match trim line with
  | '@' :: c :: cs =>
    if isNameStart c then do
      let stop := byteSize (c :: cs.takeWhile isNamePart)
      let name ← sliceBytes (c :: cs) 0 stop
      let tail ← sliceBytes (c :: cs) stop (byteSize (c :: cs))
      if tail.isEmpty || tail.head?.any isBlank then return some (name, trim tail) else return none
    else some none
  | _ => some none

section

variable {line : List Char}

/-- A line that is too short for a name has no annotation. -/
lemma ofLine?_of_ne (h : ∀ c cs, trim line ≠ '@' :: c :: cs) : ofLine? line = none := by
  rw [ofLine?]
  split
  · next c cs hline => exact absurd hline (h c cs)
  · rfl

/-- A line that is too short for a name is not cut. -/
lemma ofLineCut?_of_ne (h : ∀ c cs, trim line ≠ '@' :: c :: cs) :
    ofLineCut? line = some none := by
  rw [ofLineCut?]
  split
  · next c cs hline => exact absurd hline (h c cs)
  · rfl

end

/-- An annotation is cut as it is read. -/
lemma ofLineCut?_eq (line : List Char) : ofLineCut? line = some (ofLine? line) := by
  by_cases h : ∃ c cs, trim line = '@' :: c :: cs
  · obtain ⟨c, cs, hline⟩ := h
    have hsplit : c :: cs = (c :: cs.takeWhile isNamePart) ++ cs.dropWhile isNamePart := by
      rw [List.cons_append, List.takeWhile_append_dropWhile]
    simp only [ofLineCut?, ofLine?, hline, sliceBytes_left hsplit, sliceBytes_right hsplit,
      Option.bind_eq_bind, Option.bind_some]
    split
    · split <;> rfl
    · rfl
  · have hne : ∀ c cs, trim line ≠ '@' :: c :: cs := fun c cs hline => h ⟨c, cs, hline⟩
    rw [ofLineCut?_of_ne hne, ofLine?_of_ne hne]

end Annotations

end GoService
