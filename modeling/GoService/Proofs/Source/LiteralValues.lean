import GoService.Proofs.Source.Escapes
import GoService.Proofs.Text.Bytes

/-!
# The values of string literals

What stands between double quotes, as a grammar on bytes: `Element` is a byte that stands for
itself or an escape, `Splits` a row of elements with the bytes that they denote together, and
`BreaksAt` says where a text has a backslash that begins no escape. The grammar is unambiguous
(`Splits.unique`, `BreaksAt.unique`), and reading a text comes to one or the other
(`reads_escapedBytes`), so a literal has exactly the value that its elements denote
(`unquote_denotes`).
-/

namespace GoService.Source

open Text
open String (utf8EncodeChar)

/-! ## Rows of elements -/

/-- The bytes of an element between double quotes, and those that it denotes. -/
inductive Element : List UInt8 → List UInt8 → Prop
  | byte {b : UInt8} (h : b ≠ '\\'.toUInt8) : Element [b] [b]
  | escape {text : List Char} {bytes : List UInt8} (h : Escape text bytes) :
      Element (utf8 ('\\' :: text)) bytes

/-- A row of elements, and the bytes that they denote one after another. -/
inductive Splits : List UInt8 → List UInt8 → Prop
  | nil : Splits [] []
  | cons {e es bytes rest : List UInt8} (h : Element e bytes) (hrest : Splits es rest) :
      Splits (e ++ es) (bytes ++ rest)

/-- After elements up to an offset there is a backslash that begins no element. -/
inductive BreaksAt : List UInt8 → Nat → Prop
  | mk {before bytes rest : List UInt8} (hbefore : Splits before bytes)
      (hnone : ∀ e d, Element e d → ¬ e <+: '\\'.toUInt8 :: rest) :
      BreaksAt (before ++ '\\'.toUInt8 :: rest) before.length

/-! ## One reading at most -/

/-- The bytes of a text that begins with a backslash. -/
lemma utf8_backslash (cs : List Char) : utf8 ('\\' :: cs) = '\\'.toUInt8 :: utf8 cs :=
  utf8_cons_of_single (by decide) cs

/-- An escape is found at the front of bytes in one way only. -/
lemma escape_unique_of_bytes {text text' : List Char} {bytes bytes' rest rest' : List UInt8}
    (h : Escape text bytes) (h' : Escape text' bytes')
    (heq : utf8 text ++ rest = utf8 text' ++ rest') : text = text' ∧ bytes = bytes' := by
  rcases List.append_eq_append_iff.1 heq with ⟨bs, hbs, -⟩ | ⟨bs, hbs, -⟩
  · exact escape_unique h h' (isPrefix_of_utf8 ⟨bs, hbs.symm⟩)
  · obtain ⟨htext, hbytes⟩ := escape_unique h' h (isPrefix_of_utf8 ⟨bs, hbs.symm⟩)
    exact ⟨htext.symm, hbytes.symm⟩

/-- No element begins another one. -/
lemma Element.unique {e e' d d' rest rest' : List UInt8} (h : Element e d) (h' : Element e' d')
    (heq : e ++ rest = e' ++ rest') : e = e' ∧ d = d' := by
  cases h with
  | byte hb =>
    cases h' with
    | byte hb' =>
      obtain ⟨rfl, -⟩ := List.cons.inj heq
      exact ⟨rfl, rfl⟩
    | escape h' =>
      rw [utf8_backslash] at heq
      exact absurd (List.cons.inj heq).1 hb
  | escape h =>
    cases h' with
    | byte hb' =>
      rw [utf8_backslash] at heq
      exact absurd (List.cons.inj heq).1.symm hb'
    | escape h' =>
      rw [utf8_backslash, utf8_backslash] at heq
      obtain ⟨rfl, rfl⟩ := escape_unique_of_bytes h h' (List.cons.inj heq).2
      exact ⟨rfl, rfl⟩

/-- An element has bytes. -/
lemma Element.ne_nil {e d : List UInt8} (h : Element e d) : e ≠ [] := by
  cases h with
  | byte => exact List.cons_ne_nil _ _
  | escape h => rw [utf8_backslash]; exact List.cons_ne_nil _ _

/-- Elements may be followed by more. -/
lemma Splits.append {as bs d d' : List UInt8} (h : Splits as d) (h' : Splits bs d') :
    Splits (as ++ bs) (d ++ d') := by
  induction h with
  | nil => exact h'
  | cons he _ ih =>
    rw [List.append_assoc, List.append_assoc]
    exact .cons he ih

/-- A text that splits goes on splitting after any part that does. -/
lemma Splits.after {as bs d bytes : List UInt8} (h : Splits as d) (hall : Splits (as ++ bs) bytes) :
    ∃ d', bytes = d ++ d' ∧ Splits bs d' := by
  induction h generalizing bytes with
  | nil => exact ⟨bytes, rfl, hall⟩
  | @cons e es d ds he _ ih =>
    generalize heq : e ++ es ++ bs = src at hall
    rw [List.append_assoc] at heq
    cases hall with
    | nil => exact absurd (List.append_eq_nil_iff.1 heq).1 he.ne_nil
    | cons he' hrest =>
      -- both rows begin with the same element
      obtain ⟨rfl, rfl⟩ := he.unique he' heq
      obtain rfl := List.append_cancel_left heq
      obtain ⟨d', rfl, h'⟩ := ih hrest
      exact ⟨d', (List.append_assoc ..).symm, h'⟩

/-- No bytes are the elements of none. -/
lemma splits_nil {bytes : List UInt8} (h : Splits [] bytes) : bytes = [] := by
  generalize heq : [] = src at h
  cases h with
  | nil => rfl
  | cons he _ => exact absurd (List.append_eq_nil_iff.1 heq.symm).1 he.ne_nil

/-- A text has one split at most. -/
lemma Splits.unique {src bytes bytes' : List UInt8} (h : Splits src bytes)
    (h' : Splits src bytes') : bytes = bytes' := by
  rw [← List.append_nil src] at h'
  obtain ⟨d, rfl, hd⟩ := h.after h'
  rw [splits_nil hd, List.append_nil]

/-- Elements of bytes begin with one. -/
lemma exists_element_of_splits {b : UInt8} {src bytes : List UInt8} (h : Splits (b :: src) bytes) :
    ∃ e d, Element e d ∧ e <+: b :: src := by
  generalize heq : b :: src = s at h
  cases h with
  | nil => cases heq
  | cons he _ => exact ⟨_, _, he, List.prefix_append ..⟩

/-- A text that breaks does not split. -/
lemma BreaksAt.not_splits {src bytes : List UInt8} {n : Nat} (h : BreaksAt src n) :
    ¬ Splits src bytes := by
  intro hall
  cases h with
  | mk hbefore hnone =>
    obtain ⟨_, -, hrest⟩ := hbefore.after hall
    obtain ⟨e, d, he, hpre⟩ := exists_element_of_splits hrest
    exact hnone e d he hpre

/-- A break after elements is a break further on. -/
lemma BreaksAt.append {as d src : List UInt8} {n : Nat} (h : Splits as d) (hsrc : BreaksAt src n) :
    BreaksAt (as ++ src) (as.length + n) := by
  cases hsrc with
  | mk hbefore hnone =>
    rw [← List.append_assoc, ← List.length_append]
    exact .mk (h.append hbefore) hnone

/-- Elements do not go beyond the place where a text breaks. -/
lemma Splits.length_le {as d before d' src rest : List UInt8} (h : Splits as d)
    (hbefore : Splits before d') (hnone : ∀ e d, Element e d → ¬ e <+: rest)
    (heq : as ++ src = before ++ rest) : as.length ≤ before.length := by
  induction h generalizing before d' with
  | nil => exact Nat.zero_le _
  | @cons e es d ds he _ ih =>
    rw [List.append_assoc] at heq
    cases hbefore with
    | nil =>
      -- the next element would begin where none does
      exact absurd ⟨_, heq⟩ (hnone e d he)
    | cons he' hes' =>
      rw [List.append_assoc] at heq
      obtain ⟨rfl, rfl⟩ := he.unique he' heq
      have hle := ih hes' (List.append_cancel_left heq)
      rw [List.length_append, List.length_append]
      exact Nat.add_le_add_left hle _

/-- A text breaks at one place at most. -/
lemma BreaksAt.unique {src : List UInt8} {n m : Nat} (h : BreaksAt src n) (h' : BreaksAt src m) :
    n = m := by
  cases h with
  | @mk before d rest hbefore hnone =>
    generalize heq : before ++ '\\'.toUInt8 :: rest = src at h'
    cases h' with
    | mk hbefore' hnone' =>
      exact Nat.le_antisymm (hbefore.length_le hbefore' hnone' heq)
        (hbefore'.length_le hbefore hnone heq.symm)

/-! ## Reading a text -/

/-- Bytes without a backslash denote themselves. -/
lemma splits_of_ne {bs : List UInt8} (h : ∀ b ∈ bs, b ≠ '\\'.toUInt8) : Splits bs bs := by
  induction bs with
  | nil => exact .nil
  | cons b bs ih =>
    have hrest := ih fun b hb => h b (List.mem_cons_of_mem _ hb)
    exact .cons (.byte (h b List.mem_cons_self)) hrest

/-- A character that is no backslash denotes its bytes. -/
lemma splits_char {c : Char} (h : c ≠ '\\') : Splits (utf8EncodeChar c) (utf8EncodeChar c) :=
  splits_of_ne fun _ hb hback => h ((mem_utf8EncodeChar (by decide) hb).1 hback)

/-- An escape denotes its bytes. -/
lemma splits_escape {text : List Char} {bytes : List UInt8} (h : Escape text bytes) :
    Splits (utf8 ('\\' :: text)) bytes := by
  have hrow := Splits.cons (.escape h) .nil
  rwa [List.append_nil, List.append_nil] at hrow

/-- A backslash that is not read as an escape begins no element. -/
lemma breaksAt_of_escape? {cs : List Char} (h : escape? cs = none) :
    BreaksAt (utf8 ('\\' :: cs)) 0 := by
  rw [utf8_backslash]
  refine @BreaksAt.mk [] [] _ .nil ?_
  intro e d he hpre
  cases he with
  | byte hb => exact hb (List.cons_prefix_cons.1 hpre).1
  | escape he =>
    rw [utf8_backslash] at hpre
    obtain ⟨rest, rfl⟩ := isPrefix_of_utf8 (List.cons_prefix_cons.1 hpre).2
    rw [escape?_of_escape he] at h
    cases h

/-- What reading a text comes to. -/
def Reads (src : List UInt8) (offset : Nat) : Except LiteralError (List UInt8) → Prop
  | .ok bytes => Splits src bytes
  | .error e => ∃ n, BreaksAt src n ∧ e = .badEscape (offset + n)

/-- Elements at the front are read before the others. -/
lemma Reads.append {as d src : List UInt8} {offset : Nat}
    {r : Except LiteralError (List UInt8)} (h : Splits as d)
    (hr : Reads src (offset + as.length) r) : Reads (as ++ src) offset ((d ++ ·) <$> r) := by
  cases r with
  | ok bytes => exact h.append hr
  | error e =>
    obtain ⟨n, hn, rfl⟩ := hr
    exact ⟨as.length + n, .append h hn, by rw [Nat.add_assoc]⟩

/-- Characters of one byte each are as many as their bytes. -/
lemma length_utf8_of_single {cs : List Char} (h : ∀ c ∈ cs, c.utf8Size = 1) :
    (utf8 cs).length = cs.length := by
  induction cs with
  | nil => rfl
  | cons c cs ih =>
    obtain ⟨hc, hcs⟩ := List.forall_mem_cons.1 h
    rw [utf8_cons, List.length_append, String.length_utf8EncodeChar, hc, ih hcs, List.length_cons,
      Nat.add_comm]

/-- A text splits into what is read from it, or it breaks at the offset in the error. -/
lemma reads_escapedBytes (offset : Nat) (cs : List Char) :
    Reads (utf8 cs) offset (escapedBytes offset cs) := by
  induction offset, cs using escapedBytes.induct with
  | case1 offset =>
    rw [escapedBytes]
    exact .nil
  | case2 offset cs hnone =>
    rw [escapedBytes, if_pos rfl, hnone]
    exact ⟨0, breaksAt_of_escape? hnone, rfl⟩
  | case3 offset cs bytes n hsome ih =>
    obtain ⟨text, ⟨rest, rfl⟩, rfl, htext⟩ := escape_of_escape? hsome
    rw [escapedBytes, if_pos rfl, hsome]
    simp only [List.drop_left] at ih ⊢
    rw [← List.cons_append, utf8_append]
    refine .append (splits_escape htext) ?_
    -- the offsets count bytes, and each character of an escape is one
    rwa [utf8_backslash, List.length_cons, length_utf8_of_single (utf8Size_of_escape htext),
      Nat.add_comm text.length, ← Nat.add_assoc]
  | case4 offset c cs hc ih =>
    rw [escapedBytes, if_neg hc, utf8_cons]
    refine .append (splits_char hc) ?_
    rwa [String.length_utf8EncodeChar]

/-- A text is read as bytes exactly if it splits into elements that denote them. -/
lemma escapedBytes_eq_ok {offset : Nat} {cs : List Char} {bytes : List UInt8} :
    escapedBytes offset cs = .ok bytes ↔ Splits (utf8 cs) bytes := by
  have hreads := reads_escapedBytes offset cs
  constructor
  · intro h
    rwa [h] at hreads
  · intro h
    cases hr : escapedBytes offset cs with
    | ok bytes' =>
      rw [hr] at hreads
      rw [h.unique hreads]
    | error e =>
      rw [hr] at hreads
      obtain ⟨n, hn, -⟩ := hreads
      exact absurd h hn.not_splits

/-- A text is not read exactly if it breaks somewhere, and that is where the fault is told to be. -/
lemma escapedBytes_eq_error {offset : Nat} {cs : List Char} {e : LiteralError} :
    escapedBytes offset cs = .error e ↔
      ∃ n, BreaksAt (utf8 cs) n ∧ e = .badEscape (offset + n) := by
  have hreads := reads_escapedBytes offset cs
  constructor
  · intro h
    rwa [h] at hreads
  · intro ⟨n, hn, he⟩
    cases hr : escapedBytes offset cs with
    | ok bytes =>
      rw [hr] at hreads
      exact absurd hreads hn.not_splits
    | error e' =>
      rw [hr] at hreads
      obtain ⟨m, hm, rfl⟩ := hreads
      rw [he, hm.unique hn]

/-! ## Literals -/

/-- An array of bytes has the bytes of the list. -/
lemma toByteArray_eq_mk (bytes : List UInt8) : bytes.toByteArray = ⟨bytes.toArray⟩ :=
  ByteArray.ext List.data_toByteArray

/-- The bytes of a text are decoded to the text. -/
lemma decodeBytes_utf8 (s : String) : decodeBytes (utf8 s.toList) = .ok s := by
  have hsome : String.fromUTF8? s.toByteArray = some s := dif_pos s.isValidUTF8
  rw [decodeBytes, ← toByteArray_eq_mk, utf8_toList, hsome]

/-- Bytes are decoded to the text with these bytes. -/
lemma decodeBytes_eq_ok {bytes : List UInt8} {s : String} :
    decodeBytes bytes = .ok s ↔ utf8 s.toList = bytes := by
  constructor
  · intro h
    simp only [decodeBytes, String.fromUTF8?] at h
    split at h
    · next t ht =>
      split at ht
      · cases ht
        cases h
        rw [← List.toByteArray_inj, utf8_toList, toByteArray_eq_mk]
        rfl
      · cases ht
    · cases h
  · intro h
    rw [← h, decodeBytes_utf8]

/-- Bytes are not decoded exactly if they are those of no text. -/
lemma decodeBytes_eq_error {bytes : List UInt8} {e : LiteralError} :
    decodeBytes bytes = .error e ↔ e = .invalidUtf8 ∧ ∀ s : String, utf8 s.toList ≠ bytes := by
  constructor
  · intro h
    refine ⟨?_, fun s hs => ?_⟩
    · rw [decodeBytes] at h
      split at h
      · cases h
      · cases h
        rfl
    · rw [decodeBytes_eq_ok.2 hs] at h
      cases h
  · intro ⟨he, hnone⟩
    cases hr : decodeBytes bytes with
    | ok s => exact absurd (decodeBytes_eq_ok.1 hr) (hnone s)
    | error e' =>
      rw [decodeBytes] at hr
      split at hr
      · cases hr
      · cases hr
        rw [he]

/-- The quotes of a literal, as single bytes, leave the text between them. -/
lemma unquote_between {text : String} (first last : Char) {body : List Char}
    (hfirst : first.utf8Size = 1) (hlast : last.utf8Size = 1)
    (h : text.toList = first :: (body ++ [last])) : unquote text =
      match some first, some last with
      | some '\x60', some '\x60' => .ok (String.ofList (body.filter (· != '\r')))
      | some '"', some '"' => (escapedBytes 1 body).bind decodeBytes
      | _, _ => .error .notQuoted := by
  have hend : (first :: (body ++ [last])).getLast? = some last := by
    rw [← List.cons_append, List.getLast?_concat]
  have hsize : ¬ byteSize (first :: (body ++ [last])) < 2 := by
    rw [byteSize, byteSize_append, byteSize, byteSize]
    omega
  rw [unquote, h]
  dsimp only
  rw [if_neg hsize, hend, List.head?_cons, List.tail_cons, List.dropLast_concat]
  exact if_neg (by simp [hfirst, hlast])

/-- The characters of a text between two others. -/
lemma toList_between (first last body : String) :
    (first ++ body ++ last).toList = first.toList ++ (body.toList ++ last.toList) := by
  rw [String.toList_append, String.toList_append, List.append_assoc]

/-- An interpreted literal is read by its elements. -/
lemma unquote_interpreted (body : String) :
    unquote ("\"" ++ body ++ "\"") = (escapedBytes 1 body.toList).bind decodeBytes :=
  unquote_between '"' '"' (by decide) (by decide) (toList_between ..)

/-- A raw literal is read as it is, without carriage returns. -/
lemma unquote_backquoted (body : String) : unquote ("\x60" ++ body ++ "\x60") =
    .ok (String.ofList (body.toList.filter (· != '\r'))) :=
  unquote_between '\x60' '\x60' (by decide) (by decide) (toList_between ..)

/-- Elements are decoded to the text that they denote. -/
lemma decoded_eq_ok {offset : Nat} {cs : List Char} {s : String} :
    (escapedBytes offset cs).bind decodeBytes = .ok s ↔ Splits (utf8 cs) (utf8 s.toList) := by
  rw [← @escapedBytes_eq_ok offset]
  constructor
  · intro h
    cases hr : escapedBytes offset cs with
    | error e =>
      rw [hr] at h
      cases h
    | ok bytes =>
      rw [hr] at h
      rw [decodeBytes_eq_ok.1 h]
  · intro h
    rw [h]
    exact decodeBytes_utf8 s

/-- Elements are not decoded exactly if they break or denote no text. -/
lemma decoded_eq_error {offset : Nat} {cs : List Char} {e : LiteralError} :
    (escapedBytes offset cs).bind decodeBytes = .error e ↔
      (∃ n, BreaksAt (utf8 cs) n ∧ e = .badEscape (offset + n)) ∨
        e = .invalidUtf8 ∧ ∃ bytes, Splits (utf8 cs) bytes ∧ ∀ s : String, utf8 s.toList ≠ bytes := by
  rw [← escapedBytes_eq_error]
  constructor
  · intro h
    cases hr : escapedBytes offset cs with
    | error e' =>
      rw [hr] at h
      cases h
      exact .inl rfl
    | ok bytes =>
      rw [hr] at h
      obtain ⟨he, hnone⟩ := decodeBytes_eq_error.1 h
      exact .inr ⟨he, bytes, escapedBytes_eq_ok.1 hr, hnone⟩
  · rintro (h | ⟨he, bytes, hsplits, hnone⟩)
    · rw [h]
      rfl
    · rw [escapedBytes_eq_ok.2 hsplits]
      exact decodeBytes_eq_error.2 ⟨he, hnone⟩

/-- A string literal denotes what Go says. Between backquotes it is the text less its carriage
returns. Between double quotes it is the string with the bytes that the elements of the text
denote; it is an error when no string has these bytes, or when a backslash begins no element, and
then the error is at the first such backslash. No literal has any other outcome. -/
theorem unquote_denotes (body : String) :
    unquote ("\x60" ++ body ++ "\x60") = .ok (String.ofList (body.toList.filter (· != '\r'))) ∧
      (∀ s, unquote ("\"" ++ body ++ "\"") = .ok s ↔
        Splits (utf8 body.toList) (utf8 s.toList)) ∧
      (unquote ("\"" ++ body ++ "\"") = .error .invalidUtf8 ↔
        ∃ bytes, Splits (utf8 body.toList) bytes ∧ ∀ s : String, utf8 s.toList ≠ bytes) ∧
      (∀ n, unquote ("\"" ++ body ++ "\"") = .error (.badEscape n) ↔
        ∃ m, BreaksAt (utf8 body.toList) m ∧ n = m + 1) ∧
      unquote ("\"" ++ body ++ "\"") ≠ .error .notQuoted ∧
      unquote ("\"" ++ body ++ "\"") ≠ .error .splitCharacter := by
  refine ⟨unquote_backquoted body, ?_⟩
  rw [unquote_interpreted]
  refine ⟨fun s => decoded_eq_ok, ?invalid, fun n => ?bad, ?quoted, ?whole⟩
  case invalid => simp [decoded_eq_error]
  case bad => simp [decoded_eq_error, Nat.add_comm]
  case quoted => simp [decoded_eq_error]
  case whole => simp [decoded_eq_error]

end GoService.Source
