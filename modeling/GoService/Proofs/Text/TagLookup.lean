import GoService.Proofs.Source.LiteralValues
import GoService.Tag

/-!
# Lookup in struct tags

The lookup of a key in a tag as `reflect.StructTag` does it, byte by byte: `pairs` are the pairs of
a tag up to the first malformed one, and `lookup?` unquotes the value of the first pair with the
key. The reader of tags finds the same pairs (`pair?_cases`), but it stops at a pair whose value
cannot be unquoted. So it looks up among the pairs before such a value only (`get?_readPairs`), and
it agrees with the lookup unless one hides the key (`get?_ofText`).
-/

namespace GoService.Tags

open Source Text
open String (utf8EncodeChar)

/-! ## Lookup in bytes -/

/-- A byte of a key: above the space, and no colon, quote or delete. -/
def isKeyByte (b : UInt8) : Bool :=
  b > ' '.toUInt8 && b != ':'.toUInt8 && b != '"'.toUInt8 && b != '\x7f'.toUInt8

/-- The number of bytes up to and with the quote that closes a string; a backslash protects the
byte after it. -/
def closingQuote? : List UInt8 → Option Nat
  | [] => none
  | b :: bs =>
    if b = '"'.toUInt8 then some 1
    else if b = '\\'.toUInt8 then
      match bs with
      | [] => none
      | _ :: bs => (closingQuote? bs).map (· + 2)
    else (closingQuote? bs).map (· + 1)

/-- The first pair of a tag, a key and a value with its quotes, and the bytes after it. -/
def firstPair? (tag : List UInt8) : Option ((List UInt8 × List UInt8) × List UInt8) :=
  let tag := tag.dropWhile (· == ' '.toUInt8)
  let key := tag.takeWhile isKeyByte
  let rest := tag.dropWhile isKeyByte
  if key ≠ [] ∧ utf8 [':', '"'] <+: rest then
    (closingQuote? (rest.drop 2)).map fun n =>
      ((key, (rest.drop 1).take (n + 1)), rest.drop (n + 2))
  else none

/-- A pair takes bytes from the tag. -/
lemma length_lt_of_firstPair? {tag rest : List UInt8} {p : List UInt8 × List UInt8}
    (h : firstPair? tag = some (p, rest)) : rest.length < tag.length := by
  simp only [firstPair?] at h
  split at h
  · next hpre =>
    obtain ⟨n, -, h⟩ := Option.map_eq_some_iff.1 h
    cases h
    have hcolon : 2 ≤ _ := hpre.2.length_le
    have hkey := (List.dropWhile_suffix isKeyByte
      (l := tag.dropWhile (· == ' '.toUInt8))).length_le
    have hspace := (List.dropWhile_suffix (· == ' '.toUInt8) (l := tag)).length_le
    rw [List.length_drop]
    omega
  · cases h

/-- The pairs of a tag up to the first one that is malformed. -/
def pairs (tag : List UInt8) : List (List UInt8 × List UInt8) :=
  match _h : firstPair? tag with
  | none => []
  | some (p, rest) => p :: pairs rest
  termination_by tag.length
  decreasing_by exact length_lt_of_firstPair? _h

/-- The text that the bytes of a string literal stand for, if they are one. -/
def value? (quoted : List UInt8) : Option String :=
  ((decodeBytes quoted).bind unquote).toOption

/-- The value of the first pair with a key, unless it cannot be unquoted. -/
def lookup? (tag key : String) : Option String :=
  ((pairs (utf8 tag.toList)).find? (·.1 = utf8 key.toList)).bind fun p => value? p.2

/-- A pair whose value cannot be unquoted comes before every pair with the key. -/
def Hidden (tag key : String) : Prop :=
  ∃ p ∈ (pairs (utf8 tag.toList)).takeWhile (·.1 ≠ utf8 key.toList), value? p.2 = none

instance (tag key : String) : Decidable (Hidden tag key) :=
  inferInstanceAs (Decidable (∃ p ∈ _, _))

/-! ## Bytes and characters -/

/-- The bytes of a character are in a key exactly if the character is. -/
lemma isKeyByte_eq (c : Char) : ∀ b ∈ utf8EncodeChar c, isKeyByte b = isKeyChar c := by
  intro b hb
  have hspace : b > ' '.toUInt8 ↔ c > ' ' := toUInt8_lt_iff (by decide) hb
  have hcolon := mem_utf8EncodeChar (k := ':') (by decide) hb
  have hquote := mem_utf8EncodeChar (k := '"') (by decide) hb
  have hdelete := mem_utf8EncodeChar (k := '\x7f') (by decide) hb
  rw [Bool.eq_iff_iff]
  simp [isKeyByte, isKeyChar, hspace, hcolon, hquote, hdelete]

/-- The bytes of a character are blanks exactly if the character is. -/
lemma isSpaceByte_eq (c : Char) :
    ∀ b ∈ utf8EncodeChar c, (b == ' '.toUInt8) = (c == ' ') := by
  intro b hb
  rw [Bool.eq_iff_iff, beq_iff_eq, beq_iff_eq]
  exact mem_utf8EncodeChar (by decide) hb

section

variable {b : UInt8} {bs : List UInt8}

/-- A quote closes the string. -/
lemma closingQuote?_quote : closingQuote? ('"'.toUInt8 :: bs) = some 1 := by
  cases bs <;> rfl

/-- A byte behind a backslash does not close the string. -/
lemma closingQuote?_backslash :
    closingQuote? ('\\'.toUInt8 :: b :: bs) = (closingQuote? bs).map (· + 2) :=
  rfl

/-- Any other byte does not close the string. -/
lemma closingQuote?_other (hquote : b ≠ '"'.toUInt8) (hback : b ≠ '\\'.toUInt8) :
    closingQuote? (b :: bs) = (closingQuote? bs).map (· + 1) := by
  cases bs <;> simp [closingQuote?, hquote, hback]

/-- Bytes that are neither quote nor backslash are passed over. -/
lemma closingQuote?_append (h : ∀ b ∈ bs, b ≠ '"'.toUInt8 ∧ b ≠ '\\'.toUInt8)
    (rest : List UInt8) :
    closingQuote? (bs ++ rest) = (closingQuote? rest).map (· + bs.length) := by
  induction bs with
  | nil => simp
  | cons b bs ih =>
    obtain ⟨⟨hquote, hback⟩, hbs⟩ := List.forall_mem_cons.1 h
    rw [List.cons_append, closingQuote?_other hquote hback, ih hbs, Option.map_map,
      List.length_cons]
    rfl

end

/-- The closing quote is found in the bytes where it is found in the characters. -/
lemma closingQuote?_utf8 (cs : List Char) :
    closingQuote? (utf8 cs) = (quoteEnd? cs).map fun n => byteSize (cs.take n) := by
  induction cs using quoteEnd?.induct with
  | case1 => rfl
  | case2 cs =>
    rw [utf8_cons_of_single (by decide), closingQuote?_quote]
    rfl
  | case3 => rfl
  | case4 c cs ih =>
    obtain ⟨b, bs, hbytes, hsize, hplain⟩ := exists_utf8EncodeChar_eq_cons c
    -- a backslash protects one byte, and the other bytes of the character are no quotes
    have hrest : ∀ b ∈ bs, b ≠ '"'.toUInt8 ∧ b ≠ '\\'.toUInt8 := by
      intro b' hb'
      exact ⟨hplain '"' (by decide) b' hb', hplain '\\' (by decide) b' hb'⟩
    have hback : ('\\').utf8Size = 1 := by decide
    rw [utf8_cons_of_single hback, utf8_cons, hbytes, List.cons_append, closingQuote?_backslash,
      closingQuote?_append hrest, ih, quoteEnd?]
    simp only [Option.map_map]
    congr 1
    funext n
    simp only [Function.comp_apply, List.take_succ_cons, byteSize, hsize]
    omega
  | case5 c cs hquote hlast hback ih =>
    have hne : c ≠ '\\' := by
      intro hc
      cases cs with
      | nil => exact hlast hc rfl
      | cons c' cs => exact hback c' cs hc rfl
    have hplain : ∀ b ∈ utf8EncodeChar c, b ≠ '"'.toUInt8 ∧ b ≠ '\\'.toUInt8 := by
      intro b hb
      exact ⟨fun h => hquote ((mem_utf8EncodeChar (by decide) hb).1 h),
        fun h => hne ((mem_utf8EncodeChar (by decide) hb).1 h)⟩
    rw [utf8_cons, closingQuote?_append hplain, ih, String.length_utf8EncodeChar,
      quoteEnd?.eq_5 c cs hquote hlast hback, Option.map_map, Option.map_map]
    congr 1
    funext n
    rw [Function.comp_apply, Function.comp_apply, List.take_succ_cons, byteSize, Nat.add_comm]

/-- A key with a colon and a quote behind it is a pair if the string can be read. -/
lemma pair?_of_isPrefix {cs r : List Char} (hkey : cs.takeWhile isKeyChar ≠ [])
    (hrest : cs.dropWhile isKeyChar = ':' :: '"' :: r) :
    pair? cs = (quoteEnd? r).bind fun n =>
      (unquote (String.ofList ('"' :: r.take n))).toOption.map fun value =>
        ((String.ofList (cs.takeWhile isKeyChar), splitString ',' value), r.drop n) := by
  have hempty : (cs.takeWhile isKeyChar).isEmpty = false := by simpa using hkey
  simp only [pair?, hrest, hempty, Bool.false_eq_true, if_false, Option.bind_eq_bind,
    Option.pure_def, Option.map_eq_bind]
  rfl

/-- Without a key, a colon and a quote there is no pair. -/
lemma pair?_of_not_isPrefix {cs : List Char}
    (h : ¬ (cs.takeWhile isKeyChar ≠ [] ∧ [':', '"'] <+: cs.dropWhile isKeyChar)) :
    pair? cs = none := by
  rw [pair?]
  split
  · next r hrest =>
    rw [hrest] at h
    have hempty : (cs.takeWhile isKeyChar).isEmpty = true := by
      simpa using fun hkey => h ⟨hkey, List.prefix_append [':', '"'] r⟩
    rw [if_pos hempty]
    rfl
  · rfl

/-- The first pair in the bytes of a text is the first pair in its characters, if its value can be
unquoted. -/
lemma pair?_cases (cs : List Char) :
    (firstPair? (utf8 cs) = none ∧ pair? (cs.dropWhile (· == ' ')) = none) ∨
      ∃ key quoted rest, firstPair? (utf8 cs) = some ((utf8 key, utf8 quoted), utf8 rest) ∧
        rest.length < cs.length ∧
        pair? (cs.dropWhile (· == ' ')) = (unquote (String.ofList quoted)).toOption.map
          fun value => ((String.ofList key, splitString ',' value), rest) := by
  have hspace := (List.dropWhile_suffix (· == ' ') (l := cs)).length_le
  rw [firstPair?, dropWhile_utf8 isSpaceByte_eq]
  generalize cs.dropWhile (· == ' ') = cs at hspace ⊢
  -- bytes and characters have the key, the mark after it and the closing quote at the same places
  rw [takeWhile_utf8 isKeyByte_eq, dropWhile_utf8 isKeyByte_eq]
  have hshape : (utf8 (cs.takeWhile isKeyChar) ≠ [] ∧
      utf8 [':', '"'] <+: utf8 (cs.dropWhile isKeyChar)) ↔
      (cs.takeWhile isKeyChar ≠ [] ∧ [':', '"'] <+: cs.dropWhile isKeyChar) := by
    rw [ne_eq, utf8_eq_nil, isPrefix_utf8_iff]
  by_cases h : cs.takeWhile isKeyChar ≠ [] ∧ [':', '"'] <+: cs.dropWhile isKeyChar
  · obtain ⟨r, hr⟩ := h.2
    have hrest : cs.dropWhile isKeyChar = ':' :: '"' :: r := hr.symm
    have hbytes : utf8 (':' :: '"' :: r) = ':'.toUInt8 :: '"'.toUInt8 :: utf8 r := by
      rw [utf8_cons_of_single (by decide), utf8_cons_of_single (by decide)]
    rw [if_pos (hshape.2 h), pair?_of_isPrefix h.1 hrest, hrest, hbytes]
    simp only [List.drop_succ_cons, List.drop_zero, closingQuote?_utf8, Option.map_map]
    cases hend : quoteEnd? r with
    | none => exact .inl ⟨rfl, rfl⟩
    | some n =>
      refine .inr ⟨cs.takeWhile isKeyChar, '"' :: r.take n, r.drop n, ?_, ?_, rfl⟩
      · rw [utf8_cons_of_single (by decide), ← take_utf8, ← drop_utf8]
        rfl
      · have hkey := (List.dropWhile_suffix isKeyChar (l := cs)).length_le
        rw [hrest, List.length_cons, List.length_cons] at hkey
        rw [List.length_drop]
        omega
  · rw [if_neg (mt hshape.1 h)]
    exact .inl ⟨rfl, pair?_of_not_isPrefix h⟩

/-! ## Reading and lookup -/

/-- Whether the value of a pair can be unquoted. -/
def isReadable (p : List UInt8 × List UInt8) : Bool :=
  (value? p.2).isSome

/-- The parts at a key in the first of some pairs that has it. -/
def partsAt? (ps : List (List UInt8 × List UInt8)) (key : String) : Option (List String) :=
  ((ps.find? (·.1 = utf8 key.toList)).bind fun p => value? p.2).map (splitString ',')

/-- A value is what its literal denotes. -/
lemma value?_utf8 (quoted : List Char) :
    value? (utf8 quoted) = (unquote (String.ofList quoted)).toOption := by
  have h := decodeBytes_utf8 (String.ofList quoted)
  rw [String.toList_ofList] at h
  rw [value?, h]
  rfl

/-- A pair with the key settles what is found; any other is passed over. -/
lemma partsAt?_cons (p : List UInt8 × List UInt8) (ps : List (List UInt8 × List UInt8))
    (key : String) : partsAt? (p :: ps) key =
      if p.1 = utf8 key.toList then (value? p.2).map (splitString ',') else partsAt? ps key := by
  by_cases h : p.1 = utf8 key.toList <;> simp [partsAt?, h]

/-- A value that is only written at a new key. -/
lemma get?_insert_new (d : Tags) (key k : String) (value : List String) :
    (if d.contains key then d else d.insert key value).get? k =
      (d.get? k).or (if k = key then some value else none) := by
  cases hd : d.get? key with
  | some old =>
    rw [Dict.contains, hd, if_pos Option.isSome_some]
    split
    · next hk => rw [hk, hd, Option.some_or]
    · rw [Option.or_none]
  | none =>
    rw [Dict.contains, hd, if_neg (by simp), Dict.get?_insert]
    split
    · next hk => rw [hk, hd, Option.none_or]
    · rw [Option.or_none]

/-- Without a first pair there are no pairs. -/
lemma pairs_of_none {tag : List UInt8} (h : firstPair? tag = none) : pairs tag = [] := by
  rw [pairs]
  split
  · rfl
  · next hsome => rw [h] at hsome; cases hsome

/-- A first pair comes before the pairs of the rest. -/
lemma pairs_of_some {tag rest : List UInt8} {p : List UInt8 × List UInt8}
    (h : firstPair? tag = some (p, rest)) : pairs tag = p :: pairs rest := by
  rw [pairs]
  split
  · next hnone => rw [h] at hnone; cases hnone
  · next hsome =>
    rw [h] at hsome
    cases hsome
    rfl

/-- A tag is read as far as the values can be unquoted. -/
lemma get?_readPairs (found : Tags) (key : String) {fuel : Nat} {cs : List Char}
    (hfuel : cs.length ≤ fuel) : (readPairs found fuel cs).get? key =
      (found.get? key).or (partsAt? ((pairs (utf8 cs)).takeWhile isReadable) key) := by
  induction fuel generalizing found cs with
  | zero =>
    obtain rfl := List.length_eq_zero_iff.1 (Nat.le_zero.1 hfuel)
    rw [utf8_nil, pairs_of_none (by decide), List.takeWhile_nil]
    exact (Option.or_none ..).symm
  | succ fuel ih =>
    rw [readPairs]
    rcases pair?_cases cs with ⟨hnone, hpair⟩ | ⟨key', quoted, rest, hsome, hlt, hpair⟩
    · rw [hpair, pairs_of_none hnone, List.takeWhile_nil]
      exact (Option.or_none ..).symm
    · rw [hpair, pairs_of_some hsome]
      have hvalue := value?_utf8 quoted
      cases hread : (unquote (String.ofList quoted)).toOption with
      | none =>
        -- the reader stops here, whatever pairs come after
        rw [hread] at hvalue
        rw [List.takeWhile_cons_of_neg (by simp [isReadable, hvalue])]
        exact (Option.or_none ..).symm
      | some value =>
        rw [hread] at hvalue
        have hkey : utf8 key' = utf8 key.toList ↔ key = String.ofList key' := by
          constructor
          · intro h
            rw [utf8_injective h, String.ofList_toList]
          · intro h
            rw [h, String.toList_ofList]
        rw [List.takeWhile_cons_of_pos (by simp [isReadable, hvalue]), partsAt?_cons]
        simp only [Option.map_some, hvalue, hkey]
        rw [ih _ (by omega), get?_insert_new, Option.or_assoc]
        split
        · rfl
        · rfl

section

variable {ps : List (List UInt8 × List UInt8)} {key : String}

/-- A key behind a pair that cannot be read is not found. -/
lemma partsAt?_of_hidden
    (h : ∃ p ∈ ps.takeWhile (·.1 ≠ utf8 key.toList), value? p.2 = none) :
    partsAt? (ps.takeWhile isReadable) key = none := by
  induction ps with
  | nil => rfl
  | cons p ps ih =>
    obtain ⟨q, hq, hnone⟩ := h
    by_cases hkey : p.1 = utf8 key.toList
    · rw [List.takeWhile_cons_of_neg (by simpa using hkey)] at hq
      cases hq
    · rw [List.takeWhile_cons_of_pos (by simpa using hkey)] at hq
      cases hp : isReadable p with
      | false => rw [List.takeWhile_cons_of_neg (by simp [hp])]; rfl
      | true =>
        rw [List.takeWhile_cons_of_pos hp, partsAt?_cons, if_neg hkey]
        rcases List.mem_cons.1 hq with rfl | hq
        · rw [isReadable, hnone] at hp
          cases hp
        · exact ih ⟨q, hq, hnone⟩

/-- A key that no such pair hides is found as in all pairs. -/
lemma partsAt?_of_not_hidden
    (h : ¬ ∃ p ∈ ps.takeWhile (·.1 ≠ utf8 key.toList), value? p.2 = none) :
    partsAt? (ps.takeWhile isReadable) key = partsAt? ps key := by
  induction ps with
  | nil => rfl
  | cons p ps ih =>
    rw [partsAt?_cons]
    cases hp : isReadable p with
    | true =>
      rw [List.takeWhile_cons_of_pos hp, partsAt?_cons]
      refine if_ctx_congr Iff.rfl (fun _ => rfl) fun hkey => ih fun hhidden => h ?_
      obtain ⟨q, hq, hnone⟩ := hhidden
      rw [List.takeWhile_cons_of_pos (by simpa using hkey)]
      exact ⟨q, List.mem_cons_of_mem p hq, hnone⟩
    | false =>
      -- nothing is hidden, so this is the pair with the key itself
      have hvalue : value? p.2 = none := by simpa [isReadable] using hp
      rw [List.takeWhile_cons_of_neg (by simp [hp])]
      split
      · rw [hvalue]
        rfl
      · next hkey =>
        rw [List.takeWhile_cons_of_pos (by simpa using hkey)] at h
        exact absurd ⟨p, List.mem_cons_self, hvalue⟩ h

end

/-- What is found under a key is found among the pairs before the first that cannot be read. -/
lemma get?_ofText_eq (tag key : String) : (ofText tag).get? key =
    partsAt? ((pairs (utf8 tag.toList)).takeWhile isReadable) key := by
  rw [ofText, get?_readPairs .empty key (Nat.le_of_eq String.length_toList)]
  rfl

/-- The parts at a key are those of the value that the lookup finds, unless a pair before hides it:
then there are none. So reading and lookup agree exactly if nothing is hidden that is there. -/
theorem get?_ofText (tag key : String) :
    (ofText tag).get? key =
        (if Hidden tag key then none else (lookup? tag key).map (splitString ',')) ∧
      ((ofText tag).get? key = (lookup? tag key).map (splitString ',') ↔
        ¬ (Hidden tag key ∧ (lookup? tag key).isSome)) := by
  have hread : (ofText tag).get? key =
      if Hidden tag key then none else (lookup? tag key).map (splitString ',') := by
    rw [get?_ofText_eq]
    split
    · next h => exact partsAt?_of_hidden h
    · next h => exact partsAt?_of_not_hidden h
  refine ⟨hread, ?_⟩
  rw [hread]
  split
  · next h =>
    rw [eq_comm, Option.map_eq_none_iff, Option.isSome_iff_ne_none, not_and_not_right]
    exact ⟨fun hnone _ => hnone, fun hnone => hnone h⟩
  · next h => exact iff_of_true rfl fun hhidden => h hhidden.1

namespace BadEscape

/-- The value at `match` has an escape that is none; a lone dash stands at `json`. -/
def tag : String := "match:\"\\d+\" json:\"-\""

/-- The lookup finds the dash, but the reader of tags stops before it. -/
theorem dash_not_read : lookup? tag "json" = some "-" ∧ (ofText tag).get? "json" = none ∧
    (ofText tag).isJsonSkipped = false := by
  have hread : (ofText tag).get? "json" = none := by decide +kernel
  refine ⟨by decide +kernel, hread, ?_⟩
  rw [isJsonSkipped, hread]
  rfl

end BadEscape

end GoService.Tags
