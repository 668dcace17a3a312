import GoService.Source.StringLiteral
import Mathlib.Data.List.Basic
import Mathlib.Data.List.Induction
import Mathlib.Tactic.Common

/-!
# Escapes

What follows a backslash in a string literal, as a grammar: a mark, or digits of a base after a
letter, with the bytes that they denote. The reader agrees with the grammar: what it takes for an
escape is one (`escape_of_escape?`), and it reads every escape, whatever comes after it
(`escape?_of_escape`). So no escape begins another one (`escape_unique`).
-/

namespace GoService.Source

open String (utf8EncodeChar)

/-! ## The grammar -/

/-- A digit of a base up to sixteen and its value; a letter may be small or capital. -/
def Digit (base : Nat) (c : Char) (v : Nat) : Prop :=
  v < base ∧
    ("0123456789abcdef".toList[v]? = some c ∨ "0123456789ABCDEF".toList[v]? = some c)

instance (base : Nat) (c : Char) (v : Nat) : Decidable (Digit base c v) :=
  inferInstanceAs (Decidable (_ ∧ _))

/-- The number that digits denote in a base, the most significant first. -/
inductive Denotes (base : Nat) : List Char → Nat → Prop
  | nil : Denotes base [] 0
  | snoc {ds : List Char} {c : Char} {n v : Nat} (h : Denotes base ds n) (hd : Digit base c v) :
      Denotes base (ds ++ [c]) (n * base + v)

/-- The marks that stand for one byte after a backslash. -/
def marks : List (Char × UInt8) :=
  [('a', 0x07), ('b', 0x08), ('f', 0x0c), ('n', 0x0a), ('r', 0x0d), ('t', 0x09), ('v', 0x0b),
    ('\\', 0x5c), ('"', 0x22)]

/-- The text of an escape without its backslash, and the bytes that it denotes. -/
inductive Escape : List Char → List UInt8 → Prop
  | mark {c : Char} {b : UInt8} (h : (c, b) ∈ marks) : Escape [c] [b]
  | hex {ds : List Char} {n : Nat} (hds : ds.length = 2) (h : Denotes 16 ds n) :
      Escape ('x' :: ds) [n.toUInt8]
  | octal {ds : List Char} {n : Nat} (hds : ds.length = 3) (h : Denotes 8 ds n) (hn : n ≤ 255) :
      Escape ds [n.toUInt8]
  | short {ds : List Char} {c : Char} (hds : ds.length = 4) (h : Denotes 16 ds c.toNat) :
      Escape ('u' :: ds) (utf8EncodeChar c)
  | long {ds : List Char} {c : Char} (hds : ds.length = 8) (h : Denotes 16 ds c.toNat) :
      Escape ('U' :: ds) (utf8EncodeChar c)

/-! ## Digits -/

/-- If the characters of a range are digits with values in a row, so is each of them. -/
lemma digit_of_range {base : Nat} {first last c : Char} (start : Nat)
    (hall : ∀ i ≤ last.toNat - first.toNat,
      Digit base (Char.ofNat (first.toNat + i)) (i + start))
    (hfirst : first.toNat ≤ c.toNat) (hlast : c.toNat ≤ last.toNat) :
    Digit base c (c.toNat - first.toNat + start) := by
  have h := hall _ (Nat.sub_le_sub_right hlast _)
  rwa [Nat.add_sub_cancel' hfirst, Char.ofNat_toNat] at h

/-- A digit is read as its value if each of the listed digits is. -/
lemma eq_some_of_digit {base : Nat} {digit? : Char → Option Nat} {c : Char} {v : Nat}
    (hall : ∀ v < base, ("0123456789abcdef".toList[v]?).bind digit? = some v ∧
      ("0123456789ABCDEF".toList[v]?).bind digit? = some v)
    (h : Digit base c v) : digit? c = some v := by
  obtain ⟨hv, h⟩ := h
  obtain ⟨hsmall, hcapital⟩ := hall v hv
  rcases h with h | h
  · rwa [h] at hsmall
  · rwa [h] at hcapital

/-- The hexadecimal digits are read as their values. -/
lemma hexDigit?_eq_some {c : Char} {v : Nat} : hexDigit? c = some v ↔ Digit 16 c v := by
  constructor
  · intro h
    simp only [hexDigit?] at h
    split at h
    · next hc =>
      obtain ⟨hfirst, hlast⟩ := Char.isDigit_iff_toNat.1 hc
      obtain rfl := Option.some.inj h
      exact digit_of_range 0 (by decide) hfirst hlast
    · split at h
      · next hc =>
        obtain rfl := Option.some.inj h
        exact digit_of_range 10 (by decide) hc.1 hc.2
      · split at h
        · next hc =>
          obtain rfl := Option.some.inj h
          exact digit_of_range 10 (by decide) hc.1 hc.2
        · cases h
  · exact eq_some_of_digit (by decide)

/-- The octal digits are read as their values. -/
lemma octalDigit?_eq_some {c : Char} {v : Nat} : octalDigit? c = some v ↔ Digit 8 c v := by
  constructor
  · intro h
    simp only [octalDigit?] at h
    split at h
    · next hc =>
      obtain rfl := Option.some.inj h
      exact digit_of_range 0 (by decide) hc.1 hc.2
    · cases h
  · exact eq_some_of_digit (by decide)

/-- A digit takes one byte. -/
lemma utf8Size_of_digit {base : Nat} {c : Char} {v : Nat} (h : Digit base c v) :
    c.utf8Size = 1 := by
  have hall : ("0123456789abcdef".toList ++ "0123456789ABCDEF".toList).all
      (·.utf8Size == 1) := by decide
  have hmem : c ∈ "0123456789abcdef".toList ++ "0123456789ABCDEF".toList := by
    rcases h.2 with h | h
    · exact List.mem_append_left _ (List.mem_of_getElem? h)
    · exact List.mem_append_right _ (List.mem_of_getElem? h)
  exact eq_of_beq (List.all_eq_true.1 hall c hmem)

section

variable {base : Nat} {digit? : Char → Option Nat}

/-- Another digit raises the value of those before it. -/
lemma digitsValue?_concat (ds : List Char) (c : Char) :
    digitsValue? base digit? (ds ++ [c]) =
      (digitsValue? base digit? ds).bind fun n => (digit? c).map fun v => n * base + v := by
  rw [digitsValue?, List.foldl_append]
  show Option.bind _ _ = Option.bind _ _
  congr 1
  funext n
  cases digit? c <;> rfl

/-- Digits are read as the number that they denote. -/
lemma digitsValue?_eq_some (h : ∀ c v, digit? c = some v ↔ Digit base c v) {ds : List Char}
    {n : Nat} : digitsValue? base digit? ds = some n ↔ Denotes base ds n := by
  constructor
  · intro hds
    induction ds using List.reverseRecOn generalizing n with
    | nil =>
      obtain rfl := Option.some.inj hds
      exact .nil
    | append_singleton ds c ih =>
      rw [digitsValue?_concat] at hds
      obtain ⟨m, hm, hds⟩ := Option.bind_eq_some_iff.1 hds
      obtain ⟨v, hv, rfl⟩ := Option.map_eq_some_iff.1 hds
      exact .snoc (ih hm) ((h c v).1 hv)
  · intro hds
    induction hds with
    | nil => rfl
    | @snoc ds c n v _ hd ih => rw [digitsValue?_concat, ih, (h c v).2 hd]; rfl

end

/-- The digits at the front are read as the number that they denote, if there are enough of them. -/
lemma hexPrefix?_eq_some {k n : Nat} {cs : List Char} :
    hexPrefix? k cs = some n ↔ k ≤ cs.length ∧ Denotes 16 (cs.take k) n := by
  rw [hexPrefix?]
  split
  · next h => simp [Nat.not_le.2 h]
  · next h =>
    rw [digitsValue?_eq_some fun _ _ => hexDigit?_eq_some]
    exact (and_iff_right (Nat.not_lt.1 h)).symm

/-- Digits take one byte each. -/
lemma utf8Size_of_denotes {base : Nat} {ds : List Char} {n : Nat} (h : Denotes base ds n) :
    ∀ c ∈ ds, c.utf8Size = 1 := by
  induction h with
  | nil => simp
  | snoc _ hd ih =>
    intro c hc
    rcases List.mem_append.1 hc with hc | hc
    · exact ih c hc
    · obtain rfl := List.mem_singleton.1 hc
      exact utf8Size_of_digit hd

/-! ## Escapes -/

/-- The escapes of one character are those in the list. -/
lemma simpleEscape?_eq_some {c : Char} {b : UInt8} :
    simpleEscape? c = some b ↔ (c, b) ∈ marks := by
  constructor
  · intro h
    revert h
    fun_cases simpleEscape? c <;> simp_all [marks]
  · have hall : ∀ e ∈ marks, simpleEscape? e.1 = some e.2 := by decide
    exact hall (c, b)

/-- A number has the bytes of the character with this number. -/
lemma scalarBytes?_eq_some {n : Nat} {bytes : List UInt8} :
    scalarBytes? n = some bytes ↔ ∃ c : Char, c.toNat = n ∧ utf8EncodeChar c = bytes := by
  rw [scalarBytes?, Option.dite_none_right_eq_some]
  constructor
  · rintro ⟨hn, h⟩
    exact ⟨Char.ofNatAux n hn, rfl, Option.some.inj h⟩
  · rintro ⟨c, rfl, rfl⟩
    exact ⟨c.valid, rfl⟩

/-- The digits of an escape by number are the characters after its letter. -/
lemma prefix_take {c : Char} {cs : List Char} {k : Nat} (h : k ≤ cs.length) :
    c :: cs.take k <+: c :: cs ∧ (c :: cs.take k).length = k + 1 := by
  refine ⟨List.cons_prefix_cons.2 ⟨rfl, List.take_prefix ..⟩, ?_⟩
  rw [List.length_cons, List.length_take_of_le h]

/-- An escape by the number of a character, with a fixed count of digits after its letter. -/
lemma exists_of_scalar {c : Char} {k n : Nat} {cs : List Char} {bytes : List UInt8}
    (hescape : ∀ (ds : List Char) (d : Char), ds.length = k → Denotes 16 ds d.toNat →
      Escape (c :: ds) (utf8EncodeChar d))
    (h : ((hexPrefix? k cs).bind fun v => (scalarBytes? v).bind fun b => some (b, k + 1)) =
      some (bytes, n)) :
    ∃ text, text <+: c :: cs ∧ text.length = n ∧ Escape text bytes := by
  obtain ⟨v, hv, h⟩ := Option.bind_eq_some_iff.1 h
  obtain ⟨b, hb, h⟩ := Option.bind_eq_some_iff.1 h
  cases h
  obtain ⟨hlen, hds⟩ := hexPrefix?_eq_some.1 hv
  obtain ⟨d, rfl, rfl⟩ := scalarBytes?_eq_some.1 hb
  exact ⟨_, (prefix_take hlen).1, (prefix_take hlen).2,
    hescape _ d (List.length_take_of_le hlen) hds⟩

/-- Three octal digits that are read as a byte are an escape. -/
lemma exists_of_octal {c : Char} {n : Nat} {cs : List Char} {bytes : List UInt8}
    (hlen : 2 ≤ cs.length)
    (h : ((digitsValue? 8 octalDigit? (c :: cs.take 2)).bind fun v =>
      if v ≤ 255 then some ([v.toUInt8], 3) else none) = some (bytes, n)) :
    ∃ text, text <+: c :: cs ∧ text.length = n ∧ Escape text bytes := by
  obtain ⟨v, hv, h⟩ := Option.bind_eq_some_iff.1 h
  have hds := (digitsValue?_eq_some fun _ _ => octalDigit?_eq_some).1 hv
  obtain ⟨hle, h⟩ := Option.ite_none_right_eq_some.1 h
  cases h
  exact ⟨_, (prefix_take hlen).1, (prefix_take hlen).2, .octal (prefix_take hlen).2 hds hle⟩

/-- What is read as an escape is one. -/
lemma escape_of_escape? {cs : List Char} {bytes : List UInt8} {n : Nat}
    (h : escape? cs = some (bytes, n)) :
    ∃ text, text <+: cs ∧ text.length = n ∧ Escape text bytes := by
  cases cs with
  | nil => cases h
  | cons c cs =>
    simp only [escape?, Option.bind_eq_bind, Option.pure_def] at h
    -- one case for each kind of escape, in the order in which they are tried
    split at h
    · next b hb =>
      cases h
      exact ⟨[c], (prefix_take (Nat.zero_le _)).1, rfl, .mark (simpleEscape?_eq_some.1 hb)⟩
    split at h
    · next hc =>
      subst hc
      obtain ⟨v, hv, h⟩ := Option.bind_eq_some_iff.1 h
      obtain ⟨hlen, hds⟩ := hexPrefix?_eq_some.1 hv
      cases h
      exact ⟨_, (prefix_take hlen).1, (prefix_take hlen).2,
        .hex (List.length_take_of_le hlen) hds⟩
    split at h
    · next hc => exact exists_of_scalar (fun _ _ hds h => hc ▸ .short hds h) h
    split at h
    · next hc => exact exists_of_scalar (fun _ _ hds h => hc ▸ .long hds h) h
    split at h
    · cases h
    · next hlen => exact exists_of_octal (Nat.not_lt.1 hlen) h

/-- No digit of an octal escape is a mark or a letter of another escape. -/
lemma ne_of_octal {c : Char} {v : Nat} (h : Digit 8 c v) :
    simpleEscape? c = none ∧ c ≠ 'x' ∧ c ≠ 'u' ∧ c ≠ 'U' := by
  have hrange : '0' ≤ c ∧ c ≤ '7' := by
    have hdigit := octalDigit?_eq_some.2 h
    rw [octalDigit?] at hdigit
    split at hdigit
    · next hrange => exact hrange
    · cases hdigit
  have hmarks : ∀ e ∈ marks, ¬ ('0' ≤ e.1 ∧ e.1 ≤ '7') := by decide
  refine ⟨?_, ?_, ?_, ?_⟩
  · cases hb : simpleEscape? c with
    | none => rfl
    | some b => exact absurd hrange (hmarks (c, b) (simpleEscape?_eq_some.1 hb))
  · rintro rfl
    exact absurd hrange (by decide)
  · rintro rfl
    exact absurd hrange (by decide)
  · rintro rfl
    exact absurd hrange (by decide)

/-- The digits of an octal escape begin with one. -/
lemma exists_of_denotes_cons {base n : Nat} {c : Char} {ds : List Char}
    (h : Denotes base (c :: ds) n) : ∃ v, Digit base c v := by
  have hall : ∀ {ds : List Char} {n : Nat}, Denotes base ds n → ∀ d ∈ ds, ∃ v, Digit base d v := by
    intro ds n h
    induction h with
    | nil => simp
    | @snoc ds c n v _ hd ih =>
      intro d hd'
      rcases List.mem_append.1 hd' with hmem | hmem
      · exact ih d hmem
      · obtain rfl := List.mem_singleton.1 hmem
        exact ⟨v, hd⟩
  exact hall h c List.mem_cons_self

/-- Digits at the front that denote a number are read as this number. -/
lemma hexPrefix?_of_denotes {ds : List Char} {n : Nat} (h : Denotes 16 ds n)
    (rest : List Char) : hexPrefix? ds.length (ds ++ rest) = some n :=
  hexPrefix?_eq_some.2 ⟨by simp, by rwa [List.take_left]⟩

/-- Every escape is read. -/
lemma escape?_of_escape {text : List Char} {bytes : List UInt8} (h : Escape text bytes)
    (rest : List Char) : escape? (text ++ rest) = some (bytes, text.length) := by
  cases h with
  | mark h =>
    rw [List.singleton_append, escape?, simpleEscape?_eq_some.2 h]
    rfl
  | hex hds h =>
    have hv := hexPrefix?_of_denotes h rest
    rw [hds] at hv
    simp [escape?, simpleEscape?, hv, hds]
  | octal hds h hn =>
    obtain ⟨a, b, c, rfl⟩ := List.length_eq_three.1 hds
    -- the first digit leads past all other kinds of escapes
    obtain ⟨v, hv⟩ := exists_of_denotes_cons h
    obtain ⟨hmark, hx, hu, hU⟩ := ne_of_octal hv
    have hvalue := (digitsValue?_eq_some fun _ _ => octalDigit?_eq_some).2 h
    simp [escape?, hmark, hx, hu, hU, hvalue, hn]
  | @short ds c hds h =>
    have hv := hexPrefix?_of_denotes h rest
    rw [hds] at hv
    simp [escape?, simpleEscape?, hv, hds, scalarBytes?_eq_some.2 ⟨c, rfl, rfl⟩]
  | @long ds c hds h =>
    have hv := hexPrefix?_of_denotes h rest
    rw [hds] at hv
    simp [escape?, simpleEscape?, hv, hds, scalarBytes?_eq_some.2 ⟨c, rfl, rfl⟩]

/-- An escape is written in single bytes. -/
lemma utf8Size_of_escape {text : List Char} {bytes : List UInt8} (h : Escape text bytes) :
    ∀ c ∈ text, c.utf8Size = 1 := by
  cases h with
  | mark h =>
    have hall : ∀ e ∈ marks, e.1.utf8Size = 1 := by decide
    simpa using hall _ h
  | octal _ h _ => exact utf8Size_of_denotes h
  | hex _ h | short _ h | long _ h =>
    exact List.forall_mem_cons.2 ⟨by decide, utf8Size_of_denotes h⟩

/-- No escape begins another one. -/
lemma escape_unique {text text' : List Char} {bytes bytes' : List UInt8} (h : Escape text bytes)
    (h' : Escape text' bytes') (hpre : text <+: text') : text = text' ∧ bytes = bytes' := by
  obtain ⟨rest, rfl⟩ := hpre
  have hread := escape?_of_escape h' []
  rw [List.append_nil, escape?_of_escape h rest] at hread
  obtain ⟨hbytes, hlen⟩ := Prod.mk.inj (Option.some.inj hread)
  rw [List.length_append, Nat.left_eq_add, List.length_eq_zero_iff] at hlen
  exact ⟨by rw [hlen, List.append_nil], hbytes⟩

end GoService.Source
