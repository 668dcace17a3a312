import GoService.Proofs.Source.Lexemes
import Mathlib.Data.List.Basic

/-!
# Tokens as text

A token is legible if its spelling, with white space after it, is read as that token. This holds of
all keywords and marks and of all words that are no keywords, and it is what makes the text of a
literal one. Lines of legible tokens with blanks between them are read as these tokens, with a
semicolon after each line whose last token ends a statement (`lex_lines`).
-/

namespace GoService.Source

/-- How a token is written; what is no token is not. -/
def Token.spelling : Token → List Char
  | .ident w => w.text.toList
  | .number s | .runeLit s | .stringLit s | .rawStringLit s => s.toList
  | .keyword k => k.spelling.toList
  | .mark m => m.spelling
  | .error => []

/-- White space inside a line or at its end. -/
def isWhite (c : Char) : Bool :=
  isGap c || isLineBreak c

/-- The spelling of the token is read as the token where white space comes after it. -/
def Token.Legible (t : Token) : Prop :=
  ∃ c cs lexeme, t.spelling = c :: cs ∧ lexeme.token? (String.ofList t.spelling) = some t ∧
    ∀ d after, isWhite d → munch c (cs ++ d :: after) = (lexeme, cs.length)

/-- Tokens on a line, with a blank between each and the next. -/
def spell (ts : List Token) : List Char :=
  [' '].intercalate (ts.map Token.spelling)

/-- The tokens of a line, and the semicolon for which the line end stands. -/
def lineTokens (ts : List Token) : List Token :=
  ts ++ if (ts.getLast?.any Token.endsStatement) then [.mark .semi] else []

/-! ## Legible tokens -/

/-- There are five kinds of white space. -/
lemma of_isWhite {p : Char → Prop} (h : p ' ' ∧ p '\t' ∧ p '\x0c' ∧ p '\n' ∧ p '\r') {d : Char}
    (hd : isWhite d) : p d := by
  obtain ⟨hblank, htab, hform, hfeed, hreturn⟩ := h
  simp only [isWhite, isGap, isLineBreak, Bool.or_eq_true, beq_iff_eq] at hd
  rcases hd with ((rfl | rfl) | rfl) | (rfl | rfl)
  · exact hblank
  · exact htab
  · exact hform
  · exact hfeed
  · exact hreturn

/-- No white space is part of a word. -/
lemma not_isWordPart_of_isWhite {d : Char} (h : isWhite d) : isWordPart d = false :=
  of_isWhite (p := fun d => isWordPart d = false) (by decide +kernel) h

/-- White space begins no word. -/
lemma not_isWhite_of_isWordStart {c : Char} (h : isWordStart c) : isWhite c = false := by
  apply Bool.eq_false_iff.2
  intro hwhite
  have hpart := not_isWordPart_of_isWhite hwhite
  rw [isWordPart, h] at hpart
  cases hpart

/-- A word is read up to the white space after it. -/
lemma munch_word {c d : Char} {cs after : List Char} (hc : isWordStart c)
    (hcs : cs.all isWordPart) (hd : isWhite d) :
    munch c (cs ++ d :: after) = (.word, cs.length) := by
  have hwhite := not_isWhite_of_isWordStart hc
  simp only [isWhite, isLineBreak, Bool.or_eq_false_iff, beq_eq_false_iff_ne] at hwhite
  obtain ⟨hgap, hfeed, hreturn⟩ := hwhite
  have htake : (cs ++ d :: after).takeWhile isWordPart = cs := by
    rw [List.takeWhile_append_of_pos (List.all_eq_true.1 hcs), List.takeWhile_cons,
      not_isWordPart_of_isWhite hd, if_neg Bool.false_ne_true, List.append_nil]
  rw [munch, hgap, if_neg Bool.false_ne_true, if_neg hfeed, if_neg hreturn, if_pos hc, htake]

/-- A word that the lexer takes for a token is legible. -/
lemma legible_of_isWord {t : Token} (hword : isWord t.spelling)
    (ht : Lexeme.word.token? (String.ofList t.spelling) = some t) : t.Legible := by
  cases hspelling : t.spelling with
  | nil =>
    rw [hspelling] at hword
    cases hword
  | cons c cs =>
    rw [hspelling, isWord, Bool.and_eq_true] at hword
    exact ⟨c, cs, .word, hspelling, ht, fun d after hd => munch_word hword.1 hword.2 hd⟩

/-- A word is legible unless it is spelled like a keyword. -/
theorem legible_ident {word : Word} (h : Keyword.ofSpelling? word.text = none) :
    (Token.ident word).Legible := by
  refine legible_of_isWord (t := .ident word) word.wellFormed ?_
  show Lexeme.word.token? (String.ofList word.text.toList) = _
  rw [String.ofList_toList, Lexeme.token?, h]
  dsimp only
  rw [Word.ofText?, dif_pos word.wellFormed]
  rfl

/-- Every keyword is in the list. -/
lemma mem_allKeywords (k : Keyword) : k ∈ Keyword.all := by
  cases k <;> decide

/-- Every keyword is legible. -/
theorem legible_keyword (k : Keyword) : (Token.keyword k).Legible := by
  have hall : ∀ k ∈ Keyword.all, isWord (Token.keyword k).spelling = true ∧
      Lexeme.word.token? (String.ofList (Token.keyword k).spelling) = some (.keyword k) := by
    decide +kernel
  obtain ⟨hword, htoken⟩ := hall k (mem_allKeywords k)
  exact legible_of_isWord hword htoken

/-! ### Marks -/

/-- Every mark is in the list. -/
lemma mem_allMarks (m : Mark) : m ∈ Mark.all := by
  cases m <;> decide

/-- What comes after a character that is not in a text does not matter for the text as prefix. -/
lemma isPrefixOf_append_cons {text cs after : List Char} {d : Char} (hd : d ∉ text) :
    text.isPrefixOf (cs ++ d :: after) = text.isPrefixOf cs := by
  induction text generalizing cs with
  | nil => rfl
  | cons c text ih =>
    obtain ⟨hc, htext⟩ := List.ne_and_not_mem_of_not_mem_cons hd
    cases cs with
    | nil =>
      show (c == d && _) = false
      rw [beq_false_of_ne hc.symm, Bool.false_and]
    | cons c' cs =>
      show (c == c' && text.isPrefixOf (cs ++ d :: after)) = (c == c' && text.isPrefixOf cs)
      rw [ih htext]

/-- The mark is the first one that fits its own spelling, with white space after it. -/
lemma atStart?_spelling (m : Mark) {d : Char} (after : List Char) (hd : isWhite d) :
    Mark.atStart? (m.spelling ++ d :: after) = some m := by
  have hwhite : ∀ m ∈ Mark.all, m.spelling.all (!isWhite ·) := by decide +kernel
  have hfirst : ∀ m ∈ Mark.all, Mark.all.find? (·.spelling.isPrefixOf m.spelling) = some m := by
    decide +kernel
  have hstarts : ∀ m' ∈ Mark.all, m'.spelling.isPrefixOf (m.spelling ++ d :: after) =
      m'.spelling.isPrefixOf m.spelling := by
    intro m' hm'
    apply isPrefixOf_append_cons
    intro hmem
    have hmark := List.all_eq_true.1 (hwhite m' hm') d hmem
    rw [hd] at hmark
    cases hmark
  obtain ⟨hm, before, others, hall, hbefore⟩ :=
    List.find?_eq_some_iff_append.1 (hfirst m (mem_allMarks m))
  refine List.find?_eq_some_iff_append.2 ⟨?_, before, others, hall, fun m' hm' => ?_⟩
  · rw [hstarts m (mem_allMarks m)]
    exact hm
  · rw [hstarts m' (hall ▸ List.mem_append_left _ hm')]
    exact hbefore m' hm'

/-- A character that can only begin a mark; with a slash a comment can begin as well. -/
def beginsMark (c : Char) : Bool :=
  !isWhite c && !isWordStart c && !c.isDigit && c ∉ ['/', '"', '\'', '\x60', '\uFEFF']

/-- A mark at the front is taken for this mark. -/
lemma munch_mark {c : Char} {cs : List Char} {m : Mark} (hc : beginsMark c)
    (hpoint : cs.head?.any Char.isDigit = false) (hm : Mark.atStart? (c :: cs) = some m) :
    munch c cs = (.mark m, m.spelling.length - 1) := by
  simp only [beginsMark, isWhite, isLineBreak, Bool.and_eq_true, Bool.not_eq_true',
    Bool.or_eq_false_iff, beq_eq_false_iff_ne, decide_eq_true_eq, List.mem_cons,
    List.not_mem_nil, not_or, or_false] at hc
  obtain ⟨⟨⟨⟨hgap, hfeed, hreturn⟩, hword⟩, hdigit⟩, hslash, hquote, hsingle, hback, hmark⟩ := hc
  simp only [munch, hgap, hfeed, hreturn, hword, hdigit, hpoint, hslash, hquote, hsingle, hback,
    hmark, hm, Bool.or_false, Bool.and_false, if_false, Bool.false_eq_true]

/-- Every mark is legible. -/
theorem legible_mark (m : Mark) : (Token.mark m).Legible := by
  have hbegins : ∀ m ∈ Mark.all, m = .slash ∨ m = .divAssign ∨
      m.spelling.head?.any beginsMark ∧ (m.spelling.drop 1).all (!·.isDigit) := by
    decide +kernel
  have hwhite {d : Char} (hd : isWhite d) : d.isDigit = false ∧ d ∉ ['/', '*', '='] :=
    of_isWhite (p := fun d => d.isDigit = false ∧ d ∉ ['/', '*', '=']) (by decide +kernel) hd
  rcases hbegins m (mem_allMarks m) with rfl | rfl | ⟨hfirst, hdigits⟩
  · refine ⟨'/', [], .mark .slash, rfl, rfl, fun d after hd => ?_⟩
    have hcomment := (hwhite hd).2
    show munchSlash (d :: after) = _
    rw [munchSlash.eq_def]
    split
    · next h =>
      cases h
      exact absurd (by decide) hcomment
    · next h =>
      cases h
      exact absurd (by decide) hcomment
    · next h =>
      cases h
      exact absurd (by decide) hcomment
    · rfl
  · exact ⟨'/', ['='], .mark .divAssign, rfl, rfl, fun d after _ => rfl⟩
  · obtain ⟨c, hc, hbegins⟩ := (Option.any_eq_true _ _).1 hfirst
    obtain ⟨cs, hspelling⟩ := List.head?_eq_some_iff.1 hc
    refine ⟨c, cs, .mark m, hspelling, rfl, fun d after hd => ?_⟩
    have hat := atStart?_spelling m after hd
    rw [hspelling] at hat hdigits
    have hpoint : (cs ++ d :: after).head?.any Char.isDigit = false := by
      cases cs with
      | nil => exact (hwhite hd).1
      | cons c' cs =>
        rw [List.drop_succ_cons, List.drop_zero, List.all_cons, Bool.and_eq_true,
          Bool.not_eq_true'] at hdigits
        exact hdigits.1
    rw [munch_mark hbegins hpoint hat, hspelling]
    rfl

/-! ### Literals -/

/-- How long a quoted literal is, by a character that is no backslash. -/
lemma quotedLength?_cons {q c : Char} (hc : c ≠ '\\') (cs : List Char) :
    quotedLength? q (c :: cs) = if c = q then some 1 else if isLineBreak c then none
      else (quotedLength? q cs).map (· + 1) :=
  quotedLength?.eq_4 q c cs (fun h _ => hc h) fun _ _ h _ => hc h

/-- What comes after the closing quote does not matter. -/
lemma quotedLength?_append {q : Char} {cs : List Char} {n : Nat} (after : List Char)
    (h : quotedLength? q cs = some n) : quotedLength? q (cs ++ after) = some n := by
  have hplain {c : Char} {r : List Char} (hnil : c = '\\' → r = [] → False)
      (hcons : ∀ c' r', c = '\\' → r = c' :: r' → False) : c ≠ '\\' := by
    intro hc
    cases r with
    | nil => exact hnil hc rfl
    | cons c' r' => exact hcons c' r' hc rfl
  fun_induction quotedLength? q cs generalizing n with
  | case1 => cases h
  | case2 => cases h
  | case3 => cases h
  | case4 c r hc ih =>
    obtain ⟨m, hm, rfl⟩ := Option.map_eq_some_iff.1 h
    rw [List.cons_append, List.cons_append, quotedLength?, if_neg hc, ih hm]
    rfl
  | case5 r hnil hcons =>
    rw [List.cons_append, quotedLength?_cons (hplain hnil hcons), if_pos rfl]
    exact h
  | case6 => cases h
  | case7 c r hnil hcons hq hbreak ih =>
    obtain ⟨m, hm, rfl⟩ := Option.map_eq_some_iff.1 h
    rw [List.cons_append, quotedLength?_cons (hplain hnil hcons), if_neg hq, if_neg hbreak, ih hm]
    rfl

/-- A literal in double quotes is legible if its first quote after the opening one that no
backslash protects is at its end. -/
theorem legible_stringLit {s : String} {cs : List Char} (hs : s.toList = '"' :: cs)
    (h : quotedLength? '"' cs = some cs.length) : (Token.stringLit s).Legible := by
  refine ⟨'"', cs, .stringLit, hs, ?_, fun d after _ => ?_⟩
  · exact congrArg (fun s => some (Token.stringLit s)) String.ofList_toList
  · show munchLiteral .stringLit (quotedLength? '"' (cs ++ d :: after)) = _
    rw [quotedLength?_append _ h]
    rfl

/-- A raw literal is as long whatever comes after it. -/
lemma rawLength?_append {cs : List Char} {n : Nat} (after : List Char)
    (h : rawLength? cs = some n) : rawLength? (cs ++ after) = some n := by
  obtain ⟨hlt, hn⟩ := Option.ite_none_right_eq_some.1 h
  have htake : (cs ++ after).takeWhile (· != '\x60') = cs.takeWhile (· != '\x60') := by
    rw [List.takeWhile_append, if_neg (Nat.ne_of_lt hlt)]
  rw [rawLength?, htake]
  refine (if_pos ?_).trans hn
  rw [List.length_append]
  exact Nat.lt_add_right _ hlt

/-- A literal in backquotes is legible if its first one after the opening one is at its end. -/
theorem legible_rawStringLit {s : String} {cs : List Char} (hs : s.toList = '\x60' :: cs)
    (h : rawLength? cs = some cs.length) : (Token.rawStringLit s).Legible := by
  refine ⟨'\x60', cs, .rawStringLit, hs, ?_, fun d after _ => ?_⟩
  · exact congrArg (fun s => some (Token.rawStringLit s)) String.ofList_toList
  · show munchLiteral .rawStringLit (rawLength? (cs ++ d :: after)) = _
    rw [rawLength?_append _ h]
    rfl

/-- There are ten digits. -/
lemma of_isDigit {p : Char → Prop} (h : p '0' ∧ p '1' ∧ p '2' ∧ p '3' ∧ p '4' ∧ p '5' ∧ p '6' ∧
    p '7' ∧ p '8' ∧ p '9') {c : Char} (hc : c.isDigit) : p c := by
  rw [Char.isDigit, Bool.and_eq_true, decide_eq_true_eq, decide_eq_true_eq] at hc
  have hlow : 48 ≤ c.toNat := hc.1
  have hhigh : c.toNat ≤ 57 := hc.2
  obtain ⟨n, hn⟩ := Nat.exists_eq_add_of_le hlow
  have hall : ∀ n < 10, p (Char.ofNat (48 + n)) := by
    obtain ⟨h₀, h₁, h₂, h₃, h₄, h₅, h₆, h₇, h₈, h₉⟩ := h
    intro n hn
    match n with
    | 0 => exact h₀
    | 1 => exact h₁
    | 2 => exact h₂
    | 3 => exact h₃
    | 4 => exact h₄
    | 5 => exact h₅
    | 6 => exact h₆
    | 7 => exact h₇
    | 8 => exact h₈
    | 9 => exact h₉
  rw [← Char.ofNat_toNat c, hn]
  exact hall n (by omega)

/-- A run of digits ends before the first other character. -/
lemma digitRun_append {cs after : List Char} {d : Char} (hcs : cs.all Char.isDigit)
    (hd : isDigitOf false d = false) : digitRun false (cs ++ d :: after) = cs.length := by
  have hdigit : ∀ c ∈ cs, isDigitOf false c = true := by
    intro c hc
    rw [isDigitOf, List.all_eq_true.1 hcs c hc]
    rfl
  rw [digitRun, List.takeWhile_append_of_pos hdigit, List.takeWhile_cons, hd,
    if_neg Bool.false_ne_true, List.append_nil]

/-- The digits of a decimal number are its mantissa, and nothing comes after that. -/
lemma numberLength_digits {c d : Char} {cs after : List Char} (hc : c ≠ '.')
    (hcs : cs.all Char.isDigit) (hd : isWhite d) :
    numberLength c (cs ++ d :: after) = cs.length := by
  obtain ⟨hend, hd⟩ := of_isWhite (p := fun d => isDigitOf false d = false ∧
    d ∉ ['x', 'X', 'o', 'O', 'b', 'B', '.', 'e', 'E', 'p', 'P', 'i']) (by decide +kernel) hd
  have hbase : (cs ++ d :: after).head?.filter (· ∈ ['x', 'X', 'o', 'O', 'b', 'B']) = none := by
    refine Option.filter_eq_none_iff.2 fun c hhead => ?_
    rw [decide_eq_true_eq]
    cases cs with
    | nil =>
      cases hhead
      exact fun hmem => hd (List.mem_append_left ['.', 'e', 'E', 'p', 'P', 'i'] hmem)
    | cons c' cs =>
      cases hhead
      exact of_isDigit (p := fun c => c ∉ ['x', 'X', 'o', 'O', 'b', 'B']) (by decide +kernel)
        (List.all_eq_true.1 hcs c List.mem_cons_self)
  simp only [List.mem_cons, not_or, List.not_mem_nil, not_false_eq_true, and_true] at hd
  obtain ⟨-, -, -, -, -, -, hpoint, he, hE, hp, hP, hi⟩ := hd
  have hmantissa : mantissaLength c (cs ++ d :: after) = (cs.length, false) := by
    have hhex : ((none : Option Char) == some 'x' || none == some 'X') = false := rfl
    rw [mantissaLength, if_neg hc, hbase, ite_self]
    simp only [Option.isSome_none, Bool.false_eq_true, if_false, List.drop_zero, hhex,
      digitRun_append hcs hend, Nat.zero_add, List.drop_left]
    split
    · next h => exact absurd (List.cons.inj h).1 hpoint
    · next h => exact absurd (List.cons.inj h).1 hpoint
    · rfl
  have hexponent : exponentLength false (d :: after) = 0 := by
    simp [exponentLength, he, hE, hp, hP]
  rw [numberLength, hmantissa]
  dsimp only
  rw [List.drop_left, hexponent, Nat.add_zero, List.drop_left, if_neg]
  rintro ⟨⟩
  exact hi rfl

/-- A row of decimal digits is legible. -/
theorem legible_number {s : String} {c : Char} {cs : List Char} (hs : s.toList = c :: cs)
    (hc : c.isDigit) (hcs : cs.all Char.isDigit) : (Token.number s).Legible := by
  have hdigit := of_isDigit (p := fun c =>
    (isGap c || c == '\n' || c == '\r' || isWordStart c || c == '.') = false) (by decide +kernel) hc
  simp only [Bool.or_eq_false_iff, beq_eq_false_iff_ne] at hdigit
  obtain ⟨⟨⟨⟨hgap, hfeed⟩, hreturn⟩, hword⟩, hpoint⟩ := hdigit
  refine ⟨c, cs, .number, hs, ?_, fun d after hd => ?_⟩
  · exact congrArg (fun s => some (Token.number s)) String.ofList_toList
  · rw [munch, hgap, if_neg Bool.false_ne_true, if_neg hfeed, if_neg hreturn, hword,
      if_neg Bool.false_ne_true, hc, Bool.true_or, if_pos rfl, numberLength_digits hpoint hcs hd]

/-- Whether the token is legible at first sight: any keyword or mark, a word that is no keyword, a
decimal number, or a string that ends where it is closed. -/
def Token.isClear : Token → Bool
  | .ident w => (Keyword.ofSpelling? w.text).isNone
  | .number s =>
    match s.toList with
    | c :: cs => c.isDigit && cs.all Char.isDigit
    | [] => false
  | .stringLit s =>
    match s.toList with
    | '"' :: cs => quotedLength? '"' cs == some cs.length
    | _ => false
  | .rawStringLit s =>
    match s.toList with
    | '\x60' :: cs => rawLength? cs == some cs.length
    | _ => false
  | .keyword _ | .mark _ => true
  | .runeLit _ | .error => false

/-- A clear token is legible. -/
theorem legible_of_isClear {t : Token} (h : t.isClear) : t.Legible := by
  cases t with
  | ident w => exact legible_ident (Option.isNone_iff_eq_none.1 h)
  | keyword k => exact legible_keyword k
  | mark m => exact legible_mark m
  | number s =>
    rw [Token.isClear] at h
    split at h
    · next c cs hs =>
      obtain ⟨hc, hcs⟩ := Bool.and_eq_true_iff.1 h
      exact legible_number hs hc hcs
    · cases h
  | stringLit s =>
    rw [Token.isClear] at h
    split at h
    · next cs hs => exact legible_stringLit hs (eq_of_beq h)
    · cases h
  | rawStringLit s =>
    rw [Token.isClear] at h
    split at h
    · next cs hs => exact legible_rawStringLit hs (eq_of_beq h)
    · cases h
  | runeLit | error => cases h

/-! ## Lines -/

section

variable {armed : Bool} {offset : Nat} {t : Token} {ts : List Token} {d : Char}
  {after : List Char}

/-- A legible token begins with a character that is no gap. -/
lemma Token.Legible.exists_start (ht : t.Legible) :
    ∃ c cs, t.spelling = c :: cs ∧ isGap c = false := by
  obtain ⟨c, cs, lexeme, hspelling, htoken, hmunch⟩ := ht
  refine ⟨c, cs, hspelling, Bool.eq_false_iff.2 fun hgap => ?_⟩
  have hblank := hmunch ' ' [] rfl
  rw [munch, if_pos hgap] at hblank
  obtain ⟨rfl, -⟩ := Prod.mk.inj hblank
  cases htoken

/-- A lexeme that is a token contributes that token. -/
lemma itemsOf_of_token {lexeme : Lexeme} {text : List Char}
    (ht : lexeme.token? (String.ofList text) = some t) :
    itemsOf armed lexeme offset text =
      ([.token ⟨⟨offset, offset + byteSize text⟩, t⟩], t.endsStatement) := by
  cases lexeme with
  | word | number | runeLit | stringLit | rawStringLit | mark => simp only [itemsOf, ht]
  | _ => cases ht

/-- A legible token before white space is found as it is. -/
lemma itemsFrom_token (ht : t.Legible) (hd : isWhite d) :
    itemsFrom armed offset (t.spelling ++ d :: after) =
      .token ⟨⟨offset, offset + byteSize t.spelling⟩, t⟩ ::
        itemsFrom t.endsStatement (offset + byteSize t.spelling) (d :: after) := by
  obtain ⟨c, cs, lexeme, hspelling, htoken, hmunch⟩ := ht
  rw [hspelling] at htoken ⊢
  rw [List.cons_append, itemsFrom, hmunch d after hd]
  dsimp only
  rw [List.take_left, List.drop_left, itemsOf_of_token htoken]
  rfl

/-- A blank before a character that is no gap contributes nothing. -/
lemma itemsFrom_blank {c : Char} {cs : List Char} (hc : isGap c = false) :
    itemsFrom armed offset (' ' :: c :: cs) = itemsFrom armed (offset + 1) (c :: cs) :=
  itemsFrom_gaps (List.forall_mem_singleton.2 rfl) hc

/-- Tokens are spelled with a blank between them. -/
lemma spell_cons_cons {next : Token} : spell (t :: next :: ts) =
    t.spelling ++ ' ' :: spell (next :: ts) := by
  show [' '].intercalate (t.spelling :: next.spelling :: ts.map Token.spelling) = _
  rw [List.intercalate_cons_cons, List.append_assoc]
  rfl

/-- The tokens of a line are its items. -/
lemma itemsFrom_spell (hts : ∀ t ∈ ts, t.Legible) (hne : ts ≠ []) (hd : isWhite d) :
    ∃ (ps : List Placed) (offset' : Nat), ps.map Placed.token = ts ∧
      itemsFrom armed offset (spell ts ++ d :: after) = ps.map Item.token ++
        itemsFrom (ts.getLast?.any Token.endsStatement) offset' (d :: after) := by
  induction ts generalizing armed offset with
  | nil => exact absurd rfl hne
  | cons t ts ih =>
    obtain ⟨ht, hts⟩ := List.forall_mem_cons.1 hts
    cases ts with
    | nil =>
      refine ⟨[⟨⟨offset, offset + byteSize t.spelling⟩, t⟩], offset + byteSize t.spelling, rfl, ?_⟩
      rw [spell, List.map_singleton, List.intercalate_singleton, itemsFrom_token ht hd]
      rfl
    | cons next ts =>
      obtain ⟨c, cs, hnext, hc⟩ := (hts next List.mem_cons_self).exists_start
      have hstart : ∃ cs', spell (next :: ts) ++ d :: after = c :: cs' := by
        cases ts with
        | nil => exact ⟨cs ++ d :: after, by simp [spell, hnext]⟩
        | cons => exact ⟨_, by rw [spell_cons_cons, hnext]; rfl⟩
      obtain ⟨cs', hstart⟩ := hstart
      obtain ⟨ps, offset', hps, hitems⟩ := ih hts (List.cons_ne_nil _ _)
      refine ⟨⟨⟨offset, offset + byteSize t.spelling⟩, t⟩ :: ps, offset',
        congrArg (t :: ·) hps, ?_⟩
      rw [spell_cons_cons, List.append_assoc, List.cons_append, itemsFrom_token ht rfl, hstart,
        itemsFrom_blank hc, ← hstart, hitems]
      rfl

/-- Items that are only tokens and semicolons. -/
def Item.IsPlain : Item → Prop
  | .token _ | .semicolon _ => True
  | .comment .. | .fault .. => False

/-- Plain items have no comments. -/
lemma commentsOf_eq_nil {items : List Item} (h : ∀ i ∈ items, i.IsPlain) (next : Nat) :
    commentsOf next items = [] := by
  induction items generalizing next with
  | nil => rfl
  | cons i items ih =>
    obtain ⟨hi, hitems⟩ := List.forall_mem_cons.1 h
    cases i with
    | token | semicolon => exact ih hitems _
    | comment | fault => exact hi.elim

/-- Plain items have no reports. -/
lemma diagnostics_eq_nil {items : List Item} (h : ∀ i ∈ items, i.IsPlain) :
    items.filterMap Item.diagnostic? = [] := by
  refine List.filterMap_eq_nil_iff.2 fun i hi => ?_
  cases i with
  | token | comment | semicolon => rfl
  | fault => exact (h _ hi).elim

/-- A line is read as its tokens and the semicolon its end stands for. -/
lemma itemsFrom_line (hts : ∀ t ∈ ts, t.Legible) (hne : ts ≠ []) :
    ∃ (items : List Item) (offset' : Nat), (∀ i ∈ items, i.IsPlain) ∧
      (items.filterMap Item.placed?).map Placed.token = lineTokens ts ∧
      itemsFrom armed offset (spell ts ++ '\n' :: after) =
        items ++ itemsFrom false offset' after := by
  have hfeed : isWhite '\n' := rfl
  obtain ⟨ps, offset', hps, hitems⟩ := itemsFrom_spell hts hne hfeed
  rw [itemsFrom_lineFeed, ← List.append_assoc] at hitems
  refine ⟨_, _, ?_, ?_, hitems⟩
  · intro i hi
    rcases List.mem_append.1 hi with hi | hi
    · obtain ⟨p, -, rfl⟩ := List.mem_map.1 hi
      trivial
    · split at hi
      · cases List.mem_singleton.1 hi
        trivial
      · cases hi
  · have hplaced : (ps.map Item.token).filterMap Item.placed? = ps := by
      rw [List.filterMap_map]
      exact List.filterMap_some
    rw [List.filterMap_append, hplaced, List.map_append, hps, lineTokens]
    split <;> rfl

/-- Lines of legible tokens are read as these tokens. -/
theorem lex_lines {lines : List (List Token)}
    (h : ∀ ts ∈ lines, ts ≠ [] ∧ ∀ t ∈ ts, t.Legible) :
    (lex (lines.flatMap fun ts => spell ts ++ ['\n'])).tokens.map Placed.token =
        lines.flatMap lineTokens ∧
      (lex (lines.flatMap fun ts => spell ts ++ ['\n'])).comments = [] ∧
      (lex (lines.flatMap fun ts => spell ts ++ ['\n'])).diagnostics = [] := by
  have hlines : ∀ offset, ∃ items : List Item, (∀ i ∈ items, i.IsPlain) ∧
      (items.filterMap Item.placed?).map Placed.token = lines.flatMap lineTokens ∧
      itemsFrom false offset (lines.flatMap fun ts => spell ts ++ ['\n']) = items := by
    induction lines with
    | nil =>
      intro offset
      refine ⟨[], List.forall_mem_nil _, rfl, ?_⟩
      rw [List.flatMap_nil, itemsFrom]
      rfl
    | cons ts lines ih =>
      intro offset
      obtain ⟨⟨hne, hts⟩, hlines⟩ := List.forall_mem_cons.1 h
      obtain ⟨items, offset', hplain, htokens, hitems⟩ := itemsFrom_line hts hne
      obtain ⟨items', hplain', htokens', hitems'⟩ := ih hlines offset'
      refine ⟨items ++ items', ?_, ?_, ?_⟩
      · exact fun i hi => (List.mem_append.1 hi).elim (hplain i) (hplain' i)
      · rw [List.filterMap_append, List.map_append, htokens, htokens', List.flatMap_cons]
      · rw [List.flatMap_cons, List.append_assoc, List.singleton_append, hitems, hitems']
  obtain ⟨items, hplain, htokens, hitems⟩ := hlines 0
  rw [lex, findings, hitems]
  dsimp only
  rw [commentsOf_eq_nil hplain, diagnostics_eq_nil hplain]
  exact ⟨htokens, rfl, rfl⟩

end

end GoService.Source
