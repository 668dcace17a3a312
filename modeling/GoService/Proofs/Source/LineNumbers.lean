import GoService.Proofs.Source.Semicolons

/-!
# The lines of tokens

A token does not end with a line feed, so the line of its last byte goes on after it (`line_stop`);
a semicolon that is inserted stands on that line (`line_semicolon`). A source with a token or a
comment has fewer lines than bytes, so in less than 4 GiB its lines can all be numbered.
-/

namespace GoService.Source

/-! ## Tokens end within a line -/

section

variable {c : Char} {cs : List Char}

/-- The first characters of a text have no line feed. -/
def NoFeed (cs : List Char) (n : Nat) : Prop :=
  '\n' ∉ cs.take n

/-- No characters hold no line feed. -/
lemma noFeed_zero : NoFeed cs 0 :=
  List.not_mem_nil

/-- Two runs without a line feed hold none together. -/
lemma NoFeed.add {m n : Nat} (h : NoFeed cs m) (h' : NoFeed (cs.drop m) n) : NoFeed cs (m + n) := by
  rw [NoFeed, List.take_add, List.mem_append]
  exact fun hmem => hmem.elim h h'

/-- A character that is no line feed may come before a run without one. -/
lemma NoFeed.cons {n : Nat} (hc : c ≠ '\n') (h : NoFeed cs n) : NoFeed (c :: cs) (n + 1) := by
  rw [NoFeed, List.take_succ_cons, List.mem_cons]
  exact fun hmem => hmem.elim (fun heq => hc heq.symm) h

/-- A run of digits holds no line feed. -/
lemma noFeed_digitRun (hex : Bool) (cs : List Char) : NoFeed cs (digitRun hex cs) := by
  rw [NoFeed, digitRun, take_length_takeWhile]
  intro hmem
  have hdigit := List.mem_takeWhile_imp hmem
  cases hex <;> exact absurd hdigit (by decide)

/-- How many characters belong to the point and the digits after it. -/
def fractionLength (hex : Bool) : List Char → Nat
  | '.' :: '.' :: _ => 0
  | '.' :: r => 1 + digitRun hex r
  | _ => 0

/-- The letter after a leading zero that says to which base the digits are. -/
def baseLetter? (c : Char) (cs : List Char) : Option Char :=
  if c = '0' then cs.head?.filter (· ∈ ['x', 'X', 'o', 'O', 'b', 'B']) else none

/-- How long a mantissa is, by its digits and the fraction after them. -/
lemma mantissaLength_eq {c : Char} (hpoint : c ≠ '.') (cs : List Char) : mantissaLength c cs =
    let hex := baseLetter? c cs == some 'x' || baseLetter? c cs == some 'X'
    let lead := if (baseLetter? c cs).isSome then 1 else 0
    let whole := lead + digitRun hex (cs.drop lead)
    (whole + fractionLength hex (cs.drop whole), hex) :=
  if_neg hpoint

/-- A fraction holds no line feed. -/
lemma noFeed_fractionLength (hex : Bool) (cs : List Char) : NoFeed cs (fractionLength hex cs) := by
  fun_cases fractionLength hex cs with
  | case1 => exact noFeed_zero
  | case2 r =>
    rw [Nat.add_comm]
    exact (noFeed_digitRun hex r).cons (by decide)
  | case3 => exact noFeed_zero

/-- The letter of a base holds no line feed. -/
lemma noFeed_baseLetter? (c : Char) (cs : List Char) :
    NoFeed cs (if (baseLetter? c cs).isSome then 1 else 0) := by
  split
  · next hbase =>
    obtain ⟨b, hb⟩ := Option.isSome_iff_exists.1 hbase
    obtain ⟨-, hb⟩ := Option.ite_none_right_eq_some.1 hb
    obtain ⟨hhead, hmem⟩ := Option.filter_eq_some_iff.1 hb
    cases cs with
    | nil => cases hhead
    | cons d r =>
      cases hhead
      refine noFeed_zero.cons ?_
      rintro rfl
      exact absurd hmem (by decide)
  · exact noFeed_zero

/-- A mantissa holds no line feed. -/
lemma noFeed_mantissaLength (c : Char) (cs : List Char) : NoFeed cs (mantissaLength c cs).1 := by
  by_cases hpoint : c = '.'
  · rw [mantissaLength, if_pos hpoint]
    exact noFeed_digitRun false cs
  · rw [mantissaLength_eq hpoint]
    exact ((noFeed_baseLetter? c cs).add (noFeed_digitRun _ _)).add (noFeed_fractionLength _ _)

/-- An exponent holds no line feed. -/
lemma noFeed_exponentLength (hex : Bool) (cs : List Char) : NoFeed cs (exponentLength hex cs) := by
  have hletter {e : Char} (h : (!hex && (e == 'e' || e == 'E') || e == 'p' || e == 'P') = true) :
      e ≠ '\n' := by
    rintro rfl
    cases hex <;> exact absurd h (by decide)
  fun_cases exponentLength hex cs with
  | case1 => exact noFeed_zero
  | case2 e h s =>
    rw [Nat.add_comm]
    exact ((noFeed_digitRun false s).cons (by decide)).cons (hletter h)
  | case3 e h s =>
    rw [Nat.add_comm]
    exact ((noFeed_digitRun false s).cons (by decide)).cons (hletter h)
  | case4 e r h =>
    rw [Nat.add_comm]
    exact (noFeed_digitRun false r).cons (hletter h)
  | case5 => exact noFeed_zero

/-- A number holds no line feed. -/
lemma noFeed_numberLength (c : Char) (cs : List Char) : NoFeed cs (numberLength c cs) := by
  have hmantissa := noFeed_mantissaLength c cs
  rw [numberLength]
  generalize mantissaLength c cs = m at hmantissa
  obtain ⟨mantissa, hex⟩ := m
  have hlength := hmantissa.add (noFeed_exponentLength hex (cs.drop mantissa))
  dsimp only
  split
  · next hsuffix =>
    apply hlength.add
    cases hrest : cs.drop (mantissa + exponentLength hex (cs.drop mantissa)) with
    | nil => exact List.not_mem_nil
    | cons d r =>
      rw [hrest] at hsuffix
      cases hsuffix
      exact noFeed_zero.cons (by decide)
  · exact hlength

/-- A last character stays the last one when another comes to the front. -/
lemma getLast?_cons_of_eq {d : Char} (h : cs.getLast? = some d) : (c :: cs).getLast? = some d := by
  rw [List.getLast?_cons, h]
  rfl

/-- A quoted text ends with its quote. -/
lemma getLast?_of_quotedLength? {q : Char} {n : Nat} (h : quotedLength? q cs = some n) :
    (cs.take n).getLast? = some q := by
  induction cs using quotedLength?.induct q generalizing n with
  | case1 => cases h
  | case2 => cases h
  | case3 => cases h
  | case4 c r hc ih =>
    rw [quotedLength?, if_neg hc] at h
    obtain ⟨m, hm, rfl⟩ := Option.map_eq_some_iff.1 h
    exact getLast?_cons_of_eq (getLast?_cons_of_eq (ih hm))
  | case5 r hend hescape =>
    rw [quotedLength?.eq_4 _ _ _ hend hescape, if_pos rfl] at h
    cases h
    rfl
  | case6 c r hend hescape hquote hbreak =>
    rw [quotedLength?.eq_4 _ _ _ hend hescape, if_neg hquote, if_pos hbreak] at h
    cases h
  | case7 c r hend hescape hquote hbreak ih =>
    rw [quotedLength?.eq_4 _ _ _ hend hescape, if_neg hquote, if_neg hbreak] at h
    obtain ⟨m, hm, rfl⟩ := Option.map_eq_some_iff.1 h
    exact getLast?_cons_of_eq (ih hm)

/-- A raw literal ends with its quote. -/
lemma getLast?_of_rawLength? {n : Nat} (h : rawLength? cs = some n) :
    (cs.take n).getLast? = some '\x60' := by
  rw [rawLength?] at h
  split at h
  · next hlt =>
    cases h
    have hsplit := List.takeWhile_append_dropWhile (p := (· != '\x60')) (l := cs)
    cases hrest : cs.dropWhile (· != '\x60') with
    | nil =>
      rw [hrest, List.append_nil] at hsplit
      rw [hsplit] at hlt
      exact absurd hlt (Nat.lt_irrefl _)
    | cons d r =>
      have hd := List.head?_dropWhile_not (· != '\x60') cs
      rw [hrest] at hd hsplit
      have hquote : d = '\x60' := by simpa using hd
      have htake : cs.take ((cs.takeWhile (· != '\x60')).length + 1) =
          cs.takeWhile (· != '\x60') ++ [d] := by
        generalize cs.takeWhile (· != '\x60') = quoted at hsplit
        rw [← hsplit, List.take_length_add_append]
        rfl
      rw [htake, List.getLast?_concat, hquote]
  · cases h

/-- No mark ends with a line feed. -/
lemma getLast?_spelling (m : Mark) : m.spelling.getLast? ≠ some '\n' := by
  cases m <;> decide

/-- A lexeme that is a token does not end with a line feed. -/
lemma getLast?_munch {t : Token} {s : String} (h : (munch c cs).1.token? s = some t) :
    (c :: cs.take (munch c cs).2).getLast? ≠ some '\n' := by
  -- a literal ends with its quote, and a mark as it is spelled
  have hliteral {q : Char} (hq : q ≠ '\n') {lexeme : Lexeme} {length? : Option Nat}
      (hlength : ∀ n ∈ length?, (cs.take n).getLast? = some q)
      (h : (munchLiteral lexeme length?).1.token? s = some t) :
      (c :: cs.take (munchLiteral lexeme length?).2).getLast? ≠ some '\n' := by
    cases length? with
    | none => cases h
    | some n =>
      rw [munchLiteral, getLast?_cons_of_eq (hlength n rfl)]
      exact fun heq => hq (Option.some.inj heq)
  have hmark {m : Mark} {text rest : List Char} (h : (Lexeme.mark m).Fits text rest) :
      text.getLast? ≠ some '\n' := by
    have h : m.spelling = text := h
    rw [← h]
    exact getLast?_spelling m
  have hfits := fits_munch c cs
  revert h hfits
  fun_cases munch c cs with
  | case1 | case2 | case3 | case10 | case12 =>
    intro h
    cases h
  | case4 =>
    intro _ hfits hlast
    -- a word has no line feed at all
    have hword : isWord _ := hfits
    rw [isWord, Bool.and_eq_true, List.all_eq_true] at hword
    rcases List.mem_cons.1 (List.mem_of_getLast? hlast) with heq | hmem
    · exact absurd (heq ▸ hword.1) (by decide)
    · exact absurd (hword.2 _ hmem) (by decide)
  | case5 _ hlf =>
    intro _ _ hlast
    rcases List.mem_cons.1 (List.mem_of_getLast? hlast) with heq | hmem
    · exact hlf heq.symm
    · exact noFeed_numberLength c cs hmem
  | case6 =>
    fun_cases munchSlash cs with
    | case1 | case2 | case3 =>
      intro h
      cases h
    | case4 | case5 => exact fun _ => hmark
  | case7 => exact fun h _ => hliteral (by decide) (fun n hn => getLast?_of_quotedLength? hn) h
  | case8 =>
    refine fun h _ => hliteral (q := '\'') (by decide) (fun n hn => ?_) h
    split at hn
    · cases hn
    · exact getLast?_of_quotedLength? hn
  | case9 => exact fun h _ => hliteral (by decide) (fun n hn => getLast?_of_rawLength? hn) h
  | case11 => exact fun _ => hmark

/-- A token of a lexeme takes up its text and is what the lexeme makes of it. -/
lemma token_of_mem_itemsOf {armed : Bool} {lexeme : Lexeme} {offset : Nat} {text : List Char}
    {p : Placed} (h : .token p ∈ (itemsOf armed lexeme offset text).1) :
    p.span = .ofText offset text ∧ lexeme.token? (String.ofList text) = some p.token := by
  cases lexeme with
  | word | number | runeLit | stringLit | rawStringLit | mark =>
    simp only [itemsOf] at h
    split at h
    · next t ht =>
      cases List.mem_singleton.1 h
      exact ⟨rfl, ht⟩
    · cases h
  | blank => cases h
  | lineEnd =>
    cases armed with
    | false => cases h
    | true => cases List.mem_singleton.1 h
  | lineComment | stray => cases List.mem_singleton.1 h
  | blockComment =>
    cases armed with
    | false => cases List.mem_singleton.1 h
    | true =>
      cases hbreak : firstLineBreak? offset text with
      | none =>
        simp only [itemsOf, hbreak] at h
        cases List.mem_singleton.1 h
      | some at_ =>
        simp only [itemsOf, hbreak] at h
        rcases List.mem_cons.1 h with h | h
        · cases h
        · cases List.mem_singleton.1 h
  | unclosedComment =>
    rcases List.mem_cons.1 h with h | h
    · cases h
    · cases List.mem_singleton.1 h
  | byteOrderMark =>
    rw [itemsOf] at h
    split at h
    · cases h
    · cases List.mem_singleton.1 h

/-- Each token is a lexeme that the lexer has taken at its place. -/
lemma exists_munch_of_mem {armed : Bool} {offset : Nat} {cs : List Char} {p : Placed}
    (h : .token p ∈ itemsFrom armed offset cs) : ∃ before c rest, cs = before ++ c :: rest ∧
      p.span = .ofText (offset + byteSize before) (c :: rest.take (munch c rest).2) ∧
      (munch c rest).1.token? (String.ofList (c :: rest.take (munch c rest).2)) = some p.token := by
  induction armed, offset, cs using itemsFrom.induct with
  | case1 offset =>
    rw [itemsFrom, if_pos rfl] at h
    cases List.mem_singleton.1 h
  | case2 armed offset harmed =>
    rw [itemsFrom, if_neg harmed] at h
    cases h
  | case3 armed offset c cs lexeme n hmunch text items armed' hitems ih =>
    rw [itemsFrom, hmunch] at h
    dsimp only at h
    rw [hitems] at h
    rcases List.mem_append.1 h with h | h
    · refine ⟨[], c, cs, rfl, ?_⟩
      rw [hmunch]
      rw [← congrArg Prod.fst hitems] at h
      exact token_of_mem_itemsOf h
    · obtain ⟨before, d, rest, hcs, hspan, htoken⟩ := ih h
      refine ⟨c :: cs.take n ++ before, d, rest, ?_, ?_, htoken⟩
      · rw [List.append_assoc, ← hcs, List.cons_append, List.take_append_drop]
      · rw [hspan, byteSize_append, Nat.add_assoc]

variable {src : List Char} {t next semi : Placed}

/-- The line of a token's last byte goes on after the token. -/
lemma line_stop (ht : t ∈ (lex src).tokens) (hreal : t.isInserted = false)
    (herror : t.token ≠ .error) : ∃ before after, src = before ++ after ∧
      t.span.stop = byteSize before ∧
        LineTable.lineCount src (t.span.stop - 1) = before.count '\n' + 1 := by
  obtain ⟨i, hi, hplaced⟩ := List.mem_filterMap.1 ht
  cases i with
  | semicolon => cases hasText_of_not_inserted hplaced hreal
  | comment => cases hplaced
  | fault =>
    cases hplaced
    exact absurd rfl herror
  | token p =>
    cases hplaced
    obtain ⟨before, c, rest, rfl, hspan, htoken⟩ := exists_munch_of_mem hi
    have hlast := getLast?_munch htoken
    have hsrc : before ++ c :: rest = before ++ c :: rest.take (munch c rest).2 ++
        rest.drop (munch c rest).2 := by
      rw [List.append_assoc, List.cons_append, List.take_append_drop]
    have hne := List.cons_ne_nil c (rest.take (munch c rest).2)
    generalize c :: rest.take (munch c rest).2 = text at hspan hlast hsrc hne
    rw [hspan, Span.ofText, Nat.zero_add]
    refine ⟨before ++ text, rest.drop (munch c rest).2, hsrc, (byteSize_append ..).symm, ?_⟩
    obtain ⟨init, d, rfl⟩ := text.eq_nil_or_concat.resolve_left hne
    rw [List.concat_eq_append] at hlast hsrc ⊢
    rw [List.getLast?_concat] at hlast
    -- the last character is no line feed, so its first and its last byte are on one line
    have hd : d ≠ '\n' := fun heq => hlast (congrArg some heq)
    have hpos := d.utf8Size_pos
    have hsize : byteSize (init ++ [d]) = byteSize init + d.utf8Size := byteSize_append init [d]
    have hinit := byteSize_append before init
    have hcount : (before ++ (init ++ [d])).count '\n' = (before ++ init).count '\n' := by
      rw [← List.append_assoc, List.count_append, List.count_singleton,
        if_neg (by simpa using hd), Nat.add_zero]
    rw [hsrc, hcount, List.append_assoc, List.append_assoc, ← List.append_assoc]
    apply LineTable.lineCount_eq
    · show _ ≤ byteSize before + byteSize (init ++ [d]) - 1
      omega
    · rintro _ ⟨⟩
      show byteSize before + byteSize (init ++ [d]) - 1 < _
      omega

/-- The first line end within bounds is not far from where they begin. -/
lemma exists_break {start stop offset at_ : Nat} {cs : List Char} (hstart : start ≤ offset)
    (h : ((lineBreaks offset cs).filter fun p => start ≤ p && p < stop).head? = some at_) :
    ∃ line after, cs = line ++ after ∧ (∀ c ∈ line, ¬ isLineBreak c) ∧
      at_ = offset + byteSize line := by
  induction cs generalizing offset with
  | nil => cases h
  | cons c cs ih =>
    rw [lineBreaks] at h
    split at h
    · next hbreak =>
      refine ⟨[], c :: cs, rfl, List.forall_mem_nil _, ?_⟩
      by_cases hstop : offset < stop
      · rw [List.filter_cons_of_pos (by simp [hstart, hstop])] at h
        exact (Option.some.inj h).symm
      · have hnone : (lineBreaks (offset + c.utf8Size) cs).filter
            (fun p => start ≤ p && p < stop) = [] := by
          refine List.filter_eq_nil_iff.2 fun p hp hbetween => ?_
          have hle := (bounds_of_mem_lineBreaks hp).1
          simp only [Bool.and_eq_true, decide_eq_true_eq] at hbetween
          omega
        rw [List.filter_cons_of_neg (by simp [hstop]), hnone] at h
        cases h
    · next hbreak =>
      obtain ⟨line, after, rfl, hline, rfl⟩ :=
        ih (Nat.le_trans hstart (Nat.le_add_right ..)) h
      refine ⟨c :: line, after, rfl, List.forall_mem_cons.2 ⟨hbreak, hline⟩, ?_⟩
      rw [byteSize, Nat.add_assoc]

/-- An inserted semicolon stands on the line where the token before it ends. -/
lemma line_semicolon (ht : t ∈ (lex src).tokens) (hreal : t.isInserted = false)
    (herror : t.token ≠ .error)
    (h : semicolonBetween (lineBreaks 0 src) (byteSize src) t.span.stop (some next) = some semi) :
    ∃ at_, semi.span = .emptyAt at_ ∧ t.span.stop ≤ at_ ∧
      LineTable.lineCount src at_ = LineTable.lineCount src (t.span.stop - 1) := by
  obtain ⟨before, after, rfl, hstop, hline⟩ := line_stop ht hreal herror
  obtain ⟨at_, hat, rfl⟩ := Option.map_eq_some_iff.1 h
  have hahead : Ahead (lineBreaks 0 (before ++ after)) (byteSize (before ++ after)) 0
      (before ++ after) := ⟨⟨[], rfl, nofun⟩, (Nat.zero_add _).symm⟩
  rw [hahead.step.filter_eq (fun p hp => by simp at hp; omega), Nat.zero_add, ← hstop] at hat
  obtain ⟨line, rest, rfl, hbreaks, rfl⟩ := exists_break (Nat.le_refl _) hat
  refine ⟨_, rfl, Nat.le_add_right .., ?_⟩
  have hfeeds : line.count '\n' = 0 :=
    List.count_eq_zero.2 fun hmem => hbreaks _ hmem (by decide)
  rw [hline, hstop, ← byteSize_append, ← List.append_assoc, LineTable.lineCount_byteSize,
    List.count_append, hfeeds, Nat.add_zero]

end

/-! ## Enough numbers -/

/-- The line on which a token ends, as the parser has it, is that of its last byte. -/
lemma tokenEndLine_eq {src : List Char} (hsrc : byteSize src ≤ Span.maxOffset) (i : Nat) :
    ((lex src).tokens.toArray[i]?.map fun t =>
      (LineTable.ofChars src).line (wrapped (t.span.stop - 1))) =
      (lex src).tokens[i]?.map fun t => (LineTable.ofChars src).line (t.span.stop - 1) := by
  rw [List.getElem?_toArray]
  refine Option.map_congr fun t ht => ?_
  obtain ⟨item, hi, hplaced⟩ := List.mem_filterMap.1 (List.mem_of_getElem? ht)
  have hstop := (lexes_itemsFrom false 0 src).stop_le hi
  rw [← span_of_placed? hplaced] at hstop
  rw [wrapped_eq (by omega)]

/-- A text has as many bytes as line feeds, or more. -/
lemma count_le_byteSize (cs : List Char) : cs.count '\n' ≤ byteSize cs := by
  induction cs with
  | nil => exact Nat.le_refl 0
  | cons c cs ih =>
    have hpos := c.utf8Size_pos
    rw [List.count_cons, byteSize]
    split <;> omega

/-- In a source of less than 4 GiB with a comment there are numbers for all lines, because the mark
of the comment has no line feed. -/
lemma numbered_of_mem_comments {src : List Char} {c : Comment}
    (hsrc : byteSize src ≤ Span.maxOffset) (hc : c ∈ (findings src).comments) : Numbered src := by
  obtain ⟨before, after, hsplit, -⟩ := cuts_of_mem_comments hc
  have hmarked := isMarked_of_mem_itemsFrom (mem_items_of_mem_comments hc)
  obtain ⟨m, body, htext, hm⟩ : ∃ m body, c.text.toList = '/' :: m :: body ∧ m ≠ '\n' := by
    generalize c.kind = kind at hmarked
    generalize c.text.toList = text at hmarked
    cases hmarked with
    | line => exact ⟨_, _, rfl, by decide⟩
    | block => exact ⟨_, _, rfl, by decide⟩
  refine ⟨hsrc, ?_⟩
  have hbefore := count_le_byteSize before
  have hbody := count_le_byteSize body
  have hafter := count_le_byteSize after
  have hpos := m.utf8Size_pos
  have hslash : ('/').utf8Size = 1 := rfl
  rw [LineTable.size_ofChars, hsplit, htext, List.count_append, List.count_append,
    List.count_cons_of_ne (by decide), List.count_cons_of_ne hm]
  rw [hsplit, htext, byteSize_append, byteSize_append, byteSize, byteSize] at hsrc
  omega

end GoService.Source
