import GoService.Proofs.Source.Placement

/-!
# Inserted semicolons

A line end stands for a semicolon after a token that can end a statement, and so does the end of the
source. `withSemicolons` states this rule on the tokens that are written, with no regard to what
lies between them but where lines end; the lexer, which goes from lexeme to lexeme, follows it
(`tokens_eq_withSemicolons`).
-/

namespace GoService.Source

/-- The offsets of the characters that end lines, those within comments included. -/
def lineBreaks (offset : Nat) : List Char → List Nat
  | [] => []
  | c :: cs =>
    if isLineBreak c then offset :: lineBreaks (offset + c.utf8Size) cs
    else lineBreaks (offset + c.utf8Size) cs

/-- A semicolon that is inserted at an offset. -/
def semicolonAt (offset : Nat) : Placed :=
  ⟨.emptyAt offset, .mark .semi⟩

/-- The semicolon that belongs between an offset and the next token, or the end of the source: it
stands where the first line ends. -/
def semicolonBetween (breaks : List Nat) (sourceEnd start : Nat) : Option Placed → Option Placed
  | some next =>
    (breaks.filter fun p => start ≤ p && p < next.span.start).head?.map semicolonAt
  | none => some (semicolonAt ((breaks.filter fun p => start ≤ p).headD sourceEnd))

/-- Tokens with the semicolons that belong between them. -/
def withSemicolons (breaks : List Nat) (sourceEnd : Nat) : List Placed → List Placed
  | [] => []
  | t :: ts =>
    let inserted :=
      if t.token.endsStatement then semicolonBetween breaks sourceEnd t.span.stop ts.head? else none
    t :: (inserted.toList ++ withSemicolons breaks sourceEnd ts)

/-- The tokens that are written. -/
def written (tokens : List Placed) : List Placed :=
  tokens.filter (!·.isInserted)

/-! ## Line ends in texts -/

/-- The line breaks in two parts are those of the first and those of the second, further on. -/
lemma lineBreaks_append (offset : Nat) (as bs : List Char) :
    lineBreaks offset (as ++ bs) = lineBreaks offset as ++ lineBreaks (offset + byteSize as) bs := by
  induction as generalizing offset with
  | nil => rfl
  | cons a as ih =>
    rw [List.cons_append, lineBreaks, lineBreaks, byteSize, ih, Nat.add_assoc]
    split
    · rfl
    · rfl

/-- Where no character breaks a line there are no line breaks. -/
lemma lineBreaks_eq_nil {offset : Nat} {text : List Char} (h : ∀ c ∈ text, ¬ isLineBreak c) :
    lineBreaks offset text = [] := by
  induction text generalizing offset with
  | nil => rfl
  | cons c text ih =>
    rw [lineBreaks, if_neg (h c (List.mem_cons_self ..))]
    exact ih fun d hd => h d (List.mem_cons_of_mem _ hd)

/-- The first of the line breaks is the one that is searched for. -/
lemma head?_lineBreaks (offset : Nat) (text : List Char) :
    (lineBreaks offset text).head? = firstLineBreak? offset text := by
  induction text generalizing offset with
  | nil => rfl
  | cons c text ih =>
    rw [lineBreaks, firstLineBreak?]
    split
    · rfl
    · exact ih _

/-- Line breaks are within the text. -/
lemma bounds_of_mem_lineBreaks {offset p : Nat} {text : List Char} (h : p ∈ lineBreaks offset text) :
    offset ≤ p ∧ p < offset + byteSize text := by
  induction text generalizing offset with
  | nil => cases h
  | cons c text ih =>
    have hpos := c.utf8Size_pos
    rw [lineBreaks] at h
    rw [byteSize]
    split at h
    · rcases List.mem_cons.1 h with rfl | h
      · omega
      · have hbounds := ih h
        omega
    · have hbounds := ih h
      omega

/-- The text from an offset on has the last line ends of the source. -/
structure Ahead (breaks : List Nat) (sourceEnd offset : Nat) (cs : List Char) : Prop where
  split : ∃ passed, breaks = passed ++ lineBreaks offset cs ∧ ∀ p ∈ passed, p < offset
  stop : sourceEnd = offset + byteSize cs

section

variable {breaks : List Nat} {sourceEnd offset : Nat} {text rest : List Char}

/-- What is ahead of a text is ahead of what follows its first part. -/
lemma Ahead.step (h : Ahead breaks sourceEnd offset (text ++ rest)) :
    Ahead breaks sourceEnd (offset + byteSize text) rest := by
  obtain ⟨⟨passed, hbreaks, hpassed⟩, hstop⟩ := h
  refine ⟨⟨passed ++ lineBreaks offset text, ?_, fun p hp => ?_⟩, ?_⟩
  · rw [hbreaks, lineBreaks_append, List.append_assoc]
  · rcases List.mem_append.1 hp with hp | hp
    · exact Nat.lt_of_lt_of_le (hpassed p hp) (Nat.le_add_right ..)
    · exact (bounds_of_mem_lineBreaks hp).2
  · rw [hstop, byteSize_append, Nat.add_assoc]

/-- What has been passed is not looked at again. -/
lemma Ahead.filter_eq {cs : List Char} (h : Ahead breaks sourceEnd offset cs) {q : Nat → Bool}
    (hq : ∀ p, q p → offset ≤ p) : breaks.filter q = (lineBreaks offset cs).filter q := by
  obtain ⟨⟨passed, hbreaks, hpassed⟩, -⟩ := h
  have hnone : passed.filter q = [] := by
    refine List.filter_eq_nil_iff.2 fun p hp hqp => ?_
    exact Nat.not_le_of_lt (hpassed p hp) (hq p hqp)
  rw [hbreaks, List.filter_append, hnone, List.nil_append]

/-- A text without line ends changes nothing. -/
lemma Ahead.semicolonBetween_of_inline (h : Ahead breaks sourceEnd offset (text ++ rest))
    (htext : ∀ c ∈ text, ¬ isLineBreak c) (next? : Option Placed) :
    semicolonBetween breaks sourceEnd offset next? =
      semicolonBetween breaks sourceEnd (offset + byteSize text) next? := by
  have hsame : ∀ p ∈ breaks, decide (offset ≤ p) = decide (offset + byteSize text ≤ p) := by
    obtain ⟨⟨passed, hbreaks, hpassed⟩, -⟩ := h
    intro p hp
    rw [hbreaks, lineBreaks_append, lineBreaks_eq_nil htext, List.nil_append] at hp
    rcases List.mem_append.1 hp with hp | hp
    · have hlt := hpassed p hp
      rw [decide_eq_false (by omega), decide_eq_false (by omega)]
    · have hle := (bounds_of_mem_lineBreaks hp).1
      rw [decide_eq_true (by omega), decide_eq_true hle]
  cases next? with
  | none => rw [semicolonBetween, semicolonBetween, List.filter_congr hsame]
  | some next =>
    have hsame' : ∀ p ∈ breaks, (decide (offset ≤ p) && decide (p < next.span.start)) =
        (decide (offset + byteSize text ≤ p) && decide (p < next.span.start)) :=
      fun p hp => congrArg (· && _) (hsame p hp)
    rw [semicolonBetween, semicolonBetween, List.filter_congr hsame']

/-- The first line end of a text is where the semicolon stands. -/
lemma Ahead.semicolonBetween_of_break {at_ : Nat} {next? : Option Placed}
    (h : Ahead breaks sourceEnd offset (text ++ rest))
    (hbreak : firstLineBreak? offset text = some at_)
    (hnext : ∀ next ∈ next?, offset + byteSize text ≤ next.span.start) :
    semicolonBetween breaks sourceEnd offset next? = some (semicolonAt at_) := by
  obtain ⟨hstart, hstop⟩ := bounds_of_firstLineBreak? hbreak
  rw [← head?_lineBreaks, List.head?_eq_some_iff] at hbreak
  obtain ⟨others, hothers⟩ := hbreak
  have hlines : lineBreaks offset (text ++ rest) =
      at_ :: (others ++ lineBreaks (offset + byteSize text) rest) := by
    rw [lineBreaks_append, hothers, List.cons_append]
  cases next? with
  | none =>
    rw [semicolonBetween, h.filter_eq fun p hp => of_decide_eq_true hp, hlines,
      List.filter_cons_of_pos (by simpa using hstart)]
    rfl
  | some next =>
    have hbefore : at_ < next.span.start := Nat.lt_of_lt_of_le hstop (hnext next rfl)
    rw [semicolonBetween, h.filter_eq fun p hp => (by simp at hp; exact hp.1), hlines,
      List.filter_cons_of_pos (by simp [hstart, hbefore])]
    rfl

/-- No semicolon belongs before a token that begins here. -/
lemma semicolonBetween_of_start {next : Placed} (h : next.span.start = offset) :
    semicolonBetween breaks sourceEnd offset (some next) = none := by
  have hnone : breaks.filter (fun p => offset ≤ p && p < next.span.start) = [] := by
    refine List.filter_eq_nil_iff.2 fun p _ hp => ?_
    simp only [h, Bool.and_eq_true, decide_eq_true_eq] at hp
    omega
  rw [semicolonBetween, hnone]
  rfl

/-- At the end of the source a semicolon is inserted there. -/
lemma Ahead.semicolonBetween_of_end (h : Ahead breaks sourceEnd offset []) :
    semicolonBetween breaks sourceEnd offset none = some (semicolonAt offset) := by
  rw [semicolonBetween, h.filter_eq fun p hp => of_decide_eq_true hp, h.stop]
  rfl

end

/-! ## Rows of lexemes -/

/-- No gap is a line break. -/
lemma not_lineBreak_of_gap {c : Char} (h : isGap c) : ¬ isLineBreak c := by
  simp only [isGap, Bool.or_eq_true, beq_iff_eq] at h
  rcases h with (rfl | rfl) | rfl <;> decide

/-- A token that is not inserted is a written one. -/
lemma written_cons {t : Placed} {ts : List Placed} (h : t.isInserted = false) :
    written (t :: ts) = t :: written ts := by
  rw [written, List.filter_cons_of_pos (by rw [h]; rfl)]
  rfl

/-- An inserted semicolon is not a written token. -/
lemma written_cons_semicolonAt (offset : Nat) (ts : List Placed) :
    written (semicolonAt offset :: ts) = written ts := by
  have h : (semicolonAt offset).isInserted = true := by
    simp [semicolonAt, Placed.isInserted, Span.isEmpty, Span.size, Span.emptyAt]
  rw [written, List.filter_cons_of_neg (by simp [h])]
  rfl

/-- A token with a text is not inserted. -/
lemma not_inserted_of_text {offset : Nat} {text : List Char} (hne : text ≠ []) (t : Token) :
    (⟨.ofText offset text, t⟩ : Placed).isInserted = false := by
  have hpos := byteSize_pos hne
  have hempty : (Span.ofText offset text).isEmpty = false := by
    simp only [Span.isEmpty, Span.size, Span.ofText, beq_eq_false_iff_ne]
    omega
  simp [Placed.isInserted, hempty]

/-- The tokens among items. -/
def tokensOf (is : List Item) : List Placed :=
  is.filterMap Item.placed?

/-- The first written token from an offset on starts there or later. -/
lemma Lexes.offset_le_of_written {armed : Bool} {offset : Nat} {cs : List Char} {is : List Item}
    (h : Lexes armed offset cs is) : ∀ next ∈ (written (tokensOf is)).head?,
      offset ≤ next.span.start := by
  intro next hnext
  have hmem := (List.mem_filter.1 (List.mem_of_head? hnext)).1
  obtain ⟨i, hi, hplaced⟩ := List.mem_filterMap.1 hmem
  rw [span_of_placed? hplaced]
  exact h.offset_le hi

/-- Before a token that begins here no semicolon belongs, and after it one may. -/
lemma tokens_eq_cons {breaks : List Nat} {sourceEnd offset : Nat} {armed : Bool} {text : List Char}
    {t : Token} {ts : List Placed} (hne : text ≠ [])
    (h : ts = (if t.endsStatement then
        semicolonBetween breaks sourceEnd (offset + byteSize text) (written ts).head?
      else none).toList ++ withSemicolons breaks sourceEnd (written ts)) :
    (⟨.ofText offset text, t⟩ : Placed) :: ts =
      (if armed then semicolonBetween breaks sourceEnd offset
          (written (⟨.ofText offset text, t⟩ :: ts)).head? else none).toList ++
        withSemicolons breaks sourceEnd (written (⟨.ofText offset text, t⟩ :: ts)) := by
  have hnone : semicolonBetween breaks sourceEnd offset
      (some (⟨.ofText offset text, t⟩ : Placed)) = none := semicolonBetween_of_start rfl
  rw [written_cons (not_inserted_of_text hne t), List.head?_cons, hnone, ite_self]
  exact congrArg (_ :: ·) h

/-- The tokens of a row are the written ones with semicolons between them; where a statement may end
before the row, a semicolon may come first. -/
lemma Lexes.tokens_eq {breaks : List Nat} {sourceEnd offset : Nat} {armed : Bool} {cs : List Char}
    {is : List Item} (h : Lexes armed offset cs is) (hahead : Ahead breaks sourceEnd offset cs) :
    tokensOf is =
      (if armed then semicolonBetween breaks sourceEnd offset (written (tokensOf is)).head?
        else none).toList ++ withSemicolons breaks sourceEnd (written (tokensOf is)) := by
  induction h with
  | finished => rfl
  | @statementEnd offset =>
    have hwritten : written (tokensOf [.semicolon offset]) = [] := written_cons_semicolonAt offset []
    rw [hwritten, if_pos rfl, List.head?_nil, hahead.semicolonBetween_of_end]
    rfl
  | @piece text armed offset rest items armed' is hne h hrest ih =>
    have hafter := ih hahead.step
    have hnext := hrest.offset_le_of_written
    -- a semicolon that is due waits until a line break comes, or until a token is written
    cases h with
    | blank h =>
      rw [List.nil_append,
        hahead.semicolonBetween_of_inline fun c hc => not_lineBreak_of_gap (h c hc)]
      exact hafter
    | byteOrderMark =>
      have hmark : ∀ c ∈ ['\uFEFF'], ¬ isLineBreak c := fun c hc => by
        cases List.mem_singleton.1 hc
        decide
      rw [List.nil_append, hahead.semicolonBetween_of_inline hmark]
      exact hafter
    | lineEnd => exact hafter
    | statementEnd h =>
      have hbreak : firstLineBreak? offset text = some offset := by
        cases text with
        | nil => exact absurd rfl hne
        | cons c text => rw [firstLineBreak?, if_pos (h c (List.mem_cons_self ..))]
      have htokens : tokensOf ([.semicolon offset] ++ is) = semicolonAt offset :: tokensOf is := rfl
      rw [htokens, written_cons_semicolonAt, if_pos rfl,
        hahead.semicolonBetween_of_break hbreak hnext]
      exact congrArg (semicolonAt offset :: ·) hafter
    | comment hclosed hline =>
      cases armed with
      | false => exact hafter
      | true =>
        rw [if_pos rfl, hahead.semicolonBetween_of_inline (hline rfl)]
        exact hafter
    | @commentOverBreak _ _ at_ _ hclosed hbreak =>
      -- it stands at the first line break in the comment
      have htokens : tokensOf ([.comment .block (.ofText offset text) (String.ofList text),
        .semicolon at_] ++ is) = semicolonAt at_ :: tokensOf is := rfl
      rw [htokens, written_cons_semicolonAt, if_pos rfl,
        hahead.semicolonBetween_of_break hbreak hnext]
      exact congrArg (semicolonAt at_ :: ·) hafter
    | unclosed | fault | token => exact tokens_eq_cons hne hafter

/-- At the start the whole source is ahead. -/
lemma ahead_start (src : List Char) : Ahead (lineBreaks 0 src) (byteSize src) 0 src :=
  ⟨⟨[], rfl, nofun⟩, (Nat.zero_add _).symm⟩

/-- The tokens of a source are the written ones with semicolons inserted by the rule: after a token
that can end a statement one semicolon, where the first line ends before the next token or where the
source ends, and nowhere else. -/
theorem tokens_eq_withSemicolons (src : List Char) :
    (lex src).tokens =
      withSemicolons (lineBreaks 0 src) (byteSize src) (written (lex src).tokens) :=
  (lexes_itemsFrom false 0 src).tokens_eq (ahead_start src)

end GoService.Source
