import GoService.Source.Lexeme
import Mathlib.Data.List.TakeWhile
import Mathlib.Tactic.Lemma

/-!
# Lexemes in a row

A source text is cut into lexemes, one after another, and each lexeme makes up at most one token or
comment. `Lexeme.Fits` says what text a lexeme has, `Piece` what a lexeme contributes, with one rule
for each way, and `Lexes` is a row of pieces. The lexer computes such a row (`lexes_itemsFrom`);
what the items of a source are like is then proved by induction on the row.
-/

namespace GoService.Source

/-! ## The texts of lexemes -/

/-- A block comment that is brought to its end. -/
def IsClosedBlock (text : List Char) : Prop :=
  ∃ body, text = '/' :: '*' :: (body ++ ['*', '/'])

/-- The token is written as the text. What is no token may be written in any way. -/
def Token.IsWritten : Token → List Char → Prop
  | .ident w, text => w.text.toList = text
  | .number s, text | .runeLit s, text | .stringLit s, text | .rawStringLit s, text =>
    s.toList = text
  | .keyword k, text => k.spelling.toList = text
  | .mark m, text => m.spelling = text
  | .error, _ => True

/-- The text can be that of the lexeme, with the rest of the source after it. -/
def Lexeme.Fits (text rest : List Char) : Lexeme → Prop
  | .blank => ∀ c ∈ text, isGap c
  | .lineEnd => ∀ c ∈ text, isLineBreak c
  | .lineComment => ∀ c ∈ text, ¬ isLineBreak c
  | .blockComment => IsClosedBlock text
  | .unclosedComment => ¬ IsClosedBlock text ∧ rest = []
  | .byteOrderMark => text = ['\uFEFF']
  | .word => isWord text
  | .mark m => m.spelling = text
  | .number | .runeLit | .stringLit | .rawStringLit | .stray => True

/-- As many characters as the longest run of a kind are that run. -/
lemma take_length_takeWhile (p : Char → Bool) (cs : List Char) :
    cs.take (cs.takeWhile p).length = cs.takeWhile p :=
  (List.prefix_iff_eq_take.1 (List.takeWhile_prefix p)).symm

/-- A block comment of some length ends with its closing mark. -/
lemma exists_of_blockLength? {cs : List Char} {n : Nat} (h : blockLength? cs = some n) :
    ∃ body, cs.take n = body ++ ['*', '/'] := by
  induction cs using blockLength?.induct generalizing n with
  | case1 => cases h
  | case2 tail =>
    cases h
    exact ⟨[], rfl⟩
  | case3 c cs hne ih =>
    rw [blockLength?.eq_3 _ _ hne] at h
    obtain ⟨m, hm, rfl⟩ := Option.map_eq_some_iff.1 h
    obtain ⟨body, hbody⟩ := ih hm
    exact ⟨c :: body, by rw [List.take_succ_cons, hbody, List.cons_append]⟩

/-- Without a length, a block comment has no closing mark. -/
lemma ne_of_blockLength?_eq_none {cs body : List Char} (h : blockLength? cs = none) :
    cs ≠ body ++ ['*', '/'] := by
  induction cs using blockLength?.induct generalizing body with
  | case1 =>
    intro heq
    cases body <;> cases heq
  | case2 tail => cases h
  | case3 c cs hne ih =>
    rw [blockLength?.eq_3 _ _ hne, Option.map_eq_none_iff] at h
    intro heq
    cases body with
    | nil =>
      cases heq
      exact hne [] rfl rfl
    | cons b body =>
      cases heq
      exact ih h rfl

/-- What begins with a slash fits the characters that it takes. -/
lemma fits_munchSlash (cs : List Char) :
    (munchSlash cs).1.Fits ('/' :: cs.take (munchSlash cs).2) (cs.drop (munchSlash cs).2) := by
  fun_cases munchSlash cs with
  | case1 r =>
    intro c hc
    rw [Nat.add_comm, List.take_succ_cons, take_length_takeWhile, List.mem_cons,
      List.mem_cons] at hc
    rcases hc with rfl | rfl | hc
    · decide
    · decide
    · simpa using List.mem_takeWhile_imp hc
  | case2 r n hn =>
    obtain ⟨body, hbody⟩ := exists_of_blockLength? hn
    exact ⟨body, by rw [Nat.add_comm, List.take_succ_cons, hbody]⟩
  | case3 r hn =>
    refine ⟨?_, List.drop_length⟩
    rintro ⟨body, hbody⟩
    rw [List.take_length] at hbody
    cases hbody
    exact ne_of_blockLength?_eq_none hn rfl
  | case4 tail => rfl
  | case5 => rfl

/-- A literal fits its characters if the lexeme does for which it is taken. -/
lemma fits_munchLiteral {lexeme : Lexeme} {text rest : List Char} (length? : Option Nat)
    (h : lexeme.Fits text rest) : (munchLiteral lexeme length?).1.Fits text rest := by
  cases length? with
  | none => trivial
  | some n => exact h

/-- A mark that stands at the front is spelled there. -/
lemma spelling_eq_of_atStart? {c : Char} {cs : List Char} {m : Mark}
    (h : Mark.atStart? (c :: cs) = some m) :
    m.spelling = c :: cs.take (m.spelling.length - 1) := by
  rw [Mark.atStart?] at h
  have hfits : m.spelling.isPrefixOf (c :: cs) := by simpa using List.find?_some h
  have htake := List.prefix_iff_eq_take.1 (List.isPrefixOf_iff_prefix.1 hfits)
  cases hs : m.spelling with
  | nil => cases m <;> cases hs
  | cons d ds =>
    rw [hs] at htake
    exact htake

/-- The text that a lexeme takes is one that it can have. -/
lemma fits_munch (c : Char) (cs : List Char) :
    (munch c cs).1.Fits (c :: cs.take (munch c cs).2) (cs.drop (munch c cs).2) := by
  fun_cases munch c cs with
  | case1 hgap =>
    intro d hd
    rw [take_length_takeWhile, List.mem_cons] at hd
    rcases hd with rfl | hd
    · exact hgap
    · exact List.mem_takeWhile_imp hd
  | case2 _ hlf =>
    intro d hd
    cases List.mem_singleton.1 hd
    rw [hlf]
    rfl
  | case3 _ _ hcr =>
    intro d hd
    rcases List.mem_cons.1 hd with rfl | hd
    · rw [hcr]
      rfl
    · split at hd
      · next hlf =>
        cases cs with
        | nil => cases hlf
        | cons e cs =>
          cases hlf
          cases List.mem_singleton.1 hd
          rfl
      · cases hd
  | case4 _ _ _ hword =>
    show isWord _
    rw [take_length_takeWhile, isWord, hword, Bool.true_and, List.all_eq_true]
    exact fun d hd => List.mem_takeWhile_imp hd
  | case5 => trivial
  | case6 _ _ _ _ _ hslash =>
    rw [hslash]
    exact fits_munchSlash cs
  | case7 | case8 | case9 => exact fits_munchLiteral _ trivial
  | case10 _ _ _ _ _ _ _ _ _ hmark =>
    rw [hmark]
    rfl
  | case11 _ _ _ _ _ _ _ _ _ _ m hm => exact spelling_eq_of_atStart? hm
  | case12 => trivial

/-- A keyword is spelled as it is found. -/
lemma spelling_of_ofSpelling? {s : String} {k : Keyword} (h : Keyword.ofSpelling? s = some k) :
    k.spelling = s := by
  rw [Keyword.ofSpelling?] at h
  simpa using List.find?_some h

/-- A word is a keyword or an identifier. -/
lemma exists_token_of_isWord {text : List Char} (h : isWord text) :
    ∃ t, Lexeme.word.token? (String.ofList text) = some t ∧ t.IsWritten text ∧ t ≠ .error := by
  have htext : (String.ofList text).toList = text := String.toList_ofList
  rw [Lexeme.token?]
  cases hk : Keyword.ofSpelling? (String.ofList text) with
  | some k =>
    refine ⟨_, rfl, ?_, nofun⟩
    rw [Token.IsWritten, spelling_of_ofSpelling? hk, htext]
  | none =>
    rw [Word.ofText?, dif_pos (htext.symm ▸ h)]
    exact ⟨_, rfl, htext, nofun⟩

/-! ## Rows of lexemes -/

/-- The span of a text that begins at an offset. -/
def Span.ofText (offset : Nat) (text : List Char) : Span :=
  ⟨offset, offset + byteSize text⟩

/-- What a lexeme at an offset contributes. The first argument says whether a line end before the
lexeme would stand for a semicolon, and the last one says that of a line end after it. -/
inductive Piece : Bool → Nat → List Char → List Char → List Item → Bool → Prop
  | blank (h : ∀ c ∈ text, isGap c) : Piece armed offset text rest [] armed
  | byteOrderMark : Piece armed 0 ['\uFEFF'] rest [] armed
  | lineEnd (h : ∀ c ∈ text, isLineBreak c) : Piece false offset text rest [] false
  | statementEnd (h : ∀ c ∈ text, isLineBreak c) :
      Piece true offset text rest [.semicolon offset] false
  | comment (hclosed : kind = .block → IsClosedBlock text)
      (hline : armed = true → ∀ c ∈ text, ¬ isLineBreak c) :
      Piece armed offset text rest
        [.comment kind (.ofText offset text) (String.ofList text)] armed
  | commentOverBreak (hclosed : IsClosedBlock text)
      (hbreak : firstLineBreak? offset text = some at_) :
      Piece true offset text rest
        [.comment .block (.ofText offset text) (String.ofList text), .semicolon at_] false
  | unclosed (h : ¬ IsClosedBlock text) :
      Piece armed offset text []
        [.comment .block (.ofText offset text) (String.ofList text),
          .fault (.ofText offset text) .unterminatedComment] false
  | fault : Piece armed offset text rest [.fault (.ofText offset text) f] false
  | token (hwritten : t.IsWritten text) (ht : t ≠ .error) :
      Piece armed offset text rest [.token ⟨.ofText offset text, t⟩] t.endsStatement

/-- Items that a text at an offset is cut into. -/
inductive Lexes : Bool → Nat → List Char → List Item → Prop
  | finished : Lexes false offset [] []
  | statementEnd : Lexes true offset [] [.semicolon offset]
  | piece (hne : text ≠ []) (h : Piece armed offset text rest items armed')
      (hrest : Lexes armed' (offset + byteSize text) rest is) :
      Lexes armed offset (text ++ rest) (items ++ is)

/-- Where no first line break is found there is none. -/
lemma eq_none_of_firstLineBreak? {offset : Nat} {text : List Char}
    (h : firstLineBreak? offset text = none) : ∀ c ∈ text, ¬ isLineBreak c := by
  induction text generalizing offset with
  | nil => exact fun c hc => nomatch hc
  | cons d text ih =>
    rw [firstLineBreak?] at h
    split at h
    · cases h
    · next hd =>
      intro c hc
      rcases List.mem_cons.1 hc with rfl | hc
      · exact hd
      · exact ih h c hc

/-- A lexeme contributes a piece. -/
lemma piece_itemsOf {lexeme : Lexeme} {text rest : List Char} (armed : Bool) (offset : Nat)
    (hfits : lexeme.Fits text rest) :
    Piece armed offset text rest (itemsOf armed lexeme offset text).1
      (itemsOf armed lexeme offset text).2 := by
  cases lexeme with
  | blank => exact .blank hfits
  | lineEnd =>
    cases armed with
    | false => exact .lineEnd hfits
    | true => exact .statementEnd hfits
  | lineComment => exact .comment nofun fun _ => hfits
  | blockComment =>
    cases armed with
    | false => exact .comment (fun _ => hfits) nofun
    | true =>
      -- a comment over a line break ends the statement
      cases hbreak : firstLineBreak? offset text with
      | none =>
        simp only [itemsOf, hbreak]
        exact .comment (fun _ => hfits) fun _ => eq_none_of_firstLineBreak? hbreak
      | some at_ =>
        simp only [itemsOf, hbreak]
        exact .commentOverBreak hfits hbreak
  | unclosedComment =>
    obtain ⟨hopen, rfl⟩ := hfits
    exact .unclosed hopen
  | byteOrderMark =>
    cases hfits
    simp only [itemsOf]
    split
    · next h =>
      subst h
      exact .byteOrderMark
    · exact .fault
  | stray => exact .fault
  | word =>
    obtain ⟨t, ht, hwritten, hne⟩ := exists_token_of_isWord hfits
    simp only [itemsOf, ht]
    exact .token hwritten hne
  | number | runeLit | stringLit | rawStringLit => exact .token String.toList_ofList nofun
  | mark m => exact .token hfits nofun

/-- The tokens are the same wherever they stand. -/
lemma Lexed.map_token_clampedTokens (l : Lexed) :
    l.clampedTokens.map Placed.token = l.tokens.map Placed.token := by
  rw [clampedTokens, List.map_map]
  rfl

/-- The lexer cuts a text into lexemes. -/
theorem lexes_itemsFrom (armed : Bool) (offset : Nat) (cs : List Char) :
    Lexes armed offset cs (itemsFrom armed offset cs) := by
  induction armed, offset, cs using itemsFrom.induct with
  | case1 offset =>
    rw [itemsFrom, if_pos rfl]
    exact .statementEnd
  | case2 armed offset h =>
    rw [itemsFrom, if_neg h, eq_false_of_ne_true h]
    exact .finished
  | case3 armed offset c cs lexeme n hmunch text items armed' hitems ih =>
    have hfits := fits_munch c cs
    rw [hmunch] at hfits
    have hpiece := piece_itemsOf armed offset hfits
    rw [hitems] at hpiece
    have hlexes := Lexes.piece (List.cons_ne_nil _ _) hpiece ih
    rw [List.cons_append, List.take_append_drop] at hlexes
    rw [itemsFrom, hmunch]
    dsimp only
    rw [hitems]
    exact hlexes

/-! ## The lexeme ahead -/

section

variable {armed : Bool} {offset : Nat}

/-- The items of a text are those of its first lexeme and of the rest. -/
lemma itemsFrom_cons (armed : Bool) (offset : Nat) (c : Char) (cs : List Char) :
    itemsFrom armed offset (c :: cs) =
      let text := c :: cs.take (munch c cs).2
      let found := itemsOf armed (munch c cs).1 offset text
      found.1 ++ itemsFrom found.2 (offset + byteSize text) (cs.drop (munch c cs).2) := by
  rw [itemsFrom]

/-- A line feed stands for a semicolon if the lexeme before it can end a statement. -/
lemma itemsFrom_lineFeed (armed : Bool) (offset : Nat) (cs : List Char) :
    itemsFrom armed offset ('\n' :: cs) =
      (if armed then [.semicolon offset] else []) ++ itemsFrom false (offset + 1) cs := by
  rw [itemsFrom]
  rfl

/-- A carriage return and the line feed after it are one line end. -/
lemma itemsFrom_return (armed : Bool) (offset : Nat) (cs : List Char) :
    itemsFrom armed offset ('\r' :: '\n' :: cs) =
      (if armed then [.semicolon offset] else []) ++ itemsFrom false (offset + 2) cs :=
  itemsFrom_cons ..

/-- White space within a line contributes nothing. -/
lemma itemsFrom_gaps {gaps : List Char} (hgaps : ∀ c ∈ gaps, isGap c) {c : Char} {cs : List Char}
    (hc : isGap c = false) :
    itemsFrom armed offset (gaps ++ c :: cs) =
      itemsFrom armed (offset + byteSize gaps) (c :: cs) := by
  cases gaps with
  | nil => rfl
  | cons g gaps =>
    obtain ⟨hg, hgaps⟩ := List.forall_mem_cons.1 hgaps
    have hmunch : munch g (gaps ++ c :: cs) = (.blank, gaps.length) := by
      rw [munch, if_pos hg, List.takeWhile_append_of_pos hgaps,
        List.takeWhile_cons_of_neg (by simpa), List.append_nil]
    rw [List.cons_append, itemsFrom_cons, hmunch]
    dsimp only
    rw [List.take_left, List.drop_left]
    rfl

/-- The lexeme at the start of a line comment is the whole comment. -/
lemma munch_lineComment (cs : List Char) : munch '/' ('/' :: cs) =
    (.lineComment, 1 + (cs.takeWhile (!isLineBreak ·)).length) :=
  rfl

/-- A line comment goes to the end of its line. -/
lemma itemsFrom_lineComment (cs : List Char) :
    itemsFrom armed offset ('/' :: '/' :: cs) =
      .comment .line (.ofText offset ('/' :: '/' :: cs.takeWhile (!isLineBreak ·)))
        (String.ofList ('/' :: '/' :: cs.takeWhile (!isLineBreak ·))) ::
      itemsFrom armed (offset + byteSize ('/' :: '/' :: cs.takeWhile (!isLineBreak ·)))
        (cs.dropWhile (!isLineBreak ·)) := by
  have hdrop : (cs.takeWhile (!isLineBreak ·) ++ cs.dropWhile (!isLineBreak ·)).drop
      (cs.takeWhile (!isLineBreak ·)).length = cs.dropWhile (!isLineBreak ·) := List.drop_left
  rw [List.takeWhile_append_dropWhile] at hdrop
  rw [itemsFrom_cons, munch_lineComment, Nat.add_comm 1, List.take_succ_cons, List.drop_succ_cons,
    take_length_takeWhile, hdrop]
  rfl

end

/-! ## Marks of comments -/

/-- The text begins with the mark of a comment, and nothing that takes a line goes on to the
next. -/
inductive IsMarked : CommentKind → List Char → Prop
  | line (h : ∀ c ∈ body, ¬ isLineBreak c) : IsMarked .line ('/' :: '/' :: body)
  | block : IsMarked .block ('/' :: '*' :: body)

/-- A lexeme that is a comment has such a text. -/
def Lexeme.Marks (text : List Char) : Lexeme → Prop
  | .lineComment => IsMarked .line text
  | .blockComment | .unclosedComment => IsMarked .block text
  | _ => True

/-- A literal is marked as the lexeme is for which it is taken. -/
lemma marks_munchLiteral {lexeme : Lexeme} {text : List Char} (length? : Option Nat)
    (h : lexeme.Marks text) : (munchLiteral lexeme length?).1.Marks text := by
  cases length? with
  | none => trivial
  | some n => exact h

/-- What begins with a slash is marked as a comment if it is one. -/
lemma marks_munchSlash (cs : List Char) :
    (munchSlash cs).1.Marks ('/' :: cs.take (munchSlash cs).2) := by
  fun_cases munchSlash cs with
  | case1 r =>
    show IsMarked .line _
    rw [Nat.add_comm, List.take_succ_cons, take_length_takeWhile]
    exact .line fun c hc => by simpa using List.mem_takeWhile_imp hc
  | case2 r n =>
    rw [Nat.add_comm, List.take_succ_cons]
    exact .block
  | case3 r =>
    rw [List.take_length]
    exact .block
  | case4 | case5 => trivial

/-- A lexeme that is a comment is marked as one. -/
lemma marks_munch (c : Char) (cs : List Char) :
    (munch c cs).1.Marks (c :: cs.take (munch c cs).2) := by
  fun_cases munch c cs with
  | case6 _ _ _ _ _ hslash =>
    rw [hslash]
    exact marks_munchSlash cs
  | case7 | case8 | case9 => exact marks_munchLiteral _ trivial
  | _ => trivial

/-- A comment among the items of a marked lexeme is marked. -/
lemma isMarked_of_mem_itemsOf {armed : Bool} {lexeme : Lexeme} {offset : Nat} {text : List Char}
    {kind : CommentKind} {span : Span} {s : String} (h : lexeme.Marks text)
    (hi : .comment kind span s ∈ (itemsOf armed lexeme offset text).1) :
    IsMarked kind s.toList := by
  cases lexeme with
  | lineComment | unclosedComment =>
    simp only [itemsOf, List.mem_cons, Item.comment.injEq, reduceCtorEq, List.not_mem_nil,
      or_false] at hi
    obtain ⟨rfl, -, rfl⟩ := hi
    rw [String.toList_ofList]
    exact h
  | blockComment =>
    -- with a semicolon after it or without, the comment is the same
    have hi : Item.comment kind span s = .comment .block ⟨offset, offset + byteSize text⟩
        (String.ofList text) := by
      simp only [itemsOf] at hi
      split at hi <;> simpa using hi
    cases hi
    rw [String.toList_ofList]
    exact h
  | blank | stray => simp [itemsOf] at hi
  | lineEnd | byteOrderMark | word | number | runeLit | stringLit | rawStringLit | mark =>
    simp only [itemsOf] at hi
    split at hi <;> simp at hi

/-- The comments of a text are marked. -/
lemma isMarked_of_mem_itemsFrom {armed : Bool} {offset : Nat} {cs : List Char}
    {kind : CommentKind} {span : Span} {s : String}
    (hi : .comment kind span s ∈ itemsFrom armed offset cs) : IsMarked kind s.toList := by
  induction armed, offset, cs using itemsFrom.induct with
  | case1 offset =>
    rw [itemsFrom, if_pos rfl] at hi
    cases List.mem_singleton.1 hi
  | case2 armed offset h =>
    rw [itemsFrom, if_neg h] at hi
    cases hi
  | case3 armed offset c cs lexeme n hmunch text items armed' hitems ih =>
    rw [itemsFrom, hmunch] at hi
    dsimp only at hi
    rw [hitems] at hi
    rcases List.mem_append.1 hi with hi | hi
    · have hmarks := marks_munch c cs
      rw [hmunch] at hmarks
      exact isMarked_of_mem_itemsOf hmarks (hitems ▸ hi)
    · exact ih hi

end GoService.Source
