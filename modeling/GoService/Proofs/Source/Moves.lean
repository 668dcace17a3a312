import GoService.Proofs.Source.Moved
import GoService.Source.Parser.Cursor

/-!
# Parsers in a moved source

`Moves` says that a parser does in a moved source what it does in the source: it reads as many
tokens, reports the same problems and notes the same nodes, each of them moved, and its result is
moved. The rules are those of sequences of parsers. What a parser does next may depend on the tokens
ahead, but not on the text of a string literal (`Moves.peekAt`), since that changes.
-/

namespace GoService.Source

/-- What is known of the moved source. -/
def Context.moved (f : Nat → Nat) (ctx : Context) : Context :=
  ⟨ctx.lines.moved f, ctx.groups.map (CommentGroup.moved f), f ctx.endOffset⟩

/-- The cursor in the moved source. -/
def Cursor.moved (f : Nat → Nat) (c : Cursor) : Cursor :=
  ⟨c.rest.map (Placed.moved f), c.pos, f c.prevEnd, c.diagnostics.map (Diagnostic.moved f),
    c.built.map (NodeLabel.moved f), c.gaveUp⟩

namespace Token

variable {t : Token}

/-- A token without a text of its own is the same in either form, and no other token becomes it. -/
lemma returned_eq_iff {u : Token} (hu : u.text? = none) : t.returned = u ↔ t = u := by
  cases u with
  | keyword | mark | error => cases t <;> simp [returned]
  | _ => cases hu

/-- Opening brackets are the same in either form. -/
lemma isOpening_returned (t : Token) : t.returned.isOpening = t.isOpening := by
  cases t <;> rfl

/-- Closing brackets are the same in either form. -/
lemma isClosing_returned (t : Token) : t.returned.isClosing = t.isClosing := by
  cases t <;> rfl

/-- String literals are string literals in either form. -/
lemma isString_returned (t : Token) : t.returned.isString = t.isString := by
  cases t <;> rfl

end Token

namespace Parser

variable {α β : Type} {f : Nat → Nat}

/-- In a moved source the second parser does what the first one does in the source. -/
def Moves (f : Nat → Nat) (φ : α → α) (m m' : Parser α) : Prop :=
  ∀ ctx c, m' (ctx.moved f) (c.moved f) = (φ (m ctx c).1, (m ctx c).2.moved f)

section

variable {φ : α → α} {ψ : β → β} {m m' : Parser α} {k k' : α → Parser β}

/-! ## Rules -/

/-- A result that is at hand is moved. -/
lemma Moves.pure {a a' : α} (h : a' = φ a) : Moves f φ (pure a) (pure a') := by
  subst h
  exact fun _ _ => rfl

/-- Steps that are done alike are done alike one after another. -/
lemma Moves.bind (hm : Moves f φ m m') (hk : ∀ a, Moves f ψ (k a) (k' (φ a))) :
    Moves f ψ (m >>= k) (m' >>= k') := by
  intro ctx c
  show (k' _ _ _ : _ × _) = _
  rw [hm ctx c]
  exact hk _ ctx _

/-- What has no place is the same in a moved source. -/
lemma Moves.bindSame (hm : Moves f id m m') (hk : ∀ a, Moves f ψ (k a) (k' a)) :
    Moves f ψ (m >>= k) (m' >>= k') :=
  hm.bind hk

/-- The token some places ahead is the same, in the other form. -/
lemma token_moved (n : Nat) (c : Cursor) : (c.moved f).rest[n]?.map Placed.token =
    (c.rest[n]?.map Placed.token).map Token.returned := by
  rw [Cursor.moved, List.getElem?_map, Option.map_map, Option.map_map]
  rfl

/-- A look ahead finds the same token, in the other form. -/
lemma moves_peekAt (n : Nat) : Moves f (Option.map Token.returned) (peekAt n) (peekAt n) :=
  fun _ c => congrArg (·, c.moved f) (token_moved n c)

/-- The text of a string literal must not matter to what follows. -/
lemma Moves.peekAt {n : Nat} {k k' : Option Token → Parser β}
    (hliteral : ∀ s, k' (some (.stringLit (returnedLiteral s))) = k' (some (.stringLit s)) ∧
      k' (some (.rawStringLit (returnedLiteral s))) = k' (some (.rawStringLit s)))
    (hk : ∀ t, Moves f ψ (k t) (k' t)) :
    Moves f ψ (Parser.peekAt n >>= k) (Parser.peekAt n >>= k') := by
  have hreturned (t : Option Token) : k' (t.map Token.returned) = k' t := by
    match t with
    | some (.stringLit s) => exact (hliteral s).1
    | some (.rawStringLit s) => exact (hliteral s).2
    | none | some (.ident _) | some (.number _) | some (.runeLit _) | some (.keyword _)
    | some (.mark _) | some .error => rfl
  refine (moves_peekAt n).bind fun t => ?_
  rw [hreturned]
  exact hk t

/-- A look at the next token is followed alike if what follows does not depend on the text of a
string literal. -/
lemma Moves.peek {k k' : Option Token → Parser β}
    (hliteral : ∀ s, k' (some (.stringLit (returnedLiteral s))) = k' (some (.stringLit s)) ∧
      k' (some (.rawStringLit (returnedLiteral s))) = k' (some (.rawStringLit s)))
    (hk : ∀ t, Moves f ψ (k t) (k' t)) :
    Moves f ψ (Parser.peek >>= k) (Parser.peek >>= k') :=
  .peekAt hliteral hk

end

/-! ## Steps of parsers -/

/-- The cursor is moved. -/
lemma moves_get : Moves f (Cursor.moved f) get get :=
  fun _ _ => rfl

/-- What is known of the source is moved. -/
lemma moves_read : Moves f (Context.moved f) read read :=
  fun _ _ => rfl

/-- As many tokens remain. -/
lemma moves_remaining : Moves f id remaining remaining :=
  fun _ _ => congrArg (·, _) (List.length_map ..)

/-- The position is the same. -/
lemma moves_position : Moves f id position position :=
  fun _ _ => rfl

/-- The place of the next token is moved. -/
lemma moves_nextSpan : Moves f (Span.moved f) nextSpan nextSpan := by
  rintro ctx ⟨rest, pos, prevEnd, diagnostics, built, gaveUp⟩
  cases rest with
  | nil => rfl
  | cons t ts => rfl

/-- The place since a start is moved. -/
lemma moves_spanSince (hf : StrictMono f) (start : Span) :
    Moves f (Span.moved f) (spanSince start) (spanSince (start.moved f)) := by
  intro ctx c
  have hstop : max (f c.prevEnd) (f start.start) = f (max c.prevEnd start.start) :=
    hf.monotone.map_max.symm
  exact congrArg (fun stop => (Span.mk (f start.start) stop, c.moved f)) hstop

/-- A token is read alike. -/
lemma next_moved (c : Cursor) : (c.moved f).next = c.next.moved f := by
  obtain ⟨rest, pos, prevEnd, diagnostics, built, gaveUp⟩ := c
  cases rest with
  | nil => rfl
  | cons t ts => rfl

/-- Tokens are read alike. -/
lemma advance_moved (n : Nat) (c : Cursor) : (c.moved f).advance n = (c.advance n).moved f := by
  induction n generalizing c with
  | zero => rfl
  | succ n ih => rw [Cursor.advance, Cursor.advance, next_moved, ih]

/-- The next token is taken alike. -/
lemma moves_take : Moves f (Span.moved f) take take :=
  moves_nextSpan.bind fun _ =>
    Moves.bindSame (fun _ c => congrArg (PUnit.unit, ·) (next_moved c)) fun _ => .pure rfl

/-- A report is made alike. -/
lemma moves_report (span : Span) (problem : Problem) :
    Moves f id (report span problem) (report (span.moved f) problem.returned) :=
  fun _ _ => rfl

/-- A node is noted alike. -/
lemma moves_note (kind : NodeKind) (span : Span) :
    Moves f id (note kind span) (note kind (span.moved f)) :=
  fun _ _ => rfl

/-- A node since a start is noted alike. -/
lemma moves_noteSince (hf : StrictMono f) (kind : NodeKind) (start : Span) :
    Moves f (Span.moved f) (noteSince kind start) (noteSince kind (start.moved f)) :=
  (moves_spanSince hf start).bind fun span => (moves_note kind span).bindSame fun _ => .pure rfl

/-- What is found is the same, in the other form. -/
lemma moves_found (hf : StrictMono f) : Moves f Found.returned found found := by
  apply (moves_peekAt 0).bind
  intro t
  cases t with
  | none => exact .pure rfl
  | some t =>
    apply moves_nextSpan.bind
    intro span
    refine .pure ?_
    have hiff : t.returned = .mark .semi ∧ (span.moved f).isEmpty ↔
        t = .mark .semi ∧ span.isEmpty := by
      rw [Span.isEmpty_moved hf, Token.returned_eq_iff rfl]
    rw [if_congr hiff rfl rfl]
    split
    · rfl
    · rfl

/-- A complaint is made alike. -/
lemma moves_complain (hf : StrictMono f) (what : String) :
    Moves f id (complain what) (complain what) :=
  moves_nextSpan.bind fun _ => (moves_found hf).bind fun _ => moves_report _ _

/-- A token without a text of its own is accepted alike. -/
lemma moves_accept {t : Token} (ht : t.text? = none) :
    Moves f (Option.map (Span.moved f)) (accept t) (accept t) := by
  apply (moves_peekAt 0).bind
  intro next
  have hiff : next.map Token.returned = some t ↔ next = some t := by
    cases next with
    | none => exact Iff.rfl
    | some u => simp [Token.returned_eq_iff ht]
  rw [if_congr hiff rfl rfl]
  split
  · exact moves_take.bind fun _ => .pure rfl
  · exact .pure rfl

/-- A token without a text of its own is required alike. -/
lemma moves_require (hf : StrictMono f) {t : Token} (ht : t.text? = none) (what : String) :
    Moves f (Option.map (Span.moved f)) (require t what) (require t what) := by
  apply (moves_accept ht).bind
  intro o
  cases o with
  | some span => exact .pure rfl
  | none => exact (moves_complain hf what).bindSame fun _ => .pure rfl

/-- A token without a text of its own is required for its place alike. -/
lemma moves_requireSpan (hf : StrictMono f) {t : Token} (ht : t.text? = none) (what : String) :
    Moves f (Span.moved f) (requireSpan t what) (requireSpan t what) := by
  apply (moves_require hf ht what).bind
  intro o
  cases o with
  | some span => exact .pure rfl
  | none => exact moves_nextSpan

/-- An identifier is required alike. -/
lemma moves_requireIdent (hf : StrictMono f) (what : String) :
    Moves f (Ident.moved f) (requireIdent what) (requireIdent what) := by
  apply Moves.peek fun _ => ⟨rfl, rfl⟩
  intro t
  split
  · exact moves_take.bind fun _ => .pure rfl
  · exact (moves_complain hf what).bindSame fun _ => moves_nextSpan.bind fun _ => .pure rfl

/-- The end of a statement is read alike. -/
lemma moves_endStatement (hf : StrictMono f) : Moves f id endStatement endStatement := by
  apply Moves.peek fun _ => ⟨rfl, rfl⟩
  intro t
  split
  · exact moves_take.bind fun _ => .pure rfl
  · exact .pure rfl
  · exact .pure rfl
  · exact .pure rfl
  · exact (moves_complain hf _).bindSame fun _ => .pure rfl

/-! ## Runs of tokens -/

/-- The token of a moved token is that token in the other form. -/
lemma token_placed (p : Placed) : (p.moved f).token = p.token.returned :=
  rfl

/-- The length of a run with its brackets is the same. -/
lemma balancedLength_moved (depth : Nat) (ts : List Placed) :
    balancedLength depth (ts.map (Placed.moved f)) = balancedLength depth ts := by
  induction ts generalizing depth with
  | nil => rfl
  | cons t ts ih =>
    simp only [List.map_cons, balancedLength, token_placed, Token.isOpening_returned,
      Token.isClosing_returned, ih]

/-- The next end of a statement is as far away. -/
lemma terminatorDistance_moved (depth : Nat) (ts : List Placed) :
    terminatorDistance depth (ts.map (Placed.moved f)) = terminatorDistance depth ts := by
  have hsemi (t : Token) : t.returned = .mark .semi ↔ t = .mark .semi := Token.returned_eq_iff rfl
  induction ts generalizing depth with
  | nil => rfl
  | cons t ts ih =>
    simp only [List.map_cons, terminatorDistance, token_placed, Token.isOpening_returned,
      Token.isClosing_returned, hsemi, ih]

/-- A token begins a declaration in either form. -/
lemma beginsDecl_returned (t : Token) : beginsDecl t.returned = beginsDecl t := by
  cases t <;> rfl

/-- The next declaration is as far away. -/
lemma declDistance_moved (depth : Nat) (ts : List Placed) :
    declDistance depth (ts.map (Placed.moved f)) = declDistance depth ts := by
  induction ts generalizing depth with
  | nil => rfl
  | cons t ts ih =>
    simp only [List.map_cons, declDistance, token_placed, Token.isOpening_returned,
      Token.isClosing_returned, beginsDecl_returned, ih]

/-- The token after a run is the same, in the other form. -/
lemma tokenAfterRun?_moved (depth : Nat) (ts : List Placed) :
    tokenAfterRun? depth (ts.map (Placed.moved f)) =
      (tokenAfterRun? depth ts).map Token.returned := by
  induction ts generalizing depth with
  | nil => rfl
  | cons t ts ih =>
    have hhead : (ts.map (Placed.moved f)).head?.map Placed.token =
        (ts.head?.map Placed.token).map Token.returned := by
      cases ts with
      | nil => rfl
      | cons => rfl
    simp only [List.map_cons, tokenAfterRun?, token_placed, Token.isOpening_returned,
      Token.isClosing_returned, ih, hhead]
    split
    · rfl
    · split
      · exact (apply_ite ..).symm
      · rfl

/-- Tokens are passed over alike if they are counted alike. -/
lemma moves_advance {n : Cursor → Nat} (h : ∀ c, n (c.moved f) = n c) :
    Moves f id (modify fun c => c.advance (n c)) (modify fun c => c.advance (n c)) := by
  intro ctx c
  refine congrArg (PUnit.unit, ·) ?_
  show (c.moved f).advance (n (c.moved f)) = (c.advance (n c)).moved f
  rw [h, advance_moved]

/-- A run is skipped alike. -/
lemma moves_skipRun (hf : StrictMono f) : Moves f (Span.moved f) skipRun skipRun := by
  apply moves_nextSpan.bind
  intro start
  apply moves_get.bind
  intro c
  have hlength : balancedLength 0 (c.moved f).rest = balancedLength 0 c.rest :=
    balancedLength_moved ..
  rw [hlength]
  obtain ⟨n, left⟩ := balancedLength 0 c.rest
  apply (moves_advance fun _ => rfl).bindSame
  intro _
  dsimp only
  split
  · exact (moves_report start _).bindSame fun _ => moves_spanSince hf start
  · exact moves_spanSince hf start

/-- A statement is skipped alike. -/
lemma moves_skipStatement (hf : StrictMono f) :
    Moves f (Span.moved f) skipStatement skipStatement :=
  moves_nextSpan.bind fun start =>
    (moves_advance fun c => terminatorDistance_moved 0 c.rest).bindSame fun _ =>
      moves_spanSince hf start

/-- To the next declaration tokens are skipped alike. -/
lemma moves_skipToDecl : Moves f id skipToDecl skipToDecl := by
  rintro ctx ⟨rest, pos, prevEnd, diagnostics, built, gaveUp⟩
  cases rest with
  | nil => rfl
  | cons t ts =>
    have hdistance : declDistance (depthAfter (t.moved f).token) (ts.map (Placed.moved f)) =
        declDistance (depthAfter t.token) ts := by
      rw [declDistance_moved, depthAfter, depthAfter, token_placed, Token.isOpening_returned]
    refine congrArg (PUnit.unit, ·) ?_
    show Cursor.advance (1 + declDistance (depthAfter (t.moved f).token) (ts.map _)) _ =
      (Cursor.advance (1 + declDistance (depthAfter t.token) ts) _).moved f
    rw [hdistance, ← advance_moved]

/-- The end of a declaration is read alike. -/
lemma moves_finishDecl (hf : StrictMono f) : Moves f id finishDecl finishDecl := by
  apply (moves_endStatement hf).bindSame
  intro ended
  cases ended with
  | true => exact .pure rfl
  | false => exact moves_skipToDecl

/-- The end of a statement, with what is left of it, is read alike. -/
lemma moves_finishStatement (hf : StrictMono f) : Moves f id finishStatement finishStatement := by
  apply (moves_endStatement hf).bindSame
  intro ended
  cases ended with
  | true => exact .pure rfl
  | false => exact (moves_skipStatement hf).bind fun _ => .pure rfl

/-- A complaint at a place that was not left is made alike. -/
lemma moves_complainIfStuck (hf : StrictMono f) (before : Nat) (what : String) :
    Moves f id (complainIfStuck before what) (complainIfStuck before what) := by
  apply moves_position.bindSame
  intro pos
  split
  · exact moves_complain hf what
  · exact .pure rfl

/-- At a place that was not left a token is skipped alike. -/
lemma moves_skipIfStuck (before : Nat) :
    Moves f id (skipIfStuck before) (skipIfStuck before) := by
  apply moves_position.bindSame
  intro pos
  split
  · exact moves_take.bind fun _ => .pure rfl
  · exact .pure rfl

/-! ## Comment groups -/

/-- The documentation above is the same, moved. -/
lemma moves_docAbove (hf : StrictMono f) :
    Moves f (Option.map (CommentGroup.moved f)) docAbove docAbove := by
  apply moves_read.bind
  intro ctx
  apply moves_position.bindSame
  intro pos
  apply moves_nextSpan.bind
  intro span
  have hline : (ctx.moved f).lines.line (span.moved f).start = ctx.lines.line span.start :=
    LineTable.line_moved hf ..
  refine .pure ?_
  rw [hline]
  exact CommentGroup.lead?_moved ..

/-- The comment beside is the same, moved. -/
lemma moves_commentBeside :
    Moves f (Option.map (CommentGroup.moved f)) commentBeside commentBeside :=
  fun ctx c => congrArg (·, c.moved f) (CommentGroup.trailing?_moved ctx.groups c.pos)

/-! ## Conditions and loops -/

/-- A test of the next token comes out alike if it does not depend on the text of a literal. -/
lemma moves_nextIs {p : Token → Bool} (hp : ∀ t, p t.returned = p t) :
    Moves f id (nextIs p) (nextIs p) := by
  apply (moves_peekAt 0).bind
  intro t
  cases t with
  | none => exact .pure rfl
  | some t => exact .pure (hp t)

/-- The marks are the same in either form. -/
lemma beq_mark_returned (m : Mark) (t : Token) : (t.returned == .mark m) = (t == .mark m) := by
  rw [Bool.eq_iff_iff, beq_iff_eq, beq_iff_eq, Token.returned_eq_iff rfl]

/-- The test for a mark comes out alike. -/
lemma moves_nextIsMark (m : Mark) :
    Moves f id (nextIs (· == .mark m)) (nextIs (· == .mark m)) :=
  moves_nextIs (beq_mark_returned m)

/-- The test for a mark or the end comes out alike. -/
lemma moves_atEndOr (m : Mark) : Moves f id (atEndOr m) (atEndOr m) := by
  apply (moves_peekAt 0).bind
  intro t
  cases t with
  | none => exact .pure rfl
  | some t => exact .pure (beq_mark_returned m t)

section

variable {φ : α → α} {item : Parser α}

/-- An item that may be missing is read alike. -/
lemma moves_whenever {cond : Parser Bool} (hcond : Moves f id cond cond)
    (hitem : Moves f φ item item) :
    Moves f (Option.map φ) (whenever cond item) (whenever cond item) := by
  apply hcond.bindSame
  intro b
  cases b with
  | false => exact .pure rfl
  | true => exact hitem.bind fun _ => .pure rfl

/-- To give up is the same. -/
lemma moves_giveUp : Moves f (List.map φ) giveUp giveUp :=
  fun _ _ => rfl

/-- Items between separators are read alike, for any bound. -/
lemma moves_separated {stop : Parser Bool} {separator : Mark} (hstop : Moves f id stop stop)
    (hitem : Moves f φ item item) (fuel : Nat) :
    Moves f (List.map φ) (separated stop separator item fuel)
      (separated stop separator item fuel) := by
  induction fuel with
  | zero => exact moves_giveUp
  | succ fuel ih =>
    apply hstop.bindSame
    intro stops
    cases stops with
    | true => exact .pure rfl
    | false =>
      apply hitem.bind
      intro a
      apply (moves_accept rfl).bind
      intro o
      cases o with
      | some span => exact ih.bind fun _ => .pure rfl
      | none => exact .pure rfl

/-- Items between separators are read alike. -/
lemma moves_separatedBy {stop : Parser Bool} {separator : Mark} (hstop : Moves f id stop stop)
    (hitem : Moves f φ item item) :
    Moves f (List.map φ) (separatedBy stop separator item) (separatedBy stop separator item) :=
  moves_remaining.bindSame fun _ => moves_separated hstop hitem _

/-- Items up to a closing mark are read alike, for any bound. -/
lemma moves_members {closer : Mark} (hitem : Moves f φ item item) (fuel : Nat) :
    Moves f (List.map φ) (members closer item fuel) (members closer item fuel) := by
  induction fuel with
  | zero => exact moves_giveUp
  | succ fuel ih =>
    apply Moves.peek fun _ => ⟨rfl, rfl⟩
    intro t
    cases t with
    | none => exact .pure rfl
    | some t =>
      dsimp only
      split
      · exact .pure rfl
      · split
        · exact moves_take.bind fun _ => ih
        · apply moves_position.bindSame
          intro before
          apply hitem.bind
          intro a
          exact (moves_skipIfStuck before).bindSame fun _ => ih.bind fun _ => .pure rfl

/-- Items up to a closing mark are read alike. -/
lemma moves_membersUpTo {closer : Mark} (hitem : Moves f φ item item) :
    Moves f (List.map φ) (membersUpTo closer item) (membersUpTo closer item) :=
  moves_remaining.bindSame fun _ => moves_members hitem _

end

end Parser

end GoService.Source
