import GoService.Proofs.Source.Lexemes
import GoService.Proofs.Source.Width
import GoService.Proofs.Text.Slices
import Mathlib.Data.List.Pairwise

/-!
# Where tokens and comments stand

The lexer loses nothing and makes nothing up (`lex_accounts`): tokens and comments stand one after
another where they are written, between them there is only white space, and each piece of text that
is no token has its diagnostic. A piece keeps to its text (`Piece.within`, `Piece.filler`), and so a
row of pieces keeps to the source.
-/

namespace GoService.Source

/-! ## Spans of texts -/

/-- The span cuts a text, and not an empty one, out of a source. -/
def Span.Cuts (src text : List Char) (s : Span) : Prop :=
  ∃ before after, src = before ++ text ++ after ∧ text ≠ [] ∧ s = .ofText (byteSize before) text

/-- The span holds the byte at an offset. -/
def Span.Holds (s : Span) (offset : Nat) : Prop :=
  s.start ≤ offset ∧ offset < s.stop

/-- Whether a token is a semicolon that a line end stands for: such a token has no text. -/
def Placed.isInserted (p : Placed) : Bool :=
  p.token == .mark .semi && p.span.isEmpty

/-- Only a semicolon may be inserted. -/
lemma not_inserted_of_token {p : Placed} (h : p.token ≠ .mark .semi) : p.isInserted = false := by
  rw [Placed.isInserted, beq_false_of_ne h, Bool.false_and]

/-- A block comment that is not brought to its end. -/
def Comment.IsUnclosed (c : Comment) : Prop :=
  c.kind = .block ∧ ¬ IsClosedBlock c.text.toList

/-! ## Items -/

/-- The place of an item. -/
def Item.span : Item → Span
  | .token p => p.span
  | .semicolon offset => .emptyAt offset
  | .comment _ span _ => span
  | .fault span _ => span

/-- Whether the item has a text of its own. -/
def Item.hasText : Item → Bool
  | .semicolon _ => false
  | _ => true

/-- The first item may come before the second one. A semicolon may lie within the comment before
it. -/
inductive Item.Precedes : Item → Item → Prop
  | apart (h : a.span.stop ≤ b.span.start) : Precedes a b
  | inserted : Precedes a (.semicolon offset)
  | unclosed (h : ¬ IsClosedBlock text.toList) :
      Precedes (.comment .block place text) (.fault place .unterminatedComment)

/-- The item is what a source has at its place. -/
def Item.StandsIn (src : List Char) : Item → Prop
  | .token p => ∃ text, p.span.Cuts src text ∧ p.token.IsWritten text ∧ p.token ≠ .error
  | .semicolon _ => True
  | .comment _ span text => span.Cuts src text.toList
  | .fault span _ => ∃ text, span.Cuts src text

/-- A character at an offset that belongs to no token and no comment. -/
def IsFiller (offset : Nat) (c : Char) : Prop :=
  isGap c ∨ isLineBreak c ∨ (c = '\uFEFF' ∧ offset = 0)

section Pieces

variable {armed armed' : Bool} {offset : Nat} {text rest : List Char} {items : List Item}

/-- The first line break is within the text. -/
lemma bounds_of_firstLineBreak? {at_ : Nat} (h : firstLineBreak? offset text = some at_) :
    offset ≤ at_ ∧ at_ < offset + byteSize text := by
  induction text generalizing offset with
  | nil => cases h
  | cons c text ih =>
    have hpos := c.utf8Size_pos
    rw [firstLineBreak?] at h
    rw [byteSize]
    split at h
    · cases h
      omega
    · have hbounds := ih h
      omega

/-- The items of a piece lie within its text. -/
lemma Piece.within (h : Piece armed offset text rest items armed') {i : Item} (hi : i ∈ items) :
    offset ≤ i.span.start ∧ i.span.stop ≤ offset + byteSize text := by
  cases h with
  | blank | byteOrderMark | lineEnd => cases hi
  | statementEnd =>
    cases List.mem_singleton.1 hi
    exact ⟨Nat.le_refl _, Nat.le_add_right ..⟩
  | comment | fault | token =>
    cases List.mem_singleton.1 hi
    exact ⟨Nat.le_refl _, Nat.le_refl _⟩
  | commentOverBreak _ hbreak =>
    rcases List.mem_cons.1 hi with rfl | hi
    · exact ⟨Nat.le_refl _, Nat.le_refl _⟩
    · cases List.mem_singleton.1 hi
      obtain ⟨hstart, hstop⟩ := bounds_of_firstLineBreak? hbreak
      exact ⟨hstart, Nat.le_of_lt hstop⟩
  | unclosed =>
    rcases List.mem_cons.1 hi with rfl | hi
    · exact ⟨Nat.le_refl _, Nat.le_refl _⟩
    · cases List.mem_singleton.1 hi
      exact ⟨Nat.le_refl _, Nat.le_refl _⟩

/-- The items of a lexeme come one after another. -/
lemma Piece.pairwise (h : Piece armed offset text rest items armed') :
    items.Pairwise Item.Precedes := by
  cases h with
  | blank | byteOrderMark | lineEnd => exact .nil
  | statementEnd | comment | fault | token => exact List.pairwise_singleton ..
  | commentOverBreak => exact List.pairwise_pair.2 .inserted
  | unclosed h =>
    refine List.pairwise_pair.2 (.unclosed ?_)
    rwa [String.toList_ofList]

/-- The items of a lexeme stand in the source. -/
lemma Piece.standsIn {src before after : List Char} (hsrc : src = before ++ text ++ after)
    (hne : text ≠ []) (h : Piece armed (byteSize before) text rest items armed') {i : Item}
    (hi : i ∈ items) : i.StandsIn src := by
  have hcuts : (Span.ofText (byteSize before) text).Cuts src text :=
    ⟨before, after, hsrc, hne, rfl⟩
  have htext : (String.ofList text).toList = text := String.toList_ofList
  generalize hoffset : byteSize before = offset at h hcuts
  cases h with
  | blank | byteOrderMark | lineEnd => cases hi
  | statementEnd =>
    cases List.mem_singleton.1 hi
    trivial
  | comment =>
    cases List.mem_singleton.1 hi
    show Span.Cuts _ _ _
    rwa [htext]
  | fault =>
    cases List.mem_singleton.1 hi
    exact ⟨text, hcuts⟩
  | token hwritten ht =>
    cases List.mem_singleton.1 hi
    exact ⟨text, hcuts, hwritten, ht⟩
  | commentOverBreak =>
    rcases List.mem_cons.1 hi with rfl | hi
    · show Span.Cuts _ _ _
      rwa [htext]
    · cases List.mem_singleton.1 hi
      trivial
  | unclosed =>
    rcases List.mem_cons.1 hi with rfl | hi
    · show Span.Cuts _ _ _
      rwa [htext]
    · cases List.mem_singleton.1 hi
      exact ⟨text, hcuts⟩

/-- A piece whose text belongs to no item has filler for a text. -/
lemma Piece.filler (h : Piece armed offset text rest items armed') :
    (∃ i ∈ items, i.hasText ∧ i.span = .ofText offset text) ∨
      ∀ before c after, text = before ++ c :: after → IsFiller (offset + byteSize before) c := by
  cases h with
  | blank h => exact .inr fun before c after htext => .inl (h c (by simp [htext]))
  | byteOrderMark =>
    refine .inr fun before c after htext => ?_
    cases before with
    | nil =>
      cases htext
      exact .inr (.inr ⟨rfl, rfl⟩)
    | cons b before => cases before <;> cases htext
  | lineEnd h | statementEnd h =>
    exact .inr fun before c after htext => .inr (.inl (h c (by simp [htext])))
  | comment | commentOverBreak | unclosed | fault | token =>
    exact .inl ⟨_, List.mem_cons_self .., rfl, rfl⟩

end Pieces

/-! ## Rows -/

section Rows

variable {armed : Bool} {offset : Nat} {cs : List Char} {is : List Item}

/-- Items from an offset on start there or later. -/
lemma Lexes.offset_le (h : Lexes armed offset cs is) {i : Item} (hi : i ∈ is) :
    offset ≤ i.span.start := by
  induction h with
  | finished => cases hi
  | statementEnd =>
    cases List.mem_singleton.1 hi
    exact Nat.le_refl _
  | piece hne h hrest ih =>
    rcases List.mem_append.1 hi with hi | hi
    · exact (h.within hi).1
    · exact Nat.le_trans (Nat.le_add_right ..) (ih hi)

/-- Items come one after another. -/
lemma Lexes.pairwise (h : Lexes armed offset cs is) : is.Pairwise Item.Precedes := by
  induction h with
  | finished => exact .nil
  | statementEnd => exact List.pairwise_singleton ..
  | piece hne h hrest ih =>
    refine List.pairwise_append.2 ⟨h.pairwise, ih, fun a ha b hb => ?_⟩
    exact .apart (Nat.le_trans (h.within ha).2 (hrest.offset_le hb))

/-- Items stand in the source. -/
lemma Lexes.standsIn {src before : List Char} (h : Lexes armed offset cs is)
    (hsrc : src = before ++ cs) (hoffset : byteSize before = offset) {i : Item} (hi : i ∈ is) :
    i.StandsIn src := by
  induction h generalizing before with
  | finished => cases hi
  | statementEnd =>
    cases List.mem_singleton.1 hi
    trivial
  | @piece text armed offset rest items armed' is hne h hrest ih =>
    rw [← List.append_assoc] at hsrc
    rcases List.mem_append.1 hi with hi | hi
    · subst hoffset
      exact h.standsIn hsrc hne hi
    · exact ih hsrc (by rw [byteSize_append, hoffset]) hi

/-- What is in no item that has a text is filler. -/
lemma Lexes.filler {before after : List Char} {c : Char} (h : Lexes armed offset cs is)
    (hcs : cs = before ++ c :: after)
    (hout : ∀ i ∈ is, i.hasText → ¬ i.span.Holds (offset + byteSize before)) :
    IsFiller (offset + byteSize before) c := by
  induction h generalizing before with
  | finished | statementEnd => cases before <;> cases hcs
  | @piece text armed offset rest items armed' is hne h hrest ih =>
    rcases List.append_eq_append_iff.1 hcs with ⟨mid, hbefore, hrest'⟩ | ⟨mid, htext, hmid⟩
    · subst hbefore
      rw [byteSize_append, ← Nat.add_assoc] at hout ⊢
      exact ih hrest' fun i hi => hout i (List.mem_append_right _ hi)
    · cases mid with
      | nil =>
        rw [List.append_nil] at htext
        subst htext
        have hrest' : rest = [] ++ c :: after := hmid.symm
        exact ih hrest' fun i hi => hout i (List.mem_append_right _ hi)
      | cons d mid =>
        cases hmid
        rcases h.filler with ⟨i, hi, htexts, hspan⟩ | hfiller
        · refine absurd ?_ (hout i (List.mem_append_left _ hi) htexts)
          have hpos := c.utf8Size_pos
          rw [hspan, htext]
          simp only [Span.Holds, Span.ofText, byteSize_append, byteSize]
          omega
        · exact hfiller _ _ _ htext

/-- A comment that is not closed has its fault, and no text is left after it. -/
lemma Lexes.unclosed {span : Span} {text : String} (h : Lexes armed offset cs is)
    (hi : .comment .block span text ∈ is) (hopen : ¬ IsClosedBlock text.toList) :
    .fault span .unterminatedComment ∈ is ∧ span.stop = offset + byteSize cs := by
  induction h with
  | finished => cases hi
  | statementEnd => cases List.mem_singleton.1 hi
  | @piece text' armed offset rest items armed' is hne h hrest ih =>
    rcases List.mem_append.1 hi with hi | hi
    · cases h with
      | blank | byteOrderMark | lineEnd => cases hi
      | statementEnd | fault | token => cases List.mem_singleton.1 hi
      | comment hclosed =>
        cases List.mem_singleton.1 hi
        rw [String.toList_ofList] at hopen
        exact absurd (hclosed rfl) hopen
      | commentOverBreak hclosed =>
        rcases List.mem_cons.1 hi with heq | hi
        · cases heq
          rw [String.toList_ofList] at hopen
          exact absurd hclosed hopen
        · cases List.mem_singleton.1 hi
      | unclosed =>
        rcases List.mem_cons.1 hi with heq | hi
        · cases heq
          rw [List.append_nil]
          exact ⟨List.mem_append_left _ (List.mem_cons_of_mem _ (List.mem_cons_self ..)), rfl⟩
        · cases List.mem_singleton.1 hi
    · obtain ⟨hfault, hstop⟩ := ih hi
      rw [byteSize_append, ← Nat.add_assoc]
      exact ⟨List.mem_append_right _ hfault, hstop⟩

end Rows

/-! ## Tokens, comments and diagnostics -/

/-- A comment is that of an item, and is followed by as many tokens as the items before it make. -/
lemma exists_of_mem_commentsOf {next : Nat} {is : List Item} {c : Comment}
    (h : c ∈ commentsOf next is) : ∃ before after,
      is = before ++ .comment c.kind c.span c.text :: after ∧
      c.next = next + (before.filterMap Item.placed?).length := by
  induction is generalizing next with
  | nil => cases h
  | cons i is ih =>
    cases i with
    | comment kind span text =>
      rcases List.mem_cons.1 h with rfl | h
      · exact ⟨[], is, rfl, rfl⟩
      · obtain ⟨before, after, rfl, hnext⟩ := ih h
        exact ⟨_ :: before, after, rfl, hnext⟩
    | token | semicolon | fault =>
      obtain ⟨before, after, rfl, hnext⟩ := ih h
      refine ⟨_ :: before, after, rfl, ?_⟩
      rw [hnext, Nat.add_assoc, Nat.add_comm 1]
      rfl

/-- The comment of an item is among the comments. -/
lemma exists_comment_of_mem {is : List Item} {kind : CommentKind} {span : Span} {text : String}
    (next : Nat) (h : .comment kind span text ∈ is) : ∃ c ∈ commentsOf next is, c.span = span := by
  induction is generalizing next with
  | nil => cases h
  | cons i is ih =>
    rcases List.mem_cons.1 h with rfl | hrest
    · exact ⟨_, List.mem_cons_self .., rfl⟩
    · cases i with
      | token | semicolon | fault => exact ih _ hrest
      | comment =>
        obtain ⟨c, hc, hspan⟩ := ih next hrest
        exact ⟨c, List.mem_cons_of_mem _ hc, hspan⟩

/-- The index that a comment has splits the tokens into those before and those after it. -/
lemma split_of_mem_comments {src : List Char} {c : Comment} (h : c ∈ (findings src).comments) :
    ∃ before after, itemsFrom false 0 src = before ++ .comment c.kind c.span c.text :: after ∧
      (findings src).tokens.take c.next = before.filterMap Item.placed? ∧
      (findings src).tokens.drop c.next = after.filterMap Item.placed? := by
  obtain ⟨before, after, hitems, hnext⟩ := exists_of_mem_commentsOf h
  have htokens : (findings src).tokens =
      before.filterMap Item.placed? ++ after.filterMap Item.placed? := by
    rw [findings, hitems, List.filterMap_append]
    rfl
  rw [Nat.zero_add] at hnext
  refine ⟨before, after, hitems, ?_, ?_⟩
  · rw [htokens, hnext, List.take_left]
  · rw [htokens, hnext, List.drop_left]

/-- The token of an item has the place of the item. -/
lemma span_of_placed? {i : Item} {p : Placed} (h : i.placed? = some p) : p.span = i.span := by
  cases i <;> cases h <;> rfl

/-- An item with a token that is not inserted has a text. -/
lemma hasText_of_not_inserted {i : Item} {p : Placed} (h : i.placed? = some p)
    (hp : p.isInserted = false) : i.hasText := by
  cases i with
  | token | fault | comment => rfl
  | semicolon offset =>
    cases h
    simp [Placed.isInserted, Span.isEmpty, Span.size, Span.emptyAt] at hp

/-- An item with a text comes after all of an item before it. -/
lemma Item.Precedes.placed {a b : Item} {p q : Placed} (h : a.Precedes b)
    (ha : a.placed? = some p) (hb : b.placed? = some q) (hq : q.isInserted = false) :
    p.span.stop ≤ q.span.start := by
  cases h with
  | apart h =>
    rw [span_of_placed? ha, span_of_placed? hb]
    exact h
  | inserted => cases hasText_of_not_inserted hb hq
  | unclosed => cases ha

/-- Comments come one after another as their items do. -/
lemma comments_pairwise {is : List Item} (h : is.Pairwise Item.Precedes) (next : Nat) :
    (commentsOf next is).Pairwise fun a b => a.span.stop ≤ b.span.start := by
  induction is generalizing next with
  | nil => exact .nil
  | cons i is ih =>
    obtain ⟨hi, his⟩ := List.pairwise_cons.1 h
    cases i with
    | token | semicolon | fault => exact ih his _
    | comment kind span text =>
      refine List.pairwise_cons.2 ⟨fun c hc => ?_, ih his _⟩
      obtain ⟨before, after, rfl, -⟩ := exists_of_mem_commentsOf hc
      cases hi _ (List.mem_append_right _ (List.mem_cons_self ..)) with
      | apart h => exact h

/-- The reports of the lexer are at the faulty tokens. -/
lemma spans_of_faults {src : List Char} {is : List Item} (h : ∀ i ∈ is, i.StandsIn src) :
    (is.filterMap Item.diagnostic?).map (·.span) =
      ((is.filterMap Item.placed?).filter (·.token == .error)).map (·.span) := by
  induction is with
  | nil => rfl
  | cons i is ih =>
    have hrest := ih fun i hi => h i (List.mem_cons_of_mem _ hi)
    cases i with
    | comment | semicolon => exact hrest
    | fault span f => exact congrArg (span :: ·) hrest
    | token p =>
      obtain ⟨text, -, -, hne⟩ := h _ (List.mem_cons_self ..)
      show _ = ((p :: is.filterMap Item.placed?).filter (·.token == .error)).map (·.span)
      rw [List.filter_cons_of_neg (by simpa using hne)]
      exact hrest

/-- Tokens, comments and diagnostics account for a source: they have all of it but white space, and
nothing else. -/
structure Lexed.Accounts (src : List Char) (l : Lexed) : Prop where
  tokens : ∀ t ∈ l.tokens, t.isInserted = false →
    ∃ text, t.span.Cuts src text ∧ t.token.IsWritten text
  comments : ∀ c ∈ l.comments, c.span.Cuts src c.text.toList
  /-- Tokens do not overlap and are in the order of the source. -/
  tokens_apart : (l.tokens.filter (!·.isInserted)).Pairwise fun a b => a.span.stop ≤ b.span.start
  comments_apart : l.comments.Pairwise fun a b => a.span.stop ≤ b.span.start
  /-- The tokens before the index of a comment end before it. -/
  before : ∀ c ∈ l.comments, ∀ t ∈ l.tokens.take c.next, t.span.stop ≤ c.span.start
  /-- The tokens from that index on begin after the comment; one that is not closed is itself what
  is no token. -/
  after : ∀ c ∈ l.comments, ∀ t ∈ l.tokens.drop c.next, t.isInserted = false →
    c.span.stop ≤ t.span.start ∨ (c.IsUnclosed ∧ t = ⟨c.span, .error⟩)
  unclosed : ∀ c ∈ l.comments, c.IsUnclosed →
    c.span.stop = byteSize src ∧ ⟨c.span, .error⟩ ∈ l.tokens
  /-- What is in no token and no comment is white space. -/
  filler : ∀ before c after, src = before ++ c :: after →
    (∀ t ∈ l.tokens, ¬ t.span.Holds (byteSize before)) →
    (∀ comment ∈ l.comments, ¬ comment.span.Holds (byteSize before)) →
    c ∈ [' ', '\t', '\x0c', '\r', '\n'] ∨ (c = '\uFEFF' ∧ before = [])
  /-- Each diagnostic is that of a piece of text that is no token. -/
  diagnostics : l.diagnostics.map (·.span) = (l.tokens.filter (·.token == .error)).map (·.span)
  lexical : ∀ d ∈ l.diagnostics, ∃ fault, d.problem = .lexical fault

/-- What may be passed over is a blank, a line break or the byte order mark. -/
lemma mem_filler {offset : Nat} {c : Char} (h : IsFiller offset c) :
    c ∈ [' ', '\t', '\x0c', '\r', '\n'] ∨ (c = '\uFEFF' ∧ offset = 0) := by
  rcases h with h | h | h
  · simp only [isGap, Bool.or_eq_true, beq_iff_eq] at h
    rcases h with (rfl | rfl) | rfl <;> exact .inl (by decide)
  · simp only [isLineBreak, Bool.or_eq_true, beq_iff_eq] at h
    rcases h with rfl | rfl <;> exact .inl (by decide)
  · exact .inr h

section

variable {src : List Char} {c : Comment} {t : Placed}

/-- The items of a source stand in it. -/
lemma standsIn_items {i : Item} (hi : i ∈ itemsFrom false 0 src) : i.StandsIn src :=
  (lexes_itemsFrom false 0 src).standsIn (List.nil_append src).symm rfl hi

/-- A comment of a source is that of an item. -/
lemma mem_items_of_mem_comments (hc : c ∈ (findings src).comments) :
    .comment c.kind c.span c.text ∈ itemsFrom false 0 src := by
  obtain ⟨before, after, hitems, -⟩ := exists_of_mem_commentsOf hc
  rw [hitems]
  exact List.mem_append_right _ (List.mem_cons_self ..)

/-- A token that is written stands where it says, with its text. -/
lemma cuts_of_mem_tokens (ht : t ∈ (findings src).tokens) (hreal : t.isInserted = false) :
    ∃ text, t.span.Cuts src text ∧ t.token.IsWritten text := by
  obtain ⟨i, hi, hplaced⟩ := List.mem_filterMap.1 ht
  have hstand := standsIn_items hi
  cases i with
  | token p =>
    cases hplaced
    obtain ⟨text, hcuts, hwritten, -⟩ := hstand
    exact ⟨text, hcuts, hwritten⟩
  | fault span f =>
    cases hplaced
    obtain ⟨text, hcuts⟩ := hstand
    exact ⟨text, hcuts, trivial⟩
  | semicolon => cases hasText_of_not_inserted hplaced hreal
  | comment => cases hplaced

/-- A comment of a source has its text at its place. -/
lemma cuts_of_mem_comments (hc : c ∈ (findings src).comments) : c.span.Cuts src c.text.toList :=
  standsIn_items (mem_items_of_mem_comments hc)

/-- The written tokens of a source come one after another. -/
lemma written_apart (src : List Char) : ((findings src).tokens.filter (!·.isInserted)).Pairwise
    fun a b => a.span.stop ≤ b.span.start := by
  rw [findings, List.pairwise_filter]
  refine (lexes_itemsFrom false 0 src).pairwise.filterMap _ fun a b hab p hp q hq => ?_
  intro _ hreal
  exact hab.placed hp hq (by simpa using hreal)

/-- The comments of a source come one after another. -/
lemma comments_apart (src : List Char) :
    (findings src).comments.Pairwise fun a b => a.span.stop ≤ b.span.start :=
  comments_pairwise (lexes_itemsFrom false 0 src).pairwise 0

/-- The tokens before the index of a comment end before it. -/
lemma stop_le_of_mem_take (hc : c ∈ (findings src).comments)
    (ht : t ∈ (findings src).tokens.take c.next) : t.span.stop ≤ c.span.start := by
  have hpairwise := (lexes_itemsFrom false 0 src).pairwise
  obtain ⟨before, after, hitems, htake, -⟩ := split_of_mem_comments hc
  rw [htake] at ht
  obtain ⟨i, hi, hplaced⟩ := List.mem_filterMap.1 ht
  rw [hitems] at hpairwise
  rw [span_of_placed? hplaced]
  cases (List.pairwise_append.1 hpairwise).2.2 i hi _ (List.mem_cons_self ..) with
  | apart h => exact h

/-- The tokens from the index of a comment on begin after it, but for what stands for a comment that
is not closed. -/
lemma le_start_of_mem_drop (hc : c ∈ (findings src).comments)
    (ht : t ∈ (findings src).tokens.drop c.next) (hreal : t.isInserted = false) :
    c.span.stop ≤ t.span.start ∨ (c.IsUnclosed ∧ t = ⟨c.span, .error⟩) := by
  have hpairwise := (lexes_itemsFrom false 0 src).pairwise
  obtain ⟨before, after, hitems, -, hdrop⟩ := split_of_mem_comments hc
  rw [hdrop] at ht
  obtain ⟨i, hi, hplaced⟩ := List.mem_filterMap.1 ht
  rw [hitems] at hpairwise
  have hprecedes := (List.pairwise_cons.1 (List.pairwise_append.1 hpairwise).2.1).1 i hi
  generalize hkind : c.kind = kind at hprecedes
  generalize htext : c.text = text at hprecedes
  cases hprecedes with
  | apart h =>
    rw [span_of_placed? hplaced]
    exact .inl h
  | inserted => cases hasText_of_not_inserted hplaced hreal
  | unclosed hopen =>
    cases hplaced
    exact .inr ⟨⟨hkind, htext ▸ hopen⟩, rfl⟩

/-- What is in no token and no comment is white space. -/
lemma blank_of_outside {before after : List Char} {c : Char} (hsrc : src = before ++ c :: after)
    (htokens : ∀ t ∈ (findings src).tokens, ¬ t.span.Holds (byteSize before))
    (hcomments : ∀ comment ∈ (findings src).comments, ¬ comment.span.Holds (byteSize before)) :
    c ∈ [' ', '\t', '\x0c', '\r', '\n'] ∨ (c = '\uFEFF' ∧ before = []) := by
  have hfiller : IsFiller (0 + byteSize before) c := by
    refine (lexes_itemsFrom false 0 src).filler hsrc fun i hi htext => ?_
    rw [Nat.zero_add]
    cases i with
    | semicolon => cases htext
    | token p => exact htokens p (List.mem_filterMap.2 ⟨_, hi, rfl⟩)
    | fault span f => exact htokens ⟨span, .error⟩ (List.mem_filterMap.2 ⟨_, hi, rfl⟩)
    | comment kind span text =>
      obtain ⟨comment, hmem, rfl⟩ := exists_comment_of_mem 0 hi
      exact hcomments comment hmem
  refine (mem_filler hfiller).imp_right fun h => ⟨h.1, ?_⟩
  by_contra hne
  have hpos := byteSize_pos hne
  omega

/-- Each lexical diagnostic is that of a piece of text that is no token. -/
lemma spans_of_diagnostics (src : List Char) : (findings src).diagnostics.map (·.span) =
    ((findings src).tokens.filter (·.token == .error)).map (·.span) :=
  spans_of_faults fun _ hi => standsIn_items hi

end

/-! ## What is kept -/

/-- The text at a place is the one that the place cuts out. -/
lemma Span.Cuts.textAt_eq {src text : List Char} {s : Span} (h : s.Cuts src text) :
    textAt src s = String.ofList text := by
  obtain ⟨before, after, rfl, -, rfl⟩ := h
  rw [textAt, Span.ofText, sliceBytes_append, Option.getD_some]

/-- At a span without bytes there is no text. -/
lemma textAt_of_le {src : List Char} {s : Span} (h : s.stop ≤ s.start) : textAt src s = "" := by
  rw [textAt]
  cases hslice : sliceBytes src s.start s.stop with
  | none => rfl
  | some text =>
    obtain ⟨before, after, -, hstart, hstop⟩ := sliceBytes_eq_some.1 hslice
    have htext : text = [] := byteSize_eq_zero.1 (by omega)
    rw [htext]
    rfl

/-- Items lie within the text. -/
lemma Lexes.stop_le {armed : Bool} {offset : Nat} {cs : List Char} {is : List Item}
    (h : Lexes armed offset cs is) {i : Item} (hi : i ∈ is) :
    i.span.stop ≤ offset + byteSize cs := by
  induction h with
  | finished => cases hi
  | statementEnd =>
    cases List.mem_singleton.1 hi
    exact Nat.le_add_right ..
  | piece hne h hrest ih =>
    rw [byteSize_append, ← Nat.add_assoc]
    rcases List.mem_append.1 hi with hi | hi
    · exact Nat.le_trans (h.within hi).2 (Nat.le_add_right ..)
    · exact ih hi

/-- An item does not run backwards. -/
lemma Item.StandsIn.forward {src : List Char} {i : Item} (h : i.StandsIn src) :
    i.span.start ≤ i.span.stop := by
  have hcuts {text : List Char} {s : Span} (h : s.Cuts src text) : s.start ≤ s.stop := by
    obtain ⟨before, after, -, -, rfl⟩ := h
    exact Nat.le_add_right ..
  cases i with
  | token p =>
    obtain ⟨text, h, -⟩ := h
    exact hcuts h
  | semicolon offset => exact Nat.le_refl offset
  | comment => exact hcuts h
  | fault =>
    obtain ⟨text, h⟩ := h
    exact hcuts h

section

variable {src : List Char}

/-- In a source of less than 4 GiB no place is cut off. -/
lemma clamp_of_mem_items (hsrc : byteSize src ≤ Span.maxOffset) {i : Item}
    (hi : i ∈ itemsFrom false 0 src) : i.span.clamp = i.span := by
  have hstop := (lexes_itemsFrom false 0 src).stop_le hi
  rw [Nat.zero_add] at hstop
  have hstop := Nat.le_trans hstop hsrc
  exact Span.clamp_eq (Nat.le_trans (standsIn_items hi).forward hstop) hstop

/-- A comment of such a source is kept as it is. -/
lemma kept_of_mem_comments (hsrc : byteSize src ≤ Span.maxOffset) {c : Comment}
    (hc : c ∈ (findings src).comments) : c.kept src = c := by
  have hspan : c.span.clamp = c.span := clamp_of_mem_items hsrc (mem_items_of_mem_comments hc)
  rw [Comment.kept, hspan, (cuts_of_mem_comments hc).textAt_eq, String.ofList_toList]

/-- What is kept of a source of less than 4 GiB is all that there is. -/
lemma lex_eq_findings (hsrc : byteSize src ≤ Span.maxOffset) : lex src = findings src := by
  have hcomments : ∀ c ∈ (findings src).comments, c.kept src = id c :=
    fun c hc => kept_of_mem_comments hsrc hc
  have hdiagnostics : ∀ d ∈ (findings src).diagnostics, d.clamp = id d := by
    intro d hd
    obtain ⟨i, hi, hdiagnostic⟩ := List.mem_filterMap.1 hd
    cases i with
    | fault span f =>
      cases hdiagnostic
      exact congrArg (Diagnostic.mk · _) (clamp_of_mem_items hsrc hi)
    | token | semicolon | comment => cases hdiagnostic
  rw [lex, List.map_congr_left hcomments, List.map_congr_left hdiagnostics, List.map_id,
    List.map_id]

/-- The parser of a source of less than 4 GiB sees the tokens where they are. -/
lemma clampedTokens_eq (hsrc : byteSize src ≤ Span.maxOffset) :
    (lex src).clampedTokens = (lex src).tokens := by
  have htokens : ∀ t ∈ (lex src).tokens, t.clamp = id t := by
    intro t ht
    obtain ⟨i, hi, hplaced⟩ := List.mem_filterMap.1 ht
    have hspan := clamp_of_mem_items hsrc hi
    rw [← span_of_placed? hplaced] at hspan
    exact congrArg (Placed.mk · _) hspan
  rw [Lexed.clampedTokens, List.map_congr_left htokens, List.map_id]

end

/-- In a source of less than 4 GiB the lexer loses nothing and makes nothing up. -/
theorem lex_accounts (src : List Char) (hsrc : byteSize src ≤ Span.maxOffset) :
    (lex src).Accounts src := by
  rw [lex_eq_findings hsrc]
  constructor
  case tokens => exact fun t ht hreal => cuts_of_mem_tokens ht hreal
  case comments => exact fun c hc => cuts_of_mem_comments hc
  case tokens_apart => exact written_apart src
  case comments_apart => exact comments_apart src
  case before => exact fun c hc t ht => stop_le_of_mem_take hc ht
  case after => exact fun c hc t ht hreal => le_start_of_mem_drop hc ht hreal
  case unclosed =>
    intro c hc hopen
    have hitem := mem_items_of_mem_comments hc
    rw [hopen.1] at hitem
    obtain ⟨hfault, hstop⟩ := (lexes_itemsFrom false 0 src).unclosed hitem hopen.2
    rw [Nat.zero_add] at hstop
    exact ⟨hstop, List.mem_filterMap.2 ⟨_, hfault, rfl⟩⟩
  case filler =>
    exact fun before c after hsrc htokens hcomments => blank_of_outside hsrc htokens hcomments
  case diagnostics => exact spans_of_diagnostics src
  case lexical =>
    intro d hd
    obtain ⟨i, -, hi⟩ := List.mem_filterMap.1 hd
    cases i with
    | fault span f =>
      cases hi
      exact ⟨f, rfl⟩
    | token | semicolon | comment => cases hi

/-- A comment in the middle of a text, and one that is not closed. -/
theorem comments_accounted : byteSize "\uFEFFx := 1 // é\n/* open".toList ≤ Span.maxOffset ∧
    (lex "\uFEFFx := 1 // é\n/* open".toList).comments.length = 2 ∧
    (lex "\uFEFFx := 1 // é\n/* open".toList).Accounts "\uFEFFx := 1 // é\n/* open".toList :=
  have hsize : byteSize "\uFEFFx := 1 // é\n/* open".toList ≤ Span.maxOffset := by decide
  ⟨hsize, by decide +kernel, lex_accounts _ hsize⟩

namespace Distant

/-- A package with a comment above it, behind so many blanks that the places of its parts are not
told apart. Nothing may compute with it. -/
@[irreducible]
def chars : List Char :=
  List.replicate (Span.maxOffset + 1) ' ' ++ "\n// doc\npackage p\n".toList

/-- The comment, at its exact place. -/
def comment : Comment :=
  ⟨.line, ⟨Span.maxOffset + 2, Span.maxOffset + 8⟩, "// doc", 0⟩

/-- The name of the package. -/
def name : Word :=
  ⟨"p", rfl⟩

/-- What there is behind the blanks. -/
lemma findings_chars : findings chars =
    ⟨[⟨⟨Span.maxOffset + 9, Span.maxOffset + 16⟩, .keyword .packageKw⟩,
        ⟨⟨Span.maxOffset + 17, Span.maxOffset + 18⟩, .ident name⟩,
        ⟨.emptyAt (Span.maxOffset + 18), .mark .semi⟩],
      [comment], []⟩ := by
  have hgaps : ∀ d ∈ List.replicate (Span.maxOffset + 1) ' ', isGap d := by
    intro d hd
    rw [List.eq_of_mem_replicate hd]
    rfl
  have hitems : itemsFrom false 0 chars =
      itemsFrom false (Span.maxOffset + 1) "\n// doc\npackage p\n".toList := by
    rw [chars, show "\n// doc\npackage p\n".toList =
      '\n' :: "// doc\npackage p\n".toList from rfl, itemsFrom_gaps hgaps rfl,
      byteSize_replicate _ rfl, Nat.zero_add]
  rw [findings, hitems]
  decide +kernel

/-- The comment is kept without its place and its text. -/
lemma comments_chars : (lex chars).comments = [⟨.line, .emptyAt Span.maxOffset, "", 0⟩] := by
  have hclamp : comment.span.clamp = .emptyAt Span.maxOffset := by decide
  rw [lex, findings_chars]
  dsimp only
  rw [List.map_singleton, Comment.kept, hclamp, textAt_of_le (Nat.le_refl _)]
  rfl

/-- A comment behind the largest offset is kept as no text of the source. -/
theorem comment_unaccounted : ¬ (lex chars).Accounts chars := by
  intro h
  obtain ⟨before, after, -, hne, -⟩ := h.comments _ (comments_chars ▸ List.mem_singleton_self _)
  exact hne rfl

end Distant

/-! ## The order of tokens -/

/-- Tokens in the order of the source, none of which overlap. -/
structure InOrder (tokens : List Placed) : Prop where
  forward : ∀ p ∈ tokens, p.span.start ≤ p.span.stop
  apart : tokens.Pairwise fun p q => p.span.stop ≤ q.span.start

/-- What is in order stays in order when some of it is left out. -/
lemma InOrder.sublist {tokens row : List Placed} (h : InOrder tokens) (hsub : row.Sublist tokens) :
    InOrder row :=
  ⟨fun p hp => h.forward p (hsub.subset hp), h.apart.sublist hsub⟩

/-- A piece makes at most one token. -/
lemma Piece.pairwise_placed {armed armed' : Bool} {offset : Nat} {text rest : List Char}
    {items : List Item} {R : Placed → Placed → Prop}
    (h : Piece armed offset text rest items armed') :
    (items.filterMap Item.placed?).Pairwise R := by
  cases h with
  | blank | byteOrderMark | lineEnd | comment => exact .nil
  | statementEnd | commentOverBreak | unclosed | fault | token =>
    exact List.pairwise_singleton ..

/-- Tokens are in order, also the semicolons that line ends stand for. -/
lemma Lexes.inOrder {armed : Bool} {offset : Nat} {cs src before : List Char} {is : List Item}
    (h : Lexes armed offset cs is) (hsrc : src = before ++ cs)
    (hoffset : byteSize before = offset) : InOrder (is.filterMap Item.placed?) := by
  refine ⟨fun p hp => ?_, ?_⟩
  · obtain ⟨i, hi, hplaced⟩ := List.mem_filterMap.1 hp
    rw [span_of_placed? hplaced]
    exact (h.standsIn hsrc hoffset hi).forward
  · clear hsrc hoffset
    induction h with
    | finished => exact .nil
    | statementEnd => exact List.pairwise_singleton ..
    | piece hne h hrest ih =>
      rw [List.filterMap_append]
      refine List.pairwise_append.2 ⟨h.pairwise_placed, ih, fun p hp q hq => ?_⟩
      obtain ⟨i, hi, hpi⟩ := List.mem_filterMap.1 hp
      obtain ⟨j, hj, hqj⟩ := List.mem_filterMap.1 hq
      rw [span_of_placed? hpi, span_of_placed? hqj]
      exact Nat.le_trans (h.within hi).2 (hrest.offset_le hj)

/-- The tokens of a source are in order. -/
lemma inOrder_lex (src : List Char) : InOrder (findings src).tokens :=
  (lexes_itemsFrom false 0 src).inOrder (List.nil_append src).symm rfl

/-- A parser sees tokens in order, whether or not their places are cut off. -/
lemma inOrder_clampedTokens (src : List Char) : InOrder (lex src).clampedTokens := by
  obtain ⟨hforward, hapart⟩ := inOrder_lex src
  refine ⟨List.forall_mem_map.2 fun p hp => Span.clamp_forward (hforward p hp), ?_⟩
  exact List.pairwise_map.2 (hapart.imp fun h => Span.clamp_le h)

end GoService.Source
