import GoService.Proofs.Source.Width
import GoService.Source.Parser.File
import Mathlib.Data.List.Chain
import Mathlib.Tactic.Lemma

/-!
# Groups of comments

What the groups of a source are, said of the groups themselves (`Grouping`): they part the comments,
keep to one token each, and are as long as they can be. The function that cuts comments into groups
makes such groups as long as lines can be numbered (`grouping_ofComments`).
-/

namespace GoService.Source

/-- The line on which a comment ends. -/
def Comment.endLine (ix : LineTable) (c : Comment) : Nat :=
  (ix.linesOf c.span).2

/-- Whether a group that has got to a line takes the comment after it: a trailing group only on that
line, any other group also on the line below. -/
def Comment.Continues (ix : LineTable) (trailing : Bool) (line : Nat) (c : Comment) : Prop :=
  if trailing then ix.line c.span.start = line else ix.line c.span.start ≤ line + 1

namespace CommentGroup

/-- The last comment of a group. -/
def last (g : CommentGroup) : Comment :=
  g.others.getLastD g.first

/-- The last comment ends the list of comments. -/
lemma getLast?_comments (g : CommentGroup) : g.comments.getLast? = some g.last := by
  rw [comments, List.getLast?_cons, last, List.getLastD_eq_getLast?]

/-- The last comment is one of the group. -/
lemma last_mem (g : CommentGroup) : g.last ∈ g.comments :=
  List.mem_of_getLast? g.getLast?_comments

/-- A group whose comments come one after the other goes from the first one to the last one. -/
lemma span_of_pairwise {g : CommentGroup}
    (hforward : ∀ c ∈ g.comments, c.span.start ≤ c.span.stop)
    (hapart : g.comments.Pairwise fun a b => a.span.stop ≤ b.span.start) :
    g.span = ⟨g.first.span.start, g.last.span.stop⟩ ∧
      ∀ c ∈ g.comments, c.span.start ≤ g.last.span.start ∧ c.span.stop ≤ g.last.span.stop := by
  obtain ⟨init, hsplit⟩ := List.getLast?_eq_some_iff.1 g.getLast?_comments
  have hlast := hforward g.last g.last_mem
  have hbounds : ∀ c ∈ g.comments,
      c.span.start ≤ g.last.span.start ∧ c.span.stop ≤ g.last.span.stop := by
    intro c hc
    have hstop := hforward c hc
    rw [hsplit, List.mem_append, List.mem_singleton] at hc
    rcases hc with hc | rfl
    · rw [hsplit] at hapart
      have hle := (List.pairwise_append.1 hapart).2.2 c hc _ (List.mem_singleton_self _)
      omega
    · exact ⟨Nat.le_refl _, Nat.le_refl _⟩
  obtain ⟨hstart, hstop⟩ := hbounds g.first List.mem_cons_self
  refine ⟨?_, hbounds⟩
  show Span.mk (min g.first.span.start g.last.span.start) (max g.first.span.stop g.last.span.stop) =
    _
  rw [Nat.min_eq_left hstart, Nat.max_eq_right hstop]

/-- A token ends on the line where the group starts, and the group is what comes next. -/
def StartsBeside (ix : LineTable) (tokens : List Placed) (g : CommentGroup) : Prop :=
  ∃ i t, g.next = i + 1 ∧ tokens[i]? = some t ∧
    ix.line (t.span.stop - 1) = ix.line g.first.span.start

end CommentGroup

/-- The groups are those of the comments. -/
structure Grouping (ix : LineTable) (tokens : List Placed) (comments : List Comment)
    (groups : List CommentGroup) : Prop where
  /-- Each comment is in one group, and their order is kept. -/
  partition : groups.flatMap CommentGroup.comments = comments
  next : ∀ g ∈ groups, ∀ c ∈ g.comments, c.next = g.next
  trailing : ∀ g ∈ groups, g.trailing = true ↔ g.StartsBeside ix tokens
  chained : ∀ g ∈ groups, g.comments.IsChain fun a b => b.Continues ix g.trailing (a.endLine ix)
  endLine : ∀ g ∈ groups, g.endLine = g.last.endLine ix
  /-- What a group does not take does not continue it. -/
  maximal : groups.IsChain fun g g' =>
    g.next = g'.next → ¬ g'.first.Continues ix g.trailing g.endLine

namespace CommentGroup

variable {ix : LineTable} {tokens : List Placed}

/-- What a group whose last comment is `a` takes of the comments after it, the line on which it then
ends, and what it leaves. -/
structure Takes (ix : LineTable) (trailing : Bool) (token : Nat) (a : Comment)
    (taken : List Comment) (line : Nat) (left : List Comment) : Prop where
  chained : (a :: taken).IsChain fun a b => b.Continues ix trailing (a.endLine ix)
  endLine : line = (taken.getLastD a).endLine ix
  stops : ∀ c ∈ left.head?, c.next = token → ¬ c.Continues ix trailing line

/-- What a group takes and what it leaves are the comments. -/
lemma parts_extend (trailing : Bool) (token line : Nat) (cs : List Comment) :
    (extend ix trailing token line cs).1 ++ (extend ix trailing token line cs).2.2 = cs ∧
      ∀ c ∈ (extend ix trailing token line cs).1, c.next = token := by
  fun_induction extend ix trailing token line cs with
  | case1 => exact ⟨rfl, List.forall_mem_nil _⟩
  | case2 line c cs line' adjacent h taken last rest hrest ih =>
    rw [hrest] at ih
    rw [Bool.and_eq_true, beq_iff_eq] at h
    exact ⟨congrArg (c :: ·) ih.1, List.forall_mem_cons.2 ⟨h.1, ih.2⟩⟩
  | case3 => exact ⟨rfl, List.forall_mem_nil _⟩

/-- The groups part the comments, and each keeps to one token. -/
lemma parts_ofComments (tokenEndLine : Nat → Option Nat) (cs : List Comment) :
    (ofComments ix tokenEndLine cs).flatMap CommentGroup.comments = cs ∧
      ∀ g ∈ ofComments ix tokenEndLine cs, ∀ c ∈ g.comments, c.next = g.next := by
  induction cs using ofComments.induct ix tokenEndLine with
  | case1 =>
    rw [ofComments]
    exact ⟨rfl, List.forall_mem_nil _⟩
  | case2 c cs trailing taken ih =>
    obtain ⟨hparts, hnext⟩ := @parts_extend ix trailing c.next (ix.linesOf c.span).2 cs
    rw [ofComments, List.flatMap_cons, ih.1]
    exact ⟨congrArg (c :: ·) hparts, List.forall_mem_cons.2
      ⟨List.forall_mem_cons.2 ⟨rfl, hnext⟩, ih.2⟩⟩

/-- A group takes the comments that continue it. -/
lemma takes_extend (hfew : ix.size < Span.maxOffset) (trailing : Bool) (token : Nat) (a : Comment)
    (cs : List Comment) :
    Takes ix trailing token a (extend ix trailing token (a.endLine ix) cs).1
      (extend ix trailing token (a.endLine ix) cs).2.1
      (extend ix trailing token (a.endLine ix) cs).2.2 := by
  induction cs generalizing a with
  | nil => exact ⟨.singleton a, rfl, nofun⟩
  | cons c cs ih =>
    have htaken : (c.next == token && if trailing then ix.line c.span.start == a.endLine ix
        else decide (ix.line c.span.start ≤ LineTable.lineBelow (a.endLine ix))) = true ↔
        c.next = token ∧ c.Continues ix trailing (a.endLine ix) := by
      rw [Bool.and_eq_true, beq_iff_eq, Comment.Continues, Comment.endLine, LineTable.linesOf,
        LineTable.lineBelow_line hfew]
      cases trailing
      · exact and_congr_right fun _ => decide_eq_true_iff
      · exact and_congr_right fun _ => beq_iff_eq
    rw [extend]
    dsimp only
    by_cases h : c.next = token ∧ c.Continues ix trailing (a.endLine ix)
    · rw [if_pos (htaken.2 h)]
      obtain ⟨hchained, hend, hstops⟩ := ih c
      refine ⟨List.isChain_cons_cons.2 ⟨h.2, hchained⟩, ?_, hstops⟩
      rw [List.getLastD_cons]
      exact hend
    · rw [if_neg fun htrue => h (htaken.1 htrue)]
      refine ⟨.singleton a, rfl, ?_⟩
      rintro _ ⟨⟩ hnext hcontinues
      exact h ⟨hnext, hcontinues⟩

variable {tokenEndLine : Nat → Option Nat}

/-- Groups begin with the first comment. -/
lemma head?_ofComments (cs : List Comment) :
    (ofComments ix tokenEndLine cs).head?.map CommentGroup.first = cs.head? := by
  cases cs with
  | nil =>
    rw [ofComments]
    rfl
  | cons c cs =>
    rw [ofComments]
    rfl

/-- Whether a group is trailing is settled by its first comment. -/
lemma startsBeside_iff {g : CommentGroup}
    (hline : ∀ i, tokenEndLine i = tokens[i]?.map fun t => ix.line (t.span.stop - 1))
    (hg : g.trailing = (decide (g.next > 0) &&
      tokenEndLine (g.next - 1) == some (ix.line g.first.span.start))) :
    g.trailing = true ↔ g.StartsBeside ix tokens := by
  rw [hg, Bool.and_eq_true, decide_eq_true_iff, beq_iff_eq, hline, Option.map_eq_some_iff]
  constructor
  · rintro ⟨hpos, t, ht, hsame⟩
    exact ⟨g.next - 1, t, by omega, ht, hsame⟩
  · rintro ⟨i, t, hnext, ht, hsame⟩
    rw [hnext]
    exact ⟨Nat.succ_pos i, t, ht, hsame⟩

/-- The comments are cut into groups. -/
theorem grouping_ofComments (hfew : ix.size < Span.maxOffset) (comments : List Comment)
    (hline : ∀ i, tokenEndLine i = tokens[i]?.map fun t => ix.line (t.span.stop - 1)) :
    Grouping ix tokens comments (ofComments ix tokenEndLine comments) := by
  induction comments using ofComments.induct ix tokenEndLine with
  | case1 =>
    rw [ofComments]
    exact ⟨rfl, List.forall_mem_nil _, List.forall_mem_nil _, List.forall_mem_nil _,
      List.forall_mem_nil _, .nil⟩
  | case2 c cs trailing taken ih =>
    obtain ⟨hparts, hnext⟩ := @parts_ofComments ix tokenEndLine (c :: cs)
    obtain ⟨hchained, hend, hstops⟩ := takes_extend hfew trailing c.next c cs
    rw [ofComments] at hparts hnext ⊢
    refine ⟨hparts, hnext, List.forall_mem_cons.2 ⟨startsBeside_iff hline rfl, ih.trailing⟩,
      List.forall_mem_cons.2 ⟨hchained, ih.chained⟩, List.forall_mem_cons.2 ⟨hend, ih.endLine⟩,
      List.isChain_cons.2 ⟨fun g hg hsame => ?_, ih.maximal⟩⟩
    have hfirst := @head?_ofComments ix tokenEndLine taken.2.2
    rw [hg] at hfirst
    exact hstops g.first hfirst.symm hsame.symm

end CommentGroup

/-! ## Sources -/

section

variable {source : String}

/-- The table of lines of a source that is read is that of its characters. -/
lemma lines_parse (source : String) : (parse source).file.lines = .ofChars source.toList :=
  rfl

/-- The groups of a file are those of its source. -/
lemma comments_parse (source : String) : (parse source).file.file.comments =
    (Context.ofLexed source.toList (lex source.toList)).groups :=
  rfl

/-- Each comment of a source is in one of its groups. -/
lemma flatMap_comments_parse (source : String) :
    (parse source).file.file.comments.flatMap CommentGroup.comments =
      (lex source.toList).comments :=
  (CommentGroup.parts_ofComments ..).1

/-- Without comments there are no groups. -/
lemma comments_eq_nil (h : (lex source.toList).comments = []) :
    (parse source).file.file.comments = [] := by
  show CommentGroup.ofComments _ _ (lex source.toList).comments = []
  rw [h, CommentGroup.ofComments]

/-- What is in a group of a source is a comment of it. -/
lemma mem_comments_of_mem_group {g : CommentGroup} (hg : g ∈ (parse source).file.file.comments)
    {c : Comment} (hc : c ∈ g.comments) : c ∈ (lex source.toList).comments := by
  rw [← flatMap_comments_parse]
  exact List.mem_flatMap.2 ⟨g, hg, hc⟩

end

end GoService.Source
