import GoService.Proofs.Source.CommentTexts
import GoService.Proofs.Source.Documentation
import GoService.Proofs.Text.Lines

/-!
# Comments line by line

A group of comments that is written as line comments, one on each line, has these comments and no
others, whether lines are ended by a line feed or by a return and a line feed (`comments_of_rows`).
Lines that are written behind the mark and a space are what the group says (`content_of_rows`).
-/

namespace GoService.Source

/-- A line that is a comment from its first character to its end. -/
def IsCommentRow (row : List Char) : Prop :=
  ∃ body, row = '/' :: '/' :: body ∧ ∀ c ∈ body, ¬ isLineBreak c

/-! ## Items of a part of a source -/

/-- No characters take no bytes. -/
lemma eq_nil_of_byteSize {cs : List Char} (h : byteSize cs = 0) : cs = [] := by
  by_contra hne
  exact Nat.ne_of_gt (byteSize_pos hne) h

/-- Where the first parts of equal texts take as many bytes, the parts are equal. -/
lemma append_inj_of_byteSize {a b c d : List Char} (h : a ++ b = c ++ d)
    (hsize : byteSize a = byteSize c) : a = c ∧ b = d := by
  rcases List.append_eq_append_iff.1 h with ⟨m, rfl, rfl⟩ | ⟨m, rfl, rfl⟩
  · rw [byteSize_append] at hsize
    have hm : byteSize m = 0 := by omega
    obtain rfl := eq_nil_of_byteSize hm
    exact ⟨(List.append_nil _).symm, rfl⟩
  · rw [byteSize_append] at hsize
    have hm : byteSize m = 0 := by omega
    obtain rfl := eq_nil_of_byteSize hm
    exact ⟨List.append_nil _, rfl⟩

section

variable {armed : Bool} {offset : Nat} {before after : List Item} {kind : CommentKind} {span : Span}
  {s : String}

/-- A comment is the first item of its lexeme. -/
lemma Piece.comment_first {text rest : List Char} {items : List Item} {armed' : Bool}
    (h : Piece armed offset text rest items armed')
    (hitems : items = before ++ .comment kind span s :: after) :
    before = [] ∧ span.start = offset := by
  cases h with
  | blank | byteOrderMark | lineEnd => cases before <;> cases hitems
  | statementEnd | fault | token => rcases before with _ | ⟨b, _ | ⟨c, before⟩⟩ <;> cases hitems
  | comment =>
    rcases before with _ | ⟨b, _ | ⟨c, before⟩⟩ <;> cases hitems
    exact ⟨rfl, rfl⟩
  | commentOverBreak | unclosed =>
    rcases before with _ | ⟨b, _ | ⟨c, _ | ⟨d, before⟩⟩⟩ <;> cases hitems
    exact ⟨rfl, rfl⟩

/-- Before a comment a new lexeme begins. -/
lemma exists_of_itemsFrom_eq {cs : List Char} (before : List Item)
    (h : itemsFrom armed offset cs = before ++ .comment kind span s :: after) :
    ∃ armed' front rest, cs = front ++ rest ∧ span.start = offset + byteSize front ∧
      itemsFrom armed' (offset + byteSize front) rest = .comment kind span s :: after := by
  induction armed, offset, cs using itemsFrom.induct generalizing before with
  | case1 offset =>
    rw [itemsFrom, if_pos rfl] at h
    rcases before with _ | ⟨b, _ | ⟨c, before⟩⟩ <;> cases h
  | case2 armed offset hunarmed =>
    rw [itemsFrom, if_neg hunarmed] at h
    cases before <;> cases h
  | case3 armed offset c cs lexeme n hmunch text items armed' hitems ih =>
    have hfits := fits_munch c cs
    rw [hmunch] at hfits
    have hpiece := piece_itemsOf armed offset hfits
    rw [hitems] at hpiece
    have hfirst := h
    rw [itemsFrom, hmunch] at h
    dsimp only at h
    rw [hitems] at h
    -- a comment after this lexeme is looked for there, and in this lexeme it comes first
    have hlater {before : List Item}
        (hrest : itemsFrom armed' (offset + byteSize text) (cs.drop n) =
          before ++ .comment kind span s :: after) :
        ∃ armed' front rest, c :: cs = front ++ rest ∧ span.start = offset + byteSize front ∧
          itemsFrom armed' (offset + byteSize front) rest = .comment kind span s :: after := by
      obtain ⟨armed'', front, rest, hdrop, hstart, hitems⟩ := ih _ hrest
      rw [Nat.add_assoc, ← byteSize_append] at hstart hitems
      refine ⟨armed'', text ++ front, rest, ?_, hstart, hitems⟩
      rw [List.append_assoc, ← hdrop]
      exact congrArg (c :: ·) (List.take_append_drop n cs).symm
    rcases List.append_eq_append_iff.1 h with ⟨m, -, hrest⟩ | ⟨m, hm, hrest⟩
    · exact hlater hrest
    · cases m with
      | nil => exact @hlater [] hrest.symm
      | cons i m =>
        obtain ⟨rfl, -⟩ := List.cons.inj hrest
        obtain ⟨rfl, hstart⟩ := hpiece.comment_first hm
        exact ⟨armed, [], c :: cs, rfl, hstart, hfirst⟩

end

/-- Among comments a place is one among items. -/
lemma exists_of_commentsOf_eq {next : Nat} {is : List Item} {before after : List Comment}
    {c : Comment} (h : commentsOf next is = before ++ c :: after) : ∃ front back,
    is = front ++ .comment c.kind c.span c.text :: back ∧
      commentsOf c.next (.comment c.kind c.span c.text :: back) = c :: after := by
  induction is generalizing next before with
  | nil => cases before <;> cases h
  | cons i is ih =>
    cases i with
    | comment kind span text =>
      cases before with
      | nil =>
        obtain ⟨rfl, rfl⟩ := List.cons.inj h
        exact ⟨[], is, rfl, rfl⟩
      | cons b before =>
        obtain ⟨front, back, rfl, hback⟩ := ih (List.cons.inj h).2
        exact ⟨_ :: front, back, rfl, hback⟩
    | token | semicolon | fault =>
      obtain ⟨front, back, rfl, hback⟩ := ih h
      exact ⟨_ :: front, back, rfl, hback⟩

/-! ## Rows of comments -/

section

variable {armed : Bool} {offset next : Nat}

/-- A row that is a comment takes what follows it on its line. -/
lemma itemsFrom_commentRow {row : List Char} (hrow : IsCommentRow row) (rest : List Char) :
    itemsFrom armed offset (row ++ rest) =
      .comment .line (.ofText offset (row ++ rest.takeWhile (!isLineBreak ·)))
        (String.ofList (row ++ rest.takeWhile (!isLineBreak ·))) ::
      itemsFrom armed (offset + byteSize (row ++ rest.takeWhile (!isLineBreak ·)))
        (rest.dropWhile (!isLineBreak ·)) := by
  obtain ⟨body, rfl, hbody⟩ := hrow
  have hpos : ∀ c ∈ body, (!isLineBreak c) = true := by simpa using hbody
  rw [List.cons_append, List.cons_append, itemsFrom_lineComment,
    List.takeWhile_append_of_pos hpos, List.dropWhile_append_of_pos hpos]
  rfl

/-- A line end, which may stand for a semicolon. -/
lemma itemsFrom_ending {ending : List Char} (hending : ending = ['\n'] ∨ ending = ['\r', '\n'])
    (rest : List Char) : itemsFrom armed offset (ending ++ rest) =
      (if armed then [.semicolon offset] else []) ++
        itemsFrom false (offset + byteSize ending) rest := by
  rcases hending with rfl | rfl
  · exact itemsFrom_lineFeed armed offset rest
  · exact itemsFrom_return armed offset rest

/-- A row that is a comment and a line end after it. -/
lemma commentsOf_endedRow {row ending : List Char} (hrow : IsCommentRow row)
    (hending : ending = ['\n'] ∨ ending = ['\r', '\n']) (rest : List Char) : ∃ next',
    commentsOf next (itemsFrom armed offset (row ++ (ending ++ rest))) =
      ⟨.line, .ofText offset row, String.ofList row, next⟩ ::
        commentsOf next' (itemsFrom false (offset + byteSize (row ++ ending)) rest) := by
  have hbreak : (ending ++ rest).takeWhile (!isLineBreak ·) = [] ∧
      (ending ++ rest).dropWhile (!isLineBreak ·) = ending ++ rest := by
    rcases hending with rfl | rfl <;> exact ⟨rfl, rfl⟩
  rw [itemsFrom_commentRow hrow, commentsOf, hbreak.1, hbreak.2, List.append_nil,
    itemsFrom_ending hending, byteSize_append, ← Nat.add_assoc]
  cases armed with
  | false => exact ⟨next, rfl⟩
  | true => exact ⟨next + 1, rfl⟩

/-- Comments from an offset on start there or later. -/
lemma offset_le_of_mem_commentsOf {cs : List Char} {c : Comment}
    (h : c ∈ commentsOf next (itemsFrom armed offset cs)) : offset ≤ c.span.start := by
  obtain ⟨before, after, hitems, -⟩ := exists_of_mem_commentsOf h
  exact (lexes_itemsFrom armed offset cs).offset_le (i := .comment c.kind c.span c.text)
    (hitems ▸ List.mem_append_right _ List.mem_cons_self)

/-- A comment as it is written. -/
def Comment.written (c : Comment) : CommentKind × List Char :=
  (c.kind, c.text.toList)

/-- Comments end at an offset of a source, as far as their places are kept. -/
structure EndAt (stop : Nat) (cs : List Comment) : Prop where
  within : ∀ c ∈ cs, c.span.clamp.stop ≤ stop
  reach : ∃ c ∈ cs, stop ≤ c.span.stop

variable {src : List Char} {stop : Nat}

/-- Nothing is kept of what begins at the end. -/
lemma EndAt.text_eq {cs : List Comment} (h : EndAt stop cs) (hfits : stop ≤ Span.maxOffset)
    {c : Comment} (hc : c ∈ cs) (hstart : stop ≤ c.span.start) : (c.kept src).text = "" :=
  textAt_of_le (Nat.le_trans (h.within c hc) (Nat.le_min.2 ⟨hstart, hfits⟩))

/-- A comment from the start of a text is kept with the text if that is where its place is cut
off. -/
lemma text_kept_eq {before text after : List Char} (hsrc : src = before ++ (text ++ after))
    (htext : text ≠ []) {c : Comment} (hstart : c.span.start = byteSize before)
    (hstop : c.span.clamp.stop = byteSize before + byteSize text) :
    (c.kept src).text = String.ofList text := by
  have hpos := byteSize_pos htext
  have hfits : c.span.clamp.stop ≤ Span.maxOffset := Nat.min_le_right ..
  have hspan : c.span.clamp = .ofText (byteSize before) text := by
    rw [Span.clamp, Span.clamped, Span.mk.injEq, hstart]
    exact ⟨Nat.min_eq_left (by omega), hstop⟩
  rw [Comment.kept, hspan]
  exact Span.Cuts.textAt_eq ⟨before, after, by rw [hsrc, List.append_assoc], htext, rfl⟩

/-- Comments that begin with a row and end behind its line end, without their first one. -/
lemma exists_of_endedRow {before row ending rest : List Char} (hrow : IsCommentRow row)
    (hending : ending = ['\n'] ∨ ending = ['\r', '\n'])
    (hsrc : src = before ++ (row ++ (ending ++ rest))) {cs others : List Comment}
    (hcs : commentsOf next (itemsFrom armed (byteSize before) (row ++ (ending ++ rest))) =
      cs ++ others)
    (hend : EndAt stop cs) (hfits : stop ≤ Span.maxOffset)
    (hstop : byteSize (before ++ (row ++ ending)) ≤ stop) : ∃ next' c cs', cs = c :: cs' ∧
      (c.kept src).written = (.line, row) ∧ EndAt stop cs' ∧
      commentsOf next' (itemsFrom false (byteSize (before ++ (row ++ ending))) rest) =
        cs' ++ others := by
  obtain ⟨next', hrest⟩ := @commentsOf_endedRow armed (byteSize before) next _ _ hrow hending rest
  rw [hrest, ← byteSize_append] at hcs
  cases cs with
  | nil =>
    obtain ⟨c, hc, -⟩ := hend.reach
    cases hc
  | cons c cs =>
    obtain ⟨rfl, hothers⟩ := List.cons.inj hcs
    have hspace : 0 < byteSize ending := by
      rcases hending with rfl | rfl <;> decide
    rw [byteSize_append, byteSize_append] at hstop
    have hlt : byteSize before + byteSize row < stop := by omega
    have htext : (Comment.kept src ⟨.line, .ofText (byteSize before) row, String.ofList row,
        next⟩).text = String.ofList row := by
      refine text_kept_eq hsrc ?_ rfl (Nat.min_eq_left (Nat.le_trans hlt.le hfits))
      obtain ⟨body, rfl, -⟩ := hrow
      exact List.cons_ne_nil _ _
    refine ⟨next', _, cs, rfl, ?_, ⟨fun d hd => hend.within d (List.mem_cons_of_mem _ hd), ?_⟩,
      hothers⟩
    · rw [Comment.written, htext, String.toList_ofList]
      rfl
    · -- the first comment ends before its line end
      obtain ⟨d, hd, hreach⟩ := hend.reach
      rcases List.mem_cons.1 hd with rfl | hd
      · exact absurd hreach (Nat.not_le_of_lt hlt)
      · exact ⟨d, hd, hreach⟩

/-- The rows are kept of comments, and perhaps there are comments after these of which no text is
kept. -/
def KeepsRows (src : List Char) (rows : List (List Char)) (cs : List Comment) : Prop :=
  ∃ written lost, cs.map (Comment.kept src) = written ++ lost ∧
    written.map Comment.written = (rows.map fun row => (.line, row)) ∧ ∀ c ∈ lost, c.text = ""

/-- A row with a line end is kept, and the rows after it if they are kept of the text behind. -/
lemma keepsRows_of_endedRow {before row ending text after : List Char} {rows : List (List Char)}
    (hrow : IsCommentRow row) (hending : ending = ['\n'] ∨ ending = ['\r', '\n'])
    (hsrc : src = before ++ (row ++ (ending ++ text) ++ after)) {cs others : List Comment}
    (hcs : commentsOf next (itemsFrom armed (byteSize before) (row ++ (ending ++ text) ++ after)) =
      cs ++ others)
    (hend : EndAt (byteSize before + byteSize (row ++ (ending ++ text))) cs)
    (hfits : byteSize before + byteSize (row ++ (ending ++ text)) ≤ Span.maxOffset)
    (hrest : ∀ {next' : Nat} {before' : List Char} {cs' : List Comment},
      src = before' ++ (text ++ after) →
      commentsOf next' (itemsFrom false (byteSize before') (text ++ after)) = cs' ++ others →
      EndAt (byteSize before' + byteSize text) cs' →
      byteSize before' + byteSize text ≤ Span.maxOffset → KeepsRows src rows cs') :
    KeepsRows src (row :: rows) cs := by
  rw [List.append_assoc, List.append_assoc] at hsrc hcs
  rw [← List.append_assoc, byteSize_append, ← Nat.add_assoc, ← byteSize_append] at hend hfits
  obtain ⟨next', c, cs', rfl, hc, hend, hcs⟩ :=
    exists_of_endedRow hrow hending hsrc hcs hend hfits (Nat.le_add_right ..)
  rw [← List.append_assoc row, ← List.append_assoc before] at hsrc
  obtain ⟨written, lost, hsplit, hwritten, hlost⟩ := hrest hsrc hcs hend hfits
  refine ⟨c.kept src :: written, lost, congrArg (c.kept src :: ·) hsplit, ?_, hlost⟩
  rw [List.map_cons, List.map_cons, hc, hwritten]

/-- The rows of a text are kept of comments that fill it from its start to its end. -/
lemma keepsRows_of_hasLines {rows : List (List Char)} {text : List Char}
    (h : Text.HasLines rows text) (hrows : ∀ row ∈ rows, IsCommentRow row)
    {before after : List Char} (hsrc : src = before ++ (text ++ after)) {cs others : List Comment}
    (hcs : commentsOf next (itemsFrom armed (byteSize before) (text ++ after)) = cs ++ others)
    (hend : EndAt (byteSize before + byteSize text) cs)
    (hfits : byteSize before + byteSize text ≤ Span.maxOffset) : KeepsRows src rows cs := by
  induction h generalizing armed next before cs with
  | nil =>
    refine ⟨[], _, rfl, rfl, List.forall_mem_map.2 fun c hc => hend.text_eq hfits hc ?_⟩
    exact offset_le_of_mem_commentsOf (hcs ▸ List.mem_append_left others hc)
  | @last row hne hl =>
    rw [itemsFrom_commentRow (hrows row List.mem_cons_self), commentsOf] at hcs
    cases cs with
    | nil =>
      obtain ⟨c, hc, -⟩ := hend.reach
      cases hc
    | cons c cs =>
      obtain ⟨rfl, (hothers : _ = cs ++ others)⟩ := List.cons.inj hcs
      have hsize := byteSize_append row (after.takeWhile (!isLineBreak ·))
      have hwithin := hend.within _ List.mem_cons_self
      have hstop : (Span.ofText (byteSize before)
          (row ++ after.takeWhile (!isLineBreak ·))).clamp.stop =
          byteSize before + byteSize row := by
        refine Nat.le_antisymm hwithin (Nat.le_min.2 ⟨?_, hfits⟩)
        rw [Span.ofText, hsize]
        exact Nat.add_le_add_left (Nat.le_add_right ..) _
      refine ⟨[_], cs.map _, rfl, ?_, List.forall_mem_map.2 fun d hd => ?_⟩
      · rw [List.map_singleton, Comment.written, text_kept_eq hsrc hne rfl hstop,
          String.toList_ofList]
        rfl
      · have hstart := offset_le_of_mem_commentsOf (hothers ▸ List.mem_append_left others hd)
        exact hend.text_eq hfits (List.mem_cons_of_mem _ hd) (by omega)
  | lineFeed _ _ _ ih =>
    obtain ⟨hrow, hrows⟩ := List.forall_mem_cons.1 hrows
    exact keepsRows_of_endedRow hrow (.inl rfl) hsrc hcs hend hfits fun hsrc hcs => ih hrows hsrc hcs
  | returnLineFeed _ _ ih =>
    obtain ⟨hrow, hrows⟩ := List.forall_mem_cons.1 hrows
    exact keepsRows_of_endedRow hrow (.inr rfl) hsrc hcs hend hfits fun hsrc hcs => ih hrows hsrc hcs

end

/-! ## Groups that are written line by line -/

/-- A group of comments whose text is a row of line comments consists of these. In a source of 4 GiB
or more there may be others after them, of which no text is kept. -/
theorem comments_of_rows {source : String} {g : CommentGroup}
    (hg : g ∈ (parse source).file.file.comments) {rows : List (List Char)} {text : List Char}
    (hcuts : g.span.Cuts source.toList text) (hlines : Text.HasLines rows text)
    (hrows : ∀ row ∈ rows, IsCommentRow row) :
    ∃ written lost, g.comments = written ++ lost ∧
      written.map Comment.written = (rows.map fun row => (.line, row)) ∧
      ∀ c ∈ lost, c.text = "" := by
  obtain ⟨front, back, hgroups⟩ := List.append_of_mem hg
  have hcomments : (findings source.toList).comments.map (Comment.kept source.toList) =
      front.flatMap CommentGroup.comments ++
        (g.comments ++ back.flatMap CommentGroup.comments) := by
    have hall := flatMap_comments_parse source
    rw [hgroups, List.flatMap_append, List.flatMap_cons] at hall
    exact hall.symm
  obtain ⟨passed, ahead, hfound, -, hahead⟩ := List.map_eq_append_iff.1 hcomments
  obtain ⟨cs, others, rfl, hcs, -⟩ := List.map_eq_append_iff.1 hahead
  have hmem (c : Comment) (hc : c ∈ cs) : c ∈ (findings source.toList).comments :=
    hfound ▸ List.mem_append_right _ (List.mem_append_left _ hc)
  have hapart : cs.Pairwise fun a b => a.span.stop ≤ b.span.start := by
    refine (comments_apart source.toList).sublist ?_
    rw [hfound]
    exact (List.sublist_append_left ..).trans (List.sublist_append_right ..)
  -- the group goes from the first comment to the last one, cut off as they are
  obtain ⟨hspan, hbounds⟩ := @CommentGroup.span_of_pairwise g
    (by
      rw [← hcs]
      exact List.forall_mem_map.2 fun c hc =>
        Span.clamp_forward (cuts_of_mem_comments (hmem c hc)).lt.le)
    (by
      rw [← hcs]
      exact List.pairwise_map.2 (hapart.imp fun h => Span.clamp_le h))
  obtain ⟨left, right, hsource, hne, hplace⟩ := hcuts
  rw [hspan, Span.ofText, Span.mk.injEq] at hplace
  obtain ⟨hstart, hstop⟩ := hplace
  have hpos := byteSize_pos hne
  have hend : EndAt (byteSize left + byteSize text) cs := by
    refine ⟨fun c hc => ?_, ?_⟩
    · rw [← hstop]
      exact (hbounds _ (hcs ▸ List.mem_map_of_mem hc)).2
    · obtain ⟨c, hc, hlast⟩ := List.mem_map.1 (hcs ▸ g.last_mem)
      rw [← hstop, ← hlast]
      exact ⟨c, hc, Nat.min_le_left ..⟩
  have hfits : byteSize left + byteSize text ≤ Span.maxOffset := by
    obtain ⟨c, -, hlast⟩ := List.mem_map.1 (hcs ▸ g.last_mem)
    rw [← hstop, ← hlast]
    exact Nat.min_le_right ..
  -- the lexer is at the first comment of the group, so what it has ahead is the text
  obtain ⟨c, cs, rfl, hfirst, -⟩ := List.map_eq_cons_iff.1 hcs
  obtain ⟨before, after, hitems, hcommentsOf⟩ := exists_of_commentsOf_eq hfound
  obtain ⟨armed, passed, ahead, hsplit, hoffset, hahead⟩ := exists_of_itemsFrom_eq before hitems
  rw [← hfirst] at hstart
  have hleft : byteSize left = byteSize passed := by
    have hmin : min c.span.start Span.maxOffset = byteSize left := hstart
    rw [Nat.zero_add] at hoffset
    omega
  rw [List.append_assoc] at hsource
  obtain ⟨rfl, rfl⟩ := append_inj_of_byteSize (hsource.symm.trans hsplit) hleft
  rw [← hahead, Nat.zero_add] at hcommentsOf
  rw [← hcs]
  exact keepsRows_of_hasLines hlines hrows hsource hcommentsOf hend hfits

/-! ## Lines behind a mark -/

/-- The row of a comment that says a line: the line stands behind a space. -/
def commentRow (line : List Char) : List Char :=
  '/' :: '/' :: if line = [] then [] else ' ' :: line

section

variable {line : List Char}

/-- The row of a line is a row with one comment. -/
lemma isCommentRow_commentRow (h : '\n' ∉ line ∧ '\r' ∉ line) : IsCommentRow (commentRow line) := by
  have hline : ∀ c ∈ line, ¬ isLineBreak c := by
    intro c hc hbreak
    rw [isLineBreak, Bool.or_eq_true, beq_iff_eq, beq_iff_eq] at hbreak
    rcases hbreak with rfl | rfl
    · exact h.1 hc
    · exact h.2 hc
  refine ⟨_, rfl, ?_⟩
  split
  · exact List.forall_mem_nil _
  · exact List.forall_mem_cons.2 ⟨by decide, hline⟩

/-- What stands behind a space does not address a tool. -/
lemma not_isDirective_space : ¬ IsDirective (' ' :: line) :=
  mt isToolDirective_iff.2
    (by simp [isToolDirective, isDirectiveChar, List.span_eq_takeWhile_dropWhile])

/-- An empty comment is no directive. -/
lemma not_isDirective_nil : ¬ IsDirective [] :=
  mt isToolDirective_iff.2 (by decide)

/-- The row of a line says that line. -/
lemma says_commentRow (h : '\n' ∉ line) : Says .line (commentRow line) [line] := by
  rw [commentRow]
  split
  · next hline =>
    rw [hline]
    exact .unspaced List.not_mem_nil not_isDirective_nil nofun
  · exact .spaced h not_isDirective_space

end

/-- A comment without text says a blank line. -/
lemma contentLines_of_text_eq {c : Comment} (h : c.text = "") : c.contentLines = [[]] := by
  rw [Comment.contentLines, h]
  cases c.kind <;> rfl

/-- What the rows of lines say is those lines. -/
lemma contentLines_of_rows {lines : List (List Char)} (hlines : ∀ l ∈ lines, '\n' ∉ l)
    {cs : List Comment}
    (hcs : cs.map Comment.written = lines.map fun l => (.line, commentRow l)) :
    cs.flatMap Comment.contentLines = lines := by
  induction lines generalizing cs with
  | nil => rw [List.map_eq_nil_iff.1 hcs, List.flatMap_nil]
  | cons l lines ih =>
    obtain ⟨c, cs, rfl, hc, hcs⟩ := List.map_eq_cons_iff.1 hcs
    obtain ⟨hl, hlines⟩ := List.forall_mem_cons.1 hlines
    obtain ⟨hkind, htext⟩ := Prod.mk.inj hc
    have hsays := says_commentRow hl
    rw [← htext, ← hkind] at hsays
    rw [List.flatMap_cons, contentLines_eq_of_said hsays, ih hlines hcs]
    rfl

/-- A group that is written line by line says these lines, as paragraphs. -/
lemma content_of_rows {source : String} {g : CommentGroup}
    (hg : g ∈ (parse source).file.file.comments) {lines : List (List Char)} {text : List Char}
    (hcuts : g.span.Cuts source.toList text) (htext : Text.HasLines (lines.map commentRow) text)
    (hlines : ∀ l ∈ lines, '\n' ∉ l ∧ '\r' ∉ l) :
    g.content = String.ofList (joinParagraphs false false (lines.map Text.trimEnd)) := by
  obtain ⟨written, lost, hcomments, hwritten, hlost⟩ := comments_of_rows hg hcuts htext
    (List.forall_mem_map.2 fun l hl => isCommentRow_commentRow (hlines l hl))
  rw [List.map_map] at hwritten
  have hblanks : ∀ l ∈ (lost.flatMap Comment.contentLines).map Text.trimEnd, l = [] := by
    refine List.forall_mem_map.2 (List.forall_mem_flatMap.2 fun c hc => ?_)
    rw [contentLines_of_text_eq (hlost c hc)]
    exact List.forall_mem_singleton.2 rfl
  rw [CommentGroup.content, hcomments, List.flatMap_append, List.map_append,
    contentLines_of_rows (fun l hl => (hlines l hl).1) hwritten, joinParagraphs_append hblanks]

end GoService.Source
