import GoService.Proofs.Source.Balance
import GoService.Proofs.Source.Distant
import GoService.Proofs.Source.LineNumbers

/-!
# Documentation

Which comments document what, said of the source alone: the last group between the token before and
the first token of what is documented, if the group ends on the line directly above and does not
start on the line where the token before ends (`CommentGroup.Documents`). The reader of files goes
by the indices of tokens, among them those of inserted semicolons, and comes to the same
(`docs_as_written`).
-/

namespace GoService.Source

/-- The last token that is written before an offset. -/
def writtenBefore? (tokens : List Placed) (offset : Nat) : Option Placed :=
  ((written tokens).filter fun t => decide (t.span.stop ≤ offset)).getLast?

namespace CommentGroup

/-- Whether the group lies between a token and an offset. -/
def liesBetween (before? : Option Placed) (offset : Nat) (g : CommentGroup) : Bool :=
  before?.all (fun t => decide (t.span.stop ≤ g.span.start)) && decide (g.span.stop ≤ offset)

/-- The group documents what begins at an offset. -/
structure Documents (ix : LineTable) (tokens : List Placed) (groups : List CommentGroup)
    (offset : Nat) (g : CommentGroup) : Prop where
  last : (groups.filter (liesBetween (writtenBefore? tokens offset) offset)).getLast? = some g
  apart : ∀ t ∈ writtenBefore? tokens offset, ix.line (t.span.stop - 1) ≠ ix.line g.span.start
  above : (ix.linesOf g.span).2 + 1 = ix.line offset

end CommentGroup

/-! ## Items in order -/

/-- The items of a lexeme begin in order. -/
lemma Piece.pairwise_start {armed armed' : Bool} {offset : Nat} {text rest : List Char}
    {items : List Item} (h : Piece armed offset text rest items armed') :
    items.Pairwise fun a b => a.span.start ≤ b.span.start := by
  cases h with
  | blank | byteOrderMark | lineEnd => exact .nil
  | statementEnd | comment | fault | token => exact List.pairwise_singleton ..
  | commentOverBreak _ hbreak =>
    exact List.pairwise_pair.2 (bounds_of_firstLineBreak? hbreak).1
  | unclosed => exact List.pairwise_pair.2 (Nat.le_refl _)

/-- No item of a lexeme begins after the lexeme. -/
lemma Piece.start_le {armed armed' : Bool} {offset : Nat} {text rest : List Char}
    {items : List Item} (h : Piece armed offset text rest items armed') {i : Item}
    (hi : i ∈ items) : i.span.start ≤ offset + byteSize text := by
  cases h with
  | blank | byteOrderMark | lineEnd => cases hi
  | statementEnd | comment | fault | token =>
    cases List.mem_singleton.1 hi
    exact Nat.le_add_right ..
  | commentOverBreak _ hbreak =>
    rcases List.mem_cons.1 hi with rfl | hi
    · exact Nat.le_add_right ..
    · cases List.mem_singleton.1 hi
      exact Nat.le_of_lt (bounds_of_firstLineBreak? hbreak).2
  | unclosed =>
    rcases List.mem_cons.1 hi with rfl | hi
    · exact Nat.le_add_right ..
    · cases List.mem_singleton.1 hi
      exact Nat.le_add_right ..

/-- Items begin in the order in which they are listed. -/
lemma Lexes.pairwise_start {armed : Bool} {offset : Nat} {cs : List Char} {is : List Item}
    (h : Lexes armed offset cs is) : is.Pairwise fun a b => a.span.start ≤ b.span.start := by
  induction h with
  | finished => exact .nil
  | statementEnd => exact List.pairwise_singleton ..
  | piece hne h hrest ih =>
    refine List.pairwise_append.2 ⟨h.pairwise_start, ih, fun a ha b hb => ?_⟩
    exact Nat.le_trans (h.start_le ha) (hrest.offset_le hb)

/-- A comment begins before the tokens after it, inserted ones too. -/
lemma start_le_of_mem_drop {src : List Char} {c : Comment} (hc : c ∈ (findings src).comments)
    {t : Placed} (ht : t ∈ (findings src).tokens.drop c.next) : c.span.start ≤ t.span.start := by
  obtain ⟨before, after, hitems, -, hdrop⟩ := split_of_mem_comments hc
  have hpairwise := (lexes_itemsFrom false 0 src).pairwise_start
  rw [hdrop] at ht
  obtain ⟨i, hi, hplaced⟩ := List.mem_filterMap.1 ht
  rw [hitems] at hpairwise
  rw [span_of_placed? hplaced]
  exact (List.pairwise_cons.1 (List.pairwise_append.1 hpairwise).2.1).1 i hi

/-! ## Tokens before a token -/

/-- What stands directly before a written token: nothing, the written token before it, or a
semicolon that belongs between the two. -/
inductive FollowsOn (breaks : List Nat) (sourceEnd : Nat) (p : Placed) :
    List Placed → Option Placed → Prop
  | start : FollowsOn breaks sourceEnd p [] none
  | token (before : List Placed) (q : Placed) (hq : q.isInserted = false) :
      FollowsOn breaks sourceEnd p (before ++ [q]) (some q)
  | semicolon (before : List Placed) (q semi : Placed) (hq : q.isInserted = false)
      (hends : q.token.endsStatement)
      (hsemi : semicolonBetween breaks sourceEnd q.span.stop (some p) = some semi) :
      FollowsOn breaks sourceEnd p (before ++ [q, semi]) (some q)

section

variable {breaks : List Nat} {sourceEnd : Nat} {p : Placed} {before after : List Placed}
  {before? : Option Placed}

/-- A semicolon between tokens is an inserted one. -/
lemma isInserted_of_semicolonBetween {start : Nat} {next? : Option Placed} {semi : Placed}
    (h : semicolonBetween breaks sourceEnd start next? = some semi) : semi.isInserted = true := by
  have hat (offset : Nat) : (semicolonAt offset).isInserted = true := by
    simp [semicolonAt, Placed.isInserted, Span.isEmpty, Span.size, Span.emptyAt]
  cases next? with
  | none =>
    cases h
    exact hat _
  | some next =>
    obtain ⟨offset, -, rfl⟩ := Option.map_eq_some_iff.1 h
    exact hat offset

/-- What follows on from tokens follows on from more of them. -/
lemma FollowsOn.append (h : FollowsOn breaks sourceEnd p before before?) (hne : before ≠ [])
    (ts : List Placed) : FollowsOn breaks sourceEnd p (ts ++ before) before? := by
  cases h with
  | start => exact absurd rfl hne
  | token before q hq =>
    rw [← List.append_assoc]
    exact .token _ q hq
  | semicolon before q semi hq hends hsemi =>
    rw [← List.append_assoc]
    exact .semicolon _ q semi hq hends hsemi

/-- Inserted semicolons come one at a time, and only after written tokens. -/
lemma followsOn_of_withSemicolons {ts : List Placed} (hp : p.isInserted = false)
    (hts : ∀ t ∈ ts, t.isInserted = false)
    (h : withSemicolons breaks sourceEnd ts = before ++ p :: after) :
    ∃ before?, FollowsOn breaks sourceEnd p before before? := by
  induction ts generalizing before with
  | nil => cases before <;> cases h
  | cons t ts ih =>
    obtain ⟨ht, hts⟩ := List.forall_mem_cons.1 hts
    rw [withSemicolons] at h
    cases before with
    | nil => exact ⟨none, .start⟩
    | cons b before =>
      obtain ⟨hb, htail⟩ := List.cons.inj h
      subst hb
      cases hinserted : (if t.token.endsStatement then
          semicolonBetween breaks sourceEnd t.span.stop ts.head? else none) with
      | none =>
        rw [hinserted] at htail
        cases before with
        | nil => exact ⟨some t, .token [] t ht⟩
        | cons b before =>
          obtain ⟨before?, hfollows⟩ := ih hts htail
          exact ⟨before?, hfollows.append (List.cons_ne_nil _ _) [t]⟩
      | some semi =>
        rw [hinserted] at htail
        rw [ite_eq_iff] at hinserted
        obtain ⟨hends, hsemi⟩ := hinserted.resolve_right fun h => nomatch h.2
        -- the token is written, so it is not the semicolon but something behind it
        cases before with
        | nil =>
          cases htail
          rw [isInserted_of_semicolonBetween hsemi] at hp
          cases hp
        | cons b before =>
          obtain ⟨hb, hrest⟩ := List.cons.inj htail
          subst hb
          cases before with
          | nil =>
            have hhead : ts.head? = some p := by
              cases ts with
              | nil => cases hrest
              | cons u us =>
                rw [withSemicolons] at hrest
                exact congrArg some (List.cons.inj hrest).1
            rw [hhead] at hsemi
            exact ⟨some t, .semicolon [] t semi ht hends hsemi⟩
          | cons b before =>
            obtain ⟨before?, hfollows⟩ := ih hts hrest
            exact ⟨before?, hfollows.append (List.cons_ne_nil _ _) [t, semi]⟩

end

/-- The last written token before one is the one that it follows on. -/
lemma FollowsOn.getLast?_written {breaks : List Nat} {sourceEnd : Nat} {p : Placed}
    {before : List Placed} {before? : Option Placed}
    (h : FollowsOn breaks sourceEnd p before before?) : (written before).getLast? = before? := by
  cases h with
  | start => rfl
  | token before q hq =>
    rw [written, List.filter_append, List.filter_cons_of_pos (by rw [hq]; rfl)]
    exact List.getLast?_concat
  | semicolon before q semi hq hends hsemi =>
    have hsemi := isInserted_of_semicolonBetween hsemi
    rw [written, List.filter_append, List.filter_cons_of_pos (by rw [hq]; rfl),
      List.filter_cons_of_neg (by rw [hsemi]; decide)]
    exact List.getLast?_concat

/-- A place that cuts a text out of a source is not empty. -/
lemma Span.Cuts.lt {src text : List Char} {s : Span} (h : s.Cuts src text) : s.start < s.stop := by
  obtain ⟨before, after, -, hne, rfl⟩ := h
  exact Nat.lt_add_of_pos_right (byteSize_pos hne)

/-- A written token takes up some of the source. -/
lemma start_lt_stop {src : List Char} {t : Placed} (ht : t ∈ (findings src).tokens)
    (hreal : t.isInserted = false) : t.span.start < t.span.stop := by
  obtain ⟨text, hcuts, -⟩ := cuts_of_mem_tokens ht hreal
  exact hcuts.lt

/-- The last token written before a written token is the last written one of those before it. -/
lemma writtenBefore?_eq {src : List Char} {before after : List Placed} {p : Placed}
    (htokens : (findings src).tokens = before ++ p :: after) (hp : p.isInserted = false) :
    writtenBefore? (findings src).tokens p.span.start = (written before).getLast? := by
  have hsplit : written (findings src).tokens = written before ++ p :: written after := by
    rw [htokens, written, List.filter_append, List.filter_cons_of_pos (by rw [hp]; rfl)]
    rfl
  have hapart := written_apart src
  change (written (findings src).tokens).Pairwise _ at hapart
  have hnonempty : ∀ t ∈ written (findings src).tokens, t.span.start < t.span.stop := by
    intro t ht
    obtain ⟨hmem, hreal⟩ := List.mem_filter.1 ht
    exact start_lt_stop hmem (by simpa using hreal)
  rw [hsplit, List.pairwise_append, List.pairwise_cons] at hapart
  obtain ⟨-, ⟨hafter, -⟩, hbefore⟩ := hapart
  have hlt := hnonempty p (hsplit ▸ List.mem_append_right _ (List.mem_cons_self ..))
  have hnone : (written after).filter (fun t => decide (t.span.stop ≤ p.span.start)) = [] := by
    refine List.filter_eq_nil_iff.2 fun t ht hle => ?_
    have hle := of_decide_eq_true hle
    have hge := hafter t ht
    have hlt' := hnonempty t
      (hsplit ▸ List.mem_append_right _ (List.mem_cons_of_mem _ ht))
    omega
  have hall : (written before).filter (fun t => decide (t.span.stop ≤ p.span.start)) =
      written before :=
    List.filter_eq_self.2 fun t ht => decide_eq_true (hbefore t ht p (List.mem_cons_self ..))
  rw [writtenBefore?, hsplit, List.filter_append, hall,
    List.filter_cons_of_neg (by simpa using hlt), hnone, List.append_nil]

/-! ## Groups and tokens -/

section

variable {src : List Char} {ix : LineTable} {groups : List CommentGroup} {g : CommentGroup}

/-- What is known of a group and its comments in a source. -/
structure Placing (src : List Char) (g : CommentGroup) : Prop where
  first : g.first ∈ (findings src).comments
  last : g.last ∈ (findings src).comments
  next : g.last.next = g.next
  span : g.span = ⟨g.first.span.start, g.last.span.stop⟩
  lt : g.first.span.start < g.last.span.stop

/-- The groups of a source are placed as its comments are. -/
lemma Grouping.placing (h : Grouping ix (findings src).tokens (findings src).comments groups)
    (hg : g ∈ groups) : Placing src g := by
  have hmem (c : Comment) (hc : c ∈ g.comments) : c ∈ (findings src).comments := by
    rw [← h.partition]
    exact List.mem_flatMap.2 ⟨g, hg, hc⟩
  have hlt (c : Comment) (hc : c ∈ g.comments) : c.span.start < c.span.stop :=
    (cuts_of_mem_comments (hmem c hc)).lt
  have hfirst : g.first ∈ g.comments := List.mem_cons_self ..
  have hapart := comments_apart src
  rw [← h.partition, List.pairwise_flatMap] at hapart
  have hordered := hapart.1 g hg
  obtain ⟨hspan, hbounds⟩ := CommentGroup.span_of_pairwise (fun c hc => (hlt c hc).le) hordered
  have hstart := hlt _ hfirst
  have hstop := (hbounds _ hfirst).2
  exact ⟨hmem _ hfirst, hmem _ g.last_mem, h.next g hg _ g.last_mem, hspan, by omega⟩

/-- A group lies after a written token or before it as the index of the token says. -/
lemma Grouping.apart (h : Grouping ix (findings src).tokens (findings src).comments groups)
    (hfaultless : ∀ t ∈ (findings src).tokens, t.token ≠ .error) (hg : g ∈ groups) {k : Nat}
    {t : Placed} (ht : (findings src).tokens[k]? = some t) (hreal : t.isInserted = false) :
    (t.span.stop ≤ g.span.start ↔ k < g.next) ∧ (g.span.stop ≤ t.span.start ↔ g.next ≤ k) := by
  have hplacing := h.placing hg
  have hlt := hplacing.lt
  have hmem := List.mem_of_getElem? ht
  have hlt' := start_lt_stop hmem hreal
  rw [hplacing.span]
  rcases Nat.lt_or_ge k g.next with hk | hk
  · have hbefore : t.span.stop ≤ g.first.span.start :=
      stop_le_of_mem_take hplacing.first
        (List.mem_of_getElem? (List.getElem?_take_of_lt hk ▸ ht))
    dsimp only
    omega
  · have hdrop : t ∈ (findings src).tokens.drop g.last.next := by
      apply List.mem_of_getElem? (i := k - g.next)
      rw [hplacing.next, List.getElem?_drop, Nat.add_sub_cancel' hk, ht]
    have hafter : g.last.span.stop ≤ t.span.start := by
      rcases le_start_of_mem_drop hplacing.last hdrop hreal with hle | ⟨-, rfl⟩
      · exact hle
      · exact absurd rfl (hfaultless _ hmem)
    dsimp only
    omega

/-- The line on which a group ends is that of its last byte. -/
lemma Grouping.endLine_eq (h : Grouping ix (findings src).tokens (findings src).comments groups)
    (hg : g ∈ groups) : (ix.linesOf g.span).2 = g.endLine := by
  have hplacing := h.placing hg
  have hlast := (cuts_of_mem_comments hplacing.last).lt
  rw [h.endLine g hg, Comment.endLine, hplacing.span]
  show ix.line (if g.last.span.stop > g.first.span.start then _ else _) =
    ix.line (if g.last.span.stop > g.last.span.start then _ else _)
  rw [if_pos hplacing.lt, if_pos hlast]

end

/-- The last element that satisfies a condition, where those that satisfy it but are to be left out
come first. -/
lemma getLast?_filter_of_first {α : Type} {l : List α} {f b : α → Bool} {out : α → Prop}
    (hf : ∀ a ∈ l, f a = true ↔ b a = true ∧ ¬ out a)
    (hout : l.Pairwise fun a a' => b a' = true → out a' → b a = true → out a) (a : α) :
    (l.filter f).getLast? = some a ↔ (l.filter b).getLast? = some a ∧ ¬ out a := by
  induction l using List.reverseRecOn with
  | nil => exact ⟨nofun, nofun⟩
  | append_singleton l x ih =>
    rw [List.forall_mem_append] at hf
    rw [List.pairwise_append] at hout
    have hx := hf.2 x (List.mem_singleton_self x)
    have ih := ih hf.1 hout.1
    rw [List.filter_append, List.filter_append]
    by_cases hb : b x = true
    · have hkept : [x].filter b = [x] := List.filter_cons_of_pos hb
      by_cases hx' : out x
      · have hleft : [x].filter f = [] := List.filter_cons_of_neg fun h => (hx.1 h).2 hx'
        have hnone : l.filter f = [] := by
          refine List.filter_eq_nil_iff.2 fun a ha hfa => ?_
          obtain ⟨hba, hna⟩ := (hf.1 a ha).1 hfa
          exact hna (hout.2.2 a ha x (List.mem_singleton_self x) hb hx' hba)
        rw [hleft, hkept, hnone, List.getLast?_concat]
        refine ⟨nofun, ?_⟩
        rintro ⟨⟨⟩, hna⟩
        exact absurd hx' hna
      · have hkept' : [x].filter f = [x] := List.filter_cons_of_pos (hx.2 ⟨hb, hx'⟩)
        rw [hkept', hkept, List.getLast?_concat, List.getLast?_concat]
        refine ⟨?_, And.left⟩
        rintro ⟨⟩
        exact ⟨rfl, hx'⟩
    · have hleft : [x].filter b = [] := List.filter_cons_of_neg hb
      have hleft' : [x].filter f = [] := List.filter_cons_of_neg fun h => hb (hx.1 h).1
      rw [hleft, hleft', List.append_nil, List.append_nil]
      exact ih

section

variable {src : List Char} {groups : List CommentGroup} {g : CommentGroup} {p : Placed}
  {before after : List Placed}

/-- A group starts on the line where the given token ends. -/
def CommentGroup.IsBeside (ix : LineTable) (before? : Option Placed) (g : CommentGroup) : Prop :=
  ∃ t ∈ before?, ix.line (t.span.stop - 1) = ix.line g.span.start

/-- A group is beside a token exactly if it starts on the line where the token ends. -/
lemma isBeside_some {ix : LineTable} {t : Placed} :
    g.IsBeside ix (some t) ↔ ix.line (t.span.stop - 1) = ix.line g.span.start := by
  refine ⟨?_, fun h => ⟨t, rfl, h⟩⟩
  rintro ⟨_, ⟨⟩, h⟩
  exact h

/-- A group whose index is that of a token is trailing if it is beside the token before it. -/
lemma Grouping.trailing_iff {ix : LineTable}
    (h : Grouping ix (findings src).tokens (findings src).comments groups) (hg : g ∈ groups)
    {k : Nat} {t : Placed} (ht : (findings src).tokens[k]? = some t) (hnext : g.next = k + 1) :
    g.trailing = true ↔ ix.line (t.span.stop - 1) = ix.line g.span.start := by
  rw [h.trailing g hg, (h.placing hg).span]
  constructor
  · rintro ⟨i, u, hi, hu, hline⟩
    obtain rfl : k = i := by omega
    rw [ht] at hu
    cases hu
    exact hline
  · exact fun hline => ⟨k, t, hnext, ht, hline⟩

/-- An inserted semicolon ends on the line on which it stands. -/
lemma line_stop_of_emptyAt (hsrc : Numbered src) {q semi : Placed} {at_ : Nat}
    (hspan : semi.span = .emptyAt at_) (hle : q.span.stop ≤ at_) (hline : (LineTable.ofChars src).line at_ =
      (LineTable.ofChars src).line (q.span.stop - 1)) :
    (LineTable.ofChars src).line (semi.span.stop - 1) = (LineTable.ofChars src).line at_ := by
  rw [hspan]
  refine Nat.le_antisymm (hsrc.line_mono (Nat.sub_le ..)) ?_
  rw [hline]
  exact hsrc.line_mono (Nat.sub_le_sub_right hle 1)

/-- What comes right before an inserted semicolon starts on the line of the semicolon. -/
lemma Grouping.line_eq_of_semicolon (hsrc : Numbered src)
    (h : Grouping (.ofChars src) (findings src).tokens (findings src).comments groups)
    (hg : g ∈ groups) {q semi : Placed} {at_ : Nat} (hsemi : (findings src).tokens[g.next]? = some semi)
    (hspan : semi.span = .emptyAt at_) (hline : (LineTable.ofChars src).line at_ =
      (LineTable.ofChars src).line (q.span.stop - 1)) (hstop : q.span.stop ≤ g.span.start) :
    (LineTable.ofChars src).line at_ = (LineTable.ofChars src).line g.span.start := by
  have hplacing := h.placing hg
  have hdrop : semi ∈ (findings src).tokens.drop g.first.next := by
    apply List.mem_of_getElem? (i := 0)
    rw [List.getElem?_drop, Nat.add_zero, ← hsemi]
    rfl
  have hstart := start_le_of_mem_drop hplacing.first hdrop
  apply Nat.le_antisymm
  · rw [hline]
    exact hsrc.line_mono (Nat.le_trans (Nat.sub_le ..) hstop)
  · rw [hspan] at hstart
    rw [hplacing.span]
    exact hsrc.line_mono hstart

/-- The groups that the reader looks at are those that lie before the token and do not belong to
what comes before. -/
lemma next_eq_iff (hsrc : Numbered src)
    (hgroups : Grouping (.ofChars src) (findings src).tokens (findings src).comments groups)
    (hfaultless : ∀ t ∈ (findings src).tokens, t.token ≠ .error)
    (htokens : (findings src).tokens = before ++ p :: after) (hp : p.isInserted = false)
    (hg : g ∈ groups) : (!g.trailing && g.next == before.length) = true ↔
      g.liesBetween (writtenBefore? (findings src).tokens p.span.start) p.span.start = true ∧
        ¬ g.IsBeside (.ofChars src) (writtenBefore? (findings src).tokens p.span.start) := by
  have hget {left right : List Placed} {t : Placed}
      (h : before ++ p :: after = left ++ t :: right) :
      (findings src).tokens[left.length]? = some t := by
    rw [htokens, h, List.getElem?_append_right (Nat.le_refl _), Nat.sub_self]
    rfl
  have hbefore := (hgroups.apart hfaultless hg (hget rfl) hp).2
  obtain ⟨before?, hfollows⟩ := followsOn_of_withSemicolons hp
    (fun t ht => by simpa using (List.mem_filter.1 ht).2)
    (((lexes_itemsFrom false 0 src).tokens_eq (ahead_start src)).symm.trans htokens)
  rw [writtenBefore?_eq htokens hp, hfollows.getLast?_written, CommentGroup.liesBetween,
    Bool.and_eq_true, Bool.and_eq_true, Bool.not_eq_true', beq_iff_eq, decide_eq_true_iff, hbefore]
  cases hfollows with
  | start =>
    have hzero (h : g.next = 0) : g.trailing = false := by
      apply Bool.eq_false_iff.2
      intro htrailing
      obtain ⟨i, -, hi, -⟩ := (hgroups.trailing g hg).1 htrailing
      omega
    have hnone : ¬ g.IsBeside (.ofChars src) none := fun ⟨_, ht, _⟩ => nomatch ht
    simp only [Option.all_none, List.length_nil, Nat.le_zero, true_and, hnone, not_false_iff,
      and_true]
    exact ⟨And.right, fun h => ⟨hzero h, h⟩⟩
  | token before q hq =>
    have hqget := hget (List.append_assoc before [q] (p :: after))
    have hafter := (hgroups.apart hfaultless hg hqget hq).1
    rw [Option.all_some, decide_eq_true_iff, hafter, isBeside_some, List.length_append,
      List.length_singleton]
    constructor
    · rintro ⟨htrailing, hnext⟩
      rw [← hgroups.trailing_iff hg hqget hnext, htrailing]
      exact ⟨⟨by omega, by omega⟩, nofun⟩
    · rintro ⟨⟨hlt, hle⟩, hapart⟩
      have hnext : g.next = before.length + 1 := by omega
      rw [← hgroups.trailing_iff hg hqget hnext, Bool.not_eq_true] at hapart
      exact ⟨hapart, hnext⟩
  | semicolon before q semi hq hends hsemi =>
    have hqget := hget (List.append_assoc before [q, semi] (p :: after))
    have hsemiget : (findings src).tokens[before.length + 1]? = some semi := by
      have hsplit : before ++ [q, semi] ++ p :: after = before ++ [q] ++ semi :: p :: after := by
        rw [List.append_assoc, List.append_assoc]
        rfl
      have hsemiget := hget hsplit
      rwa [List.length_append] at hsemiget
    have hqmem := List.mem_of_getElem? hqget
    obtain ⟨at_, hspan, hle, hline⟩ := line_semicolon hqmem hq (hfaultless q hqmem) hsemi
    rw [← hsrc.line_eq, ← hsrc.line_eq] at hline
    have hafter := (hgroups.apart hfaultless hg hqget hq).1
    have hsemiline := line_stop_of_emptyAt hsrc hspan hle hline
    rw [Option.all_some, decide_eq_true_iff, hafter, isBeside_some, List.length_append,
      List.length_cons, List.length_singleton, ← hline]
    constructor
    · rintro ⟨htrailing, hnext⟩
      rw [← hsemiline, ← hgroups.trailing_iff hg hsemiget hnext, htrailing]
      exact ⟨⟨by omega, by omega⟩, nofun⟩
    · rintro ⟨⟨hlt, hle⟩, hapart⟩
      -- a group between the token and its semicolon would be beside the token
      have hnext : g.next = before.length + 1 + 1 := by
        by_contra hne
        have hnear : g.next = before.length + 1 := by omega
        exact hapart
          (hgroups.line_eq_of_semicolon hsrc hg (hnear ▸ hsemiget) hspan hline (hafter.2 hlt))
      rw [← hsemiline, ← hgroups.trailing_iff hg hsemiget hnext, Bool.not_eq_true] at hapart
      exact ⟨hapart, hnext⟩

/-- Of groups that lie after a token, those that start on its line come first. -/
lemma Grouping.pairwise_beside (hsrc : Numbered src)
    (h : Grouping (.ofChars src) (findings src).tokens (findings src).comments groups)
    (before? : Option Placed) (offset : Nat) :
    groups.Pairwise fun a a' => a'.liesBetween before? offset = true →
      a'.IsBeside (.ofChars src) before? → a.liesBetween before? offset = true →
        a.IsBeside (.ofChars src) before? := by
  have hapart := comments_apart src
  rw [← h.partition, List.pairwise_flatMap] at hapart
  refine hapart.2.imp_of_mem fun {a a'} ha ha' hordered _ hbeside hbetween => ?_
  obtain ⟨t, ht, hline⟩ := hbeside
  refine ⟨t, ht, Nat.le_antisymm ?_ ?_⟩
  · rw [CommentGroup.liesBetween, ht, Option.all_some, Bool.and_eq_true, decide_eq_true_iff]
      at hbetween
    exact hsrc.line_mono (Nat.le_trans (Nat.sub_le ..) hbetween.1)
  · rw [hline]
    apply hsrc.line_mono
    have hstop := hordered _ (List.mem_cons_self ..) _ (List.mem_cons_self ..)
    have hlt := (cuts_of_mem_comments (h.placing ha).first).lt
    rw [(h.placing ha).span, (h.placing ha').span]
    exact Nat.le_trans (Nat.le_of_lt hlt) hstop

/-- The group that leads to a line is the last one before the next token, if it ends on the line
above. -/
lemma lead?_eq_some {next line : Nat} : CommentGroup.lead? groups next line = some g ↔
    (groups.filter fun g => !g.trailing && g.next == next).getLast? = some g ∧
      LineTable.lineBelow g.endLine = line := by
  rw [CommentGroup.lead?, ← List.getLast?_filter]
  cases (groups.filter fun g => !g.trailing && g.next == next).getLast? with
  | none => simp
  | some last =>
    dsimp only
    rw [Option.ite_none_right_eq_some, and_comm]
    refine and_congr_right fun hlast => ?_
    rw [Option.some.inj hlast]

/-- The group above a token, as the reader finds it, is the one that documents what begins there. -/
lemma lead?_eq_some_iff (hsrc : Numbered src)
    (hgroups : Grouping (.ofChars src) (findings src).tokens (findings src).comments groups)
    (hfaultless : ∀ t ∈ (findings src).tokens, t.token ≠ .error) {i : Nat}
    (hp : (findings src).tokens[i]? = some p) (hreal : p.isInserted = false) (g : CommentGroup) :
    CommentGroup.lead? groups i ((LineTable.ofChars src).line p.span.start) = some g ↔
      g.Documents (.ofChars src) (findings src).tokens groups p.span.start := by
  obtain ⟨before, after, htokens, rfl⟩ : ∃ before after,
      (findings src).tokens = before ++ p :: after ∧ before.length = i := by
    obtain ⟨hi, rfl⟩ := List.getElem?_eq_some_iff.1 hp
    refine ⟨(findings src).tokens.take i, (findings src).tokens.drop (i + 1), ?_, ?_⟩
    · rw [← List.drop_eq_getElem_cons hi, List.take_append_drop]
    · exact List.length_take_of_le (Nat.le_of_lt hi)
  have hfirst : groups.Pairwise fun a a' =>
      a'.liesBetween (writtenBefore? (findings src).tokens p.span.start) p.span.start = true →
      a'.IsBeside (.ofChars src) (writtenBefore? (findings src).tokens p.span.start) →
      a.liesBetween (writtenBefore? (findings src).tokens p.span.start) p.span.start = true →
      a.IsBeside (.ofChars src) (writtenBefore? (findings src).tokens p.span.start) :=
    hgroups.pairwise_beside hsrc _ _
  have hlast := getLast?_filter_of_first
    (fun g hg => next_eq_iff hsrc hgroups hfaultless htokens hreal hg) hfirst g
  have hbelow (hg : g ∈ groups) : LineTable.lineBelow g.endLine =
      ((LineTable.ofChars src).linesOf g.span).2 + 1 := by
    rw [← hgroups.endLine_eq hg]
    exact LineTable.lineBelow_line hsrc.lines _
  rw [lead?_eq_some, hlast]
  constructor
  · rintro ⟨⟨hlast, hapart⟩, habove⟩
    have hg := (List.mem_filter.1 (List.mem_of_getLast? hlast)).1
    refine ⟨hlast, fun t ht hline => hapart ⟨t, ht, hline⟩, ?_⟩
    rwa [← hbelow hg]
  · rintro ⟨hlast, hapart, habove⟩
    have hg := (List.mem_filter.1 (List.mem_of_getLast? hlast)).1
    refine ⟨⟨hlast, fun ⟨t, ht, hline⟩ => hapart t ht hline⟩, ?_⟩
    rwa [hbelow hg]

end

/-! ## Sources -/

/-- Where nothing is reported, no token is a fault. -/
lemma faultless_of_isClean {source : String} (h : (parse source).isClean) :
    ∀ t ∈ (lex source.toList).tokens, t.token ≠ .error := by
  intro t ht herror
  have hnone : (findings source.toList).diagnostics = [] :=
    List.map_eq_nil_iff.1 (clean_of_isClean h).1
  have hdiagnostics := spans_of_diagnostics source.toList
  rw [hnone, List.map_nil] at hdiagnostics
  have hmem : t.span ∈ ((findings source.toList).tokens.filter (·.token == .error)).map (·.span) :=
    List.mem_map_of_mem (List.mem_filter.2 ⟨ht, by simpa using herror⟩)
  rw [← hdiagnostics] at hmem
  cases hmem

/-- The groups of comments of a source with enough numbers for its lines. -/
lemma grouping_parse {source : String} (hsrc : Numbered source.toList) :
    Grouping (.ofChars source.toList) (lex source.toList).tokens (lex source.toList).comments
      (parse source).file.file.comments :=
  CommentGroup.grouping_ofComments hsrc.lines _ (tokenEndLine_eq hsrc.size)

/-- What has documentation has that which is written for it, in a source with enough numbers for its
lines. -/
lemma doc_iff_of_isRead {source : String} (hsrc : Numbered source.toList)
    (hclean : (parse source).isClean) {s : DocSite}
    (hs : s.IsRead (.ofLexed source.toList (lex source.toList)) (lex source.toList).tokens)
    (g : CommentGroup) :
    s.doc = some g ↔ g.Documents (parse source).file.lines (lex source.toList).tokens
      (parse source).file.file.comments s.start := by
  have hgroups := grouping_parse hsrc
  obtain ⟨i, p, hp, hreal, hstart, hdoc⟩ := hs
  rw [hdoc, ← comments_parse, ← hstart]
  rw [lex_eq_findings hsrc.size] at hgroups
  exact lead?_eq_some_iff hsrc hgroups (faultless_of_isClean hclean) hp hreal g

/-- In a source of less than 4 GiB the groups of comments part the comments and are as long as they
can be. If the source is read without a report, what can have documentation has the group that
documents it in the source; the entry of a declaration without parentheses has that of the
declaration. -/
theorem docs_as_written (source : String) (hsrc : byteSize source.toList ≤ Span.maxOffset) :
    Grouping (parse source).file.lines (lex source.toList).tokens (lex source.toList).comments
      (parse source).file.file.comments ∧
    ((parse source).isClean →
      (∀ s ∈ (parse source).file.file.docSites,
        (∃ p ∈ (lex source.toList).tokens, p.isInserted = false ∧ p.span.start = s.start) ∧
        ∀ g, s.doc = some g ↔ g.Documents (parse source).file.lines (lex source.toList).tokens
          (parse source).file.file.comments s.start) ∧
      ∀ d, .gen d ∈ (parse source).file.file.decls → d.lParen = none →
        ∀ s ∈ d.specs, s.doc = d.doc) := by
  have hread (hclean : (parse source).isClean) : ∀ s ∈ (parse source).file.file.docSites,
      s.IsRead (.ofLexed source.toList (lex source.toList)) (lex source.toList).tokens := by
    have hsites := (fileRead_of_isClean hclean).sites
    rwa [clampedTokens_eq hsrc] at hsites
  have hplace (hclean : (parse source).isClean) {s : DocSite}
      (hs : s ∈ (parse source).file.file.docSites) :
      ∃ p ∈ (lex source.toList).tokens, p.isInserted = false ∧ p.span.start = s.start := by
    obtain ⟨i, p, hp, hreal, hstart, -⟩ := hread hclean s hs
    exact ⟨p, List.mem_of_getElem? hp, hreal, hstart⟩
  have hentry (hclean : (parse source).isClean) := (fileRead_of_isClean hclean).entry
  -- only a source with comments must have enough numbers for its lines
  cases hall : (findings source.toList).comments with
  | nil =>
    have hnone : (lex source.toList).comments = [] := by rw [lex_eq_findings hsrc, hall]
    have hgroups := comments_eq_nil hnone
    rw [hgroups, hnone]
    refine ⟨⟨rfl, nofun, nofun, nofun, nofun, .nil⟩, fun hclean =>
      ⟨fun s hs => ⟨hplace hclean hs, fun g => ?_⟩, hentry hclean⟩⟩
    obtain ⟨i, p, -, -, -, hdoc⟩ := hread hclean s hs
    rw [hdoc, ← comments_parse, hgroups]
    exact ⟨nofun, fun h => nomatch h.last⟩
  | cons c cs =>
    have hnumbered : Numbered source.toList :=
      numbered_of_mem_comments hsrc (hall ▸ List.mem_cons_self)
    exact ⟨grouping_parse hnumbered, fun hclean => ⟨fun s hs => ⟨hplace hclean hs,
      doc_iff_of_isRead hnumbered hclean (hread hclean s hs)⟩, hentry hclean⟩⟩

namespace Greeting

/-- A function with comments around it, of which one is its documentation. -/
def source : String :=
  "package p // beside\n\n// far away\n\n// @fn\n/* greets */ // everyone\nfunc Greet() \x7b\x7d\n"

/-- A comment above a declaration documents it. -/
theorem greet_documented : byteSize source.toList ≤ Span.maxOffset ∧
    (parse source).isClean = true ∧
    ∃ s ∈ (parse source).file.file.docSites, ∃ g, s.doc = some g ∧
      g.Documents (parse source).file.lines (lex source.toList).tokens
        (parse source).file.file.comments s.start := by
  have hsize : byteSize source.toList ≤ Span.maxOffset := by decide +kernel
  have hclean : (parse source).isClean = true := by decide +kernel
  have hdoc : ∃ s ∈ (parse source).file.file.docSites, s.doc.isSome = true := by decide +kernel
  obtain ⟨s, hs, hsome⟩ := hdoc
  obtain ⟨g, hg⟩ := Option.isSome_iff_exists.1 hsome
  exact ⟨hsize, hclean, s, hs, g, hg, (((docs_as_written source hsize).2 hclean).1 s hs).2 g |>.1 hg⟩

end Greeting

namespace Distant

/-- The group of the comment, at its exact place. -/
def exactGroup : CommentGroup :=
  ⟨comment, [], false, 2⟩

/-- Behind 4 GiB of blanks a comment on the line above the keyword of the package documents it, but
the file has no documentation. -/
theorem doc_lost : (parse source).isClean = true ∧
    (findings source.toList).comments = [comment] ∧
    exactGroup.Documents ⟨0 :: LineTable.startsAfter 0 source.toList⟩ (findings source.toList).tokens
      [exactGroup] (Span.maxOffset + 9) ∧
    (parse source).file.file.doc = none := by
  have hbefore : writtenBefore? (findings chars).tokens (Span.maxOffset + 9) = none := by
    rw [findings_chars]
    decide
  have hline {before after : List Char} {n : Nat}
      (h : "\n// doc\npackage p\n".toList = before ++ after)
      (hn : Span.maxOffset + 1 + byteSize before = n) :
      (LineTable.mk (0 :: LineTable.startsAfter 0 chars)).line n =
        wrapped (before.count '\n' + 1) := by
    rw [← lineCount_chars h, hn]
    rfl
  refine ⟨isClean_source, by rw [toList_source, findings_chars], ?_, by rw [file_source]⟩
  rw [toList_source]
  constructor
  case last =>
    rw [hbefore]
    decide
  case apart =>
    rw [hbefore]
    exact nofun
  case above =>
    have hlast := @hline "\n// do".toList "c\npackage p\n".toList (Span.maxOffset + 7) rfl rfl
    have hkeyword := @hline "\n// doc\n".toList "package p\n".toList (Span.maxOffset + 9) rfl rfl
    rw [hkeyword, LineTable.linesOf, if_pos (by decide)]
    exact congrArg (· + 1) hlast

end Distant

end GoService.Source
