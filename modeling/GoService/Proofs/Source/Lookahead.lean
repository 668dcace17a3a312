import GoService.Proofs.Source.Readings

/-!
# Looking past brackets and skipping them

What a struct field is depends on the token behind its brackets (`tokenAfterRun?`), and when it is
an array they are skipped afterwards (`skipRun`). Both go as far as the closer of the first bracket,
and if there is none the one sees nothing and the other takes all tokens and reports this
(`lookahead_agrees`). A statement that is skipped within a group of brackets ends within it
(`terminatorDistance_le`).
-/

namespace GoService.Source

/-- An opener, a balanced row of tokens and a closer. The kinds of the brackets do not matter, so
the groups whose brackets fit each other are among these. -/
structure BracketGroup (opener : Placed) (inner : List Placed) (closer : Placed) : Prop where
  opens : opener.token.isOpening
  balanced : Balanced (inner.map Placed.token)
  closes : closer.token.isClosing

/-- The bracket with which the tokens begin is closed. -/
def BeginClosed (ts : List Placed) : Prop :=
  ∃ opener inner closer after, BracketGroup opener inner closer ∧
    ts = opener :: (inner ++ closer :: after)

variable {opener closer : Placed} {inner after : List Placed}

/-- A bracket is closed, or the tokens after it end at some depth. -/
lemma beginClosed_or (ho : opener.token.isOpening) (ts : List Placed) :
    BeginClosed (opener :: ts) ∨ ∃ e, bracketDepth? 0 (ts.map Placed.token) = some e := by
  rcases exists_closer_or 0 (ts.map Placed.token) with ⟨inner, closer, after, hts, hinner, hc⟩ | h
  · left
    obtain ⟨inner, others, rfl, rfl, hothers⟩ := List.map_eq_append_iff.1 hts
    obtain ⟨closer, after, rfl, rfl, rfl⟩ := List.map_eq_cons_iff.1 hothers
    exact ⟨opener, inner, closer, after, ⟨ho, balanced_iff.2 hinner, hc⟩, rfl⟩
  · exact .inr h

namespace Parser

variable (ctx : Context) {c : Cursor} {n left : Nat} {ts : List Placed}

/-! ## Skipping a run -/

/-- A run whose brackets are closed is skipped to its end. -/
lemma runs_skipRun_closed (h : balancedLength 0 c.rest = (n, 0)) :
    Runs ctx c skipRun fun _ c' => c' = c.advance n := by
  apply looks_nextSpan.bind_runs
  intro start
  apply runs_get
  rw [h]
  apply (runs_advance fun _ => n).bind
  intro _ c' _ hc'
  exact (looks_spanSince start).runs.mono fun _ _ _ heq => heq.trans hc'

/-- A run whose brackets are left open is skipped, and the opening bracket is reported. -/
lemma runs_skipRun_open (hrest : c.rest = opener :: ts)
    (h : balancedLength 0 c.rest = (n, left + 1)) :
    Runs ctx c skipRun fun _ c' => c'.rest = c.rest.drop n ∧
      c'.diagnostics = ⟨opener.span, .unbalancedBrackets⟩ :: c.diagnostics := by
  apply looks_nextSpan.runs_fst
  rw [nextSpan_eq hrest]
  apply runs_get
  rw [h]
  apply (runs_advance fun _ => n).bind
  intro _ c₁ _ h₁
  rw [if_pos (Nat.succ_pos left)]
  have hreport : Runs ctx c₁ (report opener.span .unbalancedBrackets) fun _ c₂ =>
      c₂.rest = c.rest.drop n ∧
        c₂.diagnostics = ⟨opener.span, .unbalancedBrackets⟩ :: c.diagnostics := by
    refine ⟨(runs_report ..).steps, ?_, ?_⟩
    · rw [← c.rest_advance n, ← h₁]
      rfl
    · rw [← c.diagnostics_advance n, ← h₁]
      rfl
  apply hreport.bind
  intro _ c₂ _ h₂
  exact (looks_spanSince opener.span).runs.mono fun _ _ _ heq => heq ▸ h₂

/-- A group is skipped up to the token behind its closer, which is the token that is seen ahead. -/
lemma skipRun_group (hgroup : BracketGroup opener inner closer)
    (hrest : c.rest = opener :: (inner ++ closer :: after)) :
    (skipRun ctx c).2 = c.advance (inner.length + 2) ∧ (skipRun ctx c).2.rest = after ∧
      tokenAfterRun? 0 c.rest = after.head?.map Placed.token := by
  have htokens : c.rest.map Placed.token =
      opener.token :: (inner.map Placed.token ++ closer.token :: after.map Placed.token) := by
    rw [hrest, List.map_cons, List.map_append, List.map_cons]
  have hlength := balancedLength_run hgroup.opens hgroup.closes hgroup.balanced htokens
  rw [List.length_map] at hlength
  have hskip := (runs_skipRun_closed ctx hlength).post
  refine ⟨hskip, ?_, ?_⟩
  · rw [hskip, Cursor.rest_advance, hrest, List.drop_succ_cons, ← List.drop_drop, List.drop_left]
    rfl
  · rw [tokenAfterRun?_run hgroup.opens hgroup.closes hgroup.balanced htokens, List.head?_map]

/-- A bracket that is not closed is skipped with all tokens, and nothing is seen ahead. -/
lemma skipRun_open (hrest : c.rest = opener :: ts) (ho : opener.token.isOpening) {e : Nat}
    (hdepth : bracketDepth? 0 (ts.map Placed.token) = some e) :
    (skipRun ctx c).2.rest = [] ∧
      (skipRun ctx c).2.diagnostics = ⟨opener.span, .unbalancedBrackets⟩ :: c.diagnostics ∧
      tokenAfterRun? 0 c.rest = none := by
  have hlength : balancedLength 0 c.rest = (ts.length + 1, e + 1) := by
    rw [hrest, balancedLength, if_pos ho, ← List.append_nil ts, balancedLength_append hdepth,
      balancedLength, List.append_nil, Nat.zero_add]
  obtain ⟨hskipped, hreported⟩ := (runs_skipRun_open ctx hrest hlength).post
  refine ⟨?_, hreported, ?_⟩
  · rw [hskipped, hrest, List.drop_succ_cons, List.drop_length]
  · rw [hrest, tokenAfterRun?, if_pos ho, ← List.append_nil ts, tokenAfterRun?_append hdepth]
    rfl

/-! ## Skipping a statement -/

/-- A statement that is skipped at some depth ends before the closer that has no opener there. -/
lemma terminatorDistance_le {d : Nat} (hdepth : bracketDepth? d (inner.map Placed.token) = some 0)
    (hc : closer.token.isClosing) :
    terminatorDistance 0 (inner ++ closer :: after) ≤ inner.length := by
  obtain ⟨e, he, -⟩ := bracketDepth?_terminatorDistance 0 (inner ++ closer :: after)
  by_contra hlt
  have hfront : inner ++ [closer] <+:
      (inner ++ closer :: after).take (terminatorDistance 0 (inner ++ closer :: after)) := by
    refine List.prefix_take_iff.2 ⟨⟨after, by simp⟩, ?_⟩
    rw [List.length_append, List.length_singleton]
    omega
  have hmatched := matched_iff.2 ⟨e, he⟩ _ (hfront.map Placed.token)
  have hcount := count_of_bracketDepth? hdepth
  have ho := Bool.eq_false_iff.2 (Token.not_isOpening_of_isClosing hc)
  rw [List.map_append, List.countP_append, List.countP_append, List.map_singleton,
    List.countP_singleton, List.countP_singleton, hc, ho] at hmatched
  simp only [if_true, Bool.false_eq_true, if_false] at hmatched
  omega

/-- A statement that is skipped within a group ends within it. -/
lemma pos_skipStatement_le {tokens : List Placed} {i : Nat}
    (hgroup : BracketGroup opener inner closer)
    (htokens : tokens.drop i = opener :: (inner ++ closer :: after)) (hc : c.Within tokens)
    (hlt : i < c.pos) (hle : c.pos ≤ i + inner.length + 1) :
    (skipStatement ctx c).2.pos ≤ i + inner.length + 1 := by
  obtain ⟨k, hk⟩ := Nat.exists_eq_add_of_lt hlt
  have hin : k ≤ inner.length := by omega
  have hrest : c.rest = inner.drop k ++ closer :: after := by
    rw [hc.rest, hk, Nat.add_assoc, ← List.drop_drop, htokens, List.drop_succ_cons,
      List.drop_append_of_le_length hin]
  -- the tokens of the group before the cursor lead to the depth at which it stands
  have hsplit : bracketDepth? 0 ((inner.take k ++ inner.drop k).map Placed.token) = some 0 := by
    rw [List.take_append_drop]
    exact balanced_iff.1 hgroup.balanced
  rw [List.map_append, bracketDepth?_append] at hsplit
  obtain ⟨d, -, hdepth⟩ := Option.bind_eq_some_iff.1 hsplit
  have hdistance : terminatorDistance 0 c.rest ≤ (inner.drop k).length :=
    hrest ▸ terminatorDistance_le hdepth hgroup.closes
  have hskip : (skipStatement ctx c).2 = c.advance (terminatorDistance 0 c.rest) :=
    runs_skipStatement.post
  rw [List.length_drop] at hdistance
  rw [hskip, Cursor.pos_advance]
  omega

/-- Where a bracket is closed, the token seen ahead is the one before which skipping ends;
otherwise none is seen, and skipping takes all tokens and reports the bracket. Behind a group
both are at the token after its closer, and a statement that is skipped within the group does not
pass the closer. -/
theorem lookahead_agrees {tokens : List Placed} (hc : c.Within tokens)
    (hopener : tokens[c.pos]? = some opener) (ho : opener.token.isOpening) :
    (BeginClosed (tokens.drop c.pos) →
        tokenAfterRun? 0 (tokens.drop c.pos) = (skipRun ctx c).2.ahead 0 ∧
          (skipRun ctx c).2.diagnostics = c.diagnostics) ∧
      (¬ BeginClosed (tokens.drop c.pos) →
        tokenAfterRun? 0 (tokens.drop c.pos) = none ∧ (skipRun ctx c).2.rest = [] ∧
          (skipRun ctx c).2.diagnostics =
            ⟨opener.span, .unbalancedBrackets⟩ :: c.diagnostics) ∧
      ∀ inner closer after, BracketGroup opener inner closer →
        tokens.drop c.pos = opener :: (inner ++ closer :: after) →
        tokenAfterRun? 0 (tokens.drop c.pos) = after.head?.map Placed.token ∧
          (skipRun ctx c).2.rest = after ∧ (skipRun ctx c).2.pos = c.pos + inner.length + 2 ∧
          ∀ c' : Cursor, c'.Within tokens → c.pos < c'.pos → c'.pos ≤ c.pos + inner.length + 1 →
            (skipStatement ctx c').2.pos ≤ c.pos + inner.length + 1 := by
  rw [← hc.rest]
  refine ⟨?_, ?_, ?_⟩
  · rintro ⟨opener, inner, closer, after, hgroup, hrest⟩
    obtain ⟨hskip, hafter, hseen⟩ := skipRun_group ctx hgroup hrest
    refine ⟨?_, ?_⟩
    · rw [hseen, Cursor.ahead, hafter, List.head?_eq_getElem?]
    · rw [hskip, Cursor.diagnostics_advance]
  · intro hopen
    obtain ⟨ts, hrest⟩ : ∃ ts, c.rest = opener :: ts := by
      obtain ⟨hlt, hget⟩ := List.getElem?_eq_some_iff.1 hopener
      exact ⟨_, by rw [hc.rest, List.drop_eq_getElem_cons hlt, hget]⟩
    -- where no bracket closes the run, it goes to the end of the tokens
    rcases beginClosed_or ho ts with hclosed | ⟨e, hdepth⟩
    · exact absurd (hrest ▸ hclosed) hopen
    · obtain ⟨hskipped, hreported, hseen⟩ := skipRun_open ctx hrest ho hdepth
      exact ⟨hseen, hskipped, hreported⟩
  · intro inner closer after hgroup hrest
    obtain ⟨hskip, hafter, hseen⟩ := skipRun_group ctx hgroup hrest
    refine ⟨hseen, hafter, ?_, fun c' hc' hlt hle => ?_⟩
    · rw [hskip, Cursor.pos_advance, hrest, List.length_cons, List.length_append, List.length_cons]
      omega
    · exact pos_skipStatement_le ctx hgroup (hc.rest ▸ hrest) hc' hlt hle

/-! ## A length with brackets -/

namespace Grid

/-- A row with a bracket in a bracket. -/
def text : List Char :=
  "x [f(a[0])]T".toList

/-- The tokens of the row. -/
def tokens : List Placed :=
  (lex text).tokens

/-- What is known of the row. -/
def context : Context :=
  ⟨.ofChars text, [], 12⟩

/-- The cursor before one of the tokens. -/
def cursor (i : Nat) : Cursor :=
  (Cursor.start tokens).advance i

/-- The cursor is within the tokens. -/
lemma within_cursor (i : Nat) : (cursor i).Within tokens :=
  (Cursor.steps_advance i _).within (Cursor.within_start tokens)

/-- The brackets around the length, from the second token to the tenth. -/
lemma group_length : BracketGroup tokens[1]! ((tokens.drop 2).take 7) tokens[9]! :=
  ⟨by decide +kernel, balanced_iff.2 (by decide +kernel), by decide +kernel⟩

/-- The element type is seen behind the length, and there the skip ends; a statement in the inner
brackets ends in the length. -/
theorem length_seen_and_skipped : (cursor 1).Within tokens ∧
    tokens[(cursor 1).pos]? = some tokens[1]! ∧ tokens[1]!.token.isOpening ∧
    tokenAfterRun? 0 (tokens.drop (cursor 1).pos) = tokens[10]?.map Placed.token ∧
    (skipRun context (cursor 1)).2.pos = 10 ∧
    (cursor 5).Within tokens ∧ (skipStatement context (cursor 5)).2.pos ≤ 9 := by
  have hopener : tokens[(cursor 1).pos]? = some tokens[1]! := by decide +kernel
  have ho := group_length.opens
  obtain ⟨-, -, hgroup⟩ := lookahead_agrees context (within_cursor 1) hopener ho
  obtain ⟨hseen, -, hpos, hstatement⟩ :=
    hgroup _ _ (tokens.drop 10) group_length (by decide +kernel)
  have hlength : (cursor 1).pos + ((tokens.drop 2).take 7).length = 8 := by decide +kernel
  rw [hlength] at hpos hstatement
  refine ⟨within_cursor 1, hopener, ho, ?_, hpos, within_cursor 5, ?_⟩
  · rw [hseen]
    decide +kernel
  · exact hstatement (cursor 5) (within_cursor 5) (by decide +kernel) (by decide +kernel)

end Grid

end Parser

end GoService.Source
