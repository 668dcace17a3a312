import GoService.Proofs.Source.CleanFiles

/-!
# Balanced brackets

A source that is read without a report has no closer without an opener, and its brackets are
balanced, with one exception (`balanced_of_clean`): initial values of the last declaration may be
left open if the declaration has no parentheses. What follows them is then taken for a part of them,
so declarations may be lost in silence (`Unclosed.declaration_lost`).
-/

namespace GoService.Source

/-- The values are initial values of which the tokens do not bring the brackets to their end. -/
def LeftOpen (tokens : List Placed) (values : Span) : Prop :=
  ∃ before first others, tokens = before ++ first :: others ∧ first.span.start = values.start ∧
    Balanced (before.map Placed.token) ∧
    ((first :: others).map Placed.token).countP Token.isClosing <
      ((first :: others).map Placed.token).countP Token.isOpening

/-- Where brackets are left open, they are not balanced. -/
lemma LeftOpen.not_balanced {tokens : List Placed} {values : Span} (h : LeftOpen tokens values) :
    ¬ Balanced (tokens.map Placed.token) := by
  obtain ⟨before, first, others, rfl, -, hbefore, hopen⟩ := h
  intro hall
  have hclosed := hall.closed
  rw [List.map_append, List.countP_append, List.countP_append, hbefore.closed] at hclosed
  omega

/-- Where the tokens end within values, brackets are left open there and nowhere else. -/
lemma Cursor.EndsWithin.leftOpen {tokens : List Placed} {c : Cursor} {values : Span}
    (h : (Cursor.start tokens).EndsWithin 0 c values) :
    Matched (tokens.map Placed.token) ∧ LeftOpen tokens values := by
  obtain ⟨-, before, first, others, e, hrest, hbefore, hvalues, hothers, he⟩ := h
  have htokens : tokens = before ++ first :: others := hrest
  refine ⟨matched_iff.2 ⟨e, ?_⟩, before, first, others, htokens, hvalues, balanced_iff.2 hbefore, ?_⟩
  · rw [htokens, List.map_append, bracketDepth?_append_of_eq hbefore]
    exact hothers
  · have hcount := count_of_bracketDepth? hothers
    omega

/-- A source is read cleanly if neither its text nor its tokens were at fault. -/
lemma clean_of_isClean {source : String} (h : (parse source).isClean) :
    (lex source.toList).diagnostics = [] ∧
      (readTokens source.toList (lex source.toList)).2.Clean := by
  have hsorted : Diagnostic.sorted ((lex source.toList).diagnostics ++
      (readTokens source.toList (lex source.toList)).2.diagnostics.reverse) = [] :=
    List.isEmpty_iff.1 h
  have hnil := ((List.mergeSort_perm ..).symm.trans (.of_eq hsorted)).eq_nil
  obtain ⟨hlexed, hread⟩ := List.append_eq_nil_iff.1 hnil
  exact ⟨hlexed, List.reverse_eq_nil_iff.1 hread⟩

/-- What is known of a source that was read without a report. -/
lemma fileRead_of_isClean {source : String} (h : (parse source).isClean) :
    Parser.FileRead (.ofLexed source.toList (lex source.toList)) (lex source.toList).clampedTokens
      (.start (lex source.toList).clampedTokens) 0 (parse source).file.file
      (readTokens source.toList (lex source.toList)).2 :=
  (Parser.cleanRun_sourceFile (Cursor.within_start _)).post (clean_of_isClean h).2 True.intro

/-- In a source that is read without a report each closer has its opener, and no bracket stays open
but in initial values at its end. -/
theorem balanced_of_clean (source : String) (h : (parse source).isClean) :
    Matched ((lex source.toList).tokens.map Placed.token) ∧
      (Balanced ((lex source.toList).tokens.map Placed.token) ↔
        ¬ ∃ values ∈ (parse source).file.file.lastValues?,
          LeftOpen (lex source.toList).clampedTokens values) := by
  have hrest := rest_readTokens source.toList (lex source.toList)
  rw [← Lexed.map_token_clampedTokens]
  rcases (fileRead_of_isClean h).keeps with ⟨read, hread, hdepth⟩ | ⟨values, hvalues, hends⟩
  · have htokens : (lex source.toList).clampedTokens = read := by
      rw [hrest, List.append_nil] at hread
      exact hread
    rw [htokens]
    have hbalanced := balanced_iff.2 hdepth
    exact ⟨hbalanced.matched, fun _ ⟨_, _, hopen⟩ => hopen.not_balanced hbalanced,
      fun _ => hbalanced⟩
  · obtain ⟨hmatched, hopen⟩ := hends.leftOpen
    exact ⟨hmatched, fun hbalanced => absurd hbalanced hopen.not_balanced,
      fun hnone => absurd ⟨values, hvalues, hopen⟩ hnone⟩

/-! ## A value that is left open -/

namespace Unclosed

/-- A function with a variable before it, whose value has the given text. -/
def source (value : String) : String :=
  "package p\n\nvar x = " ++ value ++ "\n\n// @fn\nfunc F() \x7b\x7d\n"

/-- A source whose brackets are closed is read cleanly, and its brackets are balanced. -/
theorem closed_balanced : (parse (source "(1)")).isClean = true ∧
    Balanced ((lex (source "(1)").toList).tokens.map Placed.token) := by
  have hclean : (parse (source "(1)")).isClean = true := by decide +kernel
  have hnone : (parse (source "(1)")).file.file.lastValues? = none := by decide +kernel
  refine ⟨hclean, (balanced_of_clean _ hclean).2.2 ?_⟩
  rw [hnone]
  rintro ⟨values, hvalues, -⟩
  cases hvalues

/-- Without the closing parenthesis nothing is reported, and the function is a part of the value. -/
theorem declaration_lost : (parse (source "(1")).isClean = true ∧
    ¬ Balanced ((lex (source "(1").toList).tokens.map Placed.token) ∧
    (parse (source "(1")).file.file.decls.length = 1 := by
  refine ⟨by decide +kernel, fun hbalanced => ?_, by decide +kernel⟩
  exact absurd hbalanced.closed (by decide +kernel)

end Unclosed

end GoService.Source
