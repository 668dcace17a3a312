import GoService.Proofs.Source.Spelling
import GoService.Proofs.Source.Totality
import GoService.Proofs.Source.TypeReadings

/-!
# Reading a file with one declaration

A declaration whose tokens are known is read like the types in it (`reads_aliasDecl`,
`reads_headDecl`). Lines of tokens that are the text of a file with one declaration are read as this
file, if the declaration is read as it is written (`parse_textOf`).
-/

namespace GoService.Source

/-- The text of lines of tokens. -/
def textOf (lines : List (List Token)) : String :=
  String.ofList (lines.flatMap fun ts => spell ts ++ ['\n'])

/-- The name of the package is a word. -/
lemma isWord_p : isWord "p".toList :=
  rfl

/-- The name of the package of a file with one declaration. -/
def packageWord : Word :=
  ⟨"p", isWord_p⟩

/-- The text of the package line. -/
lemma spell_package :
    spell [.keyword .packageKw, .ident packageWord] ++ ['\n'] = "package p\n".toList :=
  rfl

/-- The text of a declaration after the package line; `head` is the text before the tokens `ts`. -/
lemma textOf_decl {head : String} {ts ds : List Token}
    (h : spell ds = head.toList ++ spell ts) :
    textOf [[.keyword .packageKw, .ident packageWord], ds] =
      "package p\n" ++ head ++ String.ofList (spell ts) ++ "\n" := by
  simp only [textOf, List.flatMap_cons, List.flatMap_nil, List.append_nil, spell_package, h,
    String.ofList_append, String.ofList_toList, String.append_assoc]

/-- The entry declares the name as an alias for the type. -/
structure TypeSpec.Aliases (s : TypeSpec) (word : Word) (T : TypeExpr) : Prop where
  name : s.name.word = word
  plain : s.typeParams = none
  equals : s.isAlias
  type : s.type.bare = T.bare

namespace Parser

variable {ctx : Context} {lengths : Span → List Token} {c : Cursor} {t : Token}
  {after tail ts : List Token}

/-! ## Declarations -/

/-- A declaration ends with a semicolon or with the tokens. -/
lemma reads_finishDecl (h : c.tokens = .mark .semi :: after ∨ c.tokens = [] ∧ after = []) :
    Reads ctx c finishDecl after fun _ => True := by
  apply (reads_endStatement h).bind
  rintro _ c₁ _ h₁ rfl
  exact .pure h₁ True.intro

/-- What may come after the last declaration. -/
def IsTail (tail : List Token) : Prop :=
  tail = [.mark .semi] ∨ tail = []

/-- What may come after the last declaration goes on with no type. -/
lemma IsTail.endsType (h : IsTail tail) : EndsType tail := by
  rcases h with rfl | rfl
  · exact endsType_cons rfl nofun
  · exact nofun

/-- The last declaration ends with what may come after it. -/
lemma reads_finishDecl_of_isTail (htail : IsTail tail) (h : c.tokens = tail) :
    Reads ctx c finishDecl [] fun _ => True := by
  refine reads_finishDecl ?_
  rcases htail with rfl | rfl
  · exact .inl h
  · exact .inr ⟨h, rfl⟩

/-- An alias is read as the entry for its name and its type. -/
lemma reads_aliasSpec {word : Word} {T : TypeExpr} (hT : ReadsType ctx lengths topType T)
    (hafter : EndsType after)
    (h : c.tokens = .ident word :: .mark .assign :: (T.tokens lengths ++ after)) :
    Reads ctx c (typeSpec none) after fun s => s.Aliases word T := by
  apply (reads_requireIdent h).bind
  intro name c₁ _ h₁ hname
  have hplain : (isGeneric ctx c₁).1 = false := by
    show ((if (c₁.ahead 0).any (· == .mark .lBrack) then atTypeParams
      else pure false : Parser Bool) ctx c₁).1 = false
    rw [c₁.ahead_eq, h₁]
    rfl
  apply (reads_whenever_absent looks_isGeneric hplain).bind
  rintro _ c₂ _ h₂ rfl
  apply (reads_accept (h₂.trans h₁)).bind
  rintro _ c₃ _ h₃ ⟨span, rfl⟩
  apply (hT.reads c₃ after h₃ hafter).bind
  intro type c₄ _ h₄ htype
  apply (reads_note .typeSpec _).bind
  intro _ c₅ _ h₅ _
  exact .pure (h₅.trans h₄) ⟨hname, rfl, rfl, htype⟩

/-- The alias declaration of a type has one entry, with this type. -/
lemma reads_aliasDecl (hctx : ctx.groups = []) {word : Word} {T : TypeExpr}
    (hT : ReadsType ctx lengths topType T) (htail : IsTail tail)
    (h : c.tokens = .keyword .typeKw :: .ident word :: .mark .assign ::
      (T.tokens lengths ++ tail)) :
    Reads ctx c (decl (.keyword .typeKw)) [] fun d => ∃ g s, d = .gen g ∧ g.lParen = none ∧
      g.specs = [.typeSpec s] ∧ s.Aliases word T := by
  have hspecs {c : Cursor} (h : c.tokens = .ident word :: .mark .assign ::
      (T.tokens lengths ++ tail)) :
      Reads ctx c (specs .types none false) tail
        fun r => ∃ s, r = ([some (.typeSpec s)], none) ∧ s.Aliases word T := by
    have hspec : Reads ctx c (spec .types none) tail
        fun o => ∃ s, o = some (.typeSpec s) ∧ s.Aliases word T := by
      apply (reads_aliasSpec hT htail.endsType h).bind
      intro s c₁ _ h₁ hs
      exact .pure h₁ ⟨s, rfl, hs⟩
    apply hspec.bind
    rintro _ c₁ _ h₁ ⟨s, rfl, hs⟩
    exact .pure h₁ ⟨s, rfl, hs⟩
  have hdecl : Reads ctx c (genDecl .types) [] fun g => g.lParen = none ∧
      ∃ s, g.specs = [.typeSpec s] ∧ s.Aliases word T := by
    apply looks_docAbove.reads_of_eq (docAbove_eq_none hctx)
    apply (reads_take h).bind
    intro keyword c₁ _ h₁ _
    apply (reads_accept_absent (h₁ ▸ nofun)).bind
    rintro _ c₂ _ h₂ rfl
    apply (hspecs (h₂.trans h₁)).bind
    rintro _ c₃ _ h₃ ⟨s, rfl, hs⟩
    apply (reads_finishDecl_of_isTail htail h₃).bind
    intro _ c₄ _ h₄ _
    apply reads_node h₄
    intro span
    exact ⟨rfl, s, rfl, hs⟩
  apply hdecl.bind
  rintro g c₁ _ h₁ ⟨hparen, s, hspecs, hs⟩
  exact .pure h₁ ⟨g, s, rfl, hparen, hspecs, hs⟩

/-- The declaration of a function without a body has its parameters and results. -/
lemma reads_headDecl (hctx : ctx.groups = []) {name : Word} {s : Signature} (hs : s.Grammatical)
    (hT : ∀ T ∈ s.parts, ReadsType ctx lengths topType T) (htail : IsTail tail)
    (h : c.tokens = .keyword .funcKw :: .ident name :: (s.tokens lengths ++ tail)) :
    Reads ctx c (decl (.keyword .funcKw)) [] fun d => ∃ f, d = .func f ∧ f.recv = none ∧
      f.name.word = name ∧ f.typeParams = none ∧ f.signature.bare = s.bare ∧ f.body = none := by
  obtain ⟨ts, hfirst⟩ := s.exists_tokens lengths
  have hdecl : Reads ctx c funcDecl [] fun f => f.recv = none ∧ f.name.word = name ∧
      f.typeParams = none ∧ f.signature.bare = s.bare ∧ f.body = none := by
    apply looks_docAbove.reads_of_eq (docAbove_eq_none hctx)
    apply (reads_take h).bind
    intro keyword c₁ _ h₁ _
    apply (reads_whenever_absent (looks_nextIs _) ((nextIs_eq _).trans (by rw [h₁]; rfl))).bind
    rintro _ c₂ _ h₂ rfl
    apply (reads_requireIdent (h₂.trans h₁)).bind
    intro name' c₃ _ h₃ hname
    apply (reads_whenever_absent (looks_nextIs _)
      ((nextIs_eq _).trans (by rw [h₃, hfirst]; rfl))).bind
    rintro _ c₄ _ h₄ rfl
    apply (reads_signature hs hT htail.endsType (h₄.trans h₃)).bind
    intro s' c₅ _ h₅ hsignature
    have hbody : c₅.tokens.head?.any (· == .mark .lBrace) = false := by
      rw [h₅]
      rcases htail with rfl | rfl <;> rfl
    apply (reads_whenever_absent (looks_nextIs _) ((nextIs_eq _).trans hbody)).bind
    rintro _ c₆ _ h₆ rfl
    apply (looks_spanSince keyword).reads
    intro span
    apply (reads_finishDecl_of_isTail htail (h₆.trans h₅)).bind
    intro _ c₇ _ h₇ _
    apply (reads_note .funcDecl _).bind
    intro _ c₈ _ h₈ _
    exact .pure (h₈.trans h₇) ⟨rfl, hname, rfl, hsignature, rfl⟩
  apply hdecl.bind
  rintro f c₁ _ h₁ hf
  exact .pure h₁ ⟨f, rfl, hf⟩

/-! ## Files -/

/-- The package line and one declaration. -/
lemma reads_sourceFile {package : Word} {P : Decl → Prop} (ht : t ≠ .mark .semi)
    (h : c.tokens = .keyword .packageKw :: .ident package :: .mark .semi :: t :: ts)
    (hdecl : ∀ c, c.tokens = t :: ts → Reads ctx c (decl t) [] P) :
    Reads ctx c sourceFile [] fun f => ∃ d, f.decls = [d] ∧ P d := by
  apply looks_docAbove.reads
  intro doc
  apply (reads_requireSpan h).bind
  intro packageSpan c₁ _ h₁ _
  apply (reads_requireIdent h₁).bind
  intro name c₂ _ h₂ _
  apply (reads_finishDecl (.inl h₂)).bind
  intro _ c₃ _ h₃ _
  apply reads_remaining
  rw [h₃]
  have hdecls : Reads ctx c₃ (decls ((t :: ts).length + 1)) [] fun ds => ∃ d, ds = [d] ∧ P d := by
    apply reads_peek (o := some t) (by rw [h₃]; rfl)
    -- one turn of the loop reads the declaration, and the next one finds the end
    have hend (c' : Cursor) (h : c'.tokens = []) {n : Nat} :
        Reads ctx c' (decls (n + 1)) [] fun ds => ds = [] :=
      reads_peek (o := none) (by rw [h]; rfl) (.pure h rfl)
    have hone : Reads ctx c₃ (do
        let d ← decl t
        return d :: (← decls (t :: ts).length)) [] fun ds => ∃ d, ds = [d] ∧ P d := by
      apply (hdecl c₃ h₃).bind
      intro d c₄ _ h₄ hd
      apply (hend c₄ h₄).bind
      rintro _ c₅ _ h₅ rfl
      exact .pure h₅ ⟨d, rfl, hd⟩
    split
    · next h => cases h
    · next h =>
      cases h
      exact absurd rfl ht
    · next h =>
      cases h
      exact hone
  apply hdecls.bind
  rintro _ c₄ _ h₄ ⟨d, rfl, hd⟩
  apply (reads_note .sourceFile _).bind
  intro _ c₅ _ h₅ _
  apply Looks.reads (m := read) (fun _ _ => rfl)
  intro ctx'
  exact .pure (h₅.trans h₄) ⟨d, rfl, hd⟩

end Parser

/-- The text of a package line and a declaration is read as it is written. -/
theorem parse_textOf {t : Token} {ts : List Token} {P : Decl → Prop}
    (hts : ∀ u ∈ t :: ts, u.Legible) (ht : t ≠ .mark .semi)
    (hdecl : ∀ ctx c tail, ctx.groups = [] → Parser.IsTail tail → c.tokens = t :: ts ++ tail →
      Parser.Reads ctx c (Parser.decl t) [] P) :
    let p := parse (textOf [[.keyword .packageKw, .ident packageWord], t :: ts])
    p.isClean ∧ ∃ d, p.file.file.decls = [d] ∧ P d := by
  have hpackage : (Token.ident packageWord).Legible := legible_ident rfl
  have hlines : ∀ us ∈ [[.keyword .packageKw, .ident packageWord], t :: ts],
      us ≠ [] ∧ ∀ u ∈ us, Token.Legible u := by
    refine List.forall_mem_cons.2 ⟨⟨nofun, ?_⟩, List.forall_mem_singleton.2 ⟨nofun, hts⟩⟩
    exact List.forall_mem_cons.2 ⟨legible_keyword _, List.forall_mem_singleton.2 hpackage⟩
  obtain ⟨htokens, hcomments, hlexed⟩ := lex_lines hlines
  rw [← String.toList_ofList (l := List.flatMap _ _)] at htokens hcomments hlexed
  rw [← textOf] at htokens hcomments hlexed
  generalize textOf [[.keyword .packageKw, .ident packageWord], t :: ts] = source at *
  have hctx : (Context.ofLexed source.toList (lex source.toList)).groups = [] := by
    show CommentGroup.ofComments _ _ (lex source.toList).comments = []
    rw [hcomments, CommentGroup.ofComments]
  obtain ⟨tail, htail, hline⟩ : ∃ tail, Parser.IsTail tail ∧
      lineTokens (t :: ts) = t :: ts ++ tail :=
    ⟨_, ite_eq_or_eq .., rfl⟩
  have hfile : (lex source.toList).clampedTokens.map Placed.token =
      .keyword .packageKw :: .ident packageWord :: .mark .semi :: t :: (ts ++ tail) := by
    rw [Lexed.map_token_clampedTokens, htokens, List.flatMap_cons, List.flatMap_singleton, hline]
    rfl
  obtain ⟨-, -, hread, hdecls⟩ := Parser.reads_sourceFile
    (c := .start (lex source.toList).clampedTokens) ht hfile fun c h => hdecl _ c tail hctx htail h
  refine ⟨List.isEmpty_iff.2 ?_, hdecls⟩
  show Diagnostic.sorted ((lex source.toList).diagnostics ++
    (readTokens source.toList (lex source.toList)).2.diagnostics.reverse) = []
  have hclean : (readTokens source.toList (lex source.toList)).2.diagnostics = [] := hread
  rw [hlexed, hclean]
  exact List.mergeSort_nil

end GoService.Source
