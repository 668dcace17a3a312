import GoService.Proofs.Source.Placement
import GoService.Proofs.Source.TypeRuns
import GoService.Source.Parser.File

/-!
# Reading is total

Whatever a source text is, reading it comes to an end by itself with all tokens read
(`reading_total`). No loop is cut short: the loop over declarations too has a step for each
token, as a declaration reads at least the token at which it begins (`runs_decl`). A tree owns its
nodes, so tokens are all that is ever looked up by a place in a list.
-/

namespace GoService.Source

namespace Parser

variable {ctx : Context} {c : Cursor}

/-- The types in a file lie within one another at most so often: the last may be a placeholder or a
lone name. -/
abbrev nestingLimit : Nat :=
  typeDepthLimit + 1

/-- Types may be nested at all. -/
lemma one_le_nestingLimit : 1 ≤ nestingLimit :=
  Nat.succ_pos _

/-- The type of a declaration is nested within the limit. -/
lemma readsTypes_topType : ReadsTypes nestingLimit topType :=
  readsTypes_typeWithin typeDepthLimit

/-! ## Type parameters -/

/-- Type parameters with one constraint are nested within the limit. -/
lemma runs_typeParamGroup :
    Runs ctx c typeParamGroup fun g _ => g.outline.typeNesting ≤ nestingLimit := by
  apply looks_nextSpan.bind_runs
  intro start
  apply (runs_separatedBy (looks_pure false) fun c => runs_requireIdent _).andThen
  intro names c₁
  apply (runs_union readsTypes_topType).bind
  intro constraint c₂ _ hconstraint
  apply runs_node
  intro span
  show Outline.typeNestings (UnionTerm.outlines constraint) ≤ nestingLimit
  rw [UnionTerm.outlines_eq_map]
  exact Outline.typeNestings_map_le hconstraint

/-- Type parameters are nested within the limit. -/
lemma runs_typeParams :
    Runs ctx c typeParams fun p _ => p.outline.typeNesting ≤ nestingLimit := by
  have hstop : Looks atNoTypeParam := fun _ _ => rfl
  apply runs_take.andThen
  intro lBrack c₁
  apply (runs_separatedBy hstop fun c => runs_typeParamGroup).bind
  intro groups c₂ _ hgroups
  apply (runs_requireSpan _ _).andThen
  intro rBrack c₃
  apply (runs_note _ _).andThen
  intro _ c₄
  exact .pure (Outline.typeNestings_map_le hgroups)

/-! ## Entries of declarations -/

/-- To read the name of an import is a run. -/
lemma runs_importLabel : Runs ctx c importLabel fun _ _ => True := by
  apply runs_peek
  split
  · apply runs_take.andThen
    intro span c₁
    exact .pure True.intro
  · apply runs_take.andThen
    intro span c₁
    exact .pure True.intro
  · exact .pure True.intro

/-- To read an import is a run. -/
lemma runs_importSpec (doc : Option CommentGroup) :
    Runs ctx c (importSpec doc) fun _ _ => True := by
  apply runs_importLabel.andThen
  intro name c₁
  have hpath (text : String) : Runs ctx c₁ (do
      let span ← take
      note .importSpec span
      return some (⟨doc, name, ⟨text, span⟩⟩ : ImportSpec)) fun _ _ => True := by
    apply runs_take.andThen
    intro span c₂
    apply (runs_note _ _).andThen
    intro _ c₃
    exact .pure True.intro
  apply runs_peek
  split
  · exact hpath _
  · exact hpath _
  · apply (runs_complain _).andThen
    intro _ c₂
    apply runs_skipStatement.andThen
    intro _ c₃
    exact .pure True.intro

/-- To skip initial values is a run. -/
lemma runs_initialValues : Runs ctx c initialValues fun _ _ => True := by
  apply (runs_accept _).andThen
  intro equals c₁
  cases equals with
  | none => exact .pure True.intro
  | some span =>
    apply runs_skipStatement.andThen
    intro values c₂
    exact .pure True.intro

/-- The type of a value entry is nested within the limit. -/
lemma runs_valueSpec (doc : Option CommentGroup) : Runs ctx c (valueSpec doc) fun s _ =>
    ∀ t ∈ s.type, t.outline.typeNesting ≤ nestingLimit := by
  apply (runs_identList _).andThen
  intro names c₁
  apply (runs_whenever (looks_nextIs _) (readsTypes_topType ctx c₁)).bind
  intro type c₂ _ htype
  apply runs_initialValues.andThen
  intro values c₃
  exact .pure htype

/-- The test for a generic type only looks. -/
lemma looks_isGeneric : Looks isGeneric := by
  apply (looks_nextIs _).bind
  intro brackets
  cases brackets with
  | false => exact looks_pure _
  | true =>
    apply (looks_peekAt 1).bind
    intro first
    apply (looks_peekAt 2).bind
    intro second
    split
    · exact looks_pure _
    · exact looks_pure _

/-- A type entry is nested within the limit. -/
lemma runs_typeSpec (doc : Option CommentGroup) : Runs ctx c (typeSpec doc) fun s _ =>
    Outline.typeNestings (Spec.typeSpec s).outlines ≤ nestingLimit := by
  apply (runs_requireIdent _).andThen
  intro name c₁
  apply (runs_whenever looks_isGeneric runs_typeParams).bind
  intro tps c₂ _ htps
  apply (runs_accept _).andThen
  intro equals c₃
  apply (readsTypes_topType ctx c₃).bind
  intro type c₄ _ htype
  apply (runs_note _ _).andThen
  intro _ c₅
  apply Runs.pure
  have hchildren : Outline.typeNestings (TypeParams.outline? tps ++ [type.outline]) ≤
      nestingLimit := by
    rw [Outline.typeNestings_append]
    exact Nat.max_le.2 ⟨Outline.typeNestings_toList_le htps, Nat.max_le.2 ⟨htype, Nat.zero_le _⟩⟩
  exact Nat.max_le.2 ⟨hchildren, Nat.zero_le _⟩

/-- An entry of a declaration is nested within the limit. -/
lemma runs_spec (kind : DeclKind) (doc : Option CommentGroup) : Runs ctx c (spec kind doc)
    fun o _ => ∀ s ∈ o, Outline.typeNestings s.outlines ≤ nestingLimit := by
  have hvalue : Runs ctx c (do return some (.valueSpec (← valueSpec doc)))
      fun o _ => ∀ s ∈ o, Outline.typeNestings (Spec.outlines s) ≤ nestingLimit := by
    apply (runs_valueSpec doc).bind
    intro s c₁ _ hs
    apply Runs.pure
    rintro _ ⟨⟩
    exact Outline.typeNestings_toList_le hs
  cases kind with
  | imports =>
    apply (runs_importSpec doc).andThen
    intro o c₁
    apply Runs.pure
    intro s hs
    obtain ⟨i, -, rfl⟩ := Option.map_eq_some_iff.1 hs
    exact Nat.zero_le _
  | consts => exact hvalue
  | vars => exact hvalue
  | types =>
    apply (runs_typeSpec doc).bind
    intro s c₁ _ hs
    apply Runs.pure
    rintro _ ⟨⟩
    exact hs

/-- An entry between parentheses is nested within the limit. -/
lemma runs_specMember (kind : DeclKind) : Runs ctx c (specMember kind)
    fun o _ => ∀ s ∈ o, Outline.typeNestings s.outlines ≤ nestingLimit := by
  apply looks_docAbove.bind_runs
  intro doc
  apply (runs_spec kind doc).bind
  intro entry c₁ _ hentry
  apply runs_finishStatement.andThen
  intro _ c₂
  exact .pure hentry

/-- The entries of a declaration are nested within the limit. -/
lemma runs_specs (kind : DeclKind) (doc : Option CommentGroup) (grouped : Bool) :
    Runs ctx c (specs kind doc grouped) fun r _ =>
      ∀ o ∈ r.1, ∀ s ∈ o, Outline.typeNestings s.outlines ≤ nestingLimit := by
  rw [specs]
  split
  · apply (runs_membersUpTo fun c => runs_specMember kind).bind
    intro entries c₁ _ hentries
    apply (runs_require _ _).andThen
    intro rParen c₂
    exact .pure hentries
  · apply (runs_spec kind doc).bind
    intro entry c₁ _ hentry
    apply Runs.pure
    intro o ho
    cases List.mem_singleton.1 ho
    exact hentry

/-! ## Declarations -/

/-- A declaration with entries reads a token at least, and is nested within the limit. -/
lemma runs_genDecl (kind : DeclKind) {t : Token} (ht : c.ahead 0 = some t) :
    Runs ctx c (genDecl kind) fun d c' =>
      (Decl.gen d).outline.typeNesting ≤ nestingLimit ∧ c'.rest.length < c.rest.length := by
  apply looks_docAbove.bind_runs
  intro doc
  apply (runs_take_of_ahead ht).bind
  intro keyword c₁ _ hlt
  apply Runs.shorter _ hlt
  apply (runs_accept _).andThen
  intro lParen c₂
  apply (runs_specs kind doc _).bind
  rintro ⟨entries, rParen⟩ c₃ _ hentries
  apply runs_finishDecl.andThen
  intro _ c₄
  apply runs_node
  intro span
  apply Outline.typeNestings_flatMap_le
  intro s hs
  obtain ⟨o, ho, hs⟩ := List.mem_filterMap.1 hs
  exact hentries o ho s hs

/-- A function declaration reads a token at least, and is nested within the limit. -/
lemma runs_funcDecl {t : Token} (ht : c.ahead 0 = some t) :
    Runs ctx c funcDecl fun d c' =>
      (Decl.func d).outline.typeNesting ≤ nestingLimit ∧ c'.rest.length < c.rest.length := by
  apply looks_docAbove.bind_runs
  intro doc
  apply (runs_take_of_ahead ht).bind
  intro keyword c₁ _ hlt
  apply Runs.shorter _ hlt
  apply (runs_whenever (looks_nextIs _)
    (runs_params readsTypes_topType one_le_nestingLimit)).bind
  intro recv c₂ _ hrecv
  apply (runs_requireIdent _).andThen
  intro name c₃
  apply (runs_whenever (looks_nextIs _) runs_typeParams).bind
  intro tps c₄ _ htps
  apply (runs_signature readsTypes_topType one_le_nestingLimit).bind
  intro s c₅ _ hs
  apply (runs_whenever (looks_nextIs _) runs_skipRun).andThen
  intro body c₆
  apply (looks_spanSince _).bind_runs
  intro span
  apply runs_finishDecl.andThen
  intro _ c₇
  apply (runs_note _ _).andThen
  intro _ c₈
  apply Runs.pure
  show Outline.typeNestings ((recv.map FieldList.outlines).getD [] ++ TypeParams.outline? tps ++
    [s.outline]) ≤ nestingLimit
  have hreceiver : Outline.typeNestings ((recv.map FieldList.outlines).getD []) ≤ nestingLimit := by
    cases recv with
    | none => exact Nat.zero_le _
    | some l => exact hrecv l rfl
  rw [Outline.typeNestings_append, Outline.typeNestings_append]
  exact Nat.max_le.2 ⟨Nat.max_le.2 ⟨hreceiver, Outline.typeNestings_toList_le htps⟩,
    Nat.max_le.2 ⟨hs, Nat.zero_le _⟩⟩

/-- A declaration reads at least the token at which it begins. -/
lemma runs_decl {t : Token} (ht : c.ahead 0 = some t) :
    Runs ctx c (decl t) fun d c' =>
      d.outline.typeNesting ≤ nestingLimit ∧ c'.rest.length < c.rest.length := by
  have hgen (kind : DeclKind) : Runs ctx c (do return Decl.gen (← genDecl kind)) fun d c' =>
      d.outline.typeNesting ≤ nestingLimit ∧ c'.rest.length < c.rest.length := by
    apply (runs_genDecl kind ht).bind
    intro d c₁ _ hd
    exact .pure hd
  rw [decl.eq_def]
  split
  · exact hgen _
  · exact hgen _
  · exact hgen _
  · exact hgen _
  · apply (runs_funcDecl ht).bind
    intro d c₁ _ hd
    exact .pure hd
  · apply (runs_complain _).bind
    rintro _ c₁ - ⟨hrest, -⟩
    apply looks_nextSpan.bind_runs
    intro start
    apply runs_skipToDecl.bind
    intro _ c₂ _ hskip
    have hlt : c₂.rest.length < c.rest.length := by
      rw [← hrest]
      exact hskip (hrest ▸ Cursor.rest_ne_nil ht)
    apply Runs.shorter _ hlt
    apply runs_node
    exact fun span => Nat.zero_le _

/-- With more steps than tokens ahead the loop over declarations ends with all tokens read. -/
lemma runs_decls {fuel : Nat} (h : c.rest.length < fuel) :
    Runs ctx c (decls fuel) fun ds c' =>
      (∀ d ∈ ds, d.outline.typeNesting ≤ nestingLimit) ∧ c'.rest = [] := by
  induction fuel generalizing c with
  | zero => exact absurd h (Nat.not_lt_zero _)
  | succ fuel ih =>
    apply runs_peek
    split
    · next ht => exact .pure ⟨List.forall_mem_nil _, Cursor.rest_eq_nil ht⟩
    · next ht =>
      apply (runs_take_of_ahead ht).bind
      intro _ c₁ _ hlt
      exact ih (by omega)
    · next t _ ht =>
      apply (runs_decl ht).bind
      rintro d c₁ - ⟨hd, hlt⟩
      apply (ih (c := c₁) (by omega)).bind
      rintro ds c₂ - ⟨hds, hrest⟩
      exact .pure ⟨List.forall_mem_cons.2 ⟨hd, hds⟩, hrest⟩

/-- A file is read to the end of the tokens, and its types are nested within the limit. -/
lemma runs_sourceFile : Runs ctx c sourceFile fun f c' =>
    f.outline.typeNesting ≤ nestingLimit ∧ c'.rest = [] := by
  apply looks_docAbove.bind_runs
  intro doc
  apply (runs_requireSpan _ _).andThen
  intro package c₁
  apply (runs_requireIdent _).andThen
  intro name c₂
  apply runs_finishDecl.andThen
  intro _ c₃
  apply runs_remaining
  apply (runs_decls (Nat.lt_succ_self _)).bind
  rintro ds c₄ - ⟨hds, hrest⟩
  apply (runs_note _ _).bind
  rintro _ c₅ - hnote
  apply Looks.bind_runs (m := read) (fun _ _ => rfl)
  intro ctx'
  apply Runs.pure
  refine ⟨?_, hnote.trans hrest⟩
  show Outline.typeNestings (ds.map Decl.outline ++
    ctx'.groups.map fun g => .node .commentGroup g.span []) ≤ nestingLimit
  rw [Outline.typeNestings_append]
  exact Nat.max_le.2 ⟨Outline.typeNestings_map_le hds,
    Outline.typeNestings_map_le fun _ _ => Nat.zero_le _⟩

end Parser

/-! ## Sources -/

/-- The tokens of a source are read to their end. The cursor gets there step by step and stands
among the tokens or at their end all the way; no loop on the way is cut short. -/
structure ReadsAll (lexed : Lexed) (file : SourceFile) (c : Cursor) : Prop where
  steps : Cursor.Steps (.start lexed.clampedTokens) c
  inRange : ∀ c', Cursor.Steps (.start lexed.clampedTokens) c' →
    Cursor.Within lexed.clampedTokens c'
  comments : ∀ k ∈ lexed.comments, k.next ≤ lexed.tokens.length
  finished : c.rest = [] ∧ c.pos = lexed.tokens.length
  uncut : c.gaveUp = false
  nesting : file.outline.typeNesting ≤ Parser.nestingLimit

/-- No comment is behind more tokens than there are. -/
lemma next_le_of_mem_comments {src : List Char} {k : Comment} (h : k ∈ (lex src).comments) :
    k.next ≤ (lex src).tokens.length := by
  obtain ⟨c, hc, rfl⟩ := List.mem_map.1 h
  obtain ⟨before, after, hitems, hnext⟩ := exists_of_mem_commentsOf hc
  have htokens : (lex src).tokens = (before ++ .comment c.kind c.span c.text :: after).filterMap
      Item.placed? := congrArg (List.filterMap Item.placed?) hitems
  rw [htokens, List.filterMap_append, List.length_append]
  show c.next ≤ _
  rw [hnext, Nat.zero_add]
  exact Nat.le_add_right ..

/-- Nothing is left ahead when a file is read. -/
lemma rest_readTokens (cs : List Char) (lexed : Lexed) : (readTokens cs lexed).2.rest = [] := by
  have hruns : Parser.Runs (.ofLexed cs lexed) (.start lexed.clampedTokens) Parser.sourceFile _ :=
    Parser.runs_sourceFile
  exact hruns.post.2

/-- Reading types goes at most `typeDepthLimit` types deep, and every source text is read to its
end, whatever errors it has. -/
theorem reading_total :
    Parser.topType = Parser.typeBody^[Parser.typeDepthLimit] Parser.tooDeep ∧
    ∀ source : String, ReadsAll (lex source.toList) (parse source).file.file
      (readTokens source.toList (lex source.toList)).2 := by
  refine ⟨Parser.typeWithin_eq_iterate _, fun source => ?_⟩
  have hruns : Parser.Runs (.ofLexed source.toList (lex source.toList))
      (.start (lex source.toList).clampedTokens) Parser.sourceFile _ := Parser.runs_sourceFile
  obtain ⟨hsteps, hnesting, hrest⟩ := hruns
  have hwithin := hsteps.within (Cursor.within_start (lex source.toList).clampedTokens)
  refine ⟨hsteps, fun c' h => h.within (Cursor.within_start _), fun k => next_le_of_mem_comments,
    ⟨hrest, ?_⟩, hsteps.gaveUp_eq, hnesting⟩
  have hlength := congrArg List.length (hwithin.rest.symm.trans hrest)
  rw [List.length_drop] at hlength
  have hpos := Nat.le_antisymm hwithin.pos (Nat.le_of_sub_eq_zero hlength)
  rwa [Lexed.clampedTokens, List.length_map] at hpos

end GoService.Source
