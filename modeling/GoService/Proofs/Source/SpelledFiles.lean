import GoService.Proofs.Source.Balance
import GoService.Proofs.Source.SpelledTypes

/-!
# Files as their tokens spell them

Declarations that are read without a report are spelled, one after another, by the tokens of the
file; of initial values only the place is kept, apart from the tree. So in a source without faults
nothing had to be recovered (`exact_of_isClean`), and places nest (`nests_of_isClean`).
-/

namespace GoService.Source

namespace Parser

variable {ctx : Context} {tokens : List Placed} {c : Cursor} {K : Prop}

/-- The type of a declaration is spelled by its tokens. -/
lemma spellsTypes_topType : SpellsTypes ctx tokens topType :=
  spellsTypes_typeWithin typeDepthLimit

/-- What comes only under a condition is a tree. -/
lemma spells_whenever {α : Type} {cond : Parser Bool} {item : Parser α} {f : α → SpanTree}
    (hcond : Looks cond)
    (hitem : (cond ctx c).1 = true →
      CleanRun ctx tokens K c item fun a c' => c.Yields Spells c' [f a]) :
    CleanRun ctx tokens K c (whenever cond item)
      fun o c' => c.Yields Spells c' (o.map f).toList := by
  have htree : CleanRun ctx tokens K c (whenever cond item)
      fun o c' => c.Yields (fun row a => Spells row (f a)) c' o.toList :=
    yields_whenever hcond fun h => (hitem h).mono fun a c' _ ha => ha.of_tree f
  apply htree.mono
  intro o c' _ ho
  have htrees := ho.trees f
  rwa [← Option.toList_map] at htrees

/-! ## Type parameters -/

/-- Type parameters with one constraint are spelled by their tokens. -/
lemma spells_typeParamGroup : CleanRun ctx tokens K c typeParamGroup
    fun g c' => c.Yields (fun row g => Spells row g.spanTree) c' [g] := by
  apply cleanRun_startsAt
  intro start hstart
  apply (yields_separatedBy (looks_pure false) fun c => cleanRun_requireIdent).bind
  intro names c₁ _
  apply (spells_union spellsTypes_topType).bind
  intro constraint c₂ _
  apply cleanRun_node
  intro hK c₃ h₃
  obtain ⟨⟨-, hnames, -⟩, hconstraint, hne⟩ := hK
  have hparts := hnames.idents.trans (hconstraint.andSteps h₃)
  exact (hparts.node (List.append_ne_nil_of_right_ne_nil _ hne) hstart).of_tree
    TypeParamGroup.spanTree

/-- What stands between brackets goes from the opening to the closing one. -/
lemma cover_brackets {row : List Placed} {s opening closing : Span} {t t' : Token}
    {parts : List SpanTree} (horder : InOrder row)
    (h : Spells row (.node s (.token t opening :: (parts ++ [.token t' closing]))))
    (hstart : s.start = opening.start) (hstop : s.stop = max closing.stop opening.start) :
    opening.cover closing = s := by
  have hparts := h.nests horder
  obtain ⟨row₁, hsub₁, hopening⟩ := h.part List.mem_cons_self
  have hmem : SpanTree.token t' closing ∈ parts ++ [.token t' closing] :=
    List.mem_append_right _ (List.mem_singleton_self _)
  obtain ⟨row₂, hsub₂, hclosing⟩ := h.part (List.mem_cons_of_mem _ hmem)
  have hle : opening.start ≤ opening.stop := hopening.forward (horder.sublist hsub₁)
  have hle' : closing.start ≤ closing.stop := hclosing.forward (horder.sublist hsub₂)
  have hapart : opening.stop ≤ closing.start := (List.pairwise_cons.1 hparts.apart).1 _ hmem
  have hmin : min opening.start closing.start = opening.start := by omega
  have hmax : max opening.stop closing.stop = max closing.stop opening.start := by omega
  rw [Span.cover, hmin, hmax, ← hstop, ← hstart]

/-- Type parameters are spelled by their tokens. -/
lemma spells_typeParams (hbracket : c.ahead 0 = some (.mark .lBrack)) :
    CleanRun ctx tokens K c typeParams fun p c' => c.Yields Spells c' [p.spanTree] := by
  have hstop : Looks atNoTypeParam := fun _ _ => rfl
  apply cleanRun_takes hbracket
  intro p c₁ h₁ hp
  apply (yields_separatedBy hstop fun c => spells_typeParamGroup).bind
  intro groups c₂ _
  apply cleanRun_requireTaken.bind
  intro rBrack c₃ _
  apply CleanRun.after (runs_note _ _)
  intro _ c₄ h₄ hc₄
  apply CleanRun.pure
  intro hK
  obtain ⟨⟨-, hgroups, -⟩, q, h₃, hq, rfl⟩ := hK
  have hparts := (h₁.token hp nofun).trans
    ((hgroups.trees TypeParamGroup.spanTree).trans (h₃.token hq nofun))
  have hnode := hparts.node (List.cons_ne_nil _ _) h₁.startsAt
  -- the list is kept with the place from bracket to bracket, which is that of the node
  refine (hnode.settle fun row horder hrow => ?_).andSteps h₄
  cases hrow with
  | cons gap h hs =>
    have horder := horder.sublist
      ((List.sublist_append_left ..).trans (List.sublist_append_right ..))
    have hcover := cover_brackets horder h rfl (by rw [h₃.prevEnd_eq])
    rw [TypeParams.spanTree, hcover]
    exact .cons gap h hs

/-! ## Entries of declarations -/

/-- The name of an import is spelled by its token. -/
lemma spells_importLabel : CleanRun ctx tokens K c importLabel
    fun o c' => c.Yields Spells c' (o.map ImportLabel.spanTree).toList := by
  apply cleanRun_peek
  split
  · next hdot =>
    apply cleanRun_takes hdot
    intro p c₁ h₁ hp
    exact CleanRun.pure fun _ => h₁.token hp nofun
  · next word hword =>
    apply cleanRun_takes hword
    intro p c₁ h₁ hp
    apply CleanRun.pure
    intro _
    have hname := h₁.token hp nofun
    split
    · next hblank =>
      -- the blank is kept by its place only
      rw [hblank] at hname
      exact hname
    · exact hname
  · exact CleanRun.pure fun _ => .refl

/-- The places in an entry that may be missing. -/
def Spec.spanTrees? (o : Option Spec) : List SpanTree :=
  o.toList.flatMap Spec.spanTrees

/-- An import is spelled by its tokens. -/
lemma spells_importSpec (doc : Option CommentGroup) : CleanRun ctx tokens K c (importSpec doc)
    fun o c' => c.Yields Spells c' (Spec.spanTrees? (o.map .importSpec)) := by
  apply spells_importLabel.bind
  intro name c₁ _
  have hpath {text : String} {t : Token} (ht : c₁.ahead 0 = some t)
      (htext : t = .stringLit text ∨ t = .rawStringLit text) :
      CleanRun ctx tokens (K ∧ c.Yields Spells c₁ (name.map ImportLabel.spanTree).toList) c₁ (do
          let span ← take
          note .importSpec span
          return some (⟨doc, name, ⟨text, span⟩⟩ : ImportSpec))
        fun o c' => c.Yields Spells c' (Spec.spanTrees? (o.map .importSpec)) := by
    apply cleanRun_takes ht
    intro p c₂ h₂ hp
    apply CleanRun.after (runs_note _ _)
    intro _ c₃ h₃ _
    apply CleanRun.pure
    intro hK
    have hparts := hK.2.trans ((h₂.literal (hp ▸ htext)).andSteps h₃)
    rwa [← List.append_nil (_ ++ _)] at hparts
  apply cleanRun_peek
  split
  · next ht => exact hpath ht (.inl rfl)
  · next ht => exact hpath ht (.inr rfl)
  · apply (cleanRun_complain _).never
    intro _ c₂
    apply runs_skipStatement.andThen
    intro _ c₃
    exact .pure True.intro

/-- A value entry is spelled by its tokens. -/
lemma spells_valueSpec (doc : Option CommentGroup) : CleanRun ctx tokens K c (valueSpec doc)
    fun s c' => c.Yields Spells c' (Spec.valueSpec s).spanTrees := by
  apply (spells_identList _).bind
  intro names c₁ _
  apply (spells_whenever (looks_nextIs _) fun _ => spellsTypes_topType.cleanRun).bind
  intro type c₂ _
  apply CleanRun.after runs_initialValues
  intro values c₃ h₃ _
  apply CleanRun.pure
  intro hK
  obtain ⟨⟨-, hnames⟩, htype⟩ := hK
  exact hnames.idents.trans (htype.andSteps h₃)

/-- A type entry is spelled by its tokens. -/
lemma spells_typeSpec (doc : Option CommentGroup) : CleanRun ctx tokens K c (typeSpec doc)
    fun s c' => c.Yields Spells c' (Spec.typeSpec s).spanTrees := by
  apply cleanRun_requireIdent.bind
  intro name c₁ _
  apply (spells_whenever looks_isGeneric fun hgeneric =>
    spells_typeParams (ahead_of_isGeneric hgeneric)).bind
  intro tps c₂ _
  have htype {equals : Option Span} {c₃ : Cursor}
      (hequals : c₂.Yields Spells c₃ (SpanTree.token? (.mark .assign) equals)) :
      CleanRun ctx tokens ((K ∧ c.Yields SpellsIdent c₁ [name]) ∧
        c₁.Yields Spells c₂ (tps.map TypeParams.spanTree).toList) c₃ (do
          let type ← topType
          note .typeSpec name.span
          return (⟨doc, name, tps, equals, type⟩ : TypeSpec))
        fun s c' => c.Yields Spells c' (Spec.typeSpec s).spanTrees := by
    apply spellsTypes_topType.cleanRun.bind
    intro type c₄ _
    apply CleanRun.after (runs_note _ _)
    intro _ c₅ h₅ _
    apply CleanRun.pure
    intro hK
    obtain ⟨⟨⟨-, hname⟩, htps⟩, htype⟩ := hK
    exact hname.idents.trans ((htps.trans hequals).trans (htype.andSteps h₅))
  apply cleanRun_accepts
  · intro p c₃ h₃ hp
    exact htype (h₃.token hp nofun)
  · exact htype .refl

/-- An entry of a declaration is spelled by its tokens. -/
lemma spells_spec (kind : DeclKind) (doc : Option CommentGroup) :
    CleanRun ctx tokens K c (spec kind doc)
      fun o c' => c.Yields Spells c' (Spec.spanTrees? o) := by
  -- an entry that is there has its own places
  have hentry {s : Spec} {c' : Cursor} (h : c.Yields Spells c' s.spanTrees) :
      c.Yields Spells c' (Spec.spanTrees? (some s)) := by
    rwa [← List.append_nil s.spanTrees] at h
  have hvalue : CleanRun ctx tokens K c (do return some (.valueSpec (← valueSpec doc)))
      fun o c' => c.Yields Spells c' (Spec.spanTrees? o) := by
    apply (spells_valueSpec doc).bind
    intro s c₁ _
    exact CleanRun.pure fun hK => hentry hK.2
  cases kind with
  | imports =>
    apply (spells_importSpec doc).bind
    intro o c₁ _
    exact CleanRun.pure And.right
  | consts => exact hvalue
  | vars => exact hvalue
  | types =>
    apply (spells_typeSpec doc).bind
    intro s c₁ _
    exact CleanRun.pure fun hK => hentry hK.2

/-- An entry between parentheses is spelled by its tokens. -/
lemma spells_specMember (kind : DeclKind) : CleanRun ctx tokens K c (specMember kind)
    fun o c' => c.Yields (fun row o => InRows Spells row (Spec.spanTrees? o)) c' [o] := by
  apply looks_docAbove.cleanRun
  intro doc
  apply (spells_spec kind doc).bind
  intro o c₁ _
  apply CleanRun.after runs_finishStatement
  intro _ c₂ h₂ _
  exact CleanRun.pure fun hK => (hK.2.andSteps h₂).of_parts Spec.spanTrees?

/-- The entries of a declaration are spelled by their tokens. -/
lemma spells_specs (kind : DeclKind) (doc : Option CommentGroup) (grouped : Bool) :
    CleanRun ctx tokens K c (specs kind doc grouped) fun r c' => c.Yields Spells c'
      (r.1.flatMap Spec.spanTrees? ++ SpanTree.token? (.mark .rParen) r.2) := by
  rw [specs]
  split
  · apply (yields_membersUpTo fun c => spells_specMember kind).bind
    intro entries c₁ _
    apply cleanRun_require.bind
    intro rParen c₂ _
    apply CleanRun.pure
    intro hK
    obtain ⟨⟨-, hentries⟩, p, h₂, hp, rfl⟩ := hK
    exact (hentries.parts Spec.spanTrees?).trans (h₂.token hp (by decide))
  · apply (spells_spec kind doc).bind
    intro o c₁ _
    apply CleanRun.pure
    intro hK
    have hentry := hK.2
    rwa [← List.flatMap_singleton Spec.spanTrees? o, ← List.append_nil (List.flatMap ..)] at hentry

/-! ## Declarations -/

/-- An entry that could not be read has no place. -/
lemma flatMap_spanTrees? (entries : List (Option Spec)) :
    entries.flatMap Spec.spanTrees? = (entries.filterMap id).flatMap Spec.spanTrees := by
  rw [List.filterMap_eq_flatMap_toList, List.flatMap_assoc]
  rfl

/-- A declaration with entries is spelled by its tokens. -/
lemma spells_genDecl (kind : DeclKind)
    (hkeyword : c.ahead 0 = some (.keyword kind.keyword)) :
    CleanRun ctx tokens K c (genDecl kind)
      fun g c' => c.Yields Spells c' [(Decl.gen g).spanTree] := by
  apply looks_docAbove.cleanRun
  intro doc
  apply cleanRun_takes hkeyword
  intro p c₁ h₁ hp
  have hentries {lParen : Option Span} {c₂ : Cursor} (grouped : Bool)
      (hparen : c₁.Yields Spells c₂ (SpanTree.token? (.mark .lParen) lParen)) :
      CleanRun ctx tokens K c₂ (do
        let r ← specs kind doc grouped
        finishDecl
        return (⟨← noteSince .decl p.span, doc, kind, p.span, lParen, r.1.filterMap id,
          r.2⟩ : GenDecl)) fun g c' => c.Yields Spells c' [(Decl.gen g).spanTree] := by
    apply (spells_specs kind doc grouped).bind
    intro r c₃ _
    apply CleanRun.after runs_finishDecl
    intro _ c₄ h₄ _
    apply cleanRun_node
    intro hK c₅ h₅
    have hread := hparen.trans (hK.2.andSteps (h₄.trans h₅))
    rw [flatMap_spanTrees?, ← List.append_assoc] at hread
    exact ((h₁.token hp (by simp)).trans hread).node (List.cons_ne_nil _ _) h₁.startsAt
  apply cleanRun_accepts
  · intro q c₂ h₂ hq
    exact hentries true (h₂.token hq (by decide))
  · exact hentries false .refl

/-- A function declaration is spelled by its tokens. -/
lemma spells_funcDecl (hfunc : c.ahead 0 = some (.keyword .funcKw)) :
    CleanRun ctx tokens K c funcDecl fun f c' => c.Yields Spells c' [(Decl.func f).spanTree] := by
  apply looks_docAbove.cleanRun
  intro doc
  apply cleanRun_takes hfunc
  intro p c₁ h₁ hp
  have hparams (c : Cursor) : CleanRun ctx tokens K c (params topType)
      fun l c' => c.Yields (fun row (l : FieldList) => InRows Spells row l.spanTrees) c' [l] :=
    (spells_params spellsTypes_topType).mono fun l c' _ hl => hl.of_parts FieldList.spanTrees
  apply (yields_whenever (looks_nextIs _) fun _ => hparams c₁).bind
  intro recv c₂ _
  apply cleanRun_requireIdent.bind
  intro name c₃ _
  apply (spells_whenever (looks_nextIs _) fun h => spells_typeParams (ahead_of_nextIs h)).bind
  intro tps c₄ _
  apply (spells_signature spellsTypes_topType).bind
  intro s c₅ _
  apply (spells_whenever (looks_nextIs _) fun h =>
    cleanRun_skipRun (ahead_of_nextIs h) rfl).bind
  intro body c₆ _
  apply (looks_spanSince _).cleanRun_fst
  apply CleanRun.after runs_finishDecl
  intro _ c₇ h₇ _
  apply CleanRun.after (runs_note _ _)
  intro _ c₈ h₈ _
  apply CleanRun.pure
  intro hK
  obtain ⟨⟨⟨⟨⟨-, hrecv⟩, hname⟩, htps⟩, hs⟩, hbody⟩ := hK
  have hread := ((((hrecv.parts FieldList.spanTrees).trans hname.idents).trans htps).trans hs).trans
    hbody
  have hnode := ((h₁.token hp nofun).trans hread).node (List.cons_ne_nil _ _) h₁.startsAt
  exact hnode.andSteps (h₇.trans h₈)

/-- A row of tokens spells a declaration. -/
abbrev SpellsDecl (row : List Placed) (d : Decl) : Prop :=
  Spells row d.spanTree

/-- A declaration is spelled by its tokens. -/
lemma spells_decl {t : Token} (ht : c.ahead 0 = some t) :
    CleanRun ctx tokens K c (decl t) fun d c' => c.Yields SpellsDecl c' [d] := by
  have hgen (kind : DeclKind) (hkeyword : t = .keyword kind.keyword) :
      CleanRun ctx tokens K c (do return Decl.gen (← genDecl kind))
        fun d c' => c.Yields SpellsDecl c' [d] := by
    apply (spells_genDecl kind (hkeyword ▸ ht)).bind
    intro g c₁ _
    exact CleanRun.pure fun hK => hK.2.of_tree Decl.spanTree
  rw [decl.eq_def]
  split
  · exact hgen _ rfl
  · exact hgen _ rfl
  · exact hgen _ rfl
  · exact hgen _ rfl
  · apply (spells_funcDecl ht).bind
    intro f c₁ _
    exact CleanRun.pure fun hK => hK.2.of_tree Decl.spanTree
  · apply (cleanRun_complain _).never
    intro _ c₁
    apply looks_nextSpan.bind_runs
    intro start
    apply runs_skipToDecl.andThen
    intro _ c₂
    exact runs_node fun _ => True.intro

/-- Declarations are spelled by their tokens. -/
lemma spells_decls {fuel : Nat} (h : c.rest.length < fuel) :
    CleanRun ctx tokens K c (decls fuel) fun ds c' => c.Yields SpellsDecl c' ds := by
  induction fuel generalizing c K with
  | zero => exact absurd h (Nat.not_lt_zero _)
  | succ fuel ih =>
    apply cleanRun_peek
    split
    · exact CleanRun.pure fun _ => .refl
    · next ht =>
      apply cleanRun_takes ht
      intro p c₁ h₁ _
      have hlt := Cursor.length_lt h₁.rest
      exact (ih (by omega)).mono fun _ _ _ hds => .afterSteps h₁.steps hds
    · next t _ ht =>
      apply CleanRun.bindRuns (spells_decl ht) (runs_decl ht)
      intro d c₁ _ hread
      obtain ⟨-, hlt⟩ := hread
      apply (ih (c := c₁) (by omega)).bind
      intro ds c₂ _
      exact CleanRun.pure fun hK => hK.1.2.trans hK.2

/-- The places of a file are spelled in a row. -/
lemma spells_sourceFile :
    CleanRun ctx tokens K c sourceFile fun f c' => c.Yields Spells c' f.spanTrees := by
  apply looks_docAbove.cleanRun
  intro doc
  apply (cleanRun_requireSpan (t := .keyword .packageKw) nofun).bind
  intro package c₁ _
  apply cleanRun_requireIdent.bind
  intro name c₂ _
  apply CleanRun.after runs_finishDecl
  intro _ c₃ h₃ _
  apply cleanRun_remaining
  apply (spells_decls (Nat.lt_succ_self _)).bind
  intro ds c₄ _
  apply CleanRun.after (runs_note _ _)
  intro _ c₅ h₅ _
  apply Looks.cleanRun (m := read) (fun _ _ => rfl)
  intro ctx'
  apply CleanRun.pure
  intro hK
  obtain ⟨⟨⟨-, hpackage⟩, hname⟩, hds⟩ := hK
  have hdecls := (hds.trees Decl.spanTree).andSteps h₅
  exact (hpackage.trans (hname.idents.andSteps h₃)).trans hdecls

end Parser

/-! ## Sources without faults -/

/-- The tokens of a source that is read without a report spell its tree. -/
lemma spelled_of_isClean {source : String} (h : (parse source).isClean) :
    ∃ row, row.Sublist (lex source.toList).clampedTokens ∧
      InRows Spells row (parse source).file.file.spanTrees := by
  have hyields := (Parser.spells_sourceFile (Cursor.within_start _)).post
    (clean_of_isClean h).2 True.intro
  obtain ⟨row, hrest, -, hrow⟩ := hyields.row (inOrder_clampedTokens source.toList)
  refine ⟨row, ?_, hrow⟩
  have htokens : (lex source.toList).clampedTokens = row ++ _ := hrest
  rw [htokens]
  exact List.sublist_append_left ..

/-- What holds of all trees that tokens of a source spell holds everywhere in the tree of a source
that is read without a report. -/
lemma everywhere_of_isClean {source : String} {P : SpanTree → Prop} (h : (parse source).isClean)
    (hP : ∀ row t, row.Sublist (lex source.toList).clampedTokens → Spells row t → P t) :
    ∀ t ∈ (parse source).file.file.spanTrees, t.Everywhere P := by
  obtain ⟨row, hsub, hrow⟩ := spelled_of_isClean h
  intro t ht
  obtain ⟨row', hsub', hspells⟩ := hrow.exists_row ht
  exact hspells.everywhere (hsub'.trans hsub) hP

/-- In a source that is read without a report nothing had to be recovered. -/
lemma intact_of_isClean {source : String} (h : (parse source).isClean) :
    ∀ t ∈ (parse source).file.file.spanTrees, t.Everywhere SpanTree.IsIntact :=
  everywhere_of_isClean h fun _ _ _ hspells => hspells.isIntact

/-- In such a source of less than 4 GiB each place that is kept for a token is that of the token. -/
lemma exact_of_isClean {source : String} (hsrc : byteSize source.toList ≤ Span.maxOffset)
    (h : (parse source).isClean) :
    ∀ t ∈ (parse source).file.file.spanTrees, t.Everywhere (SpanTree.IsExact source.toList) := by
  refine everywhere_of_isClean h fun row t hsub hspells => hspells.isExact fun p hp => ?_
  rw [← clampedTokens_eq hsrc]
  exact hsub.mem hp

/-- In a source that is read without a report places lie within one another, or one after another.
-/
lemma nests_of_isClean {source : String} (h : (parse source).isClean) :
    (∀ t ∈ (parse source).file.file.spanTrees, t.Everywhere SpanTree.Nests) ∧
      (parse source).file.file.spanTrees.Pairwise fun t t' => t.span.stop ≤ t'.span.start := by
  have horder := inOrder_clampedTokens source.toList
  refine ⟨everywhere_of_isClean h fun _ _ hsub hspells => hspells.nests (horder.sublist hsub), ?_⟩
  obtain ⟨row, hsub, hrow⟩ := spelled_of_isClean h
  refine hrow.pairwise.imp fun {t t'} hrows => ?_
  obtain ⟨r, r', hsub', ht, ht'⟩ := hrows
  exact ht.covers.apart ht'.covers (horder.sublist (hsub'.trans hsub))

end GoService.Source
