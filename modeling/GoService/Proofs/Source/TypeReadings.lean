import GoService.Proofs.Source.ParameterReadings

/-!
# Reading types

Each reader reads what is written of a well-formed type, before any tokens that end a type, if the
reader of the types inside it does (`readsType_typeBody`). So a type that is not nested too deeply
is read as it is written (`readsType_typeWithin`).
-/

namespace GoService.Source.Parser

variable {ctx : Context} {lengths : Span → List Token} {c : Cursor} {t : Token}
  {after ts : List Token} {type : Parser TypeExpr} {T : TypeExpr}

/-! ## Named types and unions -/

/-- A name that may be qualified is read as it is written, if no dot follows. -/
lemma reads_qualifiedName {pkg : Option Ident} {name : Ident}
    (hafter : after.head? ≠ some (.mark .dot))
    (h : c.tokens = qualifiedTokens pkg name ++ after) :
    Reads ctx c qualifiedName after fun r => r.1.map Ident.bare = pkg.map Ident.bare ∧
      r.2.bare = name.bare := by
  cases pkg with
  | none =>
    change c.tokens = .ident name.word :: after at h
    apply (reads_requireIdent h).bind
    intro first c₁ _ h₁ hfirst
    apply (reads_accept_absent (h₁ ▸ hafter)).bind
    rintro _ c₂ _ h₂ rfl
    exact .pure (h₂.trans h₁) ⟨rfl, Ident.bare_eq hfirst⟩
  | some p =>
    change c.tokens = .ident p.word :: .mark .dot :: .ident name.word :: after at h
    apply (reads_requireIdent h).bind
    intro first c₁ _ h₁ hfirst
    apply (reads_accept h₁).bind
    rintro _ c₂ _ h₂ ⟨span, rfl⟩
    apply (reads_requireIdent h₂).bind
    intro second c₃ _ h₃ hsecond
    exact .pure h₃ ⟨congrArg some (Ident.bare_eq hfirst), Ident.bare_eq hsecond⟩

/-- Type arguments are read as they are written. -/
lemma reads_typeArgs {args : List TypeExpr} (hT : ∀ S ∈ args, ReadsType ctx lengths type S)
    (hafter : EndsType after)
    (h : c.tokens = argTokens (TypeExpr.tokenRows lengths args) ++ after) :
    Reads ctx c (typeArgs type) after fun ts => ts.map TypeExpr.bare = args.map TypeExpr.bare := by
  cases args with
  | nil =>
    change c.tokens = after at h
    apply (reads_accept_absent (h ▸ hafter.head?_ne (.inl rfl))).bind
    rintro _ c₁ _ h₁ rfl
    exact .pure (h₁.trans h) rfl
  | cons arg args =>
    have htokens : c.tokens = .mark .lBrack :: ([Token.mark .comma].intercalate
        ((arg :: args).map (TypeExpr.tokens lengths)) ++ .mark .rBrack :: after) := by
      rw [h, TypeExpr.tokenRows_eq_map]
      exact congrArg _ (List.append_assoc ..)
    apply (reads_accept htokens).bind
    rintro _ c₁ _ h₁ ⟨span, rfl⟩
    have hargs : Reads ctx c₁ (separatedBy (atEndOr .rBrack) .comma type) (.mark .rBrack :: after)
        fun ts => List.Forall₂ (fun S t : TypeExpr => t.bare = S.bare) (arg :: args) ts := by
      refine reads_separatedBy (looks_atEndOr _) ?_ nofun ?_ nofun h₁
      · intro S hS c rest h
        obtain ⟨t, ts, hfirst, hbegins⟩ := (hT S hS).first
        rw [hfirst] at h
        refine (atEndOr_eq h).trans (beq_false_of_ne ?_)
        rintro rfl
        cases hbegins
      · intro S hS c rest h hrest
        refine (hT S hS).reads c rest h ?_
        rcases hrest with hrest | rfl
        · exact endsType_of_head? hrest rfl nofun
        · exact endsType_cons rfl nofun
    apply hargs.bind
    intro ts c₂ _ h₂ hts
    apply (reads_require h₂).bind
    intro _ c₃ _ h₃ _
    exact .pure h₃ (map_eq_of_forall₂ hts)

/-- A type with a name is read as it is written. -/
lemma reads_namedType {span : Span} {pkg : Option Ident} {name : Ident} {args : List TypeExpr}
    (hT : ∀ S ∈ args, ReadsType ctx lengths type S) (hafter : EndsType after)
    (h : c.tokens = (TypeExpr.named span pkg name args).tokens lengths ++ after) :
    Reads ctx c (namedType type) after
      fun t => t.bare = (TypeExpr.named span pkg name args).bare := by
  rw [TypeExpr.tokens, List.append_assoc] at h
  apply looks_nextSpan.reads
  intro start
  refine (reads_qualifiedName ?_ h).bind ?_
  · cases args with
    | nil => exact hafter.head?_ne (.inr rfl)
    | cons => exact nofun
  rintro ⟨pkg', name'⟩ c₁ _ h₁ ⟨hpkg, hname⟩
  apply (reads_typeArgs hT hafter h₁).bind
  intro args' c₂ _ h₂ hargs
  apply reads_node h₂
  intro span'
  dsimp only at hpkg hname
  rw [TypeExpr.bare, TypeExpr.bare, TypeExpr.bares_eq_map, TypeExpr.bares_eq_map, hpkg, hname,
    hargs]

/-- A term of a union is read as it is written. -/
lemma reads_unionTerm {term : UnionTerm} (hT : ReadsType ctx lengths type term.type)
    (hafter : EndsType after) (h : c.tokens = term.tokens lengths ++ after) :
    Reads ctx c (unionTerm type) after fun t => t.bare = term.bare := by
  obtain ⟨tilde, T⟩ := term
  cases tilde with
  | none =>
    obtain ⟨t, ts, hfirst, hbegins⟩ := hT.first
    change c.tokens = T.tokens lengths ++ after at h
    have habsent : c.tokens.head? ≠ some (.mark .tilde) := by
      rw [h, hfirst]
      rintro ⟨⟩
      cases hbegins
    apply (reads_accept_absent habsent).bind
    rintro _ c₁ _ h₁ rfl
    apply (hT.reads c₁ after (h₁.trans h) hafter).bind
    intro t' c₂ _ h₂ ht
    exact .pure h₂ (congrArg (UnionTerm.mk none) ht)
  | some span =>
    change c.tokens = .mark .tilde :: (T.tokens lengths ++ after) at h
    apply (reads_accept h).bind
    rintro _ c₁ _ h₁ ⟨span', rfl⟩
    apply (hT.reads c₁ after h₁ hafter).bind
    intro t' c₂ _ h₂ ht
    exact .pure h₂ (congrArg (UnionTerm.mk (some default)) ht)

/-- A union is read as it is written, if no bar follows. -/
lemma reads_union {terms : List UnionTerm}
    (hT : ∀ S ∈ terms.map UnionTerm.type, ReadsType ctx lengths type S) (hne : terms ≠ [])
    (hafter : EndsType after) (hpipe : after.head? ≠ some (.mark .pipe))
    (h : c.tokens = [Token.mark .pipe].intercalate (UnionTerm.tokenRows lengths terms) ++ after) :
    Reads ctx c (union type) after
      fun ts => ts.map UnionTerm.bare = terms.map UnionTerm.bare := by
  rw [UnionTerm.tokenRows_eq_map] at h
  refine (reads_separatedBy (R := fun term t => t.bare = term.bare) (looks_pure false)
    (fun _ _ _ _ _ => rfl) (fun hnil => absurd hnil hne) ?_ hpipe h).mono
    fun _ => map_eq_of_forall₂
  intro term hterm c rest h hrest
  refine reads_unionTerm (hT _ (List.mem_map_of_mem hterm)) ?_ h
  rcases hrest with hrest | rfl
  · exact endsType_of_head? hrest rfl nofun
  · exact hafter

/-! ## Lists of names -/

/-- With more steps than tokens ahead all names are read. -/
lemma reads_moreIdents {what : String} {names : List Ident} {fuel : Nat}
    (hfuel : c.tokens.length < fuel) (hafter : after.head? ≠ some (.mark .comma))
    (h : c.tokens = names.flatMap (fun name => [.mark .comma, .ident name.word]) ++ after) :
    Reads ctx c (moreIdents what fuel) after
      fun ns => ns.map Ident.bare = names.map Ident.bare := by
  induction fuel generalizing c names with
  | zero => exact absurd hfuel (Nat.not_lt_zero _)
  | succ fuel ih =>
    cases names with
    | nil =>
      change c.tokens = after at h
      apply reads_peek rfl
      apply reads_peekAt rfl
      split
      · next hcomma _ => exact absurd (h ▸ hcomma) hafter
      · exact .pure h rfl
    | cons name names =>
      change c.tokens = .mark .comma :: .ident name.word :: (_ ++ after) at h
      apply reads_peek (o := some (.mark .comma)) (by rw [h]; rfl)
      apply reads_peekAt (o := some (.ident name.word)) (by rw [h]; rfl)
      apply (reads_take h).bind
      intro _ c₁ _ h₁ _
      apply (reads_requireIdent h₁).bind
      intro name' c₂ _ h₂ hname
      have hlt : c₂.tokens.length < fuel := by
        rw [h, List.length_cons, List.length_cons] at hfuel
        rw [h₂]
        omega
      apply (ih hlt h₂).bind
      intro names' c₃ _ h₃ hnames
      refine .pure h₃ ?_
      rw [List.map_cons, List.map_cons, Ident.bare_eq hname, hnames]

/-- Names are written with a comma before each but the first. -/
lemma nameTokens_eq_flatMap (name : Ident) (names : List Ident) :
    nameTokens (name :: names) =
      .ident name.word :: names.flatMap fun name => [.mark .comma, .ident name.word] := by
  induction names generalizing name with
  | nil => rfl
  | cons next names ih =>
    rw [nameTokens_cons_cons, ih, List.flatMap_cons]
    rfl

/-- A list of identifiers is read as it is written, if no comma follows. -/
lemma reads_identList {what : String} {names : List Ident} (hne : names ≠ [])
    (hafter : after.head? ≠ some (.mark .comma)) (h : c.tokens = nameTokens names ++ after) :
    Reads ctx c (identList what) after fun ns => ns.map Ident.bare = names.map Ident.bare := by
  cases names with
  | nil => exact absurd rfl hne
  | cons name names =>
    rw [nameTokens_eq_flatMap, List.cons_append] at h
    apply (reads_requireIdent h).bind
    intro first c₁ _ h₁ hfirst
    apply reads_remaining
    apply (reads_moreIdents (Nat.lt_succ_self _) hafter h₁).bind
    intro others c₂ _ h₂ hothers
    refine .pure h₂ ?_
    rw [List.map_cons, List.map_cons, Ident.bare_eq hfirst, hothers]

/-! ## Struct fields -/

/-- The tokens of the tag of a struct field. -/
def tagTokens (tag : Option StringLiteral) : List Token :=
  (tag.map StringLiteral.token).toList

/-- A struct field ends before a semicolon or the closing brace. -/
def EndsField (after : List Token) : Prop :=
  after.head? = some (.mark .semi) ∨ after.head? = some (.mark .rBrace)

/-- After the type of a struct field comes its tag or the end of the field. -/
lemma EndsField.exists_head? (h : EndsField after) (tag : Option StringLiteral) :
    ∃ t, (tagTokens tag ++ after).head? = some t ∧
      (t = .mark .semi ∨ t = .mark .rBrace ∨ t.isString = true) := by
  cases tag with
  | some l => exact ⟨l.token, rfl, .inr (.inr (l.isString_token))⟩
  | none =>
    rcases h with h | h
    · exact ⟨_, h, .inl rfl⟩
    · exact ⟨_, h, .inr (.inl rfl)⟩

/-- The tag of a field is read as it is written. -/
lemma reads_fieldTag {tag : Option StringLiteral} (hafter : EndsField after)
    (h : c.tokens = tagTokens tag ++ after) :
    Reads ctx c fieldTag after fun o => o.map StringLiteral.bare = tag.map StringLiteral.bare := by
  cases tag with
  | none =>
    change c.tokens = after at h
    rcases hafter with hafter | hafter
    · apply reads_peek (o := some (.mark .semi)) (h ▸ hafter)
      exact .pure h rfl
    · apply reads_peek (o := some (.mark .rBrace)) (h ▸ hafter)
      exact .pure h rfl
  | some l =>
    change c.tokens = l.token :: after at h
    have htake : Reads ctx c (do return some (⟨l.text, ← take⟩ : StringLiteral)) after
        fun o => o.map StringLiteral.bare = some l.bare := by
      apply (reads_take h).bind
      intro span c₁ _ h₁ _
      exact .pure h₁ rfl
    rcases l.token_eq_or with htoken | htoken
    · apply reads_peek (o := some (.rawStringLit l.text)) (by rw [h, htoken]; rfl)
      exact htake
    · apply reads_peek (o := some (.stringLit l.text)) (by rw [h, htoken]; rfl)
      exact htake

/-- What ends a field ends its type, with the tag before it. -/
lemma EndsField.endsType (h : EndsField after) (tag : Option StringLiteral) :
    EndsType (tagTokens tag ++ after) := by
  obtain ⟨t, ht, hends⟩ := h.exists_head? tag
  rcases hends with rfl | rfl | hstring
  · exact endsType_of_head? ht rfl nofun
  · exact endsType_of_head? ht rfl nofun
  · cases t with
    | stringLit | rawStringLit => exact endsType_of_head? ht rfl nofun
    | _ => cases hstring

/-- What comes after the brackets at a cursor's second token. -/
lemma tokenAfterRun?_drop {word : Word} {inner rest : List Token} (hinner : Balanced inner)
    (h : c.tokens = .ident word :: .mark .lBrack :: (inner ++ .mark .rBrack :: rest)) :
    tokenAfterRun? 0 (c.rest.drop 1) = rest.head? := by
  have hrun : (c.rest.drop 1).map Placed.token =
      .mark .lBrack :: (inner ++ .mark .rBrack :: rest) := by
    rw [List.map_drop]
    exact congrArg (List.drop 1) h
  exact tokenAfterRun?_run rfl rfl hinner hrun

/-- A type without a name before it is found to be embedded. -/
lemma reads_atEmbedded_of_embedded {tag : Option StringLiteral} (hembeddable : T.isEmbeddable)
    (hT : T.WellFormed lengths) (hafter : EndsField after)
    (h : c.tokens = T.tokens lengths ++ (tagTokens tag ++ after)) :
    Reads ctx c atEmbedded c.tokens fun b => b = true := by
  obtain ⟨next, hnext, hends⟩ := hafter.exists_head? tag
  cases T with
  | pointer span star elem =>
    apply reads_peek (o := some (.mark .star)) (by rw [h]; rfl)
    apply reads_peekAt rfl
    exact .pure rfl rfl
  | named span pkg name args =>
    cases pkg with
    | some p =>
      apply reads_peek (o := some (.ident p.word)) (by rw [h]; rfl)
      apply reads_peekAt (o := some (.mark .dot)) (by rw [h]; rfl)
      exact .pure rfl rfl
    | none =>
      -- what follows a local name tells whether it is a type or the name of a field
      apply reads_peek (o := some (.ident name.word)) (by rw [h]; rfl)
      cases args with
      | nil =>
        have hget : c.tokens[1]? = some next := by
          rw [h, ← hnext, List.head?_eq_getElem?]
          rfl
        apply reads_peekAt hget
        rcases hends with rfl | rfl | hstring
        · exact .pure rfl rfl
        · exact .pure rfl rfl
        · cases next with
          | stringLit | rawStringLit => exact .pure rfl rfl
          | _ => cases hstring
      | cons arg args =>
        -- brackets may be type arguments or an array, so the token behind them decides
        have hinner : Balanced ([Token.mark .comma].intercalate
            (TypeExpr.tokenRows lengths (arg :: args))) := by
          rw [TypeExpr.tokenRows_eq_map]
          refine .intercalate rfl rfl (List.forall_mem_map.2 fun S hS => ?_)
          exact (hT.parts S hS).balanced_tokens
        have hrun : c.tokens = .ident name.word :: .mark .lBrack ::
            ([Token.mark .comma].intercalate (TypeExpr.tokenRows lengths (arg :: args)) ++
              .mark .rBrack :: (tagTokens tag ++ after)) := by
          rw [h]
          exact congrArg (fun ts => Token.ident name.word :: .mark .lBrack :: ts)
            (List.append_assoc ..)
        apply reads_peekAt (o := some (.mark .lBrack)) (by rw [h]; rfl)
        apply runs_get
        rw [tokenAfterRun?_drop hinner hrun, hnext]
        exact Reads.pure rfl (decide_eq_true hends)
  | _ => cases hembeddable

/-- Names before a type are found not to be embedded. After a name brackets belong to the type,
since an element comes after them. -/
lemma reads_atEmbedded_of_named {names : List Ident} (hne : names ≠ [])
    (hT : T.WellFormed lengths) (h : c.tokens = nameTokens names ++ (T.tokens lengths ++ after)) :
    Reads ctx c atEmbedded c.tokens fun b => b = false := by
  match names with
  | [] => exact absurd rfl hne
  | name :: next :: names =>
    rw [nameTokens_cons_cons] at h
    apply reads_peek (o := some (.ident name.word)) (by rw [h]; rfl)
    apply reads_peekAt (o := some (.mark .comma)) (by rw [h]; rfl)
    exact .pure rfl rfl
  | [name] =>
    change c.tokens = .ident name.word :: (T.tokens lengths ++ after) at h
    obtain ⟨t, ts, hfirst, hbegins⟩ := hT.grammatical.exists_tokens
    apply reads_peek (o := some (.ident name.word)) (by rw [h]; rfl)
    apply reads_peekAt (o := some t) (by rw [h, hfirst]; rfl)
    cases t with
    | ident | keyword => exact .pure rfl rfl
    | mark m =>
      cases m with
      | star | lParen | arrow => exact .pure rfl rfl
      | lBrack =>
        -- a slice or an array: behind its brackets the type of the elements begins
        obtain ⟨inner, elem, hinner, helem, rfl⟩ := hT.grammatical.exists_brackets hfirst
        obtain ⟨u, us, hu, hbegins'⟩ := (hT.parts elem helem).grammatical.exists_tokens
        have hrun : c.tokens = .ident name.word :: .mark .lBrack ::
            (inner ++ .mark .rBrack :: (elem.tokens lengths ++ after)) := by
          rw [h, hfirst, List.cons_append, List.append_assoc, List.cons_append]
        apply runs_get
        rw [tokenAfterRun?_drop hinner hrun, hu]
        refine Reads.pure rfl (decide_eq_false ?_)
        rintro (rfl | rfl | hstring)
        · cases hbegins'
        · cases hbegins'
        · cases u with
          | stringLit | rawStringLit => cases hbegins'
          | _ => cases hstring
      | _ => cases hbegins
    | _ => cases hbegins

/-- Where a source has no comments there is no documentation. -/
lemma docAbove_eq_none (hctx : ctx.groups = []) : (docAbove ctx c).1 = none := by
  obtain ⟨rest, pos, prevEnd, diagnostics, built, gaveUp⟩ := c
  cases rest <;>
  · show CommentGroup.lead? ctx.groups _ _ = none
    rw [hctx]
    rfl

/-- Without comments there is none beside. -/
lemma commentBeside_eq_none (hctx : ctx.groups = []) : (commentBeside ctx c).1 = none := by
  show CommentGroup.trailing? ctx.groups _ = none
  rw [hctx]
  rfl

/-- A field of a struct is read as it is written. -/
lemma reads_structField (hctx : ctx.groups = []) {f : Field} (hf : f.IsStructField)
    (hT : f.type.WellFormed lengths) (hread : ReadsType ctx lengths type f.type)
    (hafter : EndsField after) (h : c.tokens = f.tokens lengths ++ after) :
    Reads ctx c (structField type) after fun g => g.bare = f.bare := by
  obtain ⟨span, names, ellipsis, T, tag, embedded, doc, comment⟩ := f
  cases hf.ellipsis
  cases hf.doc
  cases hf.comment
  have htokens : c.tokens = nameTokens names ++ (T.tokens lengths ++ (tagTokens tag ++ after)) := by
    rw [h, ← List.append_assoc (T.tokens lengths)]
    exact List.append_assoc ..
  apply looks_nextSpan.reads
  intro start
  apply looks_docAbove.reads_of_eq (docAbove_eq_none hctx)
  -- what is left once the names are read
  have hrest {names' : List Ident} {c₁ : Cursor}
      (hnames : names'.map Ident.bare = names.map Ident.bare)
      (h₁ : c₁.tokens = T.tokens lengths ++ (tagTokens tag ++ after)) :
      Reads ctx c₁ (do
        let t ← type
        let tag ← fieldTag
        let comment ← commentBeside
        return (⟨← noteSince .field start, names', none, t, tag, embedded, none, comment⟩ : Field))
        after fun g => g.bare =
          (⟨span, names, none, T, tag, embedded, none, none⟩ : Field).bare := by
    apply (hread.reads c₁ _ h₁ (hafter.endsType tag)).bind
    intro t c₂ _ h₂ ht
    apply (reads_fieldTag hafter h₂).bind
    intro tag' c₃ _ h₃ htag
    apply looks_commentBeside.reads_of_eq (commentBeside_eq_none hctx)
    apply reads_node h₃
    intro span'
    rw [Field.bare, Field.bare, hnames, ht, htag]
  cases embedded with
  | true =>
    obtain ⟨rfl, hembeddable⟩ := hf.embedded rfl
    apply (reads_atEmbedded_of_embedded hembeddable hT hafter htokens).bind
    rintro _ c₁ _ h₁ rfl
    have hnone : Reads ctx c₁ (pure []) c₁.tokens fun names' : List Ident => names' = [] :=
      .pure rfl rfl
    apply hnone.bind
    rintro _ c₂ _ h₂ rfl
    exact hrest rfl ((h₂.trans h₁).trans htokens)
  | false =>
    apply (reads_atEmbedded_of_named (hf.named rfl) hT htokens).bind
    rintro _ c₁ _ h₁ rfl
    obtain ⟨t, ts, hfirst, hbegins⟩ := hread.first
    have hcomma : (T.tokens lengths ++ (tagTokens tag ++ after)).head? ≠ some (.mark .comma) := by
      rw [hfirst]
      rintro ⟨⟩
      cases hbegins
    apply (reads_identList (hf.named rfl) hcomma (h₁.trans htokens)).bind
    intro names' c₂ _ h₂ hnames
    exact hrest hnames h₂

/-- A semicolon after a field is read, a closing brace is not. -/
lemma reads_finishField (h : c.tokens = .mark .semi :: after ∨
    ∃ rest, c.tokens = .mark .rBrace :: rest ∧ after = .mark .rBrace :: rest) :
    Reads ctx c finishField after fun _ => True := by
  rcases h with h | ⟨rest, h, rfl⟩
  · apply reads_peek (o := some (.mark .semi)) (by rw [h]; rfl)
    apply (reads_take h).bind
    intro _ c₁ _ h₁ _
    exact .pure h₁ True.intro
  · apply reads_peek (o := some (.mark .rBrace)) (by rw [h]; rfl)
    exact .pure h True.intro

/-- A struct field is read with the semicolon after it. -/
lemma readsItem_structMember (hctx : ctx.groups = []) {f : Field} (hf : f.IsStructField)
    (hT : f.type.WellFormed lengths) (hread : ReadsType ctx lengths type f.type) :
    ReadsItem ctx .rBrace (structMember type) (f.tokens lengths) fun g => g.bare = f.bare := by
  refine ⟨?_, ?_, ?_⟩
  · obtain ⟨span, names, ellipsis, T, tag, embedded, doc, comment⟩ := f
    cases hf.ellipsis
    cases names with
    | cons name names =>
      rw [Field.tokens, nameTokens_eq_flatMap]
      exact ⟨_, _, rfl, nofun, nofun⟩
    | nil =>
      obtain ⟨t, ts, hfirst, hbegins⟩ := hread.first
      refine ⟨t, ts ++ tagTokens tag, congrArg (· ++ tagTokens tag) hfirst, ?_, ?_⟩
      · rintro rfl
        cases hbegins
      · rintro rfl
        cases hbegins
  · intro c rest h
    apply (reads_structField hctx hf hT hread (.inl rfl) h).bind
    intro g c₁ _ h₁ hg
    apply (reads_finishField (.inl h₁)).bind
    intro _ c₂ _ h₂ _
    exact .pure h₂ hg
  · intro c rest h
    apply (reads_structField hctx hf hT hread (.inr rfl) h).bind
    intro g c₁ _ h₁ hg
    apply (reads_finishField (.inr ⟨rest, h₁, rfl⟩)).bind
    intro _ c₂ _ h₂ _
    exact .pure h₂ hg

/-- A struct type is read as it is written. -/
lemma reads_structType (hctx : ctx.groups = []) {span lBrace rBrace : Span} {fields : List Field}
    (hT : (TypeExpr.struct span lBrace fields rBrace).WellFormed lengths)
    (hread : ∀ S ∈ fields.map Field.type, ReadsType ctx lengths type S)
    (h : c.tokens = (TypeExpr.struct span lBrace fields rBrace).tokens lengths ++ after) :
    Reads ctx c (structType type) after
      fun t => t.bare = (TypeExpr.struct span lBrace fields rBrace).bare := by
  have htokens : c.tokens = .keyword .structKw :: .mark .lBrace ::
      ([Token.mark .semi].intercalate (fields.map (Field.tokens lengths)) ++
        .mark .rBrace :: after) := by
    rw [h, ← Field.tokenRows_eq_map]
    exact congrArg (fun ts => Token.keyword .structKw :: .mark .lBrace :: ts)
      (List.append_assoc ..)
  apply (reads_take htokens).bind
  intro start c₁ _ h₁ _
  apply (reads_requireSpan h₁).bind
  intro lBrace' c₂ _ h₂ _
  have hfields : ∀ f ∈ fields, ReadsItem ctx .rBrace (structMember type) (f.tokens lengths)
      fun g => g.bare = f.bare := fun f hf =>
    readsItem_structMember hctx (hT.grammatical f hf) (hT.parts _ (List.mem_map_of_mem hf))
      (hread _ (List.mem_map_of_mem hf))
  apply (reads_membersUpTo (R := fun f g : Field => g.bare = f.bare) hfields h₂).bind
  intro fields' c₃ _ h₃ hfields'
  apply (reads_requireSpan h₃).bind
  intro rBrace' c₄ _ h₄ _
  apply reads_node h₄
  intro span'
  rw [TypeExpr.bare, TypeExpr.bare, Field.bares_eq_map, Field.bares_eq_map,
    map_eq_of_forall₂ hfields']

/-! ## Interfaces -/

/-- No union begins with a name and a parenthesis. -/
lemma union_not_method {terms : List UnionTerm}
    (hread : ∀ S ∈ terms.map UnionTerm.type, ReadsType ctx lengths type S) (hne : terms ≠ [])
    (hafter : after.head? ≠ some (.mark .lParen)) {word : Word}
    (h : [Token.mark .pipe].intercalate (terms.map (UnionTerm.tokens lengths)) ++ after =
      .ident word :: ts) : ts.head? ≠ some (.mark .lParen) := by
  have hterm {T : TypeExpr} {rest : List Token} (hT : ReadsType ctx lengths type T)
      (hrest : rest.head? ≠ some (.mark .lParen))
      (h : T.tokens lengths ++ rest = .ident word :: ts) : ts.head? ≠ some (.mark .lParen) := by
    obtain ⟨t, us, hfirst, -⟩ := hT.first
    exact TypeExpr.head?_ne_lParen h (hfirst ▸ List.cons_ne_nil t us) hrest
  match terms with
  | [] => exact absurd rfl hne
  | [⟨tilde, T⟩] =>
    rw [List.map_singleton, List.intercalate_singleton] at h
    cases tilde with
    | some span => cases h
    | none => exact hterm (hread T List.mem_cons_self) hafter h
  | ⟨tilde, T⟩ :: next :: terms =>
    rw [List.map_cons, List.map_cons, List.intercalate_cons_cons, List.append_assoc,
      List.append_assoc, List.singleton_append] at h
    cases tilde with
    | some span => cases h
    | none =>
      refine hterm (hread T List.mem_cons_self) ?_ h
      exact nofun

/-- An element of an interface is read as it is written. -/
lemma reads_interfaceElement {e : InterfaceMember} (he : e.Grammatical)
    (hread : ∀ S ∈ e.parts, ReadsType ctx lengths type S) (hafter : EndsField after)
    (h : c.tokens = e.tokens lengths ++ after) :
    Reads ctx c (interfaceElement type) after fun e' => e'.bare = e.bare := by
  have hends : EndsType after := by
    rcases hafter with hafter | hafter
    · exact endsType_of_head? hafter rfl nofun
    · exact endsType_of_head? hafter rfl nofun
  cases e with
  | method name s =>
    change c.tokens = .ident name.word :: (s.tokens lengths ++ after) at h
    obtain ⟨ts, hparen⟩ := s.exists_tokens lengths
    apply reads_peek (o := some (.ident name.word)) (by rw [h]; rfl)
    apply reads_peekAt (o := some (.mark .lParen)) (by rw [h, hparen]; rfl)
    apply (reads_requireIdent h).bind
    intro name' c₁ _ h₁ hname
    apply (reads_signature he hread hends h₁).bind
    intro s' c₂ _ h₂ hs
    refine .pure h₂ ?_
    rw [InterfaceMember.bare, InterfaceMember.bare, Ident.bare_eq hname, hs]
  | union terms =>
    have hpipe : after.head? ≠ some (.mark .pipe) := by
      rcases hafter with hafter | hafter <;> rw [hafter] <;> exact nofun
    have hunion : Reads ctx c (do return InterfaceMember.union (← union type)) after
        fun e' => e'.bare = (InterfaceMember.union terms).bare := by
      apply (reads_union hread he hends hpipe h).bind
      intro terms' c₁ _ h₁ hterms
      refine .pure h₁ ?_
      rw [InterfaceMember.bare, InterfaceMember.bare, UnionTerm.bares_eq_map,
        UnionTerm.bares_eq_map, hterms]
    apply reads_peek rfl
    apply reads_peekAt rfl
    -- a name with a parenthesis behind it is a method, and no union is written so
    split
    · next word hword hparen =>
      obtain ⟨ts, hts⟩ := List.head?_eq_some_iff.1 hword
      rw [hts] at hparen
      have hwritten := h.symm.trans hts
      rw [InterfaceMember.tokens, UnionTerm.tokenRows_eq_map] at hwritten
      have hhead := union_not_method hread he (hends.head?_ne (.inl rfl)) hwritten
      rw [List.head?_eq_getElem?] at hhead
      exact absurd hparen hhead
    · exact hunion

/-- An element ends with a semicolon or before the closing brace. -/
lemma reads_finishElement (h : c.tokens = .mark .semi :: after ∨
    ∃ rest, c.tokens = .mark .rBrace :: rest ∧ after = .mark .rBrace :: rest) :
    Reads ctx c finishElement after fun _ => True := by
  rcases h with h | ⟨rest, h, rfl⟩
  · apply (looks_atEndOr _).reads_of_eq (atEndOr_eq h)
    apply (reads_endStatement (.inl h)).bind
    rintro _ c₁ _ h₁ rfl
    exact .pure h₁ True.intro
  · apply (looks_atEndOr _).reads_of_eq (atEndOr_eq h)
    exact .pure h True.intro

/-- An element of an interface is read with the semicolon after it. -/
lemma readsItem_interfaceMember {e : InterfaceMember} (he : e.Grammatical)
    (hread : ∀ S ∈ e.parts, ReadsType ctx lengths type S) :
    ReadsItem ctx .rBrace (interfaceMember type) (e.tokens lengths) fun e' => e'.bare = e.bare := by
  refine ⟨?_, ?_, ?_⟩
  · cases e with
    | method name s => refine ⟨_, _, rfl, ?_, ?_⟩ <;> rintro ⟨⟩
    | union terms =>
      obtain ⟨⟨tilde, T⟩, terms, rfl⟩ := List.exists_cons_of_ne_nil he
      obtain ⟨us, hus⟩ : ∃ us, [Token.mark .pipe].intercalate
          (UnionTerm.tokens lengths ⟨tilde, T⟩ :: UnionTerm.tokenRows lengths terms) =
            UnionTerm.tokens lengths ⟨tilde, T⟩ ++ us := exists_intercalate_cons _ _
      rw [InterfaceMember.tokens, UnionTerm.tokenRows, hus]
      cases tilde with
      | some span => refine ⟨_, _, rfl, ?_, ?_⟩ <;> rintro ⟨⟩
      | none =>
        obtain ⟨t, ts, hfirst, hbegins⟩ := (hread T List.mem_cons_self).first
        refine ⟨t, ts ++ us, congrArg (· ++ us) hfirst, ?_, ?_⟩
        · rintro rfl
          cases hbegins
        · rintro rfl
          cases hbegins
  · intro c rest h
    apply (reads_interfaceElement he hread (.inl rfl) h).bind
    intro e' c₁ _ h₁ he'
    apply (reads_finishElement (.inl h₁)).bind
    intro _ c₂ _ h₂ _
    exact .pure h₂ he'
  · intro c rest h
    apply (reads_interfaceElement he hread (.inr rfl) h).bind
    intro e' c₁ _ h₁ he'
    apply (reads_finishElement (.inr ⟨rest, h₁, rfl⟩)).bind
    intro _ c₂ _ h₂ _
    exact .pure h₂ he'

/-- An interface type is read as it is written. -/
lemma reads_interfaceType {span lBrace rBrace : Span} {elems : List InterfaceMember}
    (hT : (TypeExpr.interface span lBrace elems rBrace).Grammatical lengths)
    (hread : ∀ S ∈ elems.flatMap InterfaceMember.parts, ReadsType ctx lengths type S)
    (h : c.tokens = (TypeExpr.interface span lBrace elems rBrace).tokens lengths ++ after) :
    Reads ctx c (interfaceType type) after
      fun t => t.bare = (TypeExpr.interface span lBrace elems rBrace).bare := by
  have htokens : c.tokens = .keyword .interfaceKw :: .mark .lBrace ::
      ([Token.mark .semi].intercalate (elems.map (InterfaceMember.tokens lengths)) ++
        .mark .rBrace :: after) := by
    rw [h, ← InterfaceMember.tokenRows_eq_map]
    exact congrArg (fun ts => Token.keyword .interfaceKw :: .mark .lBrace :: ts)
      (List.append_assoc ..)
  apply (reads_take htokens).bind
  intro start c₁ _ h₁ _
  apply (reads_requireSpan h₁).bind
  intro lBrace' c₂ _ h₂ _
  have helems : ∀ e ∈ elems, ReadsItem ctx .rBrace (interfaceMember type) (e.tokens lengths)
      fun e' => e'.bare = e.bare := fun e he =>
    readsItem_interfaceMember (hT e he) fun S hS => hread S (List.mem_flatMap.2 ⟨e, he, hS⟩)
  apply (reads_membersUpTo (R := fun e e' : InterfaceMember => e'.bare = e.bare) helems h₂).bind
  intro elems' c₃ _ h₃ helems'
  apply (reads_requireSpan h₃).bind
  intro rBrace' c₄ _ h₄ _
  apply reads_node h₄
  intro span'
  rw [TypeExpr.bare, TypeExpr.bare, InterfaceMember.bares_eq_map, InterfaceMember.bares_eq_map,
    map_eq_of_forall₂ helems']

/-! ## Types -/

/-- The length of an array does not begin with a closing bracket, as it would after a slice. -/
lemma reads_arrayType {span len : Span} {elem : TypeExpr}
    (hlen : lengths len ≠ [] ∧ Balanced (lengths len)) (hread : ReadsType ctx lengths type elem)
    (hafter : EndsType after)
    (h : c.tokens = (TypeExpr.array span len elem).tokens lengths ++ after) :
    Reads ctx c (bracketType type) after fun t => t.bare = (TypeExpr.array span len elem).bare := by
  obtain ⟨hne, hbalanced⟩ := hlen
  have htokens : c.tokens = .mark .lBrack ::
      (lengths len ++ .mark .rBrack :: (elem.tokens lengths ++ after)) := by
    rw [h]
    exact congrArg (List.cons (Token.mark .lBrack)) (List.append_assoc ..)
  have hlength : c.tokens[1]? ≠ some (.mark .rBrack) := by
    obtain ⟨t, ts, hts⟩ := List.exists_cons_of_ne_nil hne
    rw [hts] at hbalanced
    rw [htokens, hts]
    rintro ⟨⟩
    exact hbalanced.not_isClosing rfl
  apply looks_nextSpan.reads
  intro start
  apply reads_peekAt rfl
  rw [if_neg hlength]
  have hrun : Reads ctx c skipRun (elem.tokens lengths ++ after) fun _ => True :=
    reads_skipRun rfl rfl hbalanced htokens
  apply hrun.bind
  intro len' c₁ _ h₁ _
  apply (hread.reads c₁ after h₁ hafter).bind
  intro elem' c₂ _ h₂ helem
  apply reads_node h₂
  intro span'
  rw [TypeExpr.bare, TypeExpr.bare, helem]

/-- A slice type is read as it is written. -/
lemma reads_sliceType {span : Span} {elem : TypeExpr} (hread : ReadsType ctx lengths type elem)
    (hafter : EndsType after)
    (h : c.tokens = (TypeExpr.slice span elem).tokens lengths ++ after) :
    Reads ctx c (bracketType type) after fun t => t.bare = (TypeExpr.slice span elem).bare := by
  change c.tokens = .mark .lBrack :: .mark .rBrack :: (elem.tokens lengths ++ after) at h
  apply looks_nextSpan.reads
  intro start
  apply reads_peekAt (o := some (.mark .rBrack)) (by rw [h]; rfl)
  rw [if_pos rfl]
  apply (reads_take h).bind
  intro _ c₁ _ h₁ _
  apply (reads_take h₁).bind
  intro _ c₂ _ h₂ _
  apply (hread.reads c₂ after h₂ hafter).bind
  intro elem' c₃ _ h₃ helem
  apply reads_node h₃
  intro span'
  rw [TypeExpr.bare, TypeExpr.bare, helem]

/-- A map type is read as it is written. -/
lemma reads_mapType {span : Span} {key val : TypeExpr} (hkey : ReadsType ctx lengths type key)
    (hval : ReadsType ctx lengths type val) (hafter : EndsType after)
    (h : c.tokens = (TypeExpr.map span key val).tokens lengths ++ after) :
    Reads ctx c (mapType type) after fun t => t.bare = (TypeExpr.map span key val).bare := by
  have htokens : c.tokens = .keyword .mapKw :: .mark .lBrack ::
      (key.tokens lengths ++ .mark .rBrack :: (val.tokens lengths ++ after)) := by
    rw [h]
    exact congrArg (fun ts => Token.keyword .mapKw :: .mark .lBrack :: ts) (List.append_assoc ..)
  apply (reads_take htokens).bind
  intro start c₁ _ h₁ _
  apply (reads_require h₁).bind
  intro _ c₂ _ h₂ _
  apply (hkey.reads c₂ _ h₂ (endsType_cons rfl nofun)).bind
  intro key' c₃ _ h₃ hkey'
  apply (reads_require h₃).bind
  intro _ c₄ _ h₄ _
  apply (hval.reads c₄ after h₄ hafter).bind
  intro val' c₅ _ h₅ hval'
  apply reads_node h₅
  intro span'
  rw [TypeExpr.bare, TypeExpr.bare, hkey', hval']

/-- A channel that is written with its keyword first. Where no arrow comes after the keyword, the
element does not begin with one. -/
lemma reads_chanType {span : Span} {dir : ChanDir} {elem : TypeExpr} (hdir : dir ≠ .recv)
    (hT : (TypeExpr.chan span dir elem).Grammatical lengths)
    (hread : ReadsType ctx lengths type elem) (hafter : EndsType after)
    (h : c.tokens = (TypeExpr.chan span dir elem).tokens lengths ++ after) :
    Reads ctx c (chanType type) after fun t => t.bare = (TypeExpr.chan span dir elem).bare := by
  -- behind the direction there is the type of the elements only
  have hrest {start : Span} {c₁ : Cursor} (h₁ : c₁.tokens = elem.tokens lengths ++ after) :
      Reads ctx c₁ (do
        let elem ← type
        return TypeExpr.chan (← noteSince .type start) dir elem) after
        fun t => t.bare = (TypeExpr.chan span dir elem).bare := by
    apply (hread.reads c₁ after h₁ hafter).bind
    intro elem' c₂ _ h₂ helem
    apply reads_node h₂
    intro span'
    rw [TypeExpr.bare, TypeExpr.bare, helem]
  have hdirection {c₁ : Cursor}
      (h₁ : c₁.tokens = dir.tokens.drop 1 ++ (elem.tokens lengths ++ after)) :
      Reads ctx c₁ chanDir (elem.tokens lengths ++ after) fun d => d = dir := by
    cases dir with
    | both =>
      change c₁.tokens = elem.tokens lengths ++ after at h₁
      -- an arrow would have been read as part of the direction
      obtain ⟨t, ts, hfirst, -⟩ := hread.first
      have habsent : c₁.tokens.head? ≠ some (.mark .arrow) := by
        rw [h₁, hfirst]
        rintro ⟨⟩
        exact TypeExpr.first_ne_arrow hT hfirst rfl
      apply (reads_accept_absent habsent).bind
      rintro _ c₂ _ h₂ rfl
      exact .pure (h₂.trans h₁) rfl
    | send =>
      apply (reads_accept h₁).bind
      rintro _ c₂ _ h₂ ⟨span', rfl⟩
      exact .pure h₂ rfl
    | recv => exact absurd rfl hdir
  have htokens : c.tokens = .keyword .chanKw ::
      (dir.tokens.drop 1 ++ (elem.tokens lengths ++ after)) := by
    rw [h, TypeExpr.tokens, List.append_assoc]
    cases dir with
    | both | send => rfl
    | recv => exact absurd rfl hdir
  apply (reads_take htokens).bind
  intro start c₁ _ h₁ _
  apply (hdirection h₁).bind
  rintro _ c₂ _ h₂ rfl
  exact hrest h₂

/-- A receiving channel is read as it is written. -/
lemma reads_recvType {span : Span} {elem : TypeExpr} (hread : ReadsType ctx lengths type elem)
    (hafter : EndsType after)
    (h : c.tokens = (TypeExpr.chan span .recv elem).tokens lengths ++ after) :
    Reads ctx c (recvType type) after fun t => t.bare = (TypeExpr.chan span .recv elem).bare := by
  change c.tokens = .mark .arrow :: .keyword .chanKw :: (elem.tokens lengths ++ after) at h
  apply (reads_take h).bind
  intro start c₁ _ h₁ _
  apply (reads_require h₁).bind
  intro _ c₂ _ h₂ _
  apply (hread.reads c₂ after h₂ hafter).bind
  intro elem' c₃ _ h₃ helem
  apply reads_node h₃
  intro span'
  rw [TypeExpr.bare, TypeExpr.bare, helem]

/-- A well-formed type is read as it is written if the types in it are. -/
lemma readsType_typeBody (hctx : ctx.groups = []) (hT : T.WellFormed lengths)
    (hread : ∀ S ∈ T.parts, ReadsType ctx lengths type S) :
    ReadsType ctx lengths (typeBody type) T := by
  refine ⟨hT.grammatical.exists_tokens, fun c after h hafter => ?_⟩
  cases T with
  | named span pkg name args =>
    cases pkg with
    | none =>
      apply reads_peek (o := some (.ident name.word)) (by rw [h]; rfl)
      exact reads_namedType hread hafter h
    | some p =>
      apply reads_peek (o := some (.ident p.word)) (by rw [h]; rfl)
      exact reads_namedType hread hafter h
  | pointer span star elem =>
    apply reads_peek (o := some (.mark .star)) (by rw [h]; rfl)
    apply (reads_take h).bind
    intro star' c₁ _ h₁ _
    apply ((hread elem (List.mem_singleton_self _)).reads c₁ after h₁ hafter).bind
    intro elem' c₂ _ h₂ helem
    apply reads_node h₂
    intro span'
    rw [TypeExpr.bare, TypeExpr.bare, helem]
  | array span len elem =>
    apply reads_peek (o := some (.mark .lBrack)) (by rw [h]; rfl)
    exact reads_arrayType hT.grammatical (hread elem (List.mem_singleton_self _)) hafter h
  | slice span elem =>
    apply reads_peek (o := some (.mark .lBrack)) (by rw [h]; rfl)
    exact reads_sliceType (hread elem (List.mem_singleton_self _)) hafter h
  | map span key val =>
    apply reads_peek (o := some (.keyword .mapKw)) (by rw [h]; rfl)
    refine reads_mapType (hread key ?_) (hread val ?_) hafter h
    · exact List.mem_cons_self
    · exact List.mem_cons_of_mem _ (List.mem_singleton_self _)
  | chan span dir elem =>
    have helem := hread elem (List.mem_singleton_self _)
    cases dir with
    | both =>
      apply reads_peek (o := some (.keyword .chanKw)) (by rw [h]; rfl)
      exact reads_chanType (by decide) hT.grammatical helem hafter h
    | send =>
      apply reads_peek (o := some (.keyword .chanKw)) (by rw [h]; rfl)
      exact reads_chanType (by decide) hT.grammatical helem hafter h
    | recv =>
      apply reads_peek (o := some (.mark .arrow)) (by rw [h]; rfl)
      exact reads_recvType helem hafter h
  | struct span lBrace fields rBrace =>
    apply reads_peek (o := some (.keyword .structKw)) (by rw [h]; rfl)
    exact reads_structType hctx hT hread h
  | interface span lBrace elems rBrace =>
    apply reads_peek (o := some (.keyword .interfaceKw)) (by rw [h]; rfl)
    exact reads_interfaceType hT.grammatical hread h
  | func span s =>
    change c.tokens = .keyword .funcKw :: (s.tokens lengths ++ after) at h
    apply reads_peek (o := some (.keyword .funcKw)) (by rw [h]; rfl)
    apply (reads_take h).bind
    intro start c₁ _ h₁ _
    apply (reads_signature hT.grammatical hread hafter h₁).bind
    intro s' c₂ _ h₂ hs
    apply reads_node h₂
    intro span'
    rw [TypeExpr.bare, TypeExpr.bare, hs]
  | paren span inner =>
    have htokens : c.tokens = .mark .lParen :: (inner.tokens lengths ++ .mark .rParen :: after) := by
      rw [h]
      exact congrArg (List.cons (Token.mark .lParen)) (List.append_assoc ..)
    apply reads_peek (o := some (.mark .lParen)) (by rw [htokens]; rfl)
    apply (reads_take htokens).bind
    intro start c₁ _ h₁ _
    have hends : EndsType (.mark .rParen :: after) := endsType_cons rfl (by decide)
    apply ((hread inner (List.mem_singleton_self _)).reads c₁ _ h₁ hends).bind
    intro inner' c₂ _ h₂ hinner
    apply (reads_require h₂).bind
    intro _ c₃ _ h₃ _
    apply reads_node h₃
    intro span'
    rw [TypeExpr.bare, TypeExpr.bare, hinner]
  | bad => exact hT.grammatical.elim

/-- A well-formed type is read as it is written if it is not nested too deeply. -/
lemma readsType_typeWithin (hctx : ctx.groups = []) {n : Nat} (hT : T.WellFormed lengths)
    (hn : T.outline.typeNesting ≤ n) : ReadsType ctx lengths (typeWithin n) T := by
  induction n generalizing T with
  | zero => exact absurd hn (Nat.not_le_of_lt T.nesting_pos)
  | succ n ih =>
    refine readsType_typeBody hctx hT fun S hS => ih (hT.parts S hS) ?_
    have hlt := TypeExpr.nesting_lt hS
    omega

end GoService.Source.Parser
