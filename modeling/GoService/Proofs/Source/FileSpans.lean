import GoService.Proofs.Source.CommentGroups
import GoService.Proofs.Source.FileBuilds
import GoService.Proofs.Source.SpelledFiles
import GoService.Proofs.Source.TypeSpans

/-!
# Sound places in files

Whatever errors a source of less than 4 GiB has, all places that are kept of it are sound: those in
the tree, of comments, of nodes and of diagnostics (`places_sound_and_nested`). The text at such a
place is as long as the place. In a source that is read without a report places nest as well.
-/

namespace GoService.Source

/-- All places in an entry are sound, also those of initial values. -/
structure Spec.IsSound (src : List Char) (s : Spec) : Prop where
  trees : SpanTree.AllSound src s.spanTrees
  values : ∀ v ∈ s.initialValues, v.IsSound src

/-- All places in a declaration are sound, also those of initial values. -/
structure Decl.IsSound (src : List Char) (d : Decl) : Prop where
  tree : d.spanTree.IsSound src
  values : ∀ v ∈ d.initialValues, v.IsSound src

/-- All places in a tree are sound, also those of initial values. -/
structure SourceFile.IsSound (src : List Char) (f : SourceFile) : Prop where
  trees : SpanTree.AllSound src f.spanTrees
  values : ∀ v ∈ f.values, v.IsSound src

namespace Parser

open SpanTree (AllSound)

variable {src : List Char} {c : Cursor}

/-- The type of a declaration has sound places. -/
lemma soundTypes_topType : SoundTypes src topType :=
  soundTypes_typeWithin typeDepthLimit

/-! ## Type parameters -/

/-- Type parameters with one constraint have sound places. -/
lemma stores_typeParamGroup : Stores src c typeParamGroup fun g => g.spanTree.IsSound src := by
  apply stores_start
  intro start c₁ hstart
  apply (stores_eachBy (looks_pure false) fun c => stores_requireIdent _).andThen
  intro names c₂ hnames
  apply (stores_union soundTypes_topType).andThen
  intro constraint c₃ hconstraint
  apply stores_node hstart
  intro span hspan
  exact SpanTree.isSound_node hspan ((AllSound.map hnames).append hconstraint)

/-- Type parameters have sound places. -/
lemma stores_typeParams : Stores src c typeParams fun p => p.spanTree.IsSound src := by
  have hstop : Looks atNoTypeParam := fun _ _ => rfl
  apply stores_take.andThen
  intro lBrack c₁ hlBrack
  apply (stores_eachBy hstop fun c => stores_typeParamGroup).andThen
  intro groups c₂ hgroups
  apply (stores_requireSpan _ _).andThen
  intro rBrack c₃ hrBrack
  apply (stores_note _ (hlBrack.cover hrBrack)).andThen
  intro _ c₄ _
  exact .pure (SpanTree.isSound_node (hlBrack.cover hrBrack)
    (.cons (SpanTree.isSound_token hlBrack)
      ((AllSound.map hgroups).append (.single (SpanTree.isSound_token hrBrack)))))

/-! ## Entries of declarations -/

/-- The name of an import has a sound place. -/
lemma stores_importLabel :
    Stores src c importLabel fun o => ∀ label ∈ o, label.spanTree.IsSound src := by
  apply (looks_peekAt 0).bind_stores
  intro t
  split
  · apply stores_take.andThen
    intro span c₁ hspan
    apply Stores.pure
    intro label hlabel
    cases hlabel
    exact SpanTree.isSound_token hspan
  · apply stores_take.andThen
    intro span c₁ hspan
    apply Stores.pure
    intro label hlabel
    cases hlabel
    split
    · exact SpanTree.isSound_token hspan
    · exact SpanTree.isSound_token hspan
  · exact .pure nofun

/-- An import has sound places. -/
lemma stores_importSpec (doc : Option CommentGroup) :
    Stores src c (importSpec doc) fun o => ∀ s ∈ o, (Spec.importSpec s).IsSound src := by
  apply stores_importLabel.andThen
  intro name c₁ hname
  have hpath (text : String) : Stores src c₁ (do
      let span ← take
      note .importSpec span
      return some (⟨doc, name, ⟨text, span⟩⟩ : ImportSpec))
      fun o => ∀ s ∈ o, (Spec.importSpec s).IsSound src := by
    apply stores_take.andThen
    intro span c₂ hspan
    apply (stores_note _ hspan).andThen
    intro _ c₃ _
    apply Stores.pure
    intro s hs
    cases hs
    exact ⟨(AllSound.option hname).append (.single (SpanTree.isSound_literal hspan)), nofun⟩
  apply (looks_peekAt 0).bind_stores
  intro t
  split
  · exact hpath _
  · exact hpath _
  · apply (stores_complain _).andThen
    intro _ c₂ _
    apply stores_skipStatement.andThen
    intro _ c₃ _
    exact .pure nofun

/-- Initial values have a sound place. -/
lemma stores_initialValues : Stores src c initialValues fun o => ∀ v ∈ o, v.IsSound src := by
  apply (stores_accept _).andThen
  intro equals c₁ _
  cases equals with
  | none => exact .pure nofun
  | some span =>
    apply stores_skipStatement.andThen
    intro values c₂ hvalues
    apply Stores.pure
    intro v hv
    cases hv
    exact hvalues

/-- A value entry has sound places. -/
lemma stores_valueSpec (doc : Option CommentGroup) :
    Stores src c (valueSpec doc) fun s => (Spec.valueSpec s).IsSound src := by
  apply (stores_identList _).andThen
  intro names c₁ hnames
  apply (stores_whenever (looks_nextIs _) (soundTypes_topType c₁)).andThen
  intro type c₂ htype
  apply stores_initialValues.andThen
  intro values c₃ hvalues
  apply Stores.pure
  exact ⟨(AllSound.map hnames).append (.option htype),
    fun v hv => hvalues v (Option.mem_toList.1 hv)⟩

/-- A type entry has sound places. -/
lemma stores_typeSpec (doc : Option CommentGroup) :
    Stores src c (typeSpec doc) fun s => (Spec.typeSpec s).IsSound src := by
  apply (stores_requireIdent _).andThen
  intro name c₁ hname
  apply (stores_whenever looks_isGeneric stores_typeParams).andThen
  intro tps c₂ htps
  apply (stores_accept _).andThen
  intro equals c₃ hequals
  apply (soundTypes_topType c₃).andThen
  intro type c₄ htype
  apply (stores_note _ hname.here).andThen
  intro _ c₅ _
  apply Stores.pure
  exact ⟨.cons hname (((AllSound.option htps).append (.token? hequals)).append (.single htype)),
    List.forall_mem_nil _⟩

/-- An entry of a declaration has sound places. -/
lemma stores_spec (kind : DeclKind) (doc : Option CommentGroup) :
    Stores src c (spec kind doc) fun o => ∀ s ∈ o, s.IsSound src := by
  have hvalue : Stores src c (do return some (Spec.valueSpec (← valueSpec doc)))
      fun o => ∀ s ∈ o, s.IsSound src := by
    apply (stores_valueSpec doc).andThen
    intro s c₁ hs
    apply Stores.pure
    intro s' hs'
    cases hs'
    exact hs
  cases kind with
  | imports =>
    apply (stores_importSpec doc).andThen
    intro o c₁ ho
    apply Stores.pure
    intro s hs
    obtain ⟨i, hi, rfl⟩ := Option.map_eq_some_iff.1 hs
    exact ho i hi
  | consts => exact hvalue
  | vars => exact hvalue
  | types =>
    apply (stores_typeSpec doc).andThen
    intro s c₁ hs
    apply Stores.pure
    intro s' hs'
    cases hs'
    exact hs

/-- An entry between parentheses has sound places. -/
lemma stores_specMember (kind : DeclKind) :
    Stores src c (specMember kind) fun o => ∀ s ∈ o, s.IsSound src := by
  apply looks_docAbove.bind_stores
  intro doc
  apply (stores_spec kind doc).andThen
  intro o c₁ ho
  apply stores_finishStatement.andThen
  intro _ c₂ _
  exact .pure ho

/-- The entries of a declaration have sound places. -/
lemma stores_specs (kind : DeclKind) (doc : Option CommentGroup) (grouped : Bool) :
    Stores src c (specs kind doc grouped) fun r =>
      (∀ o ∈ r.1, ∀ s ∈ o, s.IsSound src) ∧ ∀ s ∈ r.2, s.IsSound src := by
  rw [specs]
  split
  · apply (stores_membersUpTo fun c => stores_specMember kind).andThen
    intro entries c₁ hentries
    apply (stores_require _ _).andThen
    intro rParen c₂ hrParen
    exact .pure ⟨hentries, hrParen⟩
  · apply (stores_spec kind doc).andThen
    intro o c₁ ho
    exact .pure ⟨List.forall_mem_singleton.2 ho, forall_mem_none⟩

/-! ## Declarations -/

/-- A declaration with entries has sound places. -/
lemma stores_genDecl (kind : DeclKind) :
    Stores src c (genDecl kind) fun d => (Decl.gen d).IsSound src := by
  apply looks_docAbove.bind_stores
  intro doc
  apply stores_take.andThen
  intro keyword c₁ hkeyword
  apply (stores_accept _).andThen
  intro lParen c₂ hlParen
  apply (stores_specs kind doc _).andThen
  intro r c₃ hr
  obtain ⟨entries, rParen⟩ := r
  apply stores_finishDecl.andThen
  intro _ c₄ _
  apply stores_node hkeyword
  intro span hspan
  have hspecs : ∀ s ∈ entries.filterMap id, s.IsSound src := by
    intro s hs
    obtain ⟨o, ho, hs⟩ := List.mem_filterMap.1 hs
    exact hr.1 o ho s hs
  refine ⟨SpanTree.isSound_node hspan (.cons (SpanTree.isSound_token hkeyword) ?_),
    List.forall_mem_flatMap.2 fun s hs => (hspecs s hs).values⟩
  exact ((AllSound.token? hlParen).append (.flatMap fun s hs => (hspecs s hs).trees)).append
    (.token? hr.2)

/-- A function declaration has sound places. -/
lemma stores_funcDecl : Stores src c funcDecl fun d => (Decl.func d).IsSound src := by
  apply looks_docAbove.bind_stores
  intro doc
  apply stores_take.andThen
  intro keyword c₁ hkeyword
  apply (stores_whenever (looks_nextIs _) (stores_params soundTypes_topType)).andThen
  intro recv c₂ hrecv
  apply (stores_requireIdent _).andThen
  intro name c₃ hname
  apply (stores_whenever (looks_nextIs _) stores_typeParams).andThen
  intro tps c₄ htps
  apply (stores_signature soundTypes_topType).andThen
  intro s c₅ hs
  apply (stores_whenever (looks_nextIs _) stores_skipRun).andThen
  intro body c₆ hbody
  apply (stores_spanSince hkeyword).andThen
  intro span c₇ hspan
  apply stores_finishDecl.andThen
  intro _ c₈ _
  apply (stores_note _ hspan.1).andThen
  intro _ c₉ _
  apply Stores.pure
  refine ⟨SpanTree.isSound_node hspan.1 (.cons (SpanTree.isSound_token hkeyword) ?_), nofun⟩
  have hrecv : AllSound src (recv.toList.flatMap FieldList.spanTrees) :=
    .flatMap fun l hl => hrecv l (Option.mem_toList.1 hl)
  exact (((hrecv.append (.single hname)).append (.option htps)).append (.single hs)).append
    (.option fun body hmem => SpanTree.isSound_skipped (hbody body hmem))

/-- A declaration has sound places. -/
lemma stores_decl (t : Token) : Stores src c (decl t) fun d => d.IsSound src := by
  have hgen (kind : DeclKind) : Stores src c (do return Decl.gen (← genDecl kind))
      fun d => d.IsSound src := by
    apply (stores_genDecl kind).andThen
    intro d c₁ hd
    exact .pure hd
  rw [decl.eq_def]
  split
  · exact hgen _
  · exact hgen _
  · exact hgen _
  · exact hgen _
  · apply stores_funcDecl.andThen
    intro d c₁ hd
    exact .pure hd
  · apply (stores_complain _).andThen
    intro _ c₁ _
    apply stores_start
    intro start c₂ hstart
    apply stores_skipToDecl.andThen
    intro _ c₃ _
    apply stores_node hstart
    intro span hspan
    exact ⟨SpanTree.isSound_recovered hspan, List.forall_mem_nil _⟩

/-- Declarations have sound places. -/
lemma stores_decls (fuel : Nat) :
    Stores src c (decls fuel) fun ds => ∀ d ∈ ds, d.IsSound src := by
  induction fuel generalizing c with
  | zero => exact stores_giveUp nofun
  | succ fuel ih =>
    apply (looks_peekAt 0).bind_stores
    intro t
    split
    · exact .pure nofun
    · apply stores_take.andThen
      intro _ c₁ _
      exact ih
    · next t _ =>
      apply (stores_decl t).andThen
      intro d c₁ hd
      apply ih.andThen
      intro ds c₂ hds
      exact .pure (List.forall_mem_cons.2 ⟨hd, hds⟩)

/-- A file has sound places. -/
lemma stores_sourceFile : Stores src c sourceFile fun f => f.IsSound src := by
  apply looks_docAbove.bind_stores
  intro doc
  apply (stores_requireSpan _ _).andThen
  intro package c₁ hpackage
  apply (stores_requireIdent _).andThen
  intro name c₂ hname
  apply stores_finishDecl.andThen
  intro _ c₃ _
  apply looks_remaining.bind_stores
  intro n
  apply (stores_decls _).andThen
  intro ds c₄ hds
  apply (stores_note _ hpackage).andThen
  intro _ c₅ _
  apply Looks.bind_stores (m := read) fun _ _ => rfl
  intro ctx
  apply Stores.pure
  exact ⟨.cons (SpanTree.isSound_token hpackage) (.cons hname (.map fun d hd => (hds d hd).tree)),
    List.forall_mem_flatMap.2 fun d hd => (hds d hd).values⟩

end Parser

/-! ## Comments -/

/-- All places of a comment group are sound. -/
structure CommentGroup.IsSound (src : List Char) (g : CommentGroup) : Prop where
  span : g.span.IsSound src
  comments : ∀ c ∈ g.comments, c.span.IsSound src

section

variable {source : String}

/-- The comments of a source of less than 4 GiB lie in it, and so do its groups. -/
lemma isSound_of_mem_groups (hsrc : byteSize source.toList ≤ Span.maxOffset) {g : CommentGroup}
    (hg : g ∈ (parse source).file.file.comments) : g.IsSound source.toList := by
  have hcomments : ∀ c ∈ g.comments, c.span.IsSound source.toList := by
    intro c hc
    have hmem := mem_comments_of_mem_group hg hc
    rw [lex_eq_findings hsrc] at hmem
    exact (cuts_of_mem_comments hmem).isSound
  have hfirst := hcomments g.first List.mem_cons_self
  exact ⟨hfirst.cover (hcomments _ (List.getLastD_mem_cons ..)), hcomments⟩

/-! ## Sources -/

/-- All places that are kept of a source that was read are sound. -/
structure Parsed.IsSound (src : List Char) (p : Parsed) : Prop where
  file : p.file.file.IsSound src
  comments : ∀ g ∈ p.file.file.comments, g.IsSound src
  /-- The groups that the tree refers to are among those of the file. -/
  attached : ∀ g ∈ p.file.file.attached, g ∈ p.file.file.comments
  built : ∀ label ∈ p.file.built, label.span.IsSound src
  diagnostics : ∀ d ∈ p.diagnostics, d.span.IsSound src

/-- In a source of less than 4 GiB no place is cut off, so all of them are sound. -/
lemma isSound_parse (hsrc : byteSize source.toList ≤ Span.maxOffset) :
    (parse source).IsSound source.toList := by
  have hstart : (Cursor.start (lex source.toList).clampedTokens).Sound source.toList := by
    rw [clampedTokens_eq hsrc]
    exact Cursor.sound_start source.toList
  obtain ⟨hreaches, hfile⟩ := Parser.stores_sourceFile
    (.ofLexed source.toList (lex source.toList)) (Nat.min_eq_left hsrc) hstart
  -- the parser only reads the groups, and notes the places of other nodes in reverse order
  refine ⟨hfile, fun g => isSound_of_mem_groups hsrc, attached_parse source,
    List.forall_mem_append.2 ⟨List.forall_mem_map.2 fun g hg => ?_, fun label hlabel => ?_⟩,
    fun d hd => ?_⟩
  · rw [← comments_parse] at hg
    exact (isSound_of_mem_groups hsrc hg).span
  · exact hreaches.sound.built label (List.mem_reverse.1 hlabel)
  · rcases List.mem_append.1 (List.mem_mergeSort.1 hd) with hd | hd
    · rw [lex_eq_findings hsrc] at hd
      exact isSound_of_mem_diagnostics hd
    · exact hreaches.sound.diagnostics d (List.mem_reverse.1 hd)

end

/-- The text at a sound place is all that there is from its start to its end. -/
lemma Document.byteSize_text {d : Document} {s : Span} (h : s.IsSound d.source.toList) :
    byteSize (d.text s).toList = s.size := by
  obtain ⟨text, hslice, hsize⟩ := h.start.exists_slice h.stop h.le
  rw [Document.text, textAt, hslice, Option.getD_some, String.toList_ofList]
  exact hsize

/-- All places that are kept of a source of less than 4 GiB lie in it, end behind their start and
cut no character, so the text at a place is as long as the place. In any source that is read without
a report the parts of a node lie within the node, one after another, and so do the declarations of
the file. -/
theorem places_sound_and_nested (source : String) :
    (byteSize source.toList ≤ Span.maxOffset → (parse source).IsSound source.toList) ∧
    (∀ s : Span, s.IsSound source.toList → s.start ≤ s.stop ∧ s.stop ≤ byteSize source.toList ∧
      byteSize ((parse source).file.text s).toList = s.size) ∧
    ((parse source).isClean →
      (∀ t ∈ (parse source).file.file.spanTrees, t.Everywhere SpanTree.Nests) ∧
      (parse source).file.file.spanTrees.Pairwise fun t t' => t.span.stop ≤ t'.span.start) :=
  ⟨fun hsrc => isSound_parse hsrc,
    fun _ hs => ⟨hs.le, hs.stop.le, Document.byteSize_text hs⟩, nests_of_isClean⟩

namespace Swap

/-- A type and a function with parameters that share a type. -/
def source : String :=
  "package p\n\ntype Pair struct \x7b\n\tA, B []int\n\x7d\n\n" ++
    "func Swap(a, b int, rest ...Pair) (c, d int) \x7b\x7d\n"

/-- The places in a source with two functions are nested. -/
theorem swap_nests : (parse source).IsSound source.toList ∧ (parse source).isClean = true ∧
    (parse source).file.file.decls.length = 2 ∧
    (∀ d ∈ (parse source).file.file.decls, d.spanTree.Everywhere SpanTree.Nests) ∧
    ((parse source).file.file.decls.map Decl.spanTree).Pairwise fun t t' =>
      t.span.stop ≤ t'.span.start := by
  have hclean : (parse source).isClean = true := by decide +kernel
  obtain ⟨hsound, -, hnested⟩ := places_sound_and_nested source
  obtain ⟨hnests, hapart⟩ := hnested hclean
  refine ⟨hsound (by decide +kernel), hclean, by decide +kernel, fun d hd => hnests _ ?_, ?_⟩
  · exact List.mem_cons_of_mem _ (List.mem_cons_of_mem _ (List.mem_map_of_mem hd))
  · exact (List.pairwise_cons.1 (List.pairwise_cons.1 hapart).2).2

end Swap

end GoService.Source
