import GoService.Proofs.Source.SoundSpans
import GoService.Proofs.Source.TypeRuns

/-!
# Sound places in types

Each reader of a part of a type gives sound places if the reader of the types inside it does
(`SoundTypes`), with errors or without. A parameter that takes the names before it begins with the
first of them, so its place is sound because entries are in order (`isSound_attachNames`).
-/

namespace GoService.Source.Parser

open SpanTree (AllSound)

variable {src : List Char} {c : Cursor} {type : Parser TypeExpr}

/-- A reader of types that gives sound places. -/
def SoundTypes (src : List Char) (type : Parser TypeExpr) : Prop :=
  ∀ c, Stores src c type fun t => t.spanTree.IsSound src

/-! ## Parameters -/

/-- The places in an entry are sound, and it begins at the given offset. -/
structure SoundEntry (src : List Char) (start : Nat) (e : ParamEntry) : Prop where
  span : e.span.IsSound src
  start : e.span.start = start
  names : ∀ name ∈ e.names, name.spanTree.IsSound src
  ellipsis : ∀ dots ∈ e.ellipsis, dots.IsSound src
  type : ∀ t ∈ e.type, t.spanTree.IsSound src

/-- The places in an entry are sound, wherever it begins. -/
abbrev ParamEntry.IsSound (src : List Char) (e : ParamEntry) : Prop :=
  SoundEntry src e.span.start e

/-- A sound entry that starts at an offset is sound. -/
lemma SoundEntry.isSound {start : Nat} {e : ParamEntry} (h : SoundEntry src start e) :
    e.IsSound src :=
  ⟨h.span, rfl, h.names, h.ellipsis, h.type⟩

/-- Names that wait for a type stand before the entry that has it. -/
lemma isSound_attachNames {waiting : List Ident} {from_ : Option Nat} {n : Nat}
    {es : List ParamEntry} (hwaiting : ∀ name ∈ waiting, name.spanTree.IsSound src)
    (hfrom : ∀ start ∈ from_, IsBoundary src start ∧ start ≤ n)
    (h : Ascends (SoundEntry src) n es) :
    ∀ e ∈ attachNames waiting from_ es, e.IsSound src := by
  induction h generalizing waiting from_ with
  | nil =>
    refine List.forall_mem_map.2 fun name hname => ?_
    have hsound := hwaiting name hname
    exact ⟨hsound.here, rfl, List.forall_mem_singleton.2 hsound, forall_mem_none, forall_mem_none⟩
  | @cons n m e es hle he hes ih =>
    -- whoever takes the names begins with the first of them, which is not behind any entry to come
    have hnames := List.forall_mem_append.2 ⟨hwaiting, he.names⟩
    rw [attachNames]
    split
    · next t ht =>
      have hstart : IsBoundary src (from_.getD e.span.start) ∧
          from_.getD e.span.start ≤ e.span.start := by
        cases from_ with
        | none => exact ⟨he.span.start, Nat.le_refl _⟩
        | some start =>
          obtain ⟨hboundary, hstart⟩ := hfrom start rfl
          exact ⟨hboundary, Nat.le_trans hstart (he.start ▸ hle)⟩
      have hspan : (⟨from_.getD e.span.start, e.span.stop⟩ : Span).IsSound src :=
        ⟨hstart.1, he.span.stop, Nat.le_trans hstart.2 he.span.le⟩
      exact List.forall_mem_cons.2
        ⟨⟨hspan, rfl, hnames, he.ellipsis, ht ▸ he.type⟩,
          ih (List.forall_mem_nil _) forall_mem_none⟩
    · refine ih hnames fun start hmem => ?_
      split at hmem
      · cases hmem
        exact ⟨he.span.start, Nat.le_of_eq he.start⟩
      · exact ⟨(hfrom start hmem).1, Nat.le_trans (hfrom start hmem).2 hle⟩

/-- Grouped entries are sound. -/
lemma isSound_groupParams {n : Nat} {es : List ParamEntry} (h : Ascends (SoundEntry src) n es) :
    ∀ e ∈ groupParams es, e.IsSound src := by
  rw [groupParams]
  split
  · exact isSound_attachNames (List.forall_mem_nil _) forall_mem_none h
  · exact h.forall fun _ _ he => he.isSound

/-- A field is sound if its parts are. -/
lemma isSound_field {span : Span} {names : List Ident} {ellipsis : Option Span} {type : TypeExpr}
    {tag : Option StringLiteral} {embedded : Bool} {doc comment : Option CommentGroup}
    (hspan : span.IsSound src) (hnames : ∀ name ∈ names, name.spanTree.IsSound src)
    (hellipsis : ∀ dots ∈ ellipsis, dots.IsSound src) (htype : type.spanTree.IsSound src)
    (htag : ∀ l ∈ tag, l.spanTree.IsSound src) :
    (Field.mk span names ellipsis type tag embedded doc comment).spanTree.IsSound src :=
  SpanTree.isSound_node hspan
    (((AllSound.map hnames).append (.token? hellipsis)).append (.cons htype (.option htag)))

/-- A sound entry is turned into a field with sound places. -/
lemma stores_paramField {e : ParamEntry} (he : e.IsSound src) :
    Stores src c (paramField e) fun o => ∀ f ∈ o, f.spanTree.IsSound src := by
  have hfield {names : List Ident} {type : TypeExpr} {span : Span} {c : Cursor}
      (hspan : span.IsSound src) (hnames : ∀ name ∈ names, name.spanTree.IsSound src)
      (htype : type.spanTree.IsSound src) : Stores src c (do
        note .field span
        return some ⟨span, names, e.ellipsis, type, none, false, none, none⟩)
        fun (o : Option Field) => ∀ f ∈ o, f.spanTree.IsSound src := by
    apply (stores_note _ hspan).andThen
    intro _ c₁ _
    apply Stores.pure
    intro f hf
    cases hf
    exact isSound_field hspan hnames he.ellipsis htype forall_mem_none
  rw [paramField]
  dsimp only
  split
  · next t ht => exact hfield he.span he.names (he.type t ht)
  · next name others _ hnames =>
    have hname : name.spanTree.IsSound src := he.names name (hnames ▸ List.mem_cons_self)
    have htype : Stores src c (nameAsType name) fun t => t.spanTree.IsSound src := by
      apply (stores_note _ hname.here).andThen
      intro _ c₁ _
      exact .pure (SpanTree.isSound_node hname.here (.single hname))
    apply htype.andThen
    intro t c₁ ht
    exact hfield hname.here (List.forall_mem_nil _) ht
  · exact .pure forall_mem_none

/-- Sound entries are turned into fields with sound places. -/
lemma stores_paramFields {es : List ParamEntry} (h : ∀ e ∈ es, e.IsSound src) :
    Stores src c (paramFields es) fun fs => ∀ f ∈ fs, f.spanTree.IsSound src := by
  induction es generalizing c with
  | nil => exact .pure nofun
  | cons e es ih =>
    obtain ⟨he, hes⟩ := List.forall_mem_cons.1 h
    apply (stores_paramField he).andThen
    intro o c₁ ho
    apply (ih hes).andThen
    intro fs c₂ hfs
    apply Stores.pure
    exact List.forall_mem_append.2 ⟨fun f hf => ho f (Option.mem_toList.1 hf), hfs⟩

section

variable (h : SoundTypes src type)
include h

/-- An entry of a list of parameters has sound places from the offset of the cursor on. -/
lemma stores_paramEntry : Stores src c (paramEntry type) (SoundEntry src (c.offset src)) := by
  apply stores_nextSpan.andThen
  intro start c₁ hstart
  obtain ⟨hstart, hoffset⟩ := hstart
  -- an entry ends with its type
  have htyped (names : List Ident) (dots : Option Span) {c₂ : Cursor}
      (hnames : ∀ name ∈ names, name.spanTree.IsSound src)
      (hdots : ∀ s ∈ dots, s.IsSound src) : Stores src c₂ (do
        let t ← type
        return (⟨names, dots, some t, ← spanSince start⟩ : ParamEntry))
        (SoundEntry src (c.offset src)) := by
    apply (h c₂).andThen
    intro t c₃ ht
    apply (stores_spanSince hstart).andThen
    intro span c₄ hspan
    apply Stores.pure
    refine ⟨hspan.1, hspan.2.trans hoffset, hnames, hdots, fun t' ht' => ?_⟩
    cases ht'
    exact ht
  apply (looks_peekAt 0).bind_stores
  intro first
  apply (looks_peekAt 1).bind_stores
  intro second
  split
  · apply stores_take.andThen
    intro dots c₂ hdots
    apply htyped [] (some dots) nofun
    intro s hs
    cases hs
    exact hdots
  · split
    · apply (stores_requireIdent _).andThen
      intro name c₂ hname
      apply (stores_spanSince hstart).andThen
      intro span c₃ hspan
      apply Stores.pure
      exact ⟨hspan.1, hspan.2.trans hoffset, List.forall_mem_singleton.2 hname, nofun, nofun⟩
    · split
      · apply (stores_requireIdent _).andThen
        intro name c₂ hname
        apply stores_take.andThen
        intro dots c₃ hdots
        apply htyped [name] (some dots) (List.forall_mem_singleton.2 hname)
        intro s hs
        cases hs
        exact hdots
      · split
        · apply (stores_requireIdent _).andThen
          intro name c₂ hname
          exact htyped [name] none (List.forall_mem_singleton.2 hname) nofun
        · exact htyped [] none nofun nofun
  · exact htyped [] none nofun nofun

/-- An entry of a list of parameters, or what is passed over, has sound places from there on. -/
lemma stores_paramEntryOrSkip :
    Stores src c (paramEntryOrSkip type) (SoundEntry src (c.offset src)) := by
  apply looks_position.bind_stores
  intro before
  apply (stores_paramEntry h).andThen
  intro entry c₁ hentry
  apply (stores_complainIfStuck _ _).andThen
  intro _ c₂ _
  apply (stores_skipIfStuck _).andThen
  intro _ c₃ _
  exact .pure hentry

/-- A list of parameters has sound places. -/
lemma stores_params : Stores src c (params type) fun l => AllSound src l.spanTrees := by
  apply (stores_requireSpan _ _).andThen
  intro opening c₁ hopening
  apply (stores_separatedBy (looks_atEndOr _) fun c => stores_paramEntryOrSkip h).andThen
  intro entries c₂ hentries
  apply (stores_requireSpan _ _).andThen
  intro closing c₃ hclosing
  apply (stores_paramFields (isSound_groupParams hentries)).andThen
  intro fields c₄ hfields
  apply Stores.pure
  rw [FieldList.spanTrees, Field.spanTrees_eq]
  exact .cons (SpanTree.isSound_token hopening)
    ((AllSound.map hfields).append (.single (SpanTree.isSound_token hclosing)))

/-- Results have sound places. -/
lemma stores_results : Stores src c (results type)
    fun o => AllSound src ((o.map ResultList.spanTrees).getD []) := by
  apply (looks_nextIs _).bind_stores
  intro isList
  split
  · apply (stores_params h).andThen
    intro l c₁ hl
    exact .pure hl
  · apply (looks_nextIs _).bind_stores
    intro isType
    split
    · apply (h c).andThen
      intro t c₁ ht
      exact .pure (.single ht)
    · exact .pure .nil

/-- A signature has sound places. -/
lemma stores_signature : Stores src c (signature type) fun s => s.spanTree.IsSound src := by
  apply stores_start
  intro start c₁ hstart
  apply (stores_params h).andThen
  intro ps c₂ hps
  apply (stores_results h).andThen
  intro rs c₃ hrs
  apply stores_node hstart
  intro span hspan
  cases rs with
  | none => exact SpanTree.isSound_node hspan hps
  | some rs => exact SpanTree.isSound_node hspan (hps.append hrs)

/-! ## Named types and unions -/

omit h in
/-- A name that may be qualified has sound places. -/
lemma stores_qualifiedName : Stores src c qualifiedName
    fun r => (∀ pkg ∈ r.1, pkg.spanTree.IsSound src) ∧ r.2.spanTree.IsSound src := by
  apply (stores_requireIdent _).andThen
  intro first c₁ hfirst
  apply (stores_accept _).andThen
  intro dot c₂ _
  cases dot with
  | none => exact .pure ⟨nofun, hfirst⟩
  | some span =>
    apply (stores_requireIdent _).andThen
    intro name c₃ hname
    apply Stores.pure
    refine ⟨fun pkg hpkg => ?_, hname⟩
    cases hpkg
    exact hfirst

/-- Type arguments have sound places. -/
lemma stores_typeArgs : Stores src c (typeArgs type)
    fun ts => ∀ t ∈ ts, t.spanTree.IsSound src := by
  apply (stores_accept _).andThen
  intro lBrack c₁ _
  cases lBrack with
  | none => exact .pure nofun
  | some span =>
    apply (stores_eachBy (looks_atEndOr _) h).andThen
    intro ts c₂ hts
    apply (stores_require _ _).andThen
    intro _ c₃ _
    exact .pure hts

/-- A type with a name has sound places. -/
lemma stores_namedType : Stores src c (namedType type) fun t => t.spanTree.IsSound src := by
  apply stores_start
  intro start c₁ hstart
  apply stores_qualifiedName.andThen
  intro r c₂ hr
  obtain ⟨pkg, name⟩ := r
  apply (stores_typeArgs h).andThen
  intro args c₃ hargs
  apply stores_node hstart
  intro span hspan
  rw [TypeExpr.spanTree, TypeExpr.spanTrees_eq]
  exact SpanTree.isSound_node hspan ((AllSound.option hr.1).append (.cons hr.2 (.map hargs)))

/-- A term of a union has sound places. -/
lemma stores_unionTerm : Stores src c (unionTerm type) fun t => AllSound src t.spanTrees := by
  apply (stores_accept _).andThen
  intro tilde c₁ htilde
  apply (h c₁).andThen
  intro t c₂ ht
  exact .pure ((AllSound.token? htilde).append (.single ht))

/-- A union has sound places. -/
lemma stores_union :
    Stores src c (union type) fun ts => AllSound src (UnionTerm.spanTreesOf ts) := by
  apply (stores_eachBy (looks_pure false) fun c => stores_unionTerm h).mono
  intro ts hts
  rw [UnionTerm.spanTreesOf_eq]
  exact .flatMap hts

/-! ## Structs and interfaces -/

omit h in
/-- More identifiers have sound places, for any bound. -/
lemma stores_moreIdents (what : String) (fuel : Nat) : Stores src c (moreIdents what fuel)
    fun names => ∀ name ∈ names, name.spanTree.IsSound src := by
  induction fuel generalizing c with
  | zero => exact stores_giveUp nofun
  | succ fuel ih =>
    apply (looks_peekAt 0).bind_stores
    intro first
    apply (looks_peekAt 1).bind_stores
    intro second
    split
    · apply stores_take.andThen
      intro _ c₁ _
      apply (stores_requireIdent _).andThen
      intro name c₂ hname
      apply ih.andThen
      intro names c₃ hnames
      exact .pure (List.forall_mem_cons.2 ⟨hname, hnames⟩)
    · exact .pure nofun

omit h in
/-- A list of identifiers has sound places. -/
lemma stores_identList (what : String) : Stores src c (identList what)
    fun names => ∀ name ∈ names, name.spanTree.IsSound src := by
  apply (stores_requireIdent _).andThen
  intro first c₁ hfirst
  apply looks_remaining.bind_stores
  intro n
  apply (stores_moreIdents _ _).andThen
  intro names c₂ hnames
  exact .pure (List.forall_mem_cons.2 ⟨hfirst, hnames⟩)

omit h in
/-- The tag of a field has a sound place. -/
lemma stores_fieldTag :
    Stores src c fieldTag fun o => ∀ l ∈ o, l.spanTree.IsSound src := by
  have htag (text : String) : Stores src c (do return some ⟨text, ← take⟩)
      fun (o : Option StringLiteral) => ∀ l ∈ o, l.spanTree.IsSound src := by
    apply stores_take.andThen
    intro span c₁ hspan
    apply Stores.pure
    intro l hl
    cases hl
    exact SpanTree.isSound_literal hspan
  apply (looks_peekAt 0).bind_stores
  intro t
  split
  · exact htag _
  · exact htag _
  · exact .pure nofun

/-- A field of a struct has sound places. -/
lemma stores_structField : Stores src c (structField type) fun f => f.spanTree.IsSound src := by
  apply stores_start
  intro start c₁ hstart
  apply looks_docAbove.bind_stores
  intro doc
  apply looks_atEmbedded.bind_stores
  intro embedded
  have hnames : Stores src c₁ (if embedded then return [] else identList "field name")
      fun names => ∀ name ∈ names, name.spanTree.IsSound src := by
    split
    · exact .pure nofun
    · exact stores_identList _
  apply hnames.andThen
  intro names c₂ hnames
  apply (h c₂).andThen
  intro t c₃ ht
  apply stores_fieldTag.andThen
  intro tag c₄ htag
  apply looks_commentBeside.bind_stores
  intro comment
  apply stores_node hstart
  intro span hspan
  exact isSound_field hspan hnames nofun ht htag

omit h in
/-- The end of a field is complained of at a sound place. -/
lemma stores_finishField : Stores src c finishField fun _ => True := by
  apply (looks_peekAt 0).bind_stores
  intro t
  split
  · apply stores_take.andThen
    intro _ c₁ _
    exact .pure True.intro
  · exact .pure True.intro
  · exact .pure True.intro
  · apply (stores_complain _).andThen
    intro _ c₁ _
    apply stores_skipStatement.andThen
    intro _ c₂ _
    exact .pure True.intro

/-- A field of a struct, with its end, has sound places. -/
lemma stores_structMember : Stores src c (structMember type) fun f => f.spanTree.IsSound src := by
  apply (stores_structField h).andThen
  intro field c₁ hfield
  apply stores_finishField.andThen
  intro _ c₂ _
  exact .pure hfield

omit h in
/-- What stands between braces is sound if its parts are. -/
lemma isSound_braces {span opening closing : Span} {ts : List SpanTree} (hspan : span.IsSound src)
    (hopening : opening.IsSound src) (hts : AllSound src ts) (hclosing : closing.IsSound src) :
    (SpanTree.node span (.token (.mark .lBrace) opening ::
      (ts ++ [.token (.mark .rBrace) closing]))).IsSound src :=
  SpanTree.isSound_node hspan (.cons (SpanTree.isSound_token hopening)
    (hts.append (.single (SpanTree.isSound_token hclosing))))

/-- A struct type has sound places. -/
lemma stores_structType : Stores src c (structType type) fun t => t.spanTree.IsSound src := by
  apply stores_take.andThen
  intro start c₁ hstart
  apply (stores_requireSpan _ _).andThen
  intro lBrace c₂ hlBrace
  apply (stores_membersUpTo fun c => stores_structMember h).andThen
  intro fields c₃ hfields
  apply (stores_requireSpan _ _).andThen
  intro rBrace c₄ hrBrace
  apply stores_node hstart
  intro span hspan
  rw [TypeExpr.spanTree, Field.spanTrees_eq]
  exact isSound_braces hspan hlBrace (.map hfields) hrBrace

/-- An element of an interface has sound places. -/
lemma stores_interfaceElement :
    Stores src c (interfaceElement type) fun e => AllSound src e.spanTrees := by
  apply (looks_peekAt 0).bind_stores
  intro first
  apply (looks_peekAt 1).bind_stores
  intro second
  split
  · apply (stores_requireIdent _).andThen
    intro name c₁ hname
    apply (stores_signature h).andThen
    intro s c₂ hs
    exact .pure (.cons hname (.single hs))
  · apply (stores_union h).andThen
    intro ts c₁ hts
    exact .pure hts

omit h in
/-- The end of an element is complained of at a sound place. -/
lemma stores_finishElement : Stores src c finishElement fun _ => True := by
  apply (looks_atEndOr _).bind_stores
  intro ended
  split
  · exact .pure True.intro
  · exact stores_finishStatement

/-- An element of an interface, with its end, has sound places. -/
lemma stores_interfaceMember :
    Stores src c (interfaceMember type) fun e => AllSound src e.spanTrees := by
  apply (stores_interfaceElement h).andThen
  intro e c₁ he
  apply stores_finishElement.andThen
  intro _ c₂ _
  exact .pure he

/-- An interface type has sound places. -/
lemma stores_interfaceType : Stores src c (interfaceType type) fun t => t.spanTree.IsSound src := by
  apply stores_take.andThen
  intro start c₁ hstart
  apply (stores_requireSpan _ _).andThen
  intro lBrace c₂ hlBrace
  apply (stores_membersUpTo fun c => stores_interfaceMember h).andThen
  intro elems c₃ helems
  apply (stores_requireSpan _ _).andThen
  intro rBrace c₄ hrBrace
  apply stores_node hstart
  intro span hspan
  rw [TypeExpr.spanTree, InterfaceMember.spanTreesOf_eq]
  exact isSound_braces hspan hlBrace (.flatMap helems) hrBrace

/-! ## Types -/

/-- What is left of a type that ends with its element. -/
lemma stores_elem {start : Span} {build : Span → TypeExpr → TypeExpr} (hstart : start.IsSound src)
    (hbuild : ∀ span elem, (build span elem).spanTree = .node span [elem.spanTree]) :
    Stores src c (do
      let elem ← type
      return build (← noteSince .type start) elem) fun t => t.spanTree.IsSound src := by
  apply (h c).andThen
  intro elem c₁ helem
  apply stores_node hstart
  intro span hspan
  rw [hbuild]
  exact SpanTree.isSound_node hspan (.single helem)

/-- A type that begins with a bracket has sound places. -/
lemma stores_bracketType : Stores src c (bracketType type) fun t => t.spanTree.IsSound src := by
  apply stores_start
  intro start c₁ hstart
  apply (looks_peekAt 1).bind_stores
  intro t
  split
  · apply stores_take.andThen
    intro _ c₂ _
    apply stores_take.andThen
    intro _ c₃ _
    exact stores_elem h hstart fun _ _ => rfl
  · apply stores_skipRun.andThen
    intro len c₂ hlen
    apply (h c₂).andThen
    intro elem c₃ helem
    apply stores_node hstart
    intro span hspan
    exact SpanTree.isSound_node hspan (.cons (SpanTree.isSound_skipped hlen) (.single helem))

/-- A map type has sound places. -/
lemma stores_mapType : Stores src c (mapType type) fun t => t.spanTree.IsSound src := by
  apply stores_take.andThen
  intro start c₁ hstart
  apply (stores_require _ _).andThen
  intro _ c₂ _
  apply (h c₂).andThen
  intro key c₃ hkey
  apply (stores_require _ _).andThen
  intro _ c₄ _
  apply (h c₄).andThen
  intro val c₅ hval
  apply stores_node hstart
  intro span hspan
  exact SpanTree.isSound_node hspan (.cons hkey (.single hval))

/-- A channel type has sound places. -/
lemma stores_chanType : Stores src c (chanType type) fun t => t.spanTree.IsSound src := by
  have hdir (c : Cursor) : Stores src c chanDir fun _ => True := by
    apply (stores_accept _).andThen
    intro arrow c₁ _
    cases arrow with
    | none => exact .pure True.intro
    | some span => exact .pure True.intro
  apply stores_take.andThen
  intro start c₁ hstart
  apply (hdir c₁).andThen
  intro dir c₂ _
  exact stores_elem h hstart fun _ _ => rfl

/-- A channel type that begins with an arrow has sound places. -/
lemma stores_recvType : Stores src c (recvType type) fun t => t.spanTree.IsSound src := by
  apply stores_take.andThen
  intro start c₁ hstart
  apply (stores_require _ _).andThen
  intro _ c₂ _
  exact stores_elem h hstart fun _ _ => rfl

/-- The body of a type has sound places if the types within have. -/
lemma soundTypes_typeBody : SoundTypes src (typeBody type) := by
  intro c
  apply (looks_peekAt 0).bind_stores
  intro t
  split
  · exact stores_namedType h
  · apply stores_take.andThen
    intro star c₁ hstar
    apply (h c₁).andThen
    intro elem c₂ helem
    apply stores_node hstar
    intro span hspan
    exact SpanTree.isSound_node hspan (.cons (SpanTree.isSound_token hstar) (.single helem))
  · exact stores_bracketType h
  · exact stores_mapType h
  · exact stores_chanType h
  · exact stores_recvType h
  · apply stores_take.andThen
    intro start c₁ hstart
    apply (stores_signature h).andThen
    intro s c₂ hs
    apply stores_node hstart
    intro span hspan
    exact SpanTree.isSound_node hspan (.single hs)
  · exact stores_structType h
  · exact stores_interfaceType h
  · apply stores_take.andThen
    intro start c₁ hstart
    apply (h c₁).andThen
    intro inner c₂ hinner
    apply (stores_require _ _).andThen
    intro _ c₃ _
    apply stores_node hstart
    intro span hspan
    exact SpanTree.isSound_node hspan (.single hinner)
  · apply stores_start
    intro start c₁ hstart
    apply (stores_complain _).andThen
    intro _ c₂ _
    apply stores_node hstart
    intro span hspan
    exact SpanTree.isSound_node hspan (.single (SpanTree.isSound_recovered hstart))

end

/-- A type that is nested too deep has a sound place. -/
lemma soundTypes_tooDeep : SoundTypes src tooDeep := by
  intro c
  apply stores_start
  intro span c₁ hspan
  apply (stores_report _ hspan).andThen
  intro _ c₂ _
  apply (stores_note _ hspan).andThen
  intro _ c₃ _
  exact .pure (SpanTree.isSound_node hspan (.single (SpanTree.isSound_recovered hspan)))

/-- However deep types may be nested, all places in a type that is read are sound. -/
lemma soundTypes_typeWithin (n : Nat) : SoundTypes src (typeWithin n) := by
  induction n with
  | zero => exact soundTypes_tooDeep
  | succ n ih => exact soundTypes_typeBody ih

end GoService.Source.Parser
