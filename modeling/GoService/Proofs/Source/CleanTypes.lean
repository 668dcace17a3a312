import GoService.Proofs.Source.CleanRuns
import GoService.Proofs.Source.DocSites
import GoService.Proofs.Source.TypeRuns

/-!
# Clean runs of the readers of types

A type that is read without a report takes at least one token, leaves the depth of brackets as it
was, and its struct fields have the documentation that belongs to their tokens. Each reader has
this property if the reader of the types inside it does (`ReadsCleanly`), and so the knot is tied by
one induction (`readsCleanly_typeWithin`).
-/

namespace GoService.Source.Parser

variable {ctx : Context} {tokens : List Placed} {c : Cursor} {K : Prop} {d : Nat}
  {type : Parser TypeExpr}

/-- The documentation at the sites was read there. -/
abbrev Documented (ctx : Context) (tokens : List Placed) (sites : List DocSite) : Prop :=
  ∀ s ∈ sites, s.IsRead ctx tokens

/-- What is known of a clean run of a reader of types. -/
def ReadsCleanly (ctx : Context) (tokens : List Placed) (type : Parser TypeExpr) : Prop :=
  ∀ c d, Nests ctx tokens True c d type d fun t c' =>
    c'.rest.length < c.rest.length ∧ Documented ctx tokens t.docSites

/-- The documented places in fields are those of each. -/
lemma structSites_eq_flatMap (fs : List Field) :
    Field.structSites fs = fs.flatMap fun f => Field.structSites [f] := by
  induction fs with
  | nil => rfl
  | cons f fs ih =>
    cases f
    rw [Field.structSites, ih, List.flatMap_cons, Field.structSites, Field.structSites,
      List.append_nil, List.cons_append]

/-- What is documented in two parts is documented in the whole. -/
lemma documented_append {as bs : List DocSite} (ha : Documented ctx tokens as)
    (hb : Documented ctx tokens bs) : Documented ctx tokens (as ++ bs) :=
  List.forall_mem_append.2 ⟨ha, hb⟩

/-- What is documented in each part is documented in the whole. -/
lemma documented_flatMap {α : Type} {as : List α} {f : α → List DocSite}
    (h : ∀ a ∈ as, Documented ctx tokens (f a)) : Documented ctx tokens (as.flatMap f) := by
  intro s hs
  obtain ⟨a, ha, hs⟩ := List.mem_flatMap.1 hs
  exact h a ha s hs

/-- The group above a token is the one that belongs to it. -/
lemma cleanRun_docAbove {β : Type} {f : Option CommentGroup → Parser β} {Q : β → Cursor → Prop}
    (hf : ∀ doc, (∀ p ps, c.rest = p :: ps → p.isInserted = false →
      DocSite.IsRead ctx tokens ⟨doc, p.span.start⟩) → CleanRun ctx tokens K c (f doc) Q) :
    CleanRun ctx tokens K c (docAbove >>= f) Q := by
  intro hwithin
  refine looks_docAbove.cleanRun_fst (hf _ ?_) hwithin
  intro p ps hrest hp
  have hdoc : (docAbove ctx c).1 =
      CommentGroup.lead? ctx.groups c.pos (ctx.lines.line p.span.start) := by
    obtain ⟨rest, pos, prevEnd, diagnostics, built, gaveUp⟩ := c
    cases hrest
    rfl
  have hget : tokens[c.pos]? = some p := by
    have hdrop := hwithin.rest
    rw [hrest] at hdrop
    rw [← List.head?_drop, ← hdrop]
    rfl
  exact ⟨c.pos, p, hget, hp, rfl, hdoc⟩

/-! ## Parameters -/

/-- The struct fields in the type of an entry have the documentation that belongs to them. -/
def ParamEntry.IsDocumented (ctx : Context) (tokens : List Placed) (e : ParamEntry) : Prop :=
  ∀ t ∈ e.type, Documented ctx tokens t.docSites

/-- A clean run that turns a name into a type keeps the depth. -/
lemma nests_nameAsType (name : Ident) : Nests ctx tokens K c d (nameAsType name) d
    fun t _ => Documented ctx tokens t.docSites := by
  apply (nests_note _ _).andThen
  intro _ c'
  exact .pure fun _ s hs => nomatch hs

/-- A clean run that turns an entry into a field keeps the depth. -/
lemma nests_paramField {e : ParamEntry} (he : K → e.IsDocumented ctx tokens) :
    Nests ctx tokens K c d (paramField e) d
      fun o _ => ∀ f ∈ o, Documented ctx tokens f.type.docSites := by
  have hfield {names : List Ident} {type : TypeExpr} {span : Span} {c : Cursor} {K : Prop}
      (ht : K → Documented ctx tokens type.docSites) :
      Nests ctx tokens K c d (do
        note .field span
        return some ⟨span, names, e.ellipsis, type, none, false, none, none⟩) d
        fun (o : Option Field) _ => ∀ f ∈ o, Documented ctx tokens f.type.docSites := by
    apply (nests_note _ _).andThen
    intro _ c'
    apply Nests.pure
    rintro hK _ ⟨⟩
    exact ht hK
  rw [paramField]
  dsimp only
  split
  · next type htype => exact hfield fun hK => he hK type htype
  · next name _ _ _ =>
    apply (nests_nameAsType name).bind
    intro t c' _
    exact hfield And.right
  · apply Nests.pure
    rintro - _ ⟨⟩

/-- A clean run that turns entries into fields keeps the depth. -/
lemma nests_paramFields {es : List ParamEntry} (h : K → ∀ e ∈ es, e.IsDocumented ctx tokens) :
    Nests ctx tokens K c d (paramFields es) d
      fun fs _ => ∀ f ∈ fs, Documented ctx tokens f.type.docSites := by
  induction es generalizing c K with
  | nil => exact Nests.pure fun _ f hf => nomatch hf
  | cons e es ih =>
    apply (nests_paramField fun hK => (List.forall_mem_cons.1 (h hK)).1).bind
    intro o c₁ _
    apply Nests.bind (ih fun ⟨hK, _⟩ => (List.forall_mem_cons.1 (h hK)).2)
    intro fs c₂ _
    apply Nests.pure
    rintro ⟨⟨-, ho⟩, hfs⟩ f hf
    rcases List.mem_append.1 hf with hf | hf
    · exact ho f (Option.mem_toList.1 hf)
    · exact hfs f hf

section

variable (h : ReadsCleanly ctx tokens type)
include h

/-- A type that is read cleanly keeps the depth. -/
lemma ReadsCleanly.nests : Nests ctx tokens K c d type d fun t c' =>
    c'.rest.length < c.rest.length ∧ Documented ctx tokens t.docSites :=
  (h c d).assume fun _ => True.intro

/-- A clean run through an entry of a list of parameters keeps the depth. -/
lemma nests_paramEntry :
    Nests ctx tokens K c d (paramEntry type) d fun e _ => e.IsDocumented ctx tokens := by
  -- an entry ends with its type
  have htyped {names : List Ident} {dots : Option Span} {start : Span} {c : Cursor} :
      Nests ctx tokens K c d (do
        let t ← type
        return (⟨names, dots, some t, ← spanSince start⟩ : ParamEntry)) d
        fun e _ => e.IsDocumented ctx tokens := by
    apply h.nests.bind
    intro t c' _
    apply (looks_spanSince start).cleanRun
    intro span
    apply Nests.pure
    rintro ⟨-, -, ht⟩ _ ⟨⟩
    exact ht
  apply looks_nextSpan.cleanRun
  intro start
  apply cleanRun_peek
  apply cleanRun_peekAt
  split
  · next hdots =>
    apply nests_take hdots rfl
    intro _ c' _ _
    exact htyped
  · next word next hword hnext =>
    split
    · apply nests_ident hword
      intro p c' _
      apply (looks_spanSince start).cleanRun
      intro span
      exact Nests.pure fun _ t ht => nomatch ht
    · split
      · next hdots =>
        apply nests_ident hword
        intro p c' hread
        subst hdots
        apply nests_take ((Cursor.ahead_of_read hread 0).trans hnext) rfl
        intro _ c'' _ _
        exact htyped
      · split
        · apply nests_ident hword
          intro p c' _
          exact htyped
        · exact htyped
  · exact htyped

/-- A clean run through an entry of a list of parameters, or past it, keeps the depth. -/
lemma nests_paramEntryOrSkip :
    Nests ctx tokens K c d (paramEntryOrSkip type) d fun e c' =>
      c'.rest.length < c.rest.length ∧ e.IsDocumented ctx tokens := by
  apply cleanRun_position
  apply (nests_paramEntry h).bind
  intro entry c₁ h₁
  apply (nests_complainIfStuck _ _).bind
  rintro _ c₂ -
  apply (nests_skipIfStuck fun ⟨_, hsame, hread⟩ => hsame ▸ hread).bind
  intro _ c₃ _
  apply Nests.pure
  rintro ⟨⟨⟨-, hentry⟩, rfl, hread⟩, rfl⟩
  exact ⟨h₁.length_lt hread, hentry⟩

/-- A clean run through a list of parameters keeps the depth. -/
lemma nests_params :
    Nests ctx tokens K c d (params type) d fun l _ => Documented ctx tokens l.docSites := by
  apply (nests_requireSpan (Token.depthAfter?_opening d rfl)).andThen
  intro opening c₁
  apply (nests_separatedBy (looks_atEndOr _) rfl fun c => nests_paramEntryOrSkip h).bind
  intro entries c₂ _
  apply (nests_requireSpan (Token.depthAfter?_closing d rfl)).andThen
  intro closing c₃
  apply (nests_paramFields fun ⟨_, _, hentries⟩ => type_groupParams hentries).bind
  intro fields c₄ _
  apply Nests.pure
  rintro ⟨-, hfields⟩
  rw [FieldList.docSites, Field.paramSites_eq]
  exact documented_flatMap hfields

/-- A clean run through results keeps the depth. -/
lemma nests_results : Nests ctx tokens K c d (results type) d fun o _ =>
    ∀ rs ∈ o, Documented ctx tokens rs.docSites := by
  apply (looks_nextIs _).cleanRun
  intro isList
  split
  · apply (nests_params h).bind
    intro l c' _
    apply Nests.pure
    rintro ⟨-, hl⟩ _ ⟨⟩
    exact hl
  · apply (looks_nextIs _).cleanRun
    intro isType
    split
    · apply h.nests.bind
      intro t c' _
      apply Nests.pure
      rintro ⟨-, -, ht⟩ _ ⟨⟩
      exact ht
    · exact Nests.pure fun _ _ hrs => nomatch hrs

/-- A clean run through a signature keeps the depth. -/
lemma nests_signature :
    Nests ctx tokens K c d (signature type) d fun s _ => Documented ctx tokens s.docSites := by
  apply looks_nextSpan.cleanRun
  intro start
  apply (nests_params h).bind
  intro ps c₁ _
  apply (nests_results h).bind
  intro rs c₂ _
  apply nests_node
  rintro ⟨⟨-, hps⟩, hrs⟩ span - - -
  cases rs with
  | none => exact hps
  | some rs => exact documented_append hps (hrs rs rfl)

/-! ## Named types and unions -/

omit h in
/-- A clean run through a name that may be qualified keeps the depth. -/
lemma nests_qualifiedName : Nests ctx tokens K c d qualifiedName d
    fun _ c' => c'.rest.length < c.rest.length := by
  apply nests_requireIdent.bind
  intro first c₁ h₁
  apply nests_accept rfl
  · intro p c₂ hread _
    apply nests_requireIdent.bind
    intro name c₃ h₃
    apply Nests.pure
    intro _
    have h₁ := h₁.length_le
    have h₂ := Cursor.length_lt hread
    have h₃ := h₃.length_le
    omega
  · apply Nests.pure
    rintro ⟨-, p, hread, -⟩
    exact Cursor.length_lt hread

/-- A clean run through type arguments keeps the depth. -/
lemma nests_typeArgs : Nests ctx tokens K c d (typeArgs type) d
    fun ts _ => ∀ t ∈ ts, Documented ctx tokens t.docSites := by
  apply nests_accept (Token.depthAfter?_opening d rfl)
  · intro p c₁ _ _
    apply (nests_separatedBy (looks_atEndOr _) rfl fun c => h c _).bind
    intro ts c₂ _
    apply (nests_require (Token.depthAfter?_closing d rfl)).bind
    intro rBrack c₃ _
    exact .pure fun ⟨⟨_, _, hts⟩, _⟩ => hts
  · exact Nests.pure fun _ t ht => nomatch ht

/-- A clean run through a type with a name keeps the depth. -/
lemma nests_namedType : Nests ctx tokens K c d (namedType type) d fun t c' =>
    c'.rest.length < c.rest.length ∧ Documented ctx tokens t.docSites := by
  apply looks_nextSpan.cleanRun
  intro start
  apply nests_qualifiedName.bind
  rintro ⟨pkg, name⟩ c₁ _
  apply (nests_typeArgs h).bind
  intro args c₂ h₂
  apply nests_node
  rintro ⟨⟨-, hlt⟩, hargs⟩ span c₃ - hrest
  refine ⟨hrest ▸ Nat.lt_of_le_of_lt h₂.length_le hlt, ?_⟩
  show Documented ctx tokens (TypeExpr.docSitesOf args)
  rw [TypeExpr.docSitesOf_eq]
  exact documented_flatMap hargs

/-- A clean run through a term of a union keeps the depth. -/
lemma nests_unionTerm : Nests ctx tokens K c d (unionTerm type) d fun t c' =>
    c'.rest.length < c.rest.length ∧ Documented ctx tokens t.type.docSites := by
  apply nests_accept rfl
  · intro p c₁ hread _
    apply Nests.shorter _ fun _ => Cursor.length_lt hread
    apply h.nests.bind
    intro t c₂ _
    exact .pure fun ⟨_, _, ht⟩ => ht
  · apply h.nests.bind
    intro t c₁ _
    exact .pure And.right

/-- A clean run through a union keeps the depth. -/
lemma nests_union : Nests ctx tokens K c d (union type) d fun ts c' =>
    c'.rest.length < c.rest.length ∧ Documented ctx tokens (UnionTerm.docSitesOf ts) := by
  apply (nests_separatedBy (looks_pure false) rfl fun c => nests_unionTerm h).mono
  rintro ts c' - ⟨hlt, hts⟩
  rw [UnionTerm.docSitesOf_eq]
  exact ⟨hlt rfl, documented_flatMap hts⟩

/-! ## Structs and interfaces -/

omit h in
/-- With more steps than tokens ahead the loop over identifiers ends by itself. -/
lemma nests_moreIdents {what : String} {fuel : Nat} (hfuel : c.rest.length < fuel) :
    Nests ctx tokens K c d (moreIdents what fuel) d fun _ _ => True := by
  induction fuel generalizing c with
  | zero => exact absurd hfuel (Nat.not_lt_zero _)
  | succ fuel ih =>
    apply cleanRun_peek
    apply cleanRun_peekAt
    split
    · next word hcomma hword =>
      apply nests_take hcomma rfl
      intro p c₁ hread _
      apply nests_ident ((Cursor.ahead_of_read hread 0).trans hword)
      intro p' c₂ hread'
      have hlt := Cursor.length_lt hread
      have hlt' := Cursor.length_lt hread'
      apply Nests.andThen (ih (c := c₂) (by omega))
      intro names c₃
      exact .pure fun _ => True.intro
    · exact Nests.pure fun _ => True.intro

omit h in
/-- The first identifier is the next token. -/
lemma nests_identList (what : String) : Nests ctx tokens K c d (identList what) d
    fun names c' => c'.rest.length < c.rest.length ∧
      ∃ p ps, c.rest = p :: ps ∧ names.head?.map Ident.span = some p.span := by
  apply nests_requireIdent.bind
  intro first c₁ _
  apply cleanRun_remaining
  apply (nests_moreIdents (Nat.lt_succ_self _)).bind
  intro others c₂ h₂
  apply Nests.pure
  rintro ⟨⟨-, p, hread, hspan⟩, -⟩
  exact ⟨Nat.lt_of_le_of_lt h₂.length_le (Cursor.length_lt hread), p, _, hread,
    congrArg some hspan⟩

omit h in
/-- A clean run through the tag of a field keeps the depth. -/
lemma nests_fieldTag : Nests ctx tokens K c d fieldTag d fun _ _ => True := by
  apply cleanRun_peek
  split
  · next htag =>
    apply nests_take htag rfl
    intro p c' _ _
    exact .pure fun _ => True.intro
  · next htag =>
    apply nests_take htag rfl
    intro p c' _ _
    exact .pure fun _ => True.intro
  · exact Nests.pure fun _ => True.intro

/-- A field begins at the next token, and its documentation is the one that belongs to it. -/
lemma nests_structField {p : Placed} {ps : List Placed} (hrest : c.rest = p :: ps)
    (hp : p.isInserted = false) : Nests ctx tokens K c d (structField type) d fun f c' =>
      c'.rest.length < c.rest.length ∧ Documented ctx tokens (Field.structSites [f]) := by
  apply cleanRun_nextSpan hrest
  apply cleanRun_docAbove
  intro doc hdoc
  apply looks_atEmbedded.cleanRun
  intro embedded
  have hnames : Nests ctx tokens K c d
      (if embedded then return [] else identList "field name") d fun _ _ => True := by
    split
    · exact Nests.pure fun _ => True.intro
    · exact (nests_identList _).mono fun _ _ _ _ => True.intro
  apply hnames.bind
  intro names c₁ h₁
  apply h.nests.bind
  intro t c₂ _
  apply nests_fieldTag.bind
  intro tag c₃ h₃
  apply looks_commentBeside.cleanRun
  intro comment
  apply nests_node
  rintro ⟨⟨-, hlt, ht⟩, -⟩ span c₄ hstart hrest'
  refine ⟨?_, ?_⟩
  · have h₁ := h₁.length_le
    have h₃ := h₃.length_le
    rw [hrest']
    omega
  · rw [Field.structSites, Field.structSites, List.append_nil, hstart]
    exact List.forall_mem_cons.2 ⟨hdoc p ps hrest hp, ht⟩

omit h in
/-- A clean run to the end of a field keeps the depth. -/
lemma nests_finishField : Nests ctx tokens K c d finishField d fun _ _ => True := by
  apply cleanRun_peek
  split
  · next hsemi =>
    apply nests_take hsemi rfl
    intro p c' _ _
    exact .pure fun _ => True.intro
  · exact Nests.pure fun _ => True.intro
  · exact Nests.pure fun _ => True.intro
  · apply (cleanRun_complain _).never
    intro _ c'
    apply runs_skipStatement.andThen
    intro _ c''
    exact .pure True.intro

/-- The fields of a struct are read one by one, each with its documentation. -/
lemma readsItems_structMember : ReadsItems ctx tokens d .rBrace (structMember type)
    fun f => Documented ctx tokens (Field.structSites [f]) := by
  intro c t ht hbrace hsemi
  obtain ⟨p, ps, hrest, rfl⟩ := Cursor.exists_rest ht
  apply Nests.itemRead
  apply (nests_structField h hrest (not_inserted_of_token hsemi)).bind
  intro field c₁ _
  apply nests_finishField.bind
  intro _ c₂ h₂
  exact .pure fun ⟨⟨_, hlt, hfield⟩, _⟩ => ⟨Nat.lt_of_le_of_lt h₂.length_le hlt, hfield⟩

/-- A clean run through a struct type keeps the depth. -/
lemma nests_structType (hstruct : c.ahead 0 = some (.keyword .structKw)) :
    Nests ctx tokens K c d (structType type) d fun t c' =>
      c'.rest.length < c.rest.length ∧ Documented ctx tokens t.docSites := by
  apply nests_take hstruct rfl
  intro p c₁ hread _
  apply Nests.shorter _ fun _ => Cursor.length_lt hread
  apply (nests_requireSpan (Token.depthAfter?_opening d rfl)).andThen
  intro lBrace c₂
  apply nests_closed (readsItems_structMember h)
  · intro c
    exact (nests_requireSpan (Token.depthAfter?_closing d rfl)).mono
      fun span c' _ ⟨p, hread, _⟩ => ⟨p, hread⟩
  intro fields rBrace c₄
  apply nests_node
  rintro ⟨-, hfields⟩ span - - -
  show Documented ctx tokens (Field.structSites fields)
  rw [structSites_eq_flatMap]
  exact documented_flatMap hfields

/-- A clean run through an element of an interface keeps the depth. -/
lemma nests_interfaceElement : Nests ctx tokens K c d (interfaceElement type) d fun e c' =>
    c'.rest.length < c.rest.length ∧ Documented ctx tokens e.docSites := by
  apply cleanRun_peek
  apply cleanRun_peekAt
  split
  · next word hword _ =>
    apply nests_ident hword
    intro p c₁ hread
    apply Nests.shorter _ fun _ => Cursor.length_lt hread
    apply (nests_signature h).bind
    intro s c₂ _
    exact .pure And.right
  · apply (nests_union h).bind
    intro ts c₁ _
    exact .pure And.right

omit h in
/-- A clean run to the end of an element keeps the depth. -/
lemma nests_finishElement : Nests ctx tokens K c d finishElement d fun _ _ => True := by
  apply (looks_atEndOr _).cleanRun
  intro atEnd
  split
  · exact Nests.pure fun _ => True.intro
  · exact nests_finishStatement

/-- The elements of an interface are read one by one, each with its documentation. -/
lemma readsItems_interfaceMember : ReadsItems ctx tokens d .rBrace (interfaceMember type)
    fun e => Documented ctx tokens e.docSites := by
  intro c t _ _ _
  apply Nests.itemRead
  apply (nests_interfaceElement h).bind
  intro e c₁ _
  apply nests_finishElement.bind
  intro _ c₂ h₂
  exact .pure fun ⟨⟨_, hlt, he⟩, _⟩ => ⟨Nat.lt_of_le_of_lt h₂.length_le hlt, he⟩

/-- A clean run through an interface type keeps the depth. -/
lemma nests_interfaceType (hinterface : c.ahead 0 = some (.keyword .interfaceKw)) :
    Nests ctx tokens K c d (interfaceType type) d fun t c' =>
      c'.rest.length < c.rest.length ∧ Documented ctx tokens t.docSites := by
  apply nests_take hinterface rfl
  intro p c₁ hread _
  apply Nests.shorter _ fun _ => Cursor.length_lt hread
  apply (nests_requireSpan (Token.depthAfter?_opening d rfl)).andThen
  intro lBrace c₂
  apply nests_closed (readsItems_interfaceMember h)
  · intro c
    exact (nests_requireSpan (Token.depthAfter?_closing d rfl)).mono
      fun span c' _ ⟨p, hread, _⟩ => ⟨p, hread⟩
  intro elems rBrace c₄
  apply nests_node
  rintro ⟨-, helems⟩ span - - -
  show Documented ctx tokens (InterfaceMember.docSitesOf elems)
  rw [InterfaceMember.docSitesOf_eq]
  exact documented_flatMap helems

/-! ## Types -/

/-- A clean run through a type that begins with a bracket keeps the depth. -/
lemma nests_bracketType (hbracket : c.ahead 0 = some (.mark .lBrack)) :
    Nests ctx tokens K c d (bracketType type) d fun t c' =>
      c'.rest.length < c.rest.length ∧ Documented ctx tokens t.docSites := by
  apply looks_nextSpan.cleanRun
  intro start
  apply cleanRun_peekAt
  split
  · next hclosing =>
    apply nests_take hbracket (Token.depthAfter?_opening d rfl)
    intro p c₁ hread _
    apply Nests.shorter _ fun _ => Cursor.length_lt hread
    apply nests_take ((Cursor.ahead_of_read hread 0).trans hclosing)
      (Token.depthAfter?_closing d rfl)
    intro p c₂ _ _
    apply h.nests.bind
    intro elem c₃ _
    exact nests_node fun ⟨_, _, helem⟩ _ _ _ _ => helem
  · apply (nests_skipRun hbracket rfl).bind
    intro len c₁ h₁
    apply h.nests.bind
    intro elem c₂ _
    apply nests_node
    rintro ⟨-, hlt, helem⟩ span c₃ - hrest
    exact ⟨hrest ▸ Nat.lt_of_lt_of_le hlt h₁.length_le, helem⟩

/-- A clean run through a map type keeps the depth. -/
lemma nests_mapType (hmap : c.ahead 0 = some (.keyword .mapKw)) :
    Nests ctx tokens K c d (mapType type) d fun t c' =>
      c'.rest.length < c.rest.length ∧ Documented ctx tokens t.docSites := by
  apply nests_take hmap rfl
  intro p c₁ hread _
  apply Nests.shorter _ fun _ => Cursor.length_lt hread
  apply (nests_require (Token.depthAfter?_opening d rfl)).andThen
  intro _ c₂
  apply h.nests.bind
  intro key c₃ _
  apply (nests_require (Token.depthAfter?_closing d rfl)).bind
  intro _ c₄ _
  apply h.nests.bind
  intro val c₅ _
  apply nests_node
  rintro ⟨⟨⟨-, -, hkey⟩, -⟩, -, hval⟩ span - - -
  exact documented_append hkey hval

omit h in
/-- A clean run through the direction of a channel keeps the depth. -/
lemma nests_chanDir : Nests ctx tokens K c d chanDir d fun _ _ => True := by
  apply nests_accept rfl
  · intro p c' _ _
    exact .pure fun _ => True.intro
  · exact Nests.pure fun _ => True.intro

/-- A clean run through a channel type keeps the depth. -/
lemma nests_chanType (hchan : c.ahead 0 = some (.keyword .chanKw)) :
    Nests ctx tokens K c d (chanType type) d fun t c' =>
      c'.rest.length < c.rest.length ∧ Documented ctx tokens t.docSites := by
  apply nests_take hchan rfl
  intro p c₁ hread _
  apply Nests.shorter _ fun _ => Cursor.length_lt hread
  apply nests_chanDir.andThen
  intro dir c₂
  apply h.nests.bind
  intro elem c₃ _
  exact nests_node fun ⟨_, _, helem⟩ _ _ _ _ => helem

/-- A clean run through a channel type that begins with an arrow keeps the depth. -/
lemma nests_recvType (harrow : c.ahead 0 = some (.mark .arrow)) :
    Nests ctx tokens K c d (recvType type) d fun t c' =>
      c'.rest.length < c.rest.length ∧ Documented ctx tokens t.docSites := by
  apply nests_take harrow rfl
  intro p c₁ hread _
  apply Nests.shorter _ fun _ => Cursor.length_lt hread
  apply (nests_require rfl).andThen
  intro _ c₂
  apply h.nests.bind
  intro elem c₃ _
  exact nests_node fun ⟨_, _, helem⟩ _ _ _ _ => helem

/-- The body of a type is read cleanly if the types within are. -/
lemma readsCleanly_typeBody : ReadsCleanly ctx tokens (typeBody type) := by
  intro c d
  apply cleanRun_peek
  split
  · exact nests_namedType h
  · next hstar =>
    apply nests_take hstar rfl
    intro p c₁ hread _
    apply Nests.shorter _ fun _ => Cursor.length_lt hread
    apply h.nests.bind
    intro elem c₂ _
    exact nests_node fun ⟨_, _, helem⟩ _ _ _ _ => helem
  · next hbracket => exact nests_bracketType h hbracket
  · next hmap => exact nests_mapType h hmap
  · next hchan => exact nests_chanType h hchan
  · next harrow => exact nests_recvType h harrow
  · next hfunc =>
    apply nests_take hfunc rfl
    intro p c₁ hread _
    apply Nests.shorter _ fun _ => Cursor.length_lt hread
    apply (nests_signature h).bind
    intro s c₂ _
    exact nests_node fun ⟨_, hs⟩ _ _ _ _ => hs
  · next hstruct => exact nests_structType h hstruct
  · next hinterface => exact nests_interfaceType h hinterface
  · next hparen =>
    apply nests_take hparen (Token.depthAfter?_opening d rfl)
    intro p c₁ hread _
    apply Nests.shorter _ fun _ => Cursor.length_lt hread
    apply h.nests.bind
    intro inner c₂ _
    apply (nests_require (Token.depthAfter?_closing d rfl)).bind
    intro _ c₃ _
    exact nests_node fun ⟨⟨_, _, hinner⟩, _⟩ _ _ _ _ => hinner
  · apply looks_nextSpan.cleanRun
    intro start
    apply (cleanRun_complain _).never
    intro _ c₁
    exact runs_node fun _ => True.intro

end

/-- A type that is nested too deep is not read cleanly at all. -/
lemma readsCleanly_tooDeep : ReadsCleanly ctx tokens tooDeep := by
  intro c d
  apply looks_nextSpan.cleanRun
  intro span
  apply (cleanRun_report _ _).never
  intro _ c₁
  apply (runs_note _ _).andThen
  intro _ c₂
  exact .pure True.intro

/-- However deep types may be nested, one that is read without a report is read cleanly. -/
lemma readsCleanly_typeWithin (n : Nat) : ReadsCleanly ctx tokens (typeWithin n) := by
  induction n with
  | zero => exact readsCleanly_tooDeep
  | succ n ih => exact readsCleanly_typeBody ih

end GoService.Source.Parser
