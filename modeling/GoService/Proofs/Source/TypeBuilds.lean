import GoService.Proofs.Source.Attachments
import GoService.Proofs.Source.Builds
import GoService.Proofs.Source.TypeRuns

/-!
# What the readers of types build

Each reader builds its tree out of exactly the nodes that it notes, if the reader of the types
inside it does. Entries of parameter lists are the one place where a tree waits for its parent:
whether a lone identifier is a name or a type is settled only at the end of the list, and the types
read so far are at hand until then (`builds_paramFields`).
-/

namespace GoService.Source

/-- All these groups are comment groups of the file. -/
def Context.Has (ctx : Context) (gs : List CommentGroup) : Prop :=
  ∀ g ∈ gs, g ∈ ctx.groups

section

variable {ctx : Context} {gs gs' : List CommentGroup}

/-- No groups are among those of the source. -/
lemma Context.has_nil : ctx.Has [] :=
  fun _ hg => nomatch hg

/-- Two lists of groups of the source are groups of the source. -/
lemma Context.Has.append (h : ctx.Has gs) (h' : ctx.Has gs') : ctx.Has (gs ++ gs') :=
  List.forall_mem_append.2 ⟨h, h'⟩

/-- Lists of groups of the source are groups of the source. -/
lemma Context.Has.flatMap {α : Type} {as : List α} {f : α → List CommentGroup}
    (h : ∀ a ∈ as, ctx.Has (f a)) : ctx.Has (as.flatMap f) :=
  List.forall_mem_flatMap.2 h

/-- The groups of what may be missing are groups of the source if they are when it is there. -/
lemma Context.Has.getD {α : Type} {o : Option α} {f : α → List CommentGroup}
    (h : ∀ a ∈ o, ctx.Has (f a)) : ctx.Has ((o.map f).getD []) := by
  cases o with
  | none => exact Context.has_nil
  | some a => exact h a rfl

end

namespace Parser

variable {ctx : Context} {type : Parser TypeExpr}

/-- A parser that builds the type that it reads. -/
def BuildsTypes (ctx : Context) (type : Parser TypeExpr) : Prop :=
  Builds ctx [] type (fun t => [t.outline]) fun t => ctx.Has t.attached

/-! ## Comment groups -/

section

variable {β : Type} {held : List Outline} {f : Option CommentGroup → Parser β}
  {trees : β → List Outline} {Q : β → Prop}

/-- The group that leads to a line is one of the groups. -/
lemma mem_of_lead? {groups : List CommentGroup} {next line : Nat} {g : CommentGroup}
    (h : CommentGroup.lead? groups next line = some g) : g ∈ groups := by
  rw [CommentGroup.lead?] at h
  split at h
  · next g' hfind =>
    have hmem := List.mem_reverse.1 (List.mem_of_find?_eq_some hfind)
    obtain ⟨-, hg⟩ := Option.ite_none_right_eq_some.1 h
    cases hg
    exact hmem
  · cases h

/-- One may begin by asking for the documentation above. -/
lemma builds_docAbove
    (hf : ∀ doc : Option CommentGroup, ctx.Has doc.toList → Builds ctx held (f doc) trees Q) :
    Builds ctx held (docAbove >>= f) trees Q := by
  refine looks_docAbove.quiet.bind_builds_of (fun c g hg => ?_) hf
  exact mem_of_lead? (Option.mem_toList.1 hg)

/-- One may begin by asking for the comment beside. -/
lemma builds_commentBeside
    (hf : ∀ comment : Option CommentGroup, ctx.Has comment.toList →
      Builds ctx held (f comment) trees Q) :
    Builds ctx held (commentBeside >>= f) trees Q := by
  refine looks_commentBeside.quiet.bind_builds_of (fun c g hg => ?_) hf
  exact List.mem_of_find?_eq_some (Option.mem_toList.1 hg)

end

/-! ## Parameters -/

/-- The types in entries of a parameter list, in their order. -/
def entryTypes (es : List ParamEntry) : List TypeExpr :=
  es.filterMap ParamEntry.type

/-- The types of entries begin with that of the first if it has one. -/
lemma entryTypes_cons {e : ParamEntry} {t : TypeExpr} (h : e.type = some t)
    (es : List ParamEntry) : entryTypes (e :: es) = t :: entryTypes es :=
  List.filterMap_cons_some h

/-- To attach names to entries leaves their types. -/
lemma entryTypes_attachNames (waiting : List Ident) (from_ : Option Nat) (es : List ParamEntry) :
    entryTypes (attachNames waiting from_ es) = entryTypes es := by
  induction es generalizing waiting from_ with
  | nil =>
    refine List.filterMap_eq_nil_iff.2 fun e he => ?_
    obtain ⟨name, -, rfl⟩ := List.mem_map.1 he
    rfl
  | cons e es ih =>
    rw [attachNames]
    split
    · next type htype => rw [entryTypes_cons rfl, ih, entryTypes_cons htype]
    · next htype => rw [ih, entryTypes, entryTypes, List.filterMap_cons_none htype]

/-- No type is lost where names and types are told apart. -/
lemma entryTypes_groupParams (es : List ParamEntry) :
    entryTypes (groupParams es) = entryTypes es := by
  rw [groupParams]
  split
  · exact entryTypes_attachNames [] none es
  · rfl

/-- The outlines of the types in an entry: one, or none for a lone identifier. -/
def ParamEntry.outlines (e : ParamEntry) : List Outline :=
  (e.type.map TypeExpr.outline).toList

/-- The groups in the type of an entry are those of the file. -/
def ParamEntry.IsIn (ctx : Context) (e : ParamEntry) : Prop :=
  ∀ t ∈ e.type, ctx.Has t.attached

/-- A name that is turned into a type is built. -/
lemma builds_nameAsType (name : Ident) : BuildsTypes ctx (nameAsType name) :=
  builds_note rfl Context.has_nil

/-- The field that is made of an entry has the trees of the entry. -/
lemma builds_paramField {e : ParamEntry} (he : e.IsIn ctx) :
    Builds ctx e.outlines (paramField e) (fun o => o.toList.map Field.outline)
      fun o => ∀ f ∈ o, ctx.Has f.attached := by
  have hfield {names : List Ident} {type : TypeExpr} {span : Span} (ht : ctx.Has type.attached) :
      Builds ctx [type.outline] (do
        note .field span
        return some ⟨span, names, e.ellipsis, type, none, false, none, none⟩)
        (fun (o : Option Field) => o.toList.map Field.outline)
        fun o => ∀ f ∈ o, ctx.Has f.attached := by
    apply builds_note
    · rfl
    · rintro _ ⟨⟩
      exact (Context.has_nil.append ht).append Context.has_nil
  rw [paramField, ParamEntry.outlines]
  dsimp only
  split
  · next type htype =>
    rw [htype]
    exact hfield (he type htype)
  · next name _ htype _ =>
    rw [htype]
    apply (builds_nameAsType name).bind
    intro t ht
    exact hfield ht
  · next htype _ =>
    rw [htype]
    exact .pure .nil fun f hf => absurd hf (Option.not_mem_none f)

/-- Types that wait in entries are put below the fields in their order. -/
lemma builds_paramFields {es : List ParamEntry} (h : ∀ e ∈ es, e.IsIn ctx) :
    Builds ctx (es.flatMap ParamEntry.outlines) (paramFields es)
      (fun fs => fs.map Field.outline) fun fs => ∀ f ∈ fs, ctx.Has f.attached := by
  induction es with
  | nil => exact .pure .nil fun f hf => nomatch hf
  | cons e es ih =>
    obtain ⟨he, hes⟩ := List.forall_mem_cons.1 h
    have hfields : Builds ctx (es.flatMap ParamEntry.outlines ++ e.outlines) (paramFields (e :: es))
        (fun fs => fs.map Field.outline) fun fs => ∀ f ∈ fs, ctx.Has f.attached := by
      apply (builds_paramField he).bindBeside
      intro o ho
      refine Builds.perm ?_ List.perm_append_comm
      apply (ih hes).bindBeside
      intro fs hfs
      refine .pure (.of_eq (List.map_append ..).symm) (List.forall_mem_append.2 ⟨?_, hfs⟩)
      exact fun f hf => ho f (Option.mem_toList.1 hf)
    exact hfields.perm List.perm_append_comm

/-- To group parameters leaves their trees. -/
lemma flatMap_outlines_groupParams (es : List ParamEntry) :
    (groupParams es).flatMap ParamEntry.outlines = es.flatMap ParamEntry.outlines := by
  have h (es : List ParamEntry) :
      es.flatMap ParamEntry.outlines = (entryTypes es).map TypeExpr.outline := by
    rw [entryTypes, List.map_filterMap, List.filterMap_eq_flatMap_toList]
    rfl
  rw [h, h, entryTypes_groupParams]

section

variable (h : BuildsTypes ctx type)
include h

/-- An entry of a list of parameters is built. -/
lemma builds_paramEntry : Builds ctx [] (paramEntry type) ParamEntry.outlines
    fun e => e.IsIn ctx := by
  -- an entry ends with its type
  have htyped {names : List Ident} {dots : Option Span} {start : Span} :
      Builds ctx [] (do
        let t ← type
        return (⟨names, dots, some t, ← spanSince start⟩ : ParamEntry)) ParamEntry.outlines
        fun e => e.IsIn ctx := by
    apply h.bind
    intro t ht
    apply (looks_spanSince start).quiet.bind_builds
    intro span
    refine .pure (.refl _) ?_
    rintro _ ⟨⟩
    exact ht
  apply looks_nextSpan.quiet.bind_builds
  intro start
  apply quiet_peek.bind_builds
  intro first
  apply (quiet_peekAt 1).bind_builds
  intro second
  split
  · exact quiet_take.bind_builds fun dots => htyped
  · split
    · apply (quiet_requireIdent _).bind_builds
      intro name
      apply (looks_spanSince start).quiet.bind_builds
      intro span
      exact .pure .nil fun t ht => nomatch ht
    · split
      · apply (quiet_requireIdent _).bind_builds
        intro name
        exact quiet_take.bind_builds fun dots => htyped
      · split
        · exact (quiet_requireIdent _).bind_builds fun name => htyped
        · exact htyped
  · exact htyped

/-- An entry of a list of parameters, or what is passed over, is built. -/
lemma builds_paramEntryOrSkip : Builds ctx [] (paramEntryOrSkip type) ParamEntry.outlines
    fun e => e.IsIn ctx := by
  apply quiet_position.bind_builds
  intro before
  apply (builds_paramEntry h).bind
  intro entry hentry
  apply (quiet_complainIfStuck _ _).bind_builds
  intro _
  apply (quiet_skipIfStuck _).bind_builds
  intro _
  exact .pure (.refl _) hentry

/-- A list of parameters is built. -/
lemma builds_params :
    Builds ctx [] (params type) FieldList.outlines fun l => ctx.Has l.attached := by
  apply (quiet_requireSpan _ _).bind_builds
  intro opening
  apply (builds_separatedBy (looks_atEndOr _) (builds_paramEntryOrSkip h)).bind
  intro entries hentries
  apply (quiet_requireSpan _ _).bind_builds
  intro closing
  rw [List.nil_append, ← flatMap_outlines_groupParams]
  have hfields : Builds ctx _ (paramFields (groupParams entries)) _ _ :=
    builds_paramFields (type_groupParams hentries)
  apply hfields.andThen
  intro fields hfields
  refine .pure (.of_eq (Field.outlines_eq_map fields).symm) ?_
  rw [FieldList.attached, Field.attachedAll_eq]
  exact .flatMap hfields

/-- Results are built. -/
lemma builds_results : Builds ctx [] (results type)
    (fun o => (o.map ResultList.outlines).getD []) fun o => ∀ rs ∈ o, ctx.Has rs.attached := by
  apply (looks_nextIs _).quiet.bind_builds
  intro isList
  split
  · apply (builds_params h).bind
    intro l hl
    refine .pure (.refl _) ?_
    rintro _ ⟨⟩
    exact hl
  · apply (looks_nextIs _).quiet.bind_builds
    intro isType
    split
    · apply h.bind
      intro t ht
      refine .pure (.refl _) ?_
      rintro _ ⟨⟩
      exact ht
    · exact .pure .nil fun _ hrs => nomatch hrs

/-- A signature is built. -/
lemma builds_signature :
    Builds ctx [] (signature type) (fun s => [s.outline]) fun s => ctx.Has s.attached := by
  apply looks_nextSpan.quiet.bind_builds
  intro start
  apply (builds_params h).bind
  intro ps hps
  apply (builds_results h).bind
  intro rs hrs
  cases rs with
  | none =>
    rw [Option.map_none, Option.getD_none, List.append_nil]
    exact builds_noteSince (fun span => rfl) fun span => hps
  | some rs => exact builds_noteSince (fun span => rfl) fun span => hps.append (hrs rs rfl)

/-! ## Named types and unions -/

omit h in
/-- A name that may be qualified notes no node. -/
lemma quiet_qualifiedName : Quiet qualifiedName := by
  apply (quiet_requireIdent _).bind
  intro first
  apply (quiet_accept _).bind
  intro dot
  cases dot with
  | none => exact quiet_pure _
  | some span => exact (quiet_requireIdent _).bind fun _ => quiet_pure _

/-- Type arguments are built. -/
lemma builds_typeArgs : Builds ctx [] (typeArgs type) TypeExpr.outlines
    fun ts => ctx.Has (TypeExpr.attachedAll ts) := by
  have hlist {stop : Parser Bool} (hstop : Looks stop) :
      Builds ctx [] (separatedBy stop .comma type) TypeExpr.outlines
        fun ts => ctx.Has (TypeExpr.attachedAll ts) := by
    apply (builds_separatedBy hstop h).mono
    · intro ts
      rw [TypeExpr.outlines_eq_map, List.map_eq_flatMap]
    · intro ts hts
      rw [TypeExpr.attachedAll_eq]
      exact .flatMap hts
  apply (quiet_accept _).bind_builds
  intro lBrack
  cases lBrack with
  | none => exact .pure .nil Context.has_nil
  | some span =>
    apply (hlist (looks_atEndOr _)).bind
    intro ts hts
    apply (quiet_require _ _).bind_builds
    intro rBrack
    exact .pure (.refl _) hts

/-- A type with a name is built. -/
lemma builds_namedType : BuildsTypes ctx (namedType type) := by
  apply looks_nextSpan.quiet.bind_builds
  intro start
  apply quiet_qualifiedName.bind_builds
  rintro ⟨pkg, name⟩
  apply (builds_typeArgs h).bind
  intro args hargs
  exact builds_noteSince (fun span => rfl) fun span => hargs

/-- A term of a union is built. -/
lemma builds_unionTerm : Builds ctx [] (unionTerm type) (fun t => [t.outline])
    fun t => ctx.Has t.attached := by
  apply (quiet_accept _).bind_builds
  intro tilde
  apply h.bind
  intro t ht
  exact .pure (.refl _) ht

/-- A union is built. -/
lemma builds_union : Builds ctx [] (union type) UnionTerm.outlines
    fun ts => ctx.Has (UnionTerm.attachedAll ts) := by
  apply (builds_separatedBy (looks_pure false) (builds_unionTerm h)).mono
  · intro ts
    rw [UnionTerm.outlines_eq_map, List.map_eq_flatMap]
  · intro ts hts
    rw [UnionTerm.attachedAll_eq]
    exact .flatMap hts

/-! ## Structs and interfaces -/

omit h in
/-- More identifiers note no node, for any bound. -/
lemma quiet_moreIdents (what : String) (fuel : Nat) : Quiet (moreIdents what fuel) := by
  induction fuel with
  | zero => exact fun _ _ => rfl
  | succ fuel ih =>
    apply quiet_peek.bind
    intro first
    apply (quiet_peekAt 1).bind
    intro second
    split
    · exact quiet_take.bind fun _ => (quiet_requireIdent what).bind fun _ => ih.bind fun _ =>
        quiet_pure _
    · exact quiet_pure _

omit h in
/-- A list of identifiers notes no node. -/
lemma quiet_identList (what : String) : Quiet (identList what) :=
  (quiet_requireIdent what).bind fun _ => quiet_remaining.bind fun _ =>
    (quiet_moreIdents what _).bind fun _ => quiet_pure _

omit h in
/-- The tag of a field notes no node. -/
lemma quiet_fieldTag : Quiet fieldTag := by
  apply quiet_peek.bind
  intro t
  split
  · exact quiet_take.bind fun _ => quiet_pure _
  · exact quiet_take.bind fun _ => quiet_pure _
  · exact quiet_pure _

/-- A field of a struct is built. -/
lemma builds_structField :
    Builds ctx [] (structField type) (fun f => [f.outline]) fun f => ctx.Has f.attached := by
  apply looks_nextSpan.quiet.bind_builds
  intro start
  apply builds_docAbove
  intro doc hdoc
  apply looks_atEmbedded.quiet.bind_builds
  intro embedded
  have hnames : Quiet (if embedded then return [] else identList "field name") := by
    split
    · exact quiet_pure _
    · exact quiet_identList _
  apply hnames.bind_builds
  intro names
  apply h.bind
  intro t ht
  apply quiet_fieldTag.bind_builds
  intro tag
  apply builds_commentBeside
  intro comment hcomment
  exact builds_noteSince (fun span => rfl) fun span => (hdoc.append ht).append hcomment

omit h in
/-- The end of a field notes no node. -/
lemma quiet_finishField : Quiet finishField := by
  apply quiet_peek.bind
  intro t
  split
  · exact quiet_take.bind fun _ => quiet_pure _
  · exact quiet_pure _
  · exact quiet_pure _
  · exact (quiet_complain _).bind fun _ => quiet_skipStatement.bind fun _ => quiet_pure _

/-- A field of a struct, with its end, is built. -/
lemma builds_structMember :
    Builds ctx [] (structMember type) (fun f => [f.outline]) fun f => ctx.Has f.attached := by
  apply (builds_structField h).bind
  intro field hfield
  apply quiet_finishField.bind_builds
  intro _
  exact .pure (.refl _) hfield

/-- A struct type is built. -/
lemma builds_structType : BuildsTypes ctx (structType type) := by
  apply quiet_take.bind_builds
  intro start
  apply (quiet_requireSpan _ _).bind_builds
  intro lBrace
  apply (builds_membersUpTo (builds_structMember h)).bind
  intro fields hfields
  apply (quiet_requireSpan _ _).bind_builds
  intro rBrace
  rw [← List.map_eq_flatMap, ← Field.outlines_eq_map]
  refine builds_noteSince (fun span => rfl) fun span => ?_
  rw [TypeExpr.attached, Field.attachedAll_eq]
  exact .flatMap hfields

/-- An element of an interface is built. -/
lemma builds_interfaceElement : Builds ctx [] (interfaceElement type) InterfaceMember.memberOutlines
    fun e => ctx.Has e.attached := by
  apply quiet_peek.bind_builds
  intro first
  apply (quiet_peekAt 1).bind_builds
  intro second
  split
  · apply (quiet_requireIdent _).bind_builds
    intro name
    apply (builds_signature h).bind
    intro s hs
    exact .pure (.refl _) hs
  · apply (builds_union h).bind
    intro ts hts
    exact .pure (.refl _) hts

omit h in
/-- The end of an element notes no node. -/
lemma quiet_finishElement : Quiet finishElement := by
  apply (looks_atEndOr _).quiet.bind
  intro atEnd
  split
  · exact quiet_pure _
  · exact quiet_finishStatement

/-- An element of an interface, with its end, is built. -/
lemma builds_interfaceMember : Builds ctx [] (interfaceMember type) InterfaceMember.memberOutlines
    fun e => ctx.Has e.attached := by
  apply (builds_interfaceElement h).bind
  intro e he
  apply quiet_finishElement.bind_builds
  intro _
  exact .pure (.refl _) he

/-- An interface type is built. -/
lemma builds_interfaceType : BuildsTypes ctx (interfaceType type) := by
  apply quiet_take.bind_builds
  intro start
  apply (quiet_requireSpan _ _).bind_builds
  intro lBrace
  apply (builds_membersUpTo (builds_interfaceMember h)).bind
  intro elems helems
  apply (quiet_requireSpan _ _).bind_builds
  intro rBrace
  rw [← InterfaceMember.outlines_eq_flatMap]
  refine builds_noteSince (fun span => rfl) fun span => ?_
  rw [TypeExpr.attached, InterfaceMember.attachedAll_eq]
  exact .flatMap helems

/-! ## Types -/

/-- A type that begins with a bracket is built. -/
lemma builds_bracketType : BuildsTypes ctx (bracketType type) := by
  apply looks_nextSpan.quiet.bind_builds
  intro start
  apply (quiet_peekAt 1).bind_builds
  intro t
  split
  · apply quiet_take.bind_builds
    intro _
    apply quiet_take.bind_builds
    intro _
    apply h.bind
    intro elem helem
    exact builds_noteSince (fun span => rfl) fun span => helem
  · apply quiet_skipRun.bind_builds
    intro len
    apply h.bind
    intro elem helem
    exact builds_noteSince (fun span => rfl) fun span => helem

/-- A map type is built. -/
lemma builds_mapType : BuildsTypes ctx (mapType type) := by
  apply quiet_take.bind_builds
  intro start
  apply (quiet_require _ _).bind_builds
  intro _
  apply h.bind
  intro key hkey
  apply (quiet_require _ _).bind_builds
  intro _
  apply h.bind
  intro val hval
  exact builds_noteSince (fun span => rfl) fun span => hkey.append hval

omit h in
/-- The direction of a channel notes no node. -/
lemma quiet_chanDir : Quiet chanDir := by
  apply (quiet_accept _).bind
  intro arrow
  cases arrow with
  | none => exact quiet_pure _
  | some span => exact quiet_pure _

/-- A channel type is built. -/
lemma builds_chanType : BuildsTypes ctx (chanType type) := by
  apply quiet_take.bind_builds
  intro start
  apply quiet_chanDir.bind_builds
  intro dir
  apply h.bind
  intro elem helem
  exact builds_noteSince (fun span => rfl) fun span => helem

/-- A channel type that begins with an arrow is built. -/
lemma builds_recvType : BuildsTypes ctx (recvType type) := by
  apply quiet_take.bind_builds
  intro start
  apply (quiet_require _ _).bind_builds
  intro _
  apply h.bind
  intro elem helem
  exact builds_noteSince (fun span => rfl) fun span => helem

/-- The body of a type is built if the types within are. -/
lemma builds_typeBody : BuildsTypes ctx (typeBody type) := by
  apply quiet_peek.bind_builds
  intro t
  split
  · exact builds_namedType h
  · apply quiet_take.bind_builds
    intro star
    apply h.bind
    intro elem helem
    exact builds_noteSince (fun span => rfl) fun span => helem
  · exact builds_bracketType h
  · exact builds_mapType h
  · exact builds_chanType h
  · exact builds_recvType h
  · apply quiet_take.bind_builds
    intro start
    apply (builds_signature h).bind
    intro s hs
    exact builds_noteSince (fun span => rfl) fun span => hs
  · exact builds_structType h
  · exact builds_interfaceType h
  · apply quiet_take.bind_builds
    intro start
    apply h.bind
    intro inner hinner
    apply (quiet_require _ _).bind_builds
    intro _
    exact builds_noteSince (fun span => rfl) fun span => hinner
  · apply looks_nextSpan.quiet.bind_builds
    intro start
    apply (quiet_complain _).bind_builds
    intro _
    exact builds_noteSince (fun span => rfl) fun span => Context.has_nil

end

/-- A type that is nested too deep is built. -/
lemma builds_tooDeep : BuildsTypes ctx tooDeep := by
  apply looks_nextSpan.quiet.bind_builds
  intro span
  apply (quiet_report _ _).bind_builds
  intro _
  exact builds_note rfl Context.has_nil

/-- However deep types may be nested, a type is built of the nodes noted for it. -/
lemma buildsTypes_typeWithin (n : Nat) : BuildsTypes ctx (typeWithin n) := by
  induction n with
  | zero => exact builds_tooDeep
  | succ n ih => exact builds_typeBody ih

end Parser

end GoService.Source
