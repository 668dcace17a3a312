import GoService.Proofs.Source.Nesting
import GoService.Proofs.Source.Runs
import GoService.Source.Parser.Types
import Mathlib.Logic.Function.Iterate

/-!
# Runs of the readers of types

Each reader runs from every cursor if the reader of the types inside it does, and its tree has at
most one type more within one another (`runs_typeBody`). So a type that is read within `n` types has
at most `n` of them and a placeholder within one another (`runs_typeWithin`).
-/

namespace GoService.Source.Parser

open Cursor (Steps)

variable {ctx : Context} {c : Cursor} {n : Nat} {type : Parser TypeExpr}

/-- A parser that runs from every cursor and gives types of bounded nesting. -/
def ReadsTypes (n : Nat) (type : Parser TypeExpr) : Prop :=
  ∀ ctx c, Runs ctx c type fun t _ => t.outline.typeNesting ≤ n

/-- What is left to do once all parts of a node are read. -/
lemma runs_node {α : Type} {kind : NodeKind} {start : Span} {build : Span → α} {P : α → Prop}
    (h : ∀ span, P (build span)) :
    Runs ctx c (do return build (← noteSince kind start)) fun a _ => P a := by
  apply (runs_noteSince kind start).andThen
  intro span c'
  exact .pure (h span)

/-! ## Parameters -/

/-- The type in an entry is of bounded nesting. -/
def ParamEntry.Within (n : Nat) (e : ParamEntry) : Prop :=
  ∀ t ∈ e.type, t.outline.typeNesting ≤ n

section

variable {P : TypeExpr → Prop} {es : List ParamEntry}

/-- The types of entries stay what they are when names are attached. -/
lemma type_attachNames {waiting : List Ident} {from_ : Option Nat}
    (h : ∀ e ∈ es, ∀ t ∈ e.type, P t) : ∀ e ∈ attachNames waiting from_ es, ∀ t ∈ e.type, P t := by
  induction es generalizing waiting from_ with
  | nil =>
    intro e he
    obtain ⟨name, -, rfl⟩ := List.mem_map.1 he
    exact fun t ht => nomatch ht
  | cons e es ih =>
    obtain ⟨he, hes⟩ := List.forall_mem_cons.1 h
    rw [attachNames]
    split
    · next type htype =>
      refine List.forall_mem_cons.2 ⟨?_, ih hes⟩
      rintro t ⟨⟩
      exact he type htype
    · exact ih hes

/-- What holds of the types of entries holds of those of the grouped ones. -/
lemma type_groupParams (h : ∀ e ∈ es, ∀ t ∈ e.type, P t) :
    ∀ e ∈ groupParams es, ∀ t ∈ e.type, P t := by
  rw [groupParams]
  split
  · exact type_attachNames h
  · exact h

end

/-- A name that is turned into a type is one type deep. -/
lemma runs_nameAsType (name : Ident) :
    Runs ctx c (nameAsType name) fun t _ => t.outline.typeNesting ≤ 1 := by
  apply (runs_note _ _).andThen
  intro _ c'
  exact .pure (Nat.le_refl 1)

/-- An entry within a bound is turned into a field within it. -/
lemma runs_paramField (hn : 1 ≤ n) {e : ParamEntry} (he : e.Within n) :
    Runs ctx c (paramField e) fun o _ => ∀ f ∈ o, f.outline.typeNesting ≤ n := by
  have hfield {names : List Ident} {type : TypeExpr} {span : Span} {c : Cursor}
      (ht : type.outline.typeNesting ≤ n) :
      Runs ctx c (do
        note .field span
        return some ⟨span, names, e.ellipsis, type, none, false, none, none⟩)
        fun (o : Option Field) _ => ∀ f ∈ o, f.outline.typeNesting ≤ n := by
    apply (runs_note _ _).andThen
    intro _ c'
    apply Runs.pure
    rintro _ ⟨⟩
    rw [Field.typeNesting_outline]
    exact ht
  rw [paramField]
  dsimp only
  split
  · next type htype => exact hfield (he type htype)
  · next name _ _ _ =>
    apply (runs_nameAsType name).bind
    intro t c' _ ht
    exact hfield (Nat.le_trans ht hn)
  · exact .pure fun f hf => nomatch hf

/-- Entries within a bound are turned into fields within it. -/
lemma runs_paramFields (hn : 1 ≤ n) {es : List ParamEntry} (h : ∀ e ∈ es, e.Within n) :
    Runs ctx c (paramFields es) fun fs _ => ∀ f ∈ fs, f.outline.typeNesting ≤ n := by
  induction es generalizing c with
  | nil => exact .pure fun f hf => nomatch hf
  | cons e es ih =>
    obtain ⟨he, hes⟩ := List.forall_mem_cons.1 h
    apply (runs_paramField hn he).bind
    intro o c₁ _ ho
    apply (ih hes).bind
    intro fs c₂ _ hfs
    apply Runs.pure
    intro f hf
    rcases List.mem_append.1 hf with hf | hf
    · exact ho f (Option.mem_toList.1 hf)
    · exact hfs f hf

section

variable (h : ReadsTypes n type)
include h

/-- An entry of a list of parameters is within the bound. -/
lemma runs_paramEntry : Runs ctx c (paramEntry type) fun e _ => e.Within n := by
  -- an entry ends with its type
  have htyped {names : List Ident} {dots : Option Span} {start : Span} {c : Cursor} :
      Runs ctx c (do
        let t ← type
        return (⟨names, dots, some t, ← spanSince start⟩ : ParamEntry)) fun e _ => e.Within n := by
    apply (h ctx c).bind
    intro t c' _ ht
    apply (looks_spanSince start).bind_runs
    intro span
    apply Runs.pure
    rintro _ ⟨⟩
    exact ht
  apply looks_nextSpan.bind_runs
  intro start
  apply runs_peek
  apply runs_peekAt
  split
  · apply runs_take.andThen
    intro dots c'
    exact htyped
  · split
    · apply (runs_requireIdent _).andThen
      intro name c'
      apply (looks_spanSince start).bind_runs
      intro span
      exact .pure fun t ht => nomatch ht
    · split
      · apply (runs_requireIdent _).andThen
        intro name c'
        apply runs_take.andThen
        intro dots c''
        exact htyped
      · split
        · apply (runs_requireIdent _).andThen
          intro name c'
          exact htyped
        · exact htyped
  · exact htyped

/-- An entry of a list of parameters, or what is passed over, is within the bound. -/
lemma runs_paramEntryOrSkip : Runs ctx c (paramEntryOrSkip type) fun e _ => e.Within n := by
  apply runs_position
  apply (runs_paramEntry h).bind
  intro entry c₁ _ hentry
  apply (runs_complainIfStuck _ _).andThen
  intro _ c₂
  apply (runs_skipIfStuck _).andThen
  intro _ c₃
  exact .pure hentry

/-- A list of parameters is within the bound. -/
lemma runs_params (hn : 1 ≤ n) :
    Runs ctx c (params type) fun l _ => Outline.typeNestings l.outlines ≤ n := by
  apply (runs_requireSpan _ _).andThen
  intro opening c₁
  apply (runs_separatedBy (looks_atEndOr _) fun c => runs_paramEntryOrSkip h).bind
  intro entries c₂ _ hentries
  apply (runs_requireSpan _ _).andThen
  intro closing c₃
  apply (runs_paramFields hn (type_groupParams hentries)).bind
  intro fields c₄ _ hfields
  apply Runs.pure
  rw [FieldList.outlines, Field.outlines_eq_map]
  exact Outline.typeNestings_map_le hfields

/-- Results are within the bound. -/
lemma runs_results (hn : 1 ≤ n) : Runs ctx c (results type) fun o _ =>
    ∀ rs ∈ o, Outline.typeNestings rs.outlines ≤ n := by
  apply (looks_nextIs _).bind_runs
  intro isList
  split
  · apply (runs_params h hn).bind
    intro l c' _ hl
    apply Runs.pure
    rintro _ ⟨⟩
    exact hl
  · apply (looks_nextIs _).bind_runs
    intro isType
    split
    · apply (h ctx c).bind
      intro t c' _ ht
      apply Runs.pure
      rintro _ ⟨⟩
      exact Nat.max_le.2 ⟨ht, Nat.zero_le n⟩
    · exact .pure fun _ hrs => nomatch hrs

/-- A signature is within the bound. -/
lemma runs_signature (hn : 1 ≤ n) :
    Runs ctx c (signature type) fun s _ => s.outline.typeNesting ≤ n := by
  apply looks_nextSpan.bind_runs
  intro start
  apply (runs_params h hn).bind
  intro ps c₁ _ hps
  apply (runs_results h hn).bind
  intro rs c₂ _ hrs
  apply runs_node
  intro span
  cases rs with
  | none => exact hps
  | some rs =>
    show Outline.typeNestings (ps.outlines ++ rs.outlines) ≤ n
    rw [Outline.typeNestings_append]
    exact Nat.max_le.2 ⟨hps, hrs rs rfl⟩

/-! ## Named types and unions -/

omit h in
/-- To read a name that may be qualified is a run. -/
lemma runs_qualifiedName : Runs ctx c qualifiedName fun _ _ => True := by
  apply (runs_requireIdent _).andThen
  intro first c₁
  apply (runs_accept _).andThen
  intro dot c₂
  cases dot with
  | none => exact .pure True.intro
  | some span =>
    apply (runs_requireIdent _).andThen
    intro name c₃
    exact .pure True.intro

/-- Type arguments are within the bound. -/
lemma runs_typeArgs :
    Runs ctx c (typeArgs type) fun ts _ => ∀ t ∈ ts, t.outline.typeNesting ≤ n := by
  apply (runs_accept _).andThen
  intro lBrack c₁
  cases lBrack with
  | none => exact .pure fun _ ht => nomatch ht
  | some span =>
    apply (runs_separatedBy (looks_atEndOr _) fun c => h ctx c).bind
    intro ts c₂ _ hts
    apply (runs_require _ _).andThen
    intro rBrack c₃
    exact .pure hts

/-- A type with a name is one type deeper than the bound. -/
lemma runs_namedType : Runs ctx c (namedType type) fun t _ => t.outline.typeNesting ≤ n + 1 := by
  apply looks_nextSpan.bind_runs
  intro start
  apply runs_qualifiedName.andThen
  rintro ⟨pkg, name⟩ c₁
  apply (runs_typeArgs h).bind
  intro args c₂ _ hargs
  apply runs_node
  intro span
  show Outline.typeNestings (TypeExpr.outlines args) + 1 ≤ n + 1
  rw [TypeExpr.outlines_eq_map]
  exact Nat.succ_le_succ (Outline.typeNestings_map_le hargs)

/-- A term of a union is within the bound. -/
lemma runs_unionTerm : Runs ctx c (unionTerm type) fun t _ => t.outline.typeNesting ≤ n := by
  apply (runs_accept _).andThen
  intro tilde c₁
  apply (h ctx c₁).bind
  intro t c₂ _ ht
  exact .pure ht

/-- A union is within the bound. -/
lemma runs_union : Runs ctx c (union type) fun ts _ => ∀ t ∈ ts, t.outline.typeNesting ≤ n :=
  runs_separatedBy (looks_pure false) fun _ => runs_unionTerm h

/-! ## Structs and interfaces -/

omit h in
/-- With more steps than tokens ahead the loop over identifiers ends by itself. -/
lemma runs_moreIdents {what : String} {fuel : Nat} (hfuel : c.rest.length < fuel) :
    Runs ctx c (moreIdents what fuel) fun _ _ => True := by
  induction fuel generalizing c with
  | zero => exact absurd hfuel (Nat.not_lt_zero _)
  | succ fuel ih =>
    apply runs_peek
    apply runs_peekAt
    split
    · next hcomma _ =>
      apply (runs_take_of_ahead hcomma).bind
      intro _ c₁ _ hlt
      apply (runs_requireIdent what).bind
      intro name c₂ h₂ _
      have hle := h₂.length_le
      apply (ih (c := c₂) (by omega)).andThen
      intro names c₃
      exact .pure True.intro
    · exact .pure True.intro

omit h in
/-- To read a list of identifiers is a run. -/
lemma runs_identList (what : String) : Runs ctx c (identList what) fun _ _ => True := by
  apply (runs_requireIdent what).andThen
  intro first c₁
  apply runs_remaining
  apply (runs_moreIdents (Nat.lt_succ_self _)).andThen
  intro others c₂
  exact .pure True.intro

omit h in
/-- The test for an embedded field only looks. -/
lemma looks_atEmbedded : Looks atEmbedded := by
  apply (looks_peekAt 0).bind
  intro first
  apply (looks_peekAt 1).bind
  intro second
  split
  -- only after a name and an opening bracket there is more to look at
  case h_6 =>
    apply Looks.bind (fun _ _ => rfl)
    intro c
    split
    · exact looks_pure _
    · exact looks_pure _
  all_goals exact looks_pure _

omit h in
/-- To read the tag of a field is a run. -/
lemma runs_fieldTag : Runs ctx c fieldTag fun _ _ => True := by
  apply runs_peek
  split
  · apply runs_take.andThen
    intro span c'
    exact .pure True.intro
  · apply runs_take.andThen
    intro span c'
    exact .pure True.intro
  · exact .pure True.intro

/-- A field of a struct is within the bound. -/
lemma runs_structField : Runs ctx c (structField type) fun f _ => f.outline.typeNesting ≤ n := by
  apply looks_nextSpan.bind_runs
  intro start
  apply looks_docAbove.bind_runs
  intro doc
  apply looks_atEmbedded.bind_runs
  intro embedded
  have hnames : Runs ctx c (if embedded then return [] else identList "field name")
      fun _ _ => True := by
    split
    · exact .pure True.intro
    · exact runs_identList _
  apply hnames.andThen
  intro names c₁
  apply (h ctx c₁).bind
  intro t c₂ _ ht
  apply runs_fieldTag.andThen
  intro tag c₃
  apply looks_commentBeside.bind_runs
  intro comment
  apply runs_node
  intro span
  rw [Field.typeNesting_outline]
  exact ht

omit h in
/-- To read the end of a field is a run. -/
lemma runs_finishField : Runs ctx c finishField fun _ _ => True := by
  apply runs_peek
  split
  · apply runs_take.andThen
    intro _ c'
    exact .pure True.intro
  · exact .pure True.intro
  · exact .pure True.intro
  · apply (runs_complain _).andThen
    intro _ c₁
    apply runs_skipStatement.andThen
    intro _ c₂
    exact .pure True.intro

/-- A field of a struct, with its end, is within the bound. -/
lemma runs_structMember : Runs ctx c (structMember type) fun f _ => f.outline.typeNesting ≤ n := by
  apply (runs_structField h).bind
  intro field c₁ _ hfield
  apply runs_finishField.andThen
  intro _ c₂
  exact .pure hfield

/-- A struct type is one type deeper than the bound. -/
lemma runs_structType : Runs ctx c (structType type) fun t _ => t.outline.typeNesting ≤ n + 1 := by
  apply runs_take.andThen
  intro start c₁
  apply (runs_requireSpan _ _).andThen
  intro lBrace c₂
  apply (runs_membersUpTo fun c => runs_structMember h).bind
  intro fields c₃ _ hfields
  apply (runs_requireSpan _ _).andThen
  intro rBrace c₄
  apply runs_node
  intro span
  show Outline.typeNestings (Field.outlines fields) + 1 ≤ n + 1
  rw [Field.outlines_eq_map]
  exact Nat.succ_le_succ (Outline.typeNestings_map_le hfields)

/-- An element of an interface is within the bound. -/
lemma runs_interfaceElement (hn : 1 ≤ n) : Runs ctx c (interfaceElement type) fun e _ =>
    Outline.typeNestings e.memberOutlines ≤ n := by
  apply runs_peek
  apply runs_peekAt
  split
  · apply (runs_requireIdent _).andThen
    intro name c₁
    apply (runs_signature h hn).bind
    intro s c₂ _ hs
    exact .pure (Nat.max_le.2 ⟨hs, Nat.zero_le n⟩)
  · apply (runs_union h).bind
    intro ts c₁ _ hts
    apply Runs.pure
    show Outline.typeNestings (UnionTerm.outlines ts) ≤ n
    rw [UnionTerm.outlines_eq_map]
    exact Outline.typeNestings_map_le hts

omit h in
/-- To read the end of an element is a run. -/
lemma runs_finishElement : Runs ctx c finishElement fun _ _ => True := by
  apply (looks_atEndOr _).bind_runs
  intro atEnd
  split
  · exact .pure True.intro
  · exact runs_finishStatement

/-- An element of an interface, with its end, is within the bound. -/
lemma runs_interfaceMember (hn : 1 ≤ n) : Runs ctx c (interfaceMember type) fun e _ =>
    Outline.typeNestings e.memberOutlines ≤ n := by
  apply (runs_interfaceElement h hn).bind
  intro e c₁ _ he
  apply runs_finishElement.andThen
  intro _ c₂
  exact .pure he

/-- An interface type is one type deeper than the bound. -/
lemma runs_interfaceType (hn : 1 ≤ n) :
    Runs ctx c (interfaceType type) fun t _ => t.outline.typeNesting ≤ n + 1 := by
  apply runs_take.andThen
  intro start c₁
  apply (runs_requireSpan _ _).andThen
  intro lBrace c₂
  apply (runs_membersUpTo fun c => runs_interfaceMember h hn).bind
  intro elems c₃ _ helems
  apply (runs_requireSpan _ _).andThen
  intro rBrace c₄
  apply runs_node
  intro span
  show Outline.typeNestings (InterfaceMember.outlines elems) + 1 ≤ n + 1
  rw [InterfaceMember.outlines_eq_flatMap]
  exact Nat.succ_le_succ (Outline.typeNestings_flatMap_le helems)

/-! ## Types -/

omit h in
/-- A node with one type below it has one type more within one another. -/
lemma nesting_above {t : TypeExpr} (ht : t.outline.typeNesting ≤ n) :
    Outline.typeNestings [t.outline] + 1 ≤ n + 1 :=
  Nat.succ_le_succ (Nat.max_le.2 ⟨ht, Nat.zero_le n⟩)

/-- A type that begins with a bracket is one type deeper than the bound. -/
lemma runs_bracketType :
    Runs ctx c (bracketType type) fun t _ => t.outline.typeNesting ≤ n + 1 := by
  apply looks_nextSpan.bind_runs
  intro start
  apply runs_peekAt
  split
  · apply runs_take.andThen
    intro _ c₁
    apply runs_take.andThen
    intro _ c₂
    apply (h ctx c₂).bind
    intro elem c₃ _ helem
    apply runs_node
    exact fun span => nesting_above helem
  · apply runs_skipRun.andThen
    intro len c₁
    apply (h ctx c₁).bind
    intro elem c₂ _ helem
    apply runs_node
    exact fun span => nesting_above helem

/-- A map type is one type deeper than the bound. -/
lemma runs_mapType : Runs ctx c (mapType type) fun t _ => t.outline.typeNesting ≤ n + 1 := by
  apply runs_take.andThen
  intro start c₁
  apply (runs_require _ _).andThen
  intro _ c₂
  apply (h ctx c₂).bind
  intro key c₃ _ hkey
  apply (runs_require _ _).andThen
  intro _ c₄
  apply (h ctx c₄).bind
  intro val c₅ _ hval
  apply runs_node
  intro span
  exact Nat.succ_le_succ (Nat.max_le.2 ⟨hkey, Nat.max_le.2 ⟨hval, Nat.zero_le n⟩⟩)

omit h in
/-- To read the direction of a channel is a run. -/
lemma runs_chanDir : Runs ctx c chanDir fun _ _ => True := by
  apply (runs_accept _).andThen
  intro arrow c₁
  cases arrow with
  | none => exact .pure True.intro
  | some span => exact .pure True.intro

/-- A channel type is one type deeper than the bound. -/
lemma runs_chanType : Runs ctx c (chanType type) fun t _ => t.outline.typeNesting ≤ n + 1 := by
  apply runs_take.andThen
  intro start c₁
  apply runs_chanDir.andThen
  intro dir c₂
  apply (h ctx c₂).bind
  intro elem c₃ _ helem
  apply runs_node
  exact fun span => nesting_above helem

/-- A channel type that begins with an arrow is one type deeper than the bound. -/
lemma runs_recvType : Runs ctx c (recvType type) fun t _ => t.outline.typeNesting ≤ n + 1 := by
  apply runs_take.andThen
  intro start c₁
  apply (runs_require _ _).andThen
  intro _ c₂
  apply (h ctx c₂).bind
  intro elem c₃ _ helem
  apply runs_node
  exact fun span => nesting_above helem

/-- One type more than those inside lie within one another. -/
lemma runs_typeBody (hn : 1 ≤ n) :
    Runs ctx c (typeBody type) fun t _ => t.outline.typeNesting ≤ n + 1 := by
  apply runs_peek
  split
  · exact runs_namedType h
  · apply runs_take.andThen
    intro star c₁
    apply (h ctx c₁).bind
    intro elem c₂ _ helem
    apply runs_node
    exact fun span => nesting_above helem
  · exact runs_bracketType h
  · exact runs_mapType h
  · exact runs_chanType h
  · exact runs_recvType h
  · apply runs_take.andThen
    intro start c₁
    apply (runs_signature h hn).bind
    intro s c₂ _ hs
    apply runs_node
    intro span
    exact Nat.succ_le_succ (Nat.max_le.2 ⟨hs, Nat.zero_le n⟩)
  · exact runs_structType h
  · exact runs_interfaceType h hn
  · apply runs_take.andThen
    intro start c₁
    apply (h ctx c₁).bind
    intro inner c₂ _ hinner
    apply (runs_require _ _).andThen
    intro _ c₃
    apply runs_node
    exact fun span => nesting_above hinner
  · apply looks_nextSpan.bind_runs
    intro start
    apply (runs_complain _).andThen
    intro _ c₁
    apply runs_node
    exact fun span => Nat.succ_le_succ (Nat.zero_le n)

end

/-- Where types are nested too deep, one type stands for what is skipped. -/
lemma runs_tooDeep : Runs ctx c tooDeep fun t _ => t.outline.typeNesting ≤ 1 := by
  apply looks_nextSpan.bind_runs
  intro span
  apply (runs_report _ _).andThen
  intro _ c₁
  apply (runs_note _ _).andThen
  intro _ c₂
  exact .pure (Nat.le_refl 1)

/-- Within `n` types there are `n` of them and perhaps a placeholder or a lone name. -/
lemma readsTypes_typeWithin (n : Nat) : ReadsTypes (n + 1) (typeWithin n) := by
  induction n with
  | zero => exact fun ctx c => runs_tooDeep
  | succ n ih => exact fun ctx c => runs_typeBody ih (Nat.succ_pos n)

/-- Reading a type is the reader of one type, applied to itself as often as types may be nested, and
inside that only the report that they are nested too deeply. -/
lemma typeWithin_eq_iterate (n : Nat) : typeWithin n = typeBody^[n] tooDeep := by
  induction n with
  | zero => rfl
  | succ n ih => rw [typeWithin, ih, Function.iterate_succ_apply']

end GoService.Source.Parser
