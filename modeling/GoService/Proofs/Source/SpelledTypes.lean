import GoService.Proofs.Source.SpelledRuns
import GoService.Proofs.Source.TypeRuns

/-!
# Types as their tokens spell them

A type that is read without a report is spelled by the tokens that were read for it, if the types
inside it are (`SpellsTypes`), and so the knot is tied by one induction (`spellsTypes_typeWithin`).
Parameters are settled at the end of their list: names that waited for a type become parts of the
field of that type, which begins with the first of them (`inRows_attachNames`).
-/

namespace GoService.Source.Parser

variable {ctx : Context} {tokens : List Placed} {c : Cursor} {K : Prop} {type : Parser TypeExpr}

/-- A reader of types that gives what the tokens spell. -/
def SpellsTypes (ctx : Context) (tokens : List Placed) (type : Parser TypeExpr) : Prop :=
  ∀ c, CleanRun ctx tokens True c type fun t c' => c.Yields Spells c' [t.spanTree]

/-! ## Parameters -/

/-- A row of tokens spells a field. -/
abbrev SpellsField (row : List Placed) (f : Field) : Prop :=
  Spells row f.spanTree

/-- The parts of an entry of a parameter list. -/
def ParamEntry.parts (e : ParamEntry) : List SpanTree :=
  e.names.map Ident.spanTree ++ SpanTree.token? (.mark .ellipsis) e.ellipsis ++
    (e.type.map TypeExpr.spanTree).toList

/-- A row of tokens stands for an entry; an entry without a type is a single name. -/
structure StandsForEntry (row : List Placed) (e : ParamEntry) : Prop where
  covers : Covers row e.span
  parts : InRows Spells row e.parts
  lone : e.type = none → ∃ name, e.names = [name] ∧ e.ellipsis = none ∧ name.span = e.span

/-- The entry that a name by itself is. -/
lemma standsForEntry_name {row : List Placed} {name : Ident} (h : SpellsIdent row name) :
    StandsForEntry row ⟨[name], none, none, name.span⟩ :=
  ⟨h.covers, .single h, fun _ => ⟨name, rfl, rfl, rfl⟩⟩

/-- The name in an entry without a type is spelled by a part of its row. -/
lemma StandsForEntry.names {row : List Placed} {e : ParamEntry} (h : StandsForEntry row e)
    (hnone : e.type = none) : InRows SpellsIdent row e.names := by
  obtain ⟨name, hnames, hellipsis, -⟩ := h.lone hnone
  have hparts := h.parts
  rw [ParamEntry.parts, hnone, hellipsis, SpanTree.token?, List.append_assoc] at hparts
  rw [hnames] at hparts ⊢
  exact InRows.of_map (f := Ident.spanTree) hparts

/-- A typed entry takes the names that wait, and the tokens from the first of them on. -/
lemma StandsForEntry.attach {waiting : List Ident} {name : Ident} {row rest row' : List Placed}
    {e : ParamEntry} {t : TypeExpr} (h : StandsForEntry row' e) (ht : e.type = some t)
    (hname : SpellsIdent row name) (hwaiting : InRows SpellsIdent rest waiting) :
    StandsForEntry (row ++ (rest ++ row'))
      ⟨name :: waiting ++ e.names, e.ellipsis, some t, ⟨name.span.start, e.span.stop⟩⟩ := by
  have hnames : InRows Spells (row ++ rest) ((name :: waiting).map Ident.spanTree) :=
    ((InRows.single hname).append hwaiting).map fun _ _ h => h
  refine ⟨?_, ?_, nofun⟩
  · have hcovers := hname.covers
    obtain ⟨p, others, rfl⟩ := List.exists_cons_of_ne_nil hcovers.ne_nil
    refine ⟨hcovers.start, ?_⟩
    rw [← List.append_assoc, List.getLast?_append_of_ne_nil _ h.covers.ne_nil]
    exact h.covers.stop
  · have hparts := hnames.append h.parts
    rw [ParamEntry.parts, ht, List.append_assoc, List.append_assoc] at hparts
    rw [ParamEntry.parts, List.map_append, List.append_assoc, List.append_assoc]
    exact hparts

/-- Names that wait for their type are spelled along with it. -/
lemma inRows_attachNames {waiting : List Ident} {from_ : Option Nat} {row row' : List Placed}
    {es : List ParamEntry} (hwaiting : InRows SpellsIdent row waiting)
    (hfrom : from_ = waiting.head?.map (·.span.start)) (h : InRows StandsForEntry row' es) :
    InRows StandsForEntry (row ++ row') (attachNames waiting from_ es) := by
  induction h generalizing waiting from_ row with
  | nil row' =>
    have hnames : InRows StandsForEntry row (attachNames waiting from_ []) :=
      hwaiting.map fun _ _ hname => standsForEntry_name hname
    exact hnames.behind row'
  | @cons row₁ e rest es gap he hes ih =>
    rw [attachNames]
    split
    · next t ht =>
      -- the entry takes all names that wait, so behind it none does
      have hrest := ih (.nil []) rfl
      subst hfrom
      cases hwaiting with
      | nil =>
        rw [← List.append_assoc]
        refine .cons _ ⟨he.covers, ?_, fun hnone => ?_⟩ hrest
        case refine_2 => cases hnone
        have hparts := he.parts
        rwa [ParamEntry.parts, ht] at hparts
      | @cons row₂ name rest₂ names gap₂ hname hnames =>
        have hrow : gap₂ ++ (row₂ ++ rest₂) ++ (gap ++ (row₁ ++ rest)) =
            gap₂ ++ (row₂ ++ (rest₂ ++ gap ++ row₁) ++ rest) := by
          simp only [List.append_assoc]
        rw [hrow]
        exact .cons gap₂ (he.attach ht hname (hnames.behind gap)) hrest
    · next hnone =>
      -- the name waits with those before it, and the first of all stays the first
      have hrow : row ++ (gap ++ (row₁ ++ rest)) = row ++ (gap ++ row₁) ++ rest := by
        simp only [List.append_assoc]
      rw [hrow]
      refine ih (hwaiting.append (.before gap (he.names hnone))) ?_
      obtain ⟨name, hnames, -, hspan⟩ := he.lone hnone
      cases waiting with
      | nil =>
        rw [hnames, ← hspan]
        rfl
      | cons => exact hfrom

/-- Settling which identifiers are names leaves every entry to the tokens that stand for it. -/
lemma inRows_groupParams {row : List Placed} {es : List ParamEntry}
    (h : InRows StandsForEntry row es) : InRows StandsForEntry row (groupParams es) := by
  rw [groupParams]
  split
  · exact inRows_attachNames (.nil []) rfl h
  · exact h

/-- A settled entry is spelled as the field that it stands for. -/
lemma runs_paramField_spelled (e : ParamEntry) : Runs ctx c (paramField e)
    fun o _ => ∀ row, StandsForEntry row e → InRows SpellsField row o.toList := by
  have hfield {names : List Ident} {type : TypeExpr} {span : Span} {c : Cursor}
      (h : ∀ row, StandsForEntry row e →
        SpellsField row ⟨span, names, e.ellipsis, type, none, false, none, none⟩) :
      Runs ctx c (do
        note .field span
        return some ⟨span, names, e.ellipsis, type, none, false, none, none⟩)
        fun o _ => ∀ row, StandsForEntry row e → InRows SpellsField row o.toList := by
    apply (runs_note _ _).andThen
    intro _ c'
    exact .pure fun row he => .single (h row he)
  rw [paramField]
  dsimp only
  split
  · next type htype =>
    apply hfield
    intro row he
    have hparts := he.parts
    rw [ParamEntry.parts, htype] at hparts
    exact .node he.covers hparts
  · next name others htype hnames =>
    -- no entry of the list has a name, so the lone identifier is the type
    have hname : Runs ctx c (nameAsType name) fun t _ => t = .named name.span none name [] := by
      apply (runs_note _ _).andThen
      intro _ c'
      exact .pure rfl
    apply hname.bind
    intro t c' _ ht
    subst ht
    apply hfield
    intro row he
    obtain ⟨name', hnames', hellipsis, hspan⟩ := he.lone htype
    rw [hnames] at hnames'
    cases hnames'
    have hspelled := he.names htype
    rw [hnames] at hspelled
    have hcovers : Covers row name.span := hspan ▸ he.covers
    rw [hellipsis]
    exact .node hcovers (.single (.node hcovers (hspelled.map fun _ _ h => h)))
  · exact .pure fun row _ => .nil row

/-- The fields that are made of entries are spelled by the tokens of the entries. -/
lemma runs_paramFields_spelled (es : List ParamEntry) : Runs ctx c (paramFields es)
    fun fs _ => ∀ row, InRows StandsForEntry row es → InRows SpellsField row fs := by
  induction es generalizing c with
  | nil => exact .pure fun row _ => .nil row
  | cons e es ih =>
    apply (runs_paramField_spelled e).bind
    intro o c₁ _ ho
    apply ih.bind
    intro fs c₂ _ hfs
    apply Runs.pure
    intro row h
    cases h with
    | cons gap he hes => exact .before gap ((ho _ he).append (hfs _ hes))

/-- What an entry is made of, and the tokens from its first to its last one. -/
lemma yields_entry {e : ParamEntry} {c' : Cursor} {t : TypeExpr} (ht : e.type = some t)
    (h : c.Yields Spells c' [.node e.span e.parts]) : c.Yields StandsForEntry c' [e] := by
  refine h.settle fun row _ hrow => ?_
  cases hrow with
  | cons gap hnode _ =>
    cases hnode with
    | node hcovers hparts =>
      have hlone : e.type = none → ∃ name, e.names = [name] ∧ e.ellipsis = none ∧
          name.span = e.span := fun hnone => nomatch ht ▸ hnone
      exact .cons gap ⟨hcovers, hparts, hlone⟩ (.nil _)

section

variable (h : SpellsTypes ctx tokens type)
include h

/-- A type that a reader of types gives is spelled by its tokens. -/
lemma SpellsTypes.cleanRun :
    CleanRun ctx tokens K c type fun t c' => c.Yields Spells c' [t.spanTree] :=
  (h c).assume fun _ => True.intro

/-- An entry of a list of parameters stands for its tokens. -/
lemma spells_paramEntry :
    CleanRun ctx tokens K c (paramEntry type) fun e c' => c.Yields StandsForEntry c' [e] := by
  apply cleanRun_startsAt
  intro start hstart
  -- an entry ends with its type
  have htyped (names : List Ident) (dots : Option Span) {c₁ : Cursor}
      (hread : c.Yields Spells c₁
        (names.map Ident.spanTree ++ SpanTree.token? (.mark .ellipsis) dots)) :
      CleanRun ctx tokens K c₁ (do
        let t ← type
        return (⟨names, dots, some t, ← spanSince start⟩ : ParamEntry))
        fun e c' => c.Yields StandsForEntry c' [e] := by
    apply h.cleanRun.bind
    intro t c₂ _
    refine fun _ => ⟨.refl, fun _ hK => ?_⟩
    have hparts := hread.trans hK.2
    exact yields_entry rfl (hparts.node (List.append_ne_nil_of_right_ne_nil _ nofun) hstart)
  apply cleanRun_peek
  apply cleanRun_peekAt
  split
  · next hdots =>
    apply cleanRun_takes hdots
    intro p c₁ h₁ hp
    exact htyped [] _ (h₁.token hp nofun)
  · next word next hword hnext =>
    split
    · apply cleanRun_ident hword
      intro p c₁ h₁ hp
      refine fun _ => ⟨.refl, fun _ _ => h₁.yields fun horder => ?_⟩
      have hcovers := h₁.steps.covers hstart horder h₁.rest (List.cons_ne_nil _ _)
      have hname := standsForEntry_name (spellsIdent hp)
      rwa [(Covers.single p).unique hcovers] at hname ⊢
    · split
      · next hdots =>
        apply cleanRun_ident hword
        intro p c₁ h₁ hp
        have hahead : c₁.ahead 0 = some next := (Cursor.ahead_of_read h₁.rest 0).trans hnext
        apply cleanRun_takes hahead
        intro p' c₂ h₂ hp'
        exact htyped _ _ ((h₁.ident hp).idents.trans (h₂.token (hp'.trans hdots) nofun))
      · split
        · apply cleanRun_ident hword
          intro p c₁ h₁ hp
          exact htyped _ none (h₁.ident hp).idents
        · exact htyped [] none .refl
  · exact htyped [] none .refl

/-- An entry of a list of parameters, or what is passed over, stands for its tokens. -/
lemma spells_paramEntryOrSkip : CleanRun ctx tokens K c (paramEntryOrSkip type)
    fun e c' => c.Yields StandsForEntry c' [e] := by
  apply cleanRun_position
  apply (spells_paramEntry h).bind
  intro entry c₁ _
  apply CleanRun.after (runs_complainIfStuck _ _)
  intro _ c₂ h₂ _
  apply CleanRun.after (runs_skipIfStuck _)
  intro _ c₃ h₃ _
  exact CleanRun.pure fun hK => hK.2.andSteps (h₂.trans h₃)

/-- A list of parameters is spelled by its tokens. -/
lemma spells_params :
    CleanRun ctx tokens K c (params type) fun l c' => c.Yields Spells c' l.spanTrees := by
  apply (cleanRun_requireSpan (t := .mark .lParen) nofun).bind
  intro opening c₁ _
  apply (yields_separatedBy (looks_atEndOr _) fun c => spells_paramEntryOrSkip h).bind
  intro entries c₂ _
  apply (cleanRun_requireSpan (t := .mark .rParen) nofun).bind
  intro closing c₃ _
  apply CleanRun.after (runs_paramFields_spelled _)
  intro fields c₄ h₄ hfields
  apply CleanRun.pure
  intro hK
  obtain ⟨⟨⟨-, hopening⟩, hentries, -⟩, hclosing⟩ := hK
  have hsettled : c₁.Yields SpellsField c₂ fields :=
    hentries.settle fun row _ hrow => hfields row (inRows_groupParams hrow)
  rw [FieldList.spanTrees, Field.spanTrees_eq]
  exact hopening.trans ((hsettled.trees Field.spanTree).trans (hclosing.andSteps h₄))

/-- Results are spelled by their tokens. -/
lemma spells_results : CleanRun ctx tokens K c (results type)
    fun o c' => c.Yields Spells c' ((o.map ResultList.spanTrees).getD []) := by
  apply (looks_nextIs _).cleanRun
  intro isList
  split
  · apply (spells_params h).bind
    intro l c' _
    exact CleanRun.pure And.right
  · apply (looks_nextIs _).cleanRun
    intro isType
    split
    · apply h.cleanRun.bind
      intro t c' _
      exact CleanRun.pure And.right
    · exact CleanRun.pure fun _ => .refl

/-- A signature is spelled by its tokens. -/
lemma spells_signature :
    CleanRun ctx tokens K c (signature type) fun s c' => c.Yields Spells c' [s.spanTree] := by
  apply cleanRun_startsAt
  intro start hstart
  apply (spells_params h).bind
  intro ps c₁ _
  apply (spells_results h).bind
  intro rs c₂ _
  apply cleanRun_node
  intro hK c₃ h₃
  obtain ⟨⟨-, hps⟩, hrs⟩ := hK
  have hparts := hps.trans (hrs.andSteps h₃)
  have hne := List.append_ne_nil_of_left_ne_nil ps.spanTrees_ne_nil
    ((rs.map ResultList.spanTrees).getD [])
  have hnode := hparts.node hne hstart
  cases rs with
  | none => rwa [Option.map_none, Option.getD_none, List.append_nil] at hnode
  | some rs => exact hnode

/-! ## Named types and unions -/

omit h in
/-- A name that may be qualified is spelled by its tokens. -/
lemma spells_qualifiedName : CleanRun ctx tokens K c qualifiedName fun r c' =>
    c.Yields Spells c' ((r.1.map Ident.spanTree).toList ++ [r.2.spanTree]) := by
  apply cleanRun_requireIdent.bind
  intro first c₁ _
  apply cleanRun_accepts
  · intro p c₂ h₂ _
    apply cleanRun_requireIdent.bind
    intro name c₃ _
    apply CleanRun.pure
    intro hK
    obtain ⟨⟨-, hfirst⟩, hname⟩ := hK
    exact (hfirst.idents.andSteps h₂.steps).trans hname.idents
  · exact CleanRun.pure fun hK => hK.2.idents

/-- Type arguments are spelled by their tokens. -/
lemma spells_typeArgs : CleanRun ctx tokens K c (typeArgs type)
    fun ts c' => c.Yields Spells c' (ts.map TypeExpr.spanTree) := by
  apply cleanRun_accepts
  · intro p c₁ h₁ _
    have hitem (c : Cursor) : CleanRun ctx tokens True c type
        fun t c' => c.Yields (fun row (t : TypeExpr) => Spells row t.spanTree) c' [t] :=
      (h c).mono fun t c' _ ht => ht.of_tree TypeExpr.spanTree
    apply (yields_separatedBy (looks_atEndOr _) hitem).bind
    intro ts c₂ _
    apply CleanRun.after (runs_require _ _)
    intro _ c₃ h₃ _
    apply CleanRun.pure
    intro hK
    obtain ⟨-, hts, -⟩ := hK
    exact .afterSteps h₁.steps ((hts.trees TypeExpr.spanTree).andSteps h₃)
  · exact CleanRun.pure fun _ => .refl

/-- A type with a name is spelled by its tokens. -/
lemma spells_namedType :
    CleanRun ctx tokens K c (namedType type) fun t c' => c.Yields Spells c' [t.spanTree] := by
  apply cleanRun_startsAt
  intro start hstart
  apply spells_qualifiedName.bind
  intro r c₁ _
  obtain ⟨pkg, name⟩ := r
  apply (spells_typeArgs h).bind
  intro args c₂ _
  apply cleanRun_node
  intro hK c₃ h₃
  obtain ⟨⟨-, hname⟩, hargs⟩ := hK
  have hparts := hname.trans (hargs.andSteps h₃)
  rw [List.append_assoc] at hparts
  rw [TypeExpr.spanTree, TypeExpr.spanTrees_eq]
  exact hparts.node (List.append_ne_nil_of_right_ne_nil _ (List.cons_ne_nil _ _)) hstart

/-- A row of tokens spells a term of a union. -/
abbrev SpellsTerm (row : List Placed) (t : UnionTerm) : Prop :=
  InRows Spells row t.spanTrees

/-- A term of a union is spelled by its tokens. -/
lemma spells_unionTerm :
    CleanRun ctx tokens K c (unionTerm type) fun t c' => c.Yields SpellsTerm c' [t] := by
  have hterm {tilde : Option Span} {c₁ : Cursor}
      (hread : c.Yields Spells c₁ (SpanTree.token? (.mark .tilde) tilde)) :
      CleanRun ctx tokens K c₁ (do return (⟨tilde, ← type⟩ : UnionTerm))
        fun t c' => c.Yields SpellsTerm c' [t] := by
    apply h.cleanRun.bind
    intro t c₂ _
    exact CleanRun.pure fun hK => (hread.trans hK.2).of_parts UnionTerm.spanTrees
  apply cleanRun_accepts
  · intro p c₁ h₁ hp
    exact hterm (h₁.token hp nofun)
  · exact hterm .refl

/-- A union is spelled by its tokens. -/
lemma spells_union : CleanRun ctx tokens K c (union type)
    fun ts c' => c.Yields Spells c' (UnionTerm.spanTreesOf ts) ∧ UnionTerm.spanTreesOf ts ≠ [] := by
  apply (yields_separatedBy (looks_pure false) fun c => spells_unionTerm h).mono
  intro ts c' _ hread
  obtain ⟨hts, hne⟩ := hread
  exact ⟨UnionTerm.spanTreesOf_eq ts ▸ hts.parts UnionTerm.spanTrees,
    UnionTerm.spanTreesOf_ne_nil (hne rfl)⟩

/-! ## Structs and interfaces -/

omit h in
/-- More identifiers are spelled by their tokens, for any bound. -/
lemma spells_moreIdents {what : String} {fuel : Nat} (hfuel : c.rest.length < fuel) :
    CleanRun ctx tokens K c (moreIdents what fuel)
      fun names c' => c.Yields SpellsIdent c' names := by
  induction fuel generalizing c K with
  | zero => exact absurd hfuel (Nat.not_lt_zero _)
  | succ fuel ih =>
    apply cleanRun_peek
    apply cleanRun_peekAt
    split
    · next word hcomma hword =>
      apply cleanRun_takes hcomma
      intro p c₁ h₁ _
      apply cleanRun_ident ((Cursor.ahead_of_read h₁.rest 0).trans hword)
      intro p' c₂ h₂ hp'
      have hlt := Cursor.length_lt h₁.rest
      have hlt' := Cursor.length_lt h₂.rest
      apply CleanRun.bind (ih (c := c₂) (by omega))
      intro names c₃ _
      exact CleanRun.pure fun hK => .afterSteps h₁.steps ((h₂.ident hp').trans hK.2)
    · exact CleanRun.pure fun _ => .refl

omit h in
/-- A list of identifiers is spelled by its tokens. -/
lemma spells_identList (what : String) :
    CleanRun ctx tokens K c (identList what) fun names c' => c.Yields SpellsIdent c' names := by
  apply cleanRun_requireIdent.bind
  intro first c₁ _
  apply cleanRun_remaining
  apply (spells_moreIdents (Nat.lt_succ_self _)).bind
  intro names c₂ _
  exact CleanRun.pure fun hK => hK.1.2.trans hK.2

omit h in
/-- The tag of a field is spelled by its token. -/
lemma spells_fieldTag : CleanRun ctx tokens K c fieldTag
    fun o c' => c.Yields Spells c' (o.map StringLiteral.spanTree).toList := by
  apply cleanRun_peek
  split
  · next ht =>
    apply cleanRun_takes ht
    intro p c₁ h₁ hp
    exact CleanRun.pure fun _ => h₁.literal (.inl hp)
  · next ht =>
    apply cleanRun_takes ht
    intro p c₁ h₁ hp
    exact CleanRun.pure fun _ => h₁.literal (.inr hp)
  · exact CleanRun.pure fun _ => .refl

/-- A field of a struct is spelled by its tokens. -/
lemma spells_structField :
    CleanRun ctx tokens K c (structField type) fun f c' => c.Yields SpellsField c' [f] := by
  apply cleanRun_startsAt
  intro start hstart
  apply looks_docAbove.cleanRun
  intro doc
  apply looks_atEmbedded.cleanRun
  intro embedded
  have hnames : CleanRun ctx tokens K c (if embedded then return [] else identList "field name")
      fun names c' => c.Yields SpellsIdent c' names := by
    split
    · exact CleanRun.pure fun _ => .refl
    · exact spells_identList _
  apply hnames.bind
  intro names c₁ _
  apply h.cleanRun.bind
  intro t c₂ _
  apply spells_fieldTag.bind
  intro tag c₃ _
  apply looks_commentBeside.cleanRun
  intro comment
  apply cleanRun_node
  intro hK c₄ h₄
  obtain ⟨⟨⟨-, hnames⟩, ht⟩, htag⟩ := hK
  have hparts := (hnames.idents.trans .refl).trans (ht.trans (htag.andSteps h₄))
  have hne := List.append_ne_nil_of_right_ne_nil (names.map Ident.spanTree ++ [])
    (List.cons_ne_nil t.spanTree (tag.map StringLiteral.spanTree).toList)
  exact (hparts.node hne hstart).of_tree Field.spanTree

/-- A field of a struct, with its end, is spelled by its tokens. -/
lemma spells_structMember :
    CleanRun ctx tokens K c (structMember type) fun f c' => c.Yields SpellsField c' [f] := by
  apply (spells_structField h).bind
  intro field c₁ _
  apply CleanRun.after runs_finishField
  intro _ c₂ h₂ _
  exact CleanRun.pure fun hK => hK.2.andSteps h₂

/-- A struct type is spelled by its tokens. -/
lemma spells_structType (hstruct : c.ahead 0 = some (.keyword .structKw)) :
    CleanRun ctx tokens K c (structType type) fun t c' => c.Yields Spells c' [t.spanTree] := by
  apply cleanRun_takes hstruct
  intro p c₁ h₁ _
  apply (cleanRun_requireSpan (t := .mark .lBrace) nofun).bind
  intro lBrace c₂ _
  apply (yields_membersUpTo fun c => spells_structMember h).bind
  intro fields c₃ _
  apply (cleanRun_requireSpan (t := .mark .rBrace) nofun).bind
  intro rBrace c₄ _
  apply cleanRun_node
  intro hK c₅ h₅
  obtain ⟨⟨⟨-, hopening⟩, hfields⟩, hclosing⟩ := hK
  have hparts := hopening.trans ((hfields.trees Field.spanTree).trans (hclosing.andSteps h₅))
  rw [← Field.spanTrees_eq] at hparts
  exact (Cursor.Yields.afterSteps h₁.steps hparts).node (List.cons_ne_nil _ _) h₁.startsAt

/-- A row of tokens spells a member of an interface. -/
abbrev SpellsMember (row : List Placed) (e : InterfaceMember) : Prop :=
  InRows Spells row e.spanTrees

/-- An element of an interface is spelled by its tokens. -/
lemma spells_interfaceElement :
    CleanRun ctx tokens K c (interfaceElement type) fun e c' => c.Yields SpellsMember c' [e] := by
  apply cleanRun_peek
  apply cleanRun_peekAt
  split
  · next word hword _ =>
    apply cleanRun_ident hword
    intro p c₁ h₁ hp
    apply (spells_signature h).bind
    intro s c₂ _
    apply CleanRun.pure
    intro hK
    exact ((h₁.ident hp).idents.trans hK.2).of_parts InterfaceMember.spanTrees
  · apply (spells_union h).bind
    intro ts c₁ _
    exact CleanRun.pure fun hK => hK.2.1.of_parts InterfaceMember.spanTrees

/-- An element of an interface, with its end, is spelled by its tokens. -/
lemma spells_interfaceMember :
    CleanRun ctx tokens K c (interfaceMember type) fun e c' => c.Yields SpellsMember c' [e] := by
  apply (spells_interfaceElement h).bind
  intro e c₁ _
  apply CleanRun.after runs_finishElement
  intro _ c₂ h₂ _
  exact CleanRun.pure fun hK => hK.2.andSteps h₂

/-- An interface type is spelled by its tokens. -/
lemma spells_interfaceType (hinterface : c.ahead 0 = some (.keyword .interfaceKw)) :
    CleanRun ctx tokens K c (interfaceType type) fun t c' => c.Yields Spells c' [t.spanTree] := by
  apply cleanRun_takes hinterface
  intro p c₁ h₁ _
  apply (cleanRun_requireSpan (t := .mark .lBrace) nofun).bind
  intro lBrace c₂ _
  apply (yields_membersUpTo fun c => spells_interfaceMember h).bind
  intro elems c₃ _
  apply (cleanRun_requireSpan (t := .mark .rBrace) nofun).bind
  intro rBrace c₄ _
  apply cleanRun_node
  intro hK c₅ h₅
  obtain ⟨⟨⟨-, hopening⟩, helems⟩, hclosing⟩ := hK
  have hparts := hopening.trans
    ((helems.parts InterfaceMember.spanTrees).trans (hclosing.andSteps h₅))
  rw [← InterfaceMember.spanTreesOf_eq] at hparts
  exact (Cursor.Yields.afterSteps h₁.steps hparts).node (List.cons_ne_nil _ _) h₁.startsAt

/-! ## Types -/

/-- What is left of a type that ends with its element: the tokens before it are skipped. -/
lemma spells_elem {start : Span} {c₀ : Cursor} {build : Span → TypeExpr → TypeExpr}
    (hstart : c₀.StartsAt start) (hsteps : c₀.Steps c)
    (hbuild : ∀ span elem, (build span elem).spanTree = .node span [elem.spanTree]) :
    CleanRun ctx tokens K c (do
      let elem ← type
      return build (← noteSince .type start) elem)
      fun t c' => c₀.Yields Spells c' [t.spanTree] := by
  apply h.cleanRun.bind
  intro elem c₁ _
  apply cleanRun_node
  intro hK c₂ h₂
  rw [hbuild]
  exact (Cursor.Yields.afterSteps hsteps (hK.2.andSteps h₂)).node (List.cons_ne_nil _ _) hstart

/-- A type that begins with a bracket is spelled by its tokens. -/
lemma spells_bracketType (hbracket : c.ahead 0 = some (.mark .lBrack)) :
    CleanRun ctx tokens K c (bracketType type) fun t c' => c.Yields Spells c' [t.spanTree] := by
  apply cleanRun_startsAt
  intro start hstart
  apply cleanRun_peekAt
  split
  · next hclosing =>
    apply cleanRun_takes hbracket
    intro p c₁ h₁ _
    apply cleanRun_takes ((Cursor.ahead_of_read h₁.rest 0).trans hclosing)
    intro p' c₂ h₂ _
    exact spells_elem h hstart (h₁.steps.trans h₂.steps) fun _ _ => rfl
  · apply (cleanRun_skipRun hbracket rfl).bind
    intro len c₁ _
    apply h.cleanRun.bind
    intro elem c₂ _
    apply cleanRun_node
    intro hK c₃ h₃
    exact (hK.1.2.trans (hK.2.andSteps h₃)).node (List.cons_ne_nil _ _) hstart

/-- A map type is spelled by its tokens. -/
lemma spells_mapType (hmap : c.ahead 0 = some (.keyword .mapKw)) :
    CleanRun ctx tokens K c (mapType type) fun t c' => c.Yields Spells c' [t.spanTree] := by
  apply cleanRun_takes hmap
  intro p c₁ h₁ _
  apply CleanRun.after (runs_require _ _)
  intro _ c₂ h₂ _
  apply h.cleanRun.bind
  intro key c₃ _
  apply CleanRun.after (runs_require _ _)
  intro _ c₄ h₄ _
  apply h.cleanRun.bind
  intro val c₅ _
  apply cleanRun_node
  intro hK c₆ h₆
  obtain ⟨⟨-, hkey⟩, hval⟩ := hK
  have hparts := (hkey.andSteps h₄).trans (hval.andSteps h₆)
  exact (Cursor.Yields.afterSteps (h₁.steps.trans h₂) hparts).node (List.cons_ne_nil _ _)
    h₁.startsAt

/-- A channel type is spelled by its tokens. -/
lemma spells_chanType (hchan : c.ahead 0 = some (.keyword .chanKw)) :
    CleanRun ctx tokens K c (chanType type) fun t c' => c.Yields Spells c' [t.spanTree] := by
  apply cleanRun_takes hchan
  intro p c₁ h₁ _
  apply CleanRun.after runs_chanDir
  intro dir c₂ h₂ _
  exact spells_elem h h₁.startsAt (h₁.steps.trans h₂) fun _ _ => rfl

/-- A channel type that begins with an arrow is spelled by its tokens. -/
lemma spells_recvType (harrow : c.ahead 0 = some (.mark .arrow)) :
    CleanRun ctx tokens K c (recvType type) fun t c' => c.Yields Spells c' [t.spanTree] := by
  apply cleanRun_takes harrow
  intro p c₁ h₁ _
  apply CleanRun.after (runs_require _ _)
  intro _ c₂ h₂ _
  exact spells_elem h h₁.startsAt (h₁.steps.trans h₂) fun _ _ => rfl

/-- The body of a type is spelled by its tokens if the types within are. -/
lemma spellsTypes_typeBody : SpellsTypes ctx tokens (typeBody type) := by
  intro c
  apply cleanRun_peek
  split
  · exact spells_namedType h
  · next hstar =>
    apply cleanRun_takes hstar
    intro p c₁ h₁ hp
    apply h.cleanRun.bind
    intro elem c₂ _
    apply cleanRun_node
    intro hK c₃ h₃
    exact ((h₁.token hp nofun).trans (hK.2.andSteps h₃)).node (List.cons_ne_nil _ _) h₁.startsAt
  · next hbracket => exact spells_bracketType h hbracket
  · next hmap => exact spells_mapType h hmap
  · next hchan => exact spells_chanType h hchan
  · next harrow => exact spells_recvType h harrow
  · next hfunc =>
    apply cleanRun_takes hfunc
    intro p c₁ h₁ _
    apply (spells_signature h).bind
    intro s c₂ _
    apply cleanRun_node
    intro hK c₃ h₃
    exact (Cursor.Yields.afterSteps h₁.steps (hK.2.andSteps h₃)).node (List.cons_ne_nil _ _)
      h₁.startsAt
  · next hstruct => exact spells_structType h hstruct
  · next hinterface => exact spells_interfaceType h hinterface
  · next hparen =>
    apply cleanRun_takes hparen
    intro p c₁ h₁ _
    apply h.cleanRun.bind
    intro inner c₂ _
    apply CleanRun.after (runs_require _ _)
    intro _ c₃ h₃ _
    apply cleanRun_node
    intro hK c₄ h₄
    exact (Cursor.Yields.afterSteps h₁.steps (hK.2.andSteps (h₃.trans h₄))).node
      (List.cons_ne_nil _ _) h₁.startsAt
  · apply looks_nextSpan.cleanRun
    intro start
    apply (cleanRun_complain _).never
    intro _ c₁
    exact runs_node fun _ => True.intro

end

/-- A type that is nested too deeply is reported. -/
lemma spellsTypes_tooDeep : SpellsTypes ctx tokens tooDeep := by
  intro c
  apply looks_nextSpan.cleanRun
  intro span
  apply (cleanRun_report _ _).never
  intro _ c₁
  apply (runs_note _ _).andThen
  intro _ c₂
  exact .pure True.intro

/-- However deep types may be nested, one that is read without a report is what the tokens spell. -/
lemma spellsTypes_typeWithin (n : Nat) : SpellsTypes ctx tokens (typeWithin n) := by
  induction n with
  | zero => exact spellsTypes_tooDeep
  | succ n ih => exact spellsTypes_typeBody ih

end GoService.Source.Parser
