import GoService.Proofs.Lists
import GoService.Proofs.Source.Readings
import GoService.Proofs.Source.TypeRuns
import GoService.Proofs.Source.Writing

/-!
# Reading parameters

The entries of a parameter list are read one after another, before it is known which of them are
names (`reads_paramEntry`); an entry of several names is read as several entries
(`ParamEntry.pieces`), which are put together again once the list is complete
(`bare_groupParams`). So the list that was written comes back, if either each parameter has a name
or none has.
-/

namespace GoService.Source.Parser

variable {ctx : Context} {lengths : Span → List Token} {c : Cursor} {t : Token}
  {after ts : List Token} {type : Parser TypeExpr}

/-! ## What a reader of types does -/

/-- Nothing that could go on with a type: no token that begins one, and no dot. -/
def EndsType (after : List Token) : Prop :=
  ∀ t ∈ after.head?, beginsType t = false ∧ t ≠ .mark .dot

/-- Nothing goes on with a type where the next token does not. -/
lemma endsType_of_head? (ht : after.head? = some t) (h : beginsType t = false)
    (hdot : t ≠ .mark .dot) : EndsType after := by
  intro u hu
  cases ht.symm.trans hu
  exact ⟨h, hdot⟩

/-- Nothing goes on with a type at a token that does not. -/
lemma endsType_cons (h : beginsType t = false) (hdot : t ≠ .mark .dot) : EndsType (t :: ts) :=
  endsType_of_head? rfl h hdot

/-- Where nothing goes on with a type, no token that does comes next. -/
lemma EndsType.head?_ne (h : EndsType after) (ht : beginsType t = true ∨ t = .mark .dot) :
    after.head? ≠ some t := by
  intro hhead
  obtain ⟨hbegins, hdot⟩ := h t hhead
  rcases ht with ht | ht
  · rw [hbegins] at ht
    cases ht
  · exact hdot ht

/-- The reader reads the tokens of the type, whatever ends it. -/
structure ReadsType (ctx : Context) (lengths : Span → List Token) (type : Parser TypeExpr)
    (T : TypeExpr) : Prop where
  first : ∃ t ts, T.tokens lengths = t :: ts ∧ beginsType t = true
  reads : ∀ c after, c.tokens = T.tokens lengths ++ after → EndsType after →
    Reads ctx c type after fun t => t.bare = T.bare

/-! ## Entries -/

namespace ParamEntry

/-- The entry without the places of its parts. -/
def bare (e : ParamEntry) : ParamEntry :=
  ⟨e.names.map Ident.bare, e.ellipsis.map fun _ => default, e.type.map TypeExpr.bare, default⟩

/-- The tokens of an entry. -/
def tokens (lengths : Span → List Token) (e : ParamEntry) : List Token :=
  nameTokens e.names ++ ((e.ellipsis.map fun _ => Token.mark .ellipsis).toList ++
    (e.type.map (TypeExpr.tokens lengths)).getD [])

/-- An entry that is read as it is written. A local name without dots before it is an entry without
a type, and with type arguments it is none at all. -/
inductive Readable : ParamEntry → Prop
  | lone (name : Ident) (span : Span) : Readable ⟨[name], none, none, span⟩
  | named (name : Ident) (dots : Option Span) (T : TypeExpr) (span : Span) :
      Readable ⟨[name], dots, some T, span⟩
  | variadic (dots : Span) (T : TypeExpr) (span : Span) : Readable ⟨[], some dots, some T, span⟩
  | unnamed (T : TypeExpr) (span : Span) (h : ∀ s name args, T ≠ .named s none name args) :
      Readable ⟨[], none, some T, span⟩

end ParamEntry

section

variable {e : ParamEntry}

/-- An entry ends with its type. -/
lemma reads_entryType {T : TypeExpr} (hT : ReadsType ctx lengths type T) (hafter : EndsType after)
    {names names' : List Ident} {dots dots' : Option Span} {start span : Span}
    (h : c.tokens = T.tokens lengths ++ after)
    (hnames : names.map Ident.bare = names'.map Ident.bare)
    (hdots : dots.map (fun _ => (default : Span)) = dots'.map fun _ => default) :
    Reads ctx c (do
      let t ← type
      return (⟨names, dots, some t, ← spanSince start⟩ : ParamEntry)) after
      fun e' => e'.bare = ParamEntry.bare ⟨names', dots', some T, span⟩ := by
  apply (hT.reads c after h hafter).bind
  intro t c₁ _ h₁ ht
  apply (looks_spanSince start).reads
  intro span'
  apply Reads.pure h₁
  simp only [ParamEntry.bare, hnames, hdots, Option.map_some, ht]

/-- A name before a comma or the end is an entry of its own. -/
lemma reads_loneEntry {name : Ident} {span : Span}
    (hafter : after.head? = some (.mark .comma) ∨ after.head? = some (.mark .rParen))
    (h : c.tokens = .ident name.word :: after) :
    Reads ctx c (paramEntry type) after
      fun e => e.bare = ParamEntry.bare ⟨[name], none, none, span⟩ := by
  obtain ⟨next, hnext, hlone⟩ : ∃ next, after.head? = some next ∧
      (next = .mark .comma ∨ next = .mark .rParen) := by
    rcases hafter with hafter | hafter
    · exact ⟨_, hafter, .inl rfl⟩
    · exact ⟨_, hafter, .inr rfl⟩
  apply looks_nextSpan.reads
  intro start
  apply reads_peek (o := some (.ident name.word)) (by rw [h]; rfl)
  apply reads_peekAt (o := some next) (by rw [h, ← hnext, List.head?_eq_getElem?]; rfl)
  dsimp only
  rw [if_pos hlone]
  apply (reads_requireIdent h).bind
  intro name' c₁ _ h₁ hname
  apply (looks_spanSince start).reads
  intro span'
  apply Reads.pure h₁
  simp only [ParamEntry.bare, List.map_singleton, Ident.bare_eq hname, Option.map_none]

/-- The token after the name of an entry with a type is the dots, or it begins the type. -/
lemma reads_namedEntry {name : Ident} {dots : Option Span} {T : TypeExpr} {span : Span}
    (hT : ReadsType ctx lengths type T) (hafter : EndsType after)
    (h : c.tokens = ParamEntry.tokens lengths ⟨[name], dots, some T, span⟩ ++ after) :
    Reads ctx c (paramEntry type) after
      fun e => e.bare = ParamEntry.bare ⟨[name], dots, some T, span⟩ := by
  apply looks_nextSpan.reads
  intro start
  cases dots with
  | none =>
    obtain ⟨t, ts, hfirst, hbegins⟩ := hT.first
    change c.tokens = .ident name.word :: (T.tokens lengths ++ after) at h
    apply reads_peek (o := some (.ident name.word)) (by rw [h]; rfl)
    apply reads_peekAt (o := some t) (by rw [h, hfirst]; rfl)
    have hlone : ¬ (t = .mark .comma ∨ t = .mark .rParen) := by
      rintro (rfl | rfl) <;> cases hbegins
    have hdots : t ≠ .mark .ellipsis := by
      rintro rfl
      cases hbegins
    dsimp only
    rw [if_neg hlone, if_neg hdots, if_pos hbegins]
    apply (reads_requireIdent h).bind
    intro name' c₁ _ h₁ hname
    exact reads_entryType hT hafter h₁ (congrArg (fun i => [i]) (Ident.bare_eq hname)) rfl
  | some dots =>
    change c.tokens = .ident name.word :: .mark .ellipsis :: (T.tokens lengths ++ after) at h
    apply reads_peek (o := some (.ident name.word)) (by rw [h]; rfl)
    apply reads_peekAt (o := some (.mark .ellipsis)) (by rw [h]; rfl)
    dsimp only
    rw [if_neg (by rintro (h | h) <;> cases h), if_pos rfl]
    apply (reads_requireIdent h).bind
    intro name' c₁ _ h₁ hname
    apply (reads_take h₁).bind
    intro dots' c₂ _ h₂ _
    exact reads_entryType hT hafter h₂ (congrArg (fun i => [i]) (Ident.bare_eq hname)) rfl

/-- A type that begins with a name has a dot after it, so the name is not taken for a parameter. -/
lemma reads_unnamedEntry {T : TypeExpr} {span : Span} (hT : ReadsType ctx lengths type T)
    (hlocal : ∀ s name args, T ≠ .named s none name args) (hafter : EndsType after)
    (h : c.tokens = T.tokens lengths ++ after) :
    Reads ctx c (paramEntry type) after
      fun e => e.bare = ParamEntry.bare ⟨[], none, some T, span⟩ := by
  obtain ⟨t, ts, hfirst, hbegins⟩ := hT.first
  apply looks_nextSpan.reads
  intro start
  apply reads_peek (o := some t) (by rw [h, hfirst]; rfl)
  apply reads_peekAt rfl
  split
  · next hdots =>
    cases hdots
    cases hbegins
  · next word next hword hnext =>
    cases hword
    obtain ⟨us, rfl⟩ := TypeExpr.exists_dot hlocal hfirst
    rw [h, hfirst] at hnext
    cases hnext
    rw [if_neg (by rintro (h | h) <;> cases h), if_neg (by rintro ⟨⟩), if_neg (by rintro ⟨⟩)]
    exact reads_entryType hT hafter h rfl rfl
  · exact reads_entryType hT hafter h rfl rfl

/-- An entry of a list of parameters is read as it is written. -/
lemma reads_paramEntry (he : e.Readable) (ht : ∀ T ∈ e.type, ReadsType ctx lengths type T)
    (hafter : after.head? = some (.mark .comma) ∨ after.head? = some (.mark .rParen))
    (h : c.tokens = e.tokens lengths ++ after) :
    Reads ctx c (paramEntry type) after fun e' => e'.bare = e.bare := by
  have hends : EndsType after := by
    rcases hafter with hafter | hafter
    · exact endsType_of_head? hafter rfl nofun
    · exact endsType_of_head? hafter rfl nofun
  cases he with
  | lone name span => exact reads_loneEntry hafter h
  | named name dots T span => exact reads_namedEntry (ht T rfl) hends h
  | variadic dots T span =>
    change c.tokens = .mark .ellipsis :: (T.tokens lengths ++ after) at h
    apply looks_nextSpan.reads
    intro start
    apply reads_peek (o := some (.mark .ellipsis)) (by rw [h]; rfl)
    apply (looks_peekAt 1).reads
    intro next
    apply (reads_take h).bind
    intro dots' c₁ _ h₁ _
    exact reads_entryType (ht T rfl) hends h₁ rfl rfl
  | unnamed T span hlocal => exact reads_unnamedEntry (ht T rfl) hlocal hends h

/-- An entry has a token with which it begins, and it does not close a list. -/
lemma ParamEntry.Readable.exists_tokens (he : e.Readable)
    (ht : ∀ T ∈ e.type, ReadsType ctx lengths type T) :
    ∃ t ts, e.tokens lengths = t :: ts ∧ t ≠ .mark .rParen := by
  cases he with
  | lone name span => exact ⟨_, _, rfl, nofun⟩
  | named name dots T span => exact ⟨_, _, rfl, nofun⟩
  | variadic dots T span => exact ⟨_, _, rfl, nofun⟩
  | unnamed T span hlocal =>
    obtain ⟨t, ts, hfirst, hbegins⟩ := (ht T rfl).first
    refine ⟨t, ts, hfirst, ?_⟩
    rintro rfl
    cases hbegins

/-- An entry of a list of parameters is read, and nothing is skipped. -/
lemma reads_paramEntryOrSkip (he : e.Readable) (ht : ∀ T ∈ e.type, ReadsType ctx lengths type T)
    (hafter : after.head? = some (.mark .comma) ∨ after.head? = some (.mark .rParen))
    (h : c.tokens = e.tokens lengths ++ after) :
    Reads ctx c (paramEntryOrSkip type) after fun e' => e'.bare = e.bare := by
  obtain ⟨t, ts, htokens, -⟩ := he.exists_tokens ht
  apply reads_position
  apply (reads_paramEntry he ht hafter h).bind
  intro e' c₁ hsteps h₁ he'
  have hpos : c₁.pos ≠ c.pos := by
    apply hsteps.pos_ne
    rw [h, h₁, htokens, List.length_append, List.length_cons]
    omega
  apply reads_complainIfStuck hpos
  apply reads_skipIfStuck hpos
  exact .pure h₁ he'

end

/-! ## Groups -/

/-- The entries as which names with one type are read: a name stands alone where another one comes
before the type. -/
def splitNames (ellipsis : Option Span) (type : Option TypeExpr) (span : Span) :
    List Ident → List ParamEntry
  | name :: next :: names =>
    ⟨[name], none, none, name.span⟩ :: splitNames ellipsis type span (next :: names)
  | names => [⟨names, ellipsis, type, span⟩]

/-- The entries as which an entry is read. -/
def ParamEntry.pieces (e : ParamEntry) : List ParamEntry :=
  splitNames e.ellipsis e.type e.span e.names

/-- Names with a type are at least one entry. -/
lemma splitNames_ne_nil {ellipsis : Option Span} {type : Option TypeExpr} {span : Span}
    {names : List Ident} : splitNames ellipsis type span names ≠ [] := by
  rw [splitNames.eq_def]
  split <;> exact List.cons_ne_nil _ _

/-- The pieces of an entry are written like the entry. -/
lemma ParamEntry.intercalate_pieces (e : ParamEntry) :
    [Token.mark .comma].intercalate (e.pieces.map (ParamEntry.tokens lengths)) =
      e.tokens lengths := by
  obtain ⟨names, ellipsis, type, span⟩ := e
  show [Token.mark .comma].intercalate ((splitNames ellipsis type span names).map _) = _
  fun_induction splitNames ellipsis type span names with
  | case1 name next names ih =>
    rw [List.map_cons,
      List.intercalate_cons_of_ne_nil (List.map_eq_nil_iff.not.2 splitNames_ne_nil), ih,
      ParamEntry.tokens, ParamEntry.tokens, ParamEntry.tokens, nameTokens_cons_cons]
    rfl
  | case2 names _ => exact List.intercalate_singleton

/-- The names of an entry are put together with its type. -/
lemma bare_attachNames_splitNames {ellipsis : Option Span} {T : TypeExpr} {span : Span}
    {names waiting : List Ident} {from_ : Option Nat} {es : List ParamEntry} :
    (attachNames waiting from_ (splitNames ellipsis (some T) span names ++ es)).map
      ParamEntry.bare =
      ParamEntry.bare ⟨waiting ++ names, ellipsis, some T, span⟩ ::
        (attachNames [] none es).map ParamEntry.bare := by
  fun_induction splitNames ellipsis (some T) span names generalizing waiting from_ with
  | case1 name next names ih =>
    rw [List.cons_append, attachNames]
    dsimp only
    rw [ih, List.append_assoc]
    rfl
  | case2 names _ => rfl

/-- Places do not matter when names are put together with types. -/
lemma bare_attachNames {es es' : List ParamEntry} {waiting waiting' : List Ident}
    {from_ from_' : Option Nat} (h : es.map ParamEntry.bare = es'.map ParamEntry.bare)
    (hw : waiting.map Ident.bare = waiting'.map Ident.bare) :
    (attachNames waiting from_ es).map ParamEntry.bare =
      (attachNames waiting' from_' es').map ParamEntry.bare := by
  induction es generalizing es' waiting waiting' from_ from_' with
  | nil =>
    cases List.map_eq_nil_iff.1 h.symm
    have hlone (names : List Ident) : (attachNames names none []).map ParamEntry.bare =
        (names.map Ident.bare).map fun name => ⟨[name], none, none, default⟩ := by
      rw [attachNames, List.map_map, List.map_map]
      rfl
    exact (hlone waiting).trans ((congrArg _ hw).trans (hlone waiting').symm)
  | cons e es ih =>
    obtain ⟨e', es', rfl, he, hes⟩ := List.map_eq_cons_iff.1 h.symm
    obtain ⟨names, ellipsis, type, span⟩ := e
    obtain ⟨names', ellipsis', type', span'⟩ := e'
    simp only [ParamEntry.bare, ParamEntry.mk.injEq] at he
    obtain ⟨hnames, hellipsis, htype, -⟩ := he
    have hall : (waiting ++ names).map Ident.bare = (waiting' ++ names').map Ident.bare := by
      rw [List.map_append, List.map_append, hw, hnames]
    rw [attachNames, attachNames]
    cases type with
    | none =>
      cases Option.map_eq_none_iff.1 htype
      exact ih hes.symm hall
    | some T =>
      obtain ⟨T', rfl, hT⟩ := Option.map_eq_some_iff.1 htype
      have hothers := @ih es' [] [] none none hes.symm rfl
      dsimp only
      rw [List.map_cons, List.map_cons, hothers]
      simp only [ParamEntry.bare, hall, hellipsis, hT, Option.map_some]

/-- The settled entry for a parameter. A local name alone stands where a parameter's name would. -/
def entryOf (f : Field) : ParamEntry :=
  match f.names, f.ellipsis, f.type with
  | [], none, .named _ none name [] => ⟨[name], none, none, f.span⟩
  | names, ellipsis, type => ⟨names, ellipsis, some type, f.span⟩

/-- The entry of a parameter with names has these names. -/
lemma entryOf_of_ne_nil {f : Field} (h : f.names ≠ []) :
    entryOf f = ⟨f.names, f.ellipsis, some f.type, f.span⟩ := by
  rw [entryOf]
  split
  · next hnames _ _ => exact absurd hnames h
  · rfl

/-- The settled entry for a parameter is written like the parameter. -/
lemma tokens_entryOf {f : Field} (hf : f.IsParam) :
    (entryOf f).tokens lengths = f.tokens lengths := by
  obtain ⟨span, names, ellipsis, type, tag, embedded, doc, comment⟩ := f
  cases hf.tag
  rw [entryOf]
  split
  · next hnames hellipsis htype =>
    cases hnames
    cases hellipsis
    cases htype
    rfl
  · show nameTokens names ++ (_ ++ type.tokens lengths) =
      nameTokens names ++ (_ ++ (type.tokens lengths ++ []))
    rw [List.append_nil]

/-- Whether an entry has both a name and a type. -/
def ParamEntry.isPair (e : ParamEntry) : Bool :=
  e.type.isSome && !e.names.isEmpty

/-- Entries that differ in their places alone have a pair of name and type in common or none. -/
lemma any_isPair_of_bare {es es' : List ParamEntry}
    (h : es.map ParamEntry.bare = es'.map ParamEntry.bare) :
    es.any ParamEntry.isPair = es'.any ParamEntry.isPair := by
  have hbare (es : List ParamEntry) :
      es.any ParamEntry.isPair = (es.map ParamEntry.bare).any ParamEntry.isPair := by
    rw [List.any_map]
    congr 1
    funext e
    simp only [ParamEntry.isPair, ParamEntry.bare, Function.comp_apply, Option.isSome_map,
      List.isEmpty_map]
  rw [hbare, h, ← hbare]

/-- Among the entries of names with a type is a pair of name and type. -/
lemma any_isPair_splitNames {ellipsis : Option Span} {T : TypeExpr} {span : Span}
    {names : List Ident} (h : names ≠ []) :
    (splitNames ellipsis (some T) span names).any ParamEntry.isPair = true := by
  fun_induction splitNames ellipsis (some T) span names with
  | case1 name next names ih => exact ih (List.cons_ne_nil _ _)
  | case2 names _ =>
    cases names with
    | nil => exact absurd rfl h
    | cons => rfl

/-- The entry for a parameter without names is read as it is. -/
lemma pieces_entryOf {f : Field} (h : f.names = []) :
    (entryOf f).pieces = [entryOf f] ∧ (entryOf f).isPair = false := by
  rw [entryOf]
  split
  · exact ⟨rfl, rfl⟩
  · rw [h]
    exact ⟨rfl, rfl⟩

section

variable {fields : List Field} {es : List ParamEntry}

/-- The pieces of parameters with names are put together to their entries. -/
lemma bare_attachNames_pieces (hnamed : ∀ f ∈ fields, f.names ≠ []) :
    (attachNames [] none (fields.flatMap fun f => (entryOf f).pieces)).map ParamEntry.bare =
      fields.map fun f => (entryOf f).bare := by
  induction fields with
  | nil => rfl
  | cons f fields ih =>
    obtain ⟨hf, hfields⟩ := List.forall_mem_cons.1 hnamed
    rw [List.flatMap_cons, List.map_cons, entryOf_of_ne_nil hf]
    exact bare_attachNames_splitNames.trans (congrArg _ (ih hfields))

/-- Names are put together with their types if each parameter has a name, and nothing is changed if
none has. -/
lemma bare_groupParams (huniform : (∀ f ∈ fields, f.names ≠ []) ∨ ∀ f ∈ fields, f.names = [])
    (h : es.map ParamEntry.bare =
      (fields.flatMap fun f => (entryOf f).pieces).map ParamEntry.bare) :
    (groupParams es).map ParamEntry.bare = fields.map fun f => (entryOf f).bare := by
  have hpair := any_isPair_of_bare h
  show (if es.any ParamEntry.isPair then _ else _ : List ParamEntry).map _ = _
  rw [hpair]
  rcases huniform with hnamed | hunnamed
  · cases fields with
    | nil =>
      cases List.map_eq_nil_iff.1 h
      rfl
    | cons f others =>
      rw [if_pos]
      case hc =>
        rw [List.flatMap_cons, List.any_append, entryOf_of_ne_nil (hnamed f List.mem_cons_self)]
        exact Bool.or_eq_true_iff.2
          (.inl (any_isPair_splitNames (hnamed f List.mem_cons_self)))
      exact (bare_attachNames h rfl).trans (bare_attachNames_pieces hnamed)
  · have hpieces : (fields.flatMap fun f => (entryOf f).pieces) = fields.map entryOf := by
      rw [← List.flatMap_singleton' (fields.map entryOf), List.flatMap_map]
      exact List.flatMap_congr fun f hf => (pieces_entryOf (hunnamed f hf)).1
    rw [hpieces] at h ⊢
    rw [if_neg, h, List.map_map]
    · rfl
    · rw [List.any_map, List.any_eq_true]
      rintro ⟨f, hf, hany⟩
      rw [Function.comp_apply, (pieces_entryOf (hunnamed f hf)).2] at hany
      cases hany

end

/-! ## Lists -/

/-- The entry of a parameter is turned into this parameter. -/
lemma reads_paramField {e : ParamEntry} {f : Field} (hf : f.IsParam)
    (h : e.bare = (entryOf f).bare) :
    Reads ctx c (paramField e) c.tokens fun o => ∃ g, o = some g ∧ g.bare = f.bare := by
  obtain ⟨span, names, ellipsis, type, tag, embedded, doc, comment⟩ := f
  obtain ⟨rfl, rfl, rfl, rfl⟩ := hf
  obtain ⟨names', ellipsis', type', span'⟩ := e
  -- whatever the type is, the field is built with it at the end
  have hfield {T : TypeExpr} {names₁ : List Ident} {span₁ : Span} {c₁ : Cursor}
      (hnames : names₁.map Ident.bare = names.map Ident.bare)
      (hellipsis : ellipsis'.map (fun _ => (default : Span)) = ellipsis.map fun _ => default)
      (hT : T.bare = type.bare) :
      Reads ctx c₁ (do
        note .field span₁
        return some (⟨span₁, names₁, ellipsis', T, none, false, none, none⟩ : Field)) c₁.tokens
        fun o => ∃ g, o = some g ∧
          g.bare = (⟨span, names, ellipsis, type, none, false, none, none⟩ : Field).bare := by
    apply (reads_note _ _).bind
    intro _ c₂ _ h₂ _
    refine .pure h₂ ⟨_, rfl, ?_⟩
    rw [Field.bare, Field.bare, hnames, hellipsis, hT]
  rw [entryOf] at h
  split at h
  · next s name hnames hellipsis htype =>
    cases hnames
    cases hellipsis
    cases htype
    -- a local name alone is the type of a parameter without a name
    simp only [ParamEntry.bare, ParamEntry.mk.injEq, Option.map_none, Option.map_eq_none_iff,
      List.map_singleton, List.map_eq_singleton_iff] at h
    obtain ⟨⟨name', rfl, hname⟩, rfl, rfl, -⟩ := h
    have hloneType : Reads ctx c (do
        note .type name'.span
        return TypeExpr.named name'.span none name' []) c.tokens
        fun t => t = .named name'.span none name' [] := by
      apply (reads_note _ _).bind
      intro _ c₁ _ h₁ _
      exact .pure h₁ rfl
    apply hloneType.bind
    rintro _ c₁ _ h₁ rfl
    rw [← h₁]
    refine hfield rfl rfl ?_
    rw [TypeExpr.bare, TypeExpr.bare, hname]
  · simp only [ParamEntry.bare, ParamEntry.mk.injEq, Option.map_some, Option.map_eq_some_iff] at h
    obtain ⟨hnames, hellipsis, ⟨T, rfl, hT⟩, -⟩ := h
    exact hfield hnames hellipsis hT

/-- The entries of parameters are turned into these parameters. -/
lemma reads_paramFields {es : List ParamEntry} {fields : List Field}
    (hparams : ∀ f ∈ fields, f.IsParam)
    (h : es.map ParamEntry.bare = fields.map fun f => (entryOf f).bare) :
    Reads ctx c (paramFields es) c.tokens fun fs => fs.map Field.bare = fields.map Field.bare := by
  induction fields generalizing c es with
  | nil =>
    cases List.map_eq_nil_iff.1 h
    exact .pure rfl rfl
  | cons f fields ih =>
    obtain ⟨e, es, rfl, he, hes⟩ := List.map_eq_cons_iff.1 h
    obtain ⟨hf, hfields⟩ := List.forall_mem_cons.1 hparams
    apply (reads_paramField hf he).bind
    rintro _ c₁ _ h₁ ⟨g, rfl, hg⟩
    apply (ih hfields hes).bind
    intro fs c₂ _ h₂ hfs
    refine .pure (h₂.trans h₁) ?_
    show g.bare :: fs.map Field.bare = _
    rw [hg, hfs, List.map_cons]

/-- The entries of names with a type are readable, and have this type or none. -/
lemma readable_splitNames {ellipsis : Option Span} {T : TypeExpr} {span : Span}
    {names : List Ident} (h : names ≠ []) :
    ∀ e ∈ splitNames ellipsis (some T) span names, e.Readable ∧ ∀ S ∈ e.type, S = T := by
  fun_induction splitNames ellipsis (some T) span names with
  | case1 name next names ih =>
    exact List.forall_mem_cons.2 ⟨⟨.lone name name.span, nofun⟩, ih (List.cons_ne_nil _ _)⟩
  | case2 names hshort =>
    refine List.forall_mem_singleton.2 ⟨?_, fun S hS => (Option.some.inj hS).symm⟩
    match names with
    | [] => exact absurd rfl h
    | [name] => exact .named name ellipsis T span
    | name :: next :: names => exact (hshort name next names rfl).elim

/-- The entry for a parameter is read as it is written, and so is each piece of it. -/
lemma readable_pieces {l : FieldList} (hl : l.Grammatical) {f : Field} (hf : f ∈ l.fields) :
    ∀ e ∈ (entryOf f).pieces, e.Readable ∧ ∀ S ∈ e.type, S = f.type := by
  rcases hl.uniform with hnamed | hunnamed
  · rw [entryOf_of_ne_nil (hnamed f hf)]
    exact readable_splitNames (hnamed f hf)
  · rw [(pieces_entryOf (hunnamed f hf)).1]
    refine List.forall_mem_singleton.2 ?_
    have hplain := hl.plain f hf (hunnamed f hf)
    rw [entryOf]
    split
    · next name _ _ _ => exact ⟨.lone name f.span, nofun⟩
    · next hlone =>
      refine ⟨?_, fun S hS => (Option.some.inj hS).symm⟩
      rw [hunnamed f hf]
      cases hellipsis : f.ellipsis with
      | some dots => exact .variadic dots f.type f.span
      | none =>
        refine .unnamed f.type f.span ?_
        intro s name args htype
        cases args with
        | nil => exact hlone s name (hunnamed f hf) hellipsis htype
        | cons =>
          have hlocal := hplain hellipsis
          rw [htype] at hlocal
          cases hlocal

/-- A list of parameters is read as it is written. -/
lemma reads_params {l : FieldList} (hl : l.Grammatical)
    (hT : ∀ T ∈ l.fields.map Field.type, ReadsType ctx lengths type T)
    (h : c.tokens = l.tokens lengths ++ after) :
    Reads ctx c (params type) after fun l' => l'.bare = l.bare := by
  obtain ⟨opening, fields, closing⟩ := l
  -- parameters are read as entries first, each of which is part of one of them
  have hpieces : ∀ e ∈ fields.flatMap fun f => (entryOf f).pieces,
      e.Readable ∧ ∀ T ∈ e.type, ReadsType ctx lengths type T := by
    intro e he
    obtain ⟨f, hf, he⟩ := List.mem_flatMap.1 he
    obtain ⟨hread, htype⟩ := readable_pieces hl hf e he
    exact ⟨hread, fun T hmem => htype T hmem ▸ hT _ (List.mem_map_of_mem hf)⟩
  have hwritten : [Token.mark .comma].intercalate
      ((fields.flatMap fun f => (entryOf f).pieces).map (ParamEntry.tokens lengths)) =
        [Token.mark .comma].intercalate (Field.tokenRows lengths fields) := by
    rw [List.map_flatMap, intercalate_flatMap, Field.tokenRows_eq_map]
    · congr 1
      refine List.map_congr_left fun f hf => ?_
      rw [ParamEntry.intercalate_pieces, tokens_entryOf (hl.params f hf)]
    · exact fun f _ => List.map_eq_nil_iff.not.2 splitNames_ne_nil
  rw [FieldList.tokens, enclosed, ← hwritten, List.cons_append, List.append_assoc] at h
  apply (reads_requireSpan h).bind
  intro opening' c₁ _ h₁ _
  have hentries : Reads ctx c₁ (separatedBy (atEndOr .rParen) .comma (paramEntryOrSkip type))
      (.mark .rParen :: after) fun es =>
        List.Forall₂ (fun e e' : ParamEntry => e'.bare = e.bare)
          (fields.flatMap fun f => (entryOf f).pieces) es := by
    refine reads_separatedBy (looks_atEndOr _) ?_ ?_ ?_ nofun h₁
    · intro e he c rest h
      obtain ⟨t, ts, hfirst, hne⟩ := (hpieces e he).1.exists_tokens (hpieces e he).2
      rw [hfirst] at h
      exact (atEndOr_eq h).trans (beq_false_of_ne hne)
    · intro _ c h
      exact atEndOr_eq h
    · intro e he c rest h hrest
      refine reads_paramEntryOrSkip (hpieces e he).1 (hpieces e he).2 (hrest.imp_right ?_) h
      rintro rfl
      rfl
  apply hentries.bind
  intro es c₂ _ h₂ hes
  apply (reads_requireSpan h₂).bind
  intro closing' c₃ _ h₃ _
  -- then the entries are put together to the parameters from which they come
  have hgroup := bare_groupParams hl.uniform (map_eq_of_forall₂ hes)
  apply (reads_paramFields hl.params hgroup).bind
  intro fields' c₄ _ h₄ hfields
  refine .pure (h₄.trans h₃) ?_
  rw [FieldList.bare, FieldList.bare, Field.bares_eq_map, Field.bares_eq_map, hfields]

/-- Results are read as they are written. -/
lemma reads_results {s : Signature} (hs : s.Grammatical)
    (hT : ∀ T ∈ s.parts, ReadsType ctx lengths type T) (hafter : EndsType after)
    (h : c.tokens = resultTokens lengths s.results ++ after) :
    Reads ctx c (results type) after
      fun o => o.map ResultList.bare = s.results.map ResultList.bare := by
  obtain ⟨span, ps, rs⟩ := s
  obtain ⟨-, hrs⟩ := List.forall_mem_append.1 hT
  cases rs with
  | none =>
    change c.tokens = after at h
    -- what follows begins no type, and so no results either
    have hhead {p : Token → Bool} (hp : ∀ t, p t = true → beginsType t = true) :
        c.tokens.head?.any p = false := by
      rw [h, Bool.eq_false_iff, ne_eq, Option.any_eq_true]
      rintro ⟨t, ht, hpt⟩
      exact hafter.head?_ne (.inl (hp t hpt)) ht
    have hparen : ∀ t : Token, (t == .mark .lParen) = true → beginsType t = true := by
      intro t ht
      rw [eq_of_beq ht]
      rfl
    apply reads_nextIs (hhead hparen)
    apply reads_nextIs (hhead fun _ => id)
    exact .pure h rfl
  | some rs =>
    cases rs with
    | params l =>
      refine reads_nextIs (b := true) ?_ ?_
      · rw [h]
        obtain ⟨opening, fields, closing⟩ := l
        rfl
      · apply (reads_params (hs.results l rfl) hrs h).bind
        intro l' c₁ _ h₁ hl
        exact .pure h₁ (congrArg (fun l => some (ResultList.params l)) hl)
    | single T =>
      have hread := hrs T (List.mem_singleton_self T)
      obtain ⟨t, ts, hfirst, hbegins⟩ := hread.first
      have hhead : c.tokens.head? = some t := by
        rw [h]
        exact congrArg (fun ts => (ts ++ after).head?) hfirst
      -- a type in parentheses would be taken for a list of results
      have hparen := TypeExpr.first_ne_lParen (hs.single T rfl) hfirst
      refine reads_nextIs (b := false) ?_ (reads_nextIs (b := true) ?_ ?_)
      · rw [hhead]
        exact beq_false_of_ne hparen
      · rw [hhead]
        exact hbegins
      · apply (hread.reads c after h hafter).bind
        intro t' c₁ _ h₁ ht
        exact .pure h₁ (congrArg (fun t => some (ResultList.single t)) ht)

/-- Parameters and results are read as they are written. -/
lemma reads_signature {s : Signature} (hs : s.Grammatical)
    (hT : ∀ T ∈ s.parts, ReadsType ctx lengths type T) (hafter : EndsType after)
    (h : c.tokens = s.tokens lengths ++ after) :
    Reads ctx c (signature type) after fun s' => s'.bare = s.bare := by
  rw [s.tokens_eq, List.append_assoc] at h
  apply looks_nextSpan.reads
  intro start
  apply (reads_params hs.params (List.forall_mem_append.1 hT).1 h).bind
  intro ps c₁ _ h₁ hps
  apply (reads_results hs hT hafter h₁).bind
  intro rs c₂ _ h₂ hrs
  apply reads_node h₂
  intro span
  rw [Signature.bare_eq, Signature.bare_eq, hps, hrs]

end GoService.Source.Parser
