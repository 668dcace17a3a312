import GoService.Proofs.Source.CleanTypes
import GoService.Proofs.Source.Totality

/-!
# Clean runs of the readers of declarations

Declarations that are read without a report leave the depth of brackets as it was, with one
exception: the initial values of a declaration without parentheses are skipped up to a semicolon
outside brackets, and where brackets stay open that is the end of the tokens (`Cursor.Keeps`). What
is documented has the documentation that belongs to its first token, as far as the file.
-/

namespace GoService.Source

/-! ## Values that are left open -/

/-- The initial values of an entry. -/
def Spec.values? : Spec → Option Span
  | .valueSpec s => s.values
  | _ => none

/-- The initial values of a declaration without parentheses. -/
def Decl.values? : Decl → Option Span
  | .gen d => if d.lParen.isSome then none else d.specs.head?.bind Spec.values?
  | _ => none

/-- The initial values in the last declaration, if it has no parentheses. -/
def SourceFile.lastValues? (f : SourceFile) : Option Span :=
  f.decls.getLast?.bind Decl.values?

namespace Cursor

variable {c c' c'' : Cursor} {d : Nat} {values? : Option Span}

/-- The tokens end within initial values, and brackets in these are open. -/
structure EndsWithin (c : Cursor) (d : Nat) (c' : Cursor) (values : Span) : Prop where
  ended : c'.rest = []
  isOpen : ∃ before first others e, c.rest = before ++ first :: others ∧
    bracketDepth? d (before.map Placed.token) = some d ∧ first.span.start = values.start ∧
    bracketDepth? d ((first :: others).map Placed.token) = some e ∧ d < e

/-- What is read on the way leaves the depth of brackets as it is, unless the tokens end within the
given values. -/
def Keeps (c : Cursor) (d : Nat) (c' : Cursor) (values? : Option Span) : Prop :=
  c.Levels d c' d ∨ ∃ values ∈ values?, c.EndsWithin d c' values

/-- What leaves the depth leaves it whatever values there are. -/
lemma Levels.keeps (h : c.Levels d c' d) : c.Keeps d c' values? :=
  .inl h

/-- Where tokens are left, the depth has been kept. -/
lemma Keeps.levels (h : c.Keeps d c' values?) (hne : c'.rest ≠ []) : c.Levels d c' d := by
  rcases h with h | ⟨values, -, h⟩
  · exact h
  · exact absurd h.ended hne

/-- Without values the depth has been kept. -/
lemma Keeps.levels_of_none (h : c.Keeps d c' none) : c.Levels d c' d := by
  rcases h with h | ⟨values, hvalues, -⟩
  · exact h
  · cases hvalues

/-- What leaves the depth may come first. -/
lemma Levels.trans_keeps (h : c.Levels d c' d) (h' : c'.Keeps d c'' values?) :
    c.Keeps d c'' values? := by
  rcases h' with h' | ⟨values, hvalues, hended, before, first, others, e, hrest, hbefore, hvalue⟩
  · exact .inl (h.trans h')
  · obtain ⟨read, hread, hlevels⟩ := h
    refine .inr ⟨values, hvalues, hended, read ++ before, first, others, e, ?_, ?_, hvalue⟩
    · rw [hread, hrest, List.append_assoc]
    · rw [List.map_append, bracketDepth?_append_of_eq hlevels]
      exact hbefore

/-- Nothing is read any more when the tokens have ended. -/
lemma Keeps.trans_levels (h : c.Keeps d c' values?) (hsteps : c'.Steps c'')
    (h' : c'.Levels d c'' d) : c.Keeps d c'' values? := by
  rcases h with h | ⟨values, hvalues, hended, hopen⟩
  · exact .inl (h.trans h')
  · exact .inr ⟨values, hvalues, hsteps.rest_eq_nil hended, hopen⟩

end Cursor

namespace Parser

variable {ctx : Context} {tokens : List Placed} {c : Cursor} {K : Prop} {d : Nat}

/-! ## Type parameters -/

/-- The type of a declaration is read cleanly. -/
lemma readsCleanly_topType : ReadsCleanly ctx tokens topType :=
  readsCleanly_typeWithin typeDepthLimit

/-- A clean run through type parameters with one constraint keeps the depth. -/
lemma nests_typeParamGroup : Nests ctx tokens K c d typeParamGroup d fun g c' =>
    c'.rest.length < c.rest.length ∧ Documented ctx tokens (UnionTerm.docSitesOf g.constraint) := by
  apply looks_nextSpan.cleanRun
  intro start
  have hname (c : Cursor) : Nests ctx tokens True c d (requireIdent "type parameter") d
      fun _ c' => c'.rest.length < c.rest.length ∧ True :=
    nests_requireIdent.mono fun _ _ _ ⟨_, hread, _⟩ => ⟨Cursor.length_lt hread, True.intro⟩
  apply (nests_separatedBy (looks_pure false) rfl hname).bind
  intro names c₁ h₁
  apply (nests_union readsCleanly_topType).bind
  intro constraint c₂ _
  apply nests_node
  rintro ⟨-, hlt, hconstraint⟩ span c₃ - hrest
  exact ⟨hrest ▸ Nat.lt_of_lt_of_le hlt h₁.length_le, hconstraint⟩

/-- A clean run through type parameters keeps the depth. -/
lemma nests_typeParams (hbracket : c.ahead 0 = some (.mark .lBrack)) :
    Nests ctx tokens K c d typeParams d fun p _ => Documented ctx tokens p.docSites := by
  have hstop : Looks atNoTypeParam := fun _ _ => rfl
  apply nests_take hbracket (Token.depthAfter?_opening d rfl)
  intro p c₁ _ _
  apply (nests_separatedBy hstop rfl fun c => nests_typeParamGroup).bind
  intro groups c₂ _
  apply (nests_requireSpan (Token.depthAfter?_closing d rfl)).bind
  intro rBrack c₃ _
  apply (nests_note _ _).andThen
  intro _ c₄
  exact .pure fun ⟨⟨_, _, hgroups⟩, _⟩ => documented_flatMap hgroups

/-! ## Entries of declarations -/

/-- An entry that begins at the next token, with its documentation. -/
structure EntryAt (ctx : Context) (tokens : List Placed) (doc : Option CommentGroup) (c : Cursor)
    (s : Spec) : Prop where
  doc : s.doc = doc
  start : ∃ p ps, c.rest = p :: ps ∧ s.start = p.span.start
  sites : Documented ctx tokens s.docSites

/-- A clean run through the name of an import keeps the depth. -/
lemma nests_importLabel : Nests ctx tokens K c d importLabel d fun o c' =>
    (∀ label ∈ o, ∃ p, c.rest = p :: c'.rest ∧ label.span = p.span) ∧ (o = none → c' = c) := by
  apply cleanRun_peek
  split
  · next hdot =>
    apply nests_take hdot rfl
    intro p c₁ hread _
    apply Nests.pure
    rintro -
    refine ⟨?_, nofun⟩
    rintro _ ⟨⟩
    exact ⟨p, hread, rfl⟩
  · next word hword =>
    apply nests_take hword rfl
    intro p c₁ hread _
    apply Nests.pure
    rintro -
    refine ⟨?_, nofun⟩
    rintro _ ⟨⟩
    refine ⟨p, hread, ?_⟩
    split <;> rfl
  · exact Nests.pure fun _ => ⟨nofun, fun _ => rfl⟩

/-- An import begins with its label or else with its path. -/
lemma nests_importSpec (doc : Option CommentGroup) : Nests ctx tokens K c d (importSpec doc) d
    fun o c' => c'.rest.length < c.rest.length ∧
      ∀ s ∈ o, EntryAt ctx tokens doc c (.importSpec s) := by
  apply nests_importLabel.bind
  intro name c₁ h₁
  have hpath (text : String) {t : Token} (ht : c₁.ahead 0 = some t)
      (hd : t.depthAfter? d = some d) :
      Nests ctx tokens (K ∧ (∀ label ∈ name, ∃ p, c.rest = p :: c₁.rest ∧ label.span = p.span) ∧
        (name = none → c₁ = c)) c₁ d (do
          let span ← take
          note .importSpec span
          return some (⟨doc, name, ⟨text, span⟩⟩ : ImportSpec)) d
        fun o c' => c'.rest.length < c.rest.length ∧
          ∀ s ∈ o, EntryAt ctx tokens doc c (.importSpec s) := by
    apply nests_take ht hd
    intro p c₂ hread _
    apply nests_noted
    intro c₃ hrest
    apply Nests.pure
    rintro ⟨-, hlabel, hnone⟩
    rw [← hrest] at hread
    refine ⟨Nat.lt_of_lt_of_le (Cursor.length_lt hread) h₁.length_le, ?_⟩
    rintro _ ⟨⟩
    refine ⟨rfl, ?_, List.forall_mem_nil _⟩
    cases name with
    | none => exact ⟨p, c₃.rest, hnone rfl ▸ hread, rfl⟩
    | some label =>
      obtain ⟨q, hq, hspan⟩ := hlabel label rfl
      exact ⟨q, c₁.rest, hq, congrArg Span.start hspan⟩
  apply cleanRun_peek
  split
  · next ht => exact hpath _ ht rfl
  · next ht => exact hpath _ ht rfl
  · apply (cleanRun_complain _).never
    intro _ c₂
    apply runs_skipStatement.andThen
    intro _ c₃
    exact .pure True.intro

/-- What is skipped of a statement leaves the depth of brackets as it is, unless it is open where
the tokens end. -/
lemma cleanRun_skipStatement : CleanRun ctx tokens K c skipStatement
    fun span c' => c.Keeps d c' (some span) := by
  obtain ⟨e, he, hstop⟩ := bracketDepth?_terminatorDistance 0 c.rest
  have hdepth := bracketDepth?_add d he
  have hskip {start : Span} (h : c.Keeps d (c.advance (terminatorDistance 0 c.rest))
      (some ⟨start.start, max (c.advance (terminatorDistance 0 c.rest)).prevEnd start.start⟩)) :
      CleanRun ctx tokens K c (do
        modify fun c => c.advance (terminatorDistance 0 c.rest)
        spanSince start) fun span c' => c.Keeps d c' (some span) :=
    fun _ => ⟨c.steps_advance _, fun _ _ => h⟩
  cases e with
  | zero =>
    apply looks_nextSpan.cleanRun
    intro start
    exact hskip (levels_advance hdepth).keeps
  | succ e =>
    obtain ⟨p, ps, hrest⟩ : ∃ p ps, c.rest = p :: ps := by
      apply List.exists_cons_of_ne_nil
      intro hnil
      rw [hnil] at he
      cases he
    have hall : c.rest.take (terminatorDistance 0 c.rest) = p :: ps := by
      rw [List.take_of_length_le (List.drop_eq_nil_iff.1 (hstop.resolve_left (Nat.succ_ne_zero e))),
        hrest]
    rw [hall] at hdepth
    apply cleanRun_nextSpan hrest
    apply hskip
    refine .inr ⟨_, rfl, ?_, [], p, ps, d + (e + 1), hrest, rfl, rfl, hdepth, by omega⟩
    rw [Cursor.rest_advance]
    exact hstop.resolve_left (Nat.succ_ne_zero e)

/-- A clean run through initial values keeps the depth unless the tokens end within them. -/
lemma cleanRun_initialValues : CleanRun ctx tokens K c initialValues
    fun o c' => c.Keeps d c' o := by
  apply cleanRun_accept
  · intro p c₁ hread hp
    have hassign : c.Levels d c₁ d := levels_read hread (by rw [hp]; rfl)
    apply cleanRun_skipStatement.bind
    intro span c₂ _
    exact CleanRun.pure fun hK => hassign.trans_keeps hK.2
  · exact CleanRun.pure fun _ => Cursor.Levels.refl.keeps

/-- A clean run through a value entry keeps the depth unless the tokens end within its values. -/
lemma cleanRun_valueSpec (doc : Option CommentGroup) : CleanRun ctx tokens K c (valueSpec doc)
    fun s c' => c.Keeps d c' s.values ∧ c'.rest.length < c.rest.length ∧
      EntryAt ctx tokens doc c (.valueSpec s) := by
  apply CleanRun.bind (nests_identList (d := d) _)
  intro names c₁ _
  have htype : Nests ctx tokens True c₁ d topType d fun t _ => Documented ctx tokens t.docSites :=
    (readsCleanly_topType c₁ d).mono fun _ _ _ => And.right
  apply CleanRun.bind (nests_whenever (looks_nextIs _) fun _ => htype.assume fun _ => True.intro)
  intro type c₂ h₂
  apply CleanRun.bind (cleanRun_initialValues (d := d))
  intro values c₃ h₃
  apply CleanRun.pure
  rintro ⟨⟨⟨-, hlevels, hlt, p, ps, hrest, hnames⟩, hlevels', htypes⟩, hkeeps⟩
  have hle := h₂.length_le
  have hle' := h₃.length_le
  refine ⟨(hlevels.trans hlevels').trans_keeps hkeeps, by omega, rfl, ⟨p, ps, hrest, ?_⟩, ?_⟩
  · show ((names.head?.map Ident.span).getD default).start = _
    rw [hnames]
    rfl
  · cases type with
    | none => exact fun s hs => nomatch hs
    | some t => exact htypes t rfl

/-- A token of which a parser has found that it is the next one. -/
lemma ahead_of_nextIs {t : Token} (h : (nextIs (· == t) ctx c).1 = true) : c.ahead 0 = some t := by
  have h : (c.ahead 0).any (· == t) = true := h
  rw [Option.any_eq_true] at h
  obtain ⟨u, hu, heq⟩ := h
  rw [hu, eq_of_beq heq]

/-- Type parameters begin with a bracket. -/
lemma ahead_of_isGeneric (h : (isGeneric ctx c).1 = true) : c.ahead 0 = some (.mark .lBrack) := by
  refine @ahead_of_nextIs ctx c _ ?_
  by_contra hnot
  have hfalse : (isGeneric ctx c).1 = false := by
    show ((if (nextIs (· == .mark .lBrack) ctx c).1 = true then atTypeParams
      else pure false : Parser Bool) ctx c).1 = false
    rw [if_neg hnot]
    rfl
  rw [hfalse] at h
  cases h

/-- A clean run through a type entry keeps the depth. -/
lemma nests_typeSpec (doc : Option CommentGroup) : Nests ctx tokens K c d (typeSpec doc) d
    fun s c' => c'.rest.length < c.rest.length ∧ EntryAt ctx tokens doc c (.typeSpec s) := by
  apply nests_requireIdent.bind
  intro name c₁ h₁
  apply (nests_whenever looks_isGeneric fun hgeneric =>
    nests_typeParams (ahead_of_isGeneric hgeneric)).bind
  intro tps c₂ h₂
  have htype {equals : Option Span} {c₃ : Cursor} (h₃ : c₃.rest.length ≤ c₂.rest.length) :
      Nests ctx tokens ((K ∧ ∃ p, c.rest = p :: c₁.rest ∧ name.span = p.span) ∧
        ∀ p ∈ tps, Documented ctx tokens p.docSites) c₃ d (do
          let type ← topType
          note .typeSpec name.span
          return (⟨doc, name, tps, equals, type⟩ : TypeSpec)) d
        fun s c' => c'.rest.length < c.rest.length ∧ EntryAt ctx tokens doc c (.typeSpec s) := by
    apply (ReadsCleanly.nests readsCleanly_topType).bind
    intro type c₄ h₄
    apply nests_noted
    intro c₅ hrest
    apply Nests.pure
    rintro ⟨⟨⟨-, p, hread, hname⟩, htps⟩, hlt, htype⟩
    refine ⟨?_, rfl, ⟨p, c₁.rest, hread, congrArg Span.start hname⟩, ?_⟩
    · have h₁ := h₁.length_le
      have h₂ := h₂.length_le
      rw [hrest]
      omega
    · refine documented_append ?_ htype
      cases tps with
      | none => exact fun s hs => nomatch hs
      | some p => exact htps p rfl
  apply nests_accept rfl
  · intro p c₃ hread _
    exact htype (Nat.le_of_lt (Cursor.length_lt hread))
  · exact htype (Nat.le_refl _)

/-- An entry of a declaration leaves the depth of brackets as it is, unless the tokens end within
its values. -/
lemma cleanRun_spec (kind : DeclKind) (doc : Option CommentGroup) :
    CleanRun ctx tokens K c (spec kind doc) fun o c' => c.Keeps d c' (o.bind Spec.values?) ∧
      c'.rest.length < c.rest.length ∧ ∀ s ∈ o, EntryAt ctx tokens doc c s := by
  have hvalue : CleanRun ctx tokens K c (do return some (.valueSpec (← valueSpec doc)))
      fun o c' => c.Keeps d c' (o.bind Spec.values?) ∧
        c'.rest.length < c.rest.length ∧ ∀ s ∈ o, EntryAt ctx tokens doc c s := by
    apply (cleanRun_valueSpec doc).bind
    intro s c₁ _
    apply CleanRun.pure
    rintro ⟨-, hkeeps, hlt, hentry⟩
    exact ⟨hkeeps, hlt, fun _ hs => Option.some.inj hs ▸ hentry⟩
  cases kind with
  | imports =>
    apply CleanRun.bind (nests_importSpec (d := d) doc)
    intro o c₁ _
    apply CleanRun.pure
    rintro ⟨-, hlevels, hlt, hentry⟩
    refine ⟨hlevels.keeps, hlt, ?_⟩
    intro s hs
    obtain ⟨i, hi, rfl⟩ := Option.map_eq_some_iff.1 hs
    exact hentry i hi
  | consts => exact hvalue
  | vars => exact hvalue
  | types =>
    apply CleanRun.bind (nests_typeSpec (d := d) doc)
    intro s c₁ _
    apply CleanRun.pure
    rintro ⟨-, hlevels, hlt, hentry⟩
    exact ⟨hlevels.keeps, hlt, fun _ hs => Option.some.inj hs ▸ hentry⟩

/-- The entries of a grouped declaration are read one by one, each with its documentation. -/
lemma readsItems_specMember (kind : DeclKind) : ReadsItems ctx tokens d .rParen (specMember kind)
    fun o => ∀ s ∈ o, DocSite.IsRead ctx tokens ⟨s.doc, s.start⟩ ∧
      Documented ctx tokens s.docSites := by
  intro c t ht _ hsemi
  obtain ⟨p, ps, hrest, rfl⟩ := Cursor.exists_rest ht
  apply cleanRun_docAbove
  intro doc hdoc
  apply (cleanRun_spec (d := d) kind doc).bind
  intro entry c₁ _
  apply CleanRun.bind (nests_finishStatement (d := d))
  intro _ c₂ h₂
  apply CleanRun.pure
  rintro ⟨⟨-, hkeeps, hlt, hentry⟩, hlevels, -⟩
  refine ⟨⟨fun hne => ?_, Nat.lt_of_le_of_lt h₂.length_le hlt⟩, fun s hs => ?_⟩
  · exact (hkeeps.levels fun hnil => hne (h₂.rest_eq_nil hnil)).trans hlevels
  · obtain ⟨rfl, ⟨q, qs, hq, hstart⟩, hsites⟩ := hentry s hs
    rw [hrest] at hq
    cases hq
    rw [hstart]
    exact ⟨hdoc p ps hrest (not_inserted_of_token hsemi), hsites⟩

/-- The entries after an opening parenthesis, with the closing one. -/
lemma nests_grouped (kind : DeclKind) (doc : Option CommentGroup) :
    Nests ctx tokens K c (d + 1) (specs kind doc true) d fun r _ =>
      ∀ o ∈ r.1, ∀ s ∈ o, DocSite.IsRead ctx tokens ⟨s.doc, s.start⟩ ∧
        Documented ctx tokens s.docSites := by
  apply nests_closed (readsItems_specMember kind)
  · intro c
    exact (nests_require (Token.depthAfter?_closing d rfl)).mono
      fun o c' _ ⟨p, hread, _⟩ => ⟨p, hread⟩
  intro entries rParen c₁
  exact Nests.pure And.right

/-- The one entry of a declaration without parentheses. -/
lemma cleanRun_single (kind : DeclKind) (doc : Option CommentGroup) :
    CleanRun ctx tokens K c (specs kind doc false) fun r c' => ∃ o, r.1 = [o] ∧
      c.Keeps d c' (o.bind Spec.values?) ∧ ∀ s ∈ o, EntryAt ctx tokens doc c s := by
  apply (cleanRun_spec kind doc).bind
  intro o c₁ _
  exact CleanRun.pure fun ⟨_, hkeeps, _, hentry⟩ => ⟨o, rfl, hkeeps, hentry⟩

/-- What is known of a declaration that was read without a report. -/
structure DeclRead (ctx : Context) (tokens : List Placed) (c : Cursor) (d : Nat) (decl : Decl)
    (c' : Cursor) : Prop where
  keeps : c.Keeps d c' decl.values?
  sites : Documented ctx tokens decl.docSites
  entry : ∀ g, decl = .gen g → g.lParen = none → ∀ s ∈ g.specs, s.doc = g.doc

/-- What ends a declaration, once its entries are read. -/
lemma nests_endDecl {doc : Option CommentGroup} {kind : DeclKind} {keyword : Span}
    {lParen rParen : Option Span} {entries : List Spec} :
    Nests ctx tokens K c d (do
      finishDecl
      return (⟨← noteSince .decl keyword, doc, kind, keyword, lParen, entries, rParen⟩ : GenDecl)) d
      fun g _ => ∃ span, g = ⟨span, doc, kind, keyword, lParen, entries, rParen⟩ := by
  apply nests_finishDecl.andThen
  intro _ c₁
  exact nests_node fun _ span _ _ _ => ⟨span, rfl⟩

/-- A clean run through a declaration with entries reads it. -/
lemma cleanRun_genDecl (kind : DeclKind) {t : Token} (ht : c.ahead 0 = some t)
    (hkeyword : t.depthAfter? d = some d) (hsemi : t ≠ .mark .semi) :
    CleanRun ctx tokens K c (genDecl kind) fun g c' => DeclRead ctx tokens c d (.gen g) c' := by
  apply cleanRun_docAbove
  intro doc hdoc
  apply cleanRun_take ht
  rintro keyword c₁ hread rfl
  have hdoc := hdoc keyword c₁.rest hread (not_inserted_of_token hsemi)
  have hlevels : c.Levels d c₁ d := levels_read hread hkeyword
  apply cleanRun_accept
  · intro lParen c₂ hparen hlParen
    have hopening : c₁.Levels d c₂ (d + 1) :=
      levels_read hparen (hlParen ▸ Token.depthAfter?_opening d rfl)
    apply CleanRun.bind (nests_grouped (d := d) kind doc)
    rintro ⟨entries, rParen⟩ c₃ _
    apply CleanRun.conseq (nests_endDecl (d := d)) id
    rintro _ c₄ ⟨-, hgrouped, hentries⟩ - ⟨hend, span, rfl⟩
    have hspecs : ∀ s ∈ entries.filterMap id, DocSite.IsRead ctx tokens ⟨s.doc, s.start⟩ ∧
        Documented ctx tokens s.docSites := by
      intro s hs
      obtain ⟨o, ho, hs⟩ := List.mem_filterMap.1 hs
      exact hentries o ho s hs
    refine ⟨((hlevels.trans hopening).trans (hgrouped.trans hend)).keeps, ?_, ?_⟩
    case refine_2 =>
      rintro _ ⟨⟩ hnone
      cases hnone
    refine List.forall_mem_cons.2 ⟨hdoc, documented_append ?_ ?_⟩
    · show Documented ctx tokens ((entries.filterMap id).map fun s => ⟨s.doc, s.start⟩)
      exact List.forall_mem_map.2 fun s hs => (hspecs s hs).1
    · exact documented_flatMap fun s hs => (hspecs s hs).2
  · apply CleanRun.bind (cleanRun_single (d := d) kind doc)
    rintro ⟨entries, rParen⟩ c₂ _
    apply CleanRun.conseq (nests_endDecl (d := d)) id
    rintro _ c₃ ⟨-, o, rfl, hkeeps, hentry⟩ hsteps ⟨hend, span, rfl⟩
    have hspecs : ∀ s ∈ [o].filterMap id, EntryAt ctx tokens doc c₁ s := by
      intro s hs
      obtain ⟨_, ho, hs⟩ := List.mem_filterMap.1 hs
      cases List.mem_singleton.1 ho
      exact hentry s hs
    refine ⟨?_, ?_, ?_⟩
    · have hvalues : (Decl.gen ⟨span, doc, kind, keyword.span, none, [o].filterMap id,
          rParen⟩).values? = o.bind Spec.values? := by
        cases o <;> rfl
      rw [hvalues]
      exact (hlevels.trans_keeps hkeeps).trans_levels hsteps hend
    · refine List.forall_mem_cons.2 ⟨hdoc, documented_append ?_ ?_⟩
      · exact fun s hs => nomatch hs
      · exact documented_flatMap fun s hs => (hspecs s hs).sites
    · rintro _ ⟨⟩ - s hs
      exact (hspecs s hs).doc

/-- A clean run through a function declaration keeps the depth. -/
lemma nests_funcDecl (hfunc : c.ahead 0 = some (.keyword .funcKw)) :
    Nests ctx tokens K c d funcDecl d fun f _ => Documented ctx tokens (Decl.func f).docSites := by
  apply cleanRun_docAbove
  intro doc hdoc
  apply nests_take hfunc rfl
  intro keyword c₁ hread hkeyword
  have hdoc := hdoc keyword c₁.rest hread (not_inserted_of_token (hkeyword ▸ nofun))
  apply (nests_whenever (looks_nextIs _) fun _ => nests_params readsCleanly_topType).bind
  intro recv c₂ _
  apply nests_requireIdent.bind
  intro name c₃ _
  apply (nests_whenever (looks_nextIs _) fun h => nests_typeParams (ahead_of_nextIs h)).bind
  intro tps c₄ _
  apply (nests_signature readsCleanly_topType).bind
  intro s c₅ _
  apply (nests_whenever (P := fun _ => True) (looks_nextIs _) fun h =>
    nests_skipRun (ahead_of_nextIs h) rfl).bind
  intro body c₆ _
  apply (looks_spanSince _).cleanRun
  intro span
  apply nests_finishDecl.andThen
  intro _ c₇
  apply nests_noted
  intro c₈ _
  apply Nests.pure
  rintro ⟨⟨⟨⟨⟨-, hrecv⟩, -⟩, htps⟩, hs⟩, -⟩
  refine List.forall_mem_cons.2 ⟨hdoc, documented_append (documented_append ?_ ?_) hs⟩
  · cases recv with
    | none => exact fun s hs => nomatch hs
    | some l => exact hrecv l rfl
  · cases tps with
    | none => exact fun s hs => nomatch hs
    | some p => exact htps p rfl

/-- A clean run through a declaration reads it. -/
lemma cleanRun_decl {t : Token} (ht : c.ahead 0 = some t) :
    CleanRun ctx tokens K c (decl t) fun decl c' => DeclRead ctx tokens c d decl c' := by
  have hgen (kind : DeclKind) (hkeyword : t.depthAfter? d = some d) (hsemi : t ≠ .mark .semi) :
      CleanRun ctx tokens K c (do return Decl.gen (← genDecl kind))
        fun decl c' => DeclRead ctx tokens c d decl c' := by
    apply (cleanRun_genDecl kind ht hkeyword hsemi).bind
    intro g c₁ _
    exact CleanRun.pure And.right
  rw [decl.eq_def]
  split
  · exact hgen _ rfl (by rintro ⟨⟩)
  · exact hgen _ rfl (by rintro ⟨⟩)
  · exact hgen _ rfl (by rintro ⟨⟩)
  · exact hgen _ rfl (by rintro ⟨⟩)
  · apply CleanRun.bind (nests_funcDecl (d := d) ht)
    intro f c₁ _
    apply CleanRun.pure
    rintro ⟨-, hlevels, hsites⟩
    refine ⟨hlevels.keeps, hsites, ?_⟩
    rintro _ ⟨⟩
  · apply (cleanRun_complain _).never
    intro _ c₁
    apply looks_nextSpan.bind_runs
    intro start
    apply runs_skipToDecl.andThen
    intro _ c₂
    exact runs_node fun _ => True.intro

/-- What is known of the declarations of a file. -/
structure DeclsRead (ctx : Context) (tokens : List Placed) (c : Cursor) (d : Nat)
    (decls : List Decl) (c' : Cursor) : Prop where
  keeps : c.Keeps d c' (decls.getLast?.bind Decl.values?)
  sites : ∀ decl ∈ decls, Documented ctx tokens decl.docSites
  entry : ∀ g, .gen g ∈ decls → g.lParen = none → ∀ s ∈ g.specs, s.doc = g.doc
  /-- Nothing is read from nothing. -/
  ended : c.rest = [] → decls = []

/-- Only the last declaration may leave brackets open. -/
lemma DeclRead.keeps_cons {c' c'' : Cursor} {decl : Decl} {decls : List Decl}
    (h : DeclRead ctx tokens c d decl c') (h' : DeclsRead ctx tokens c' d decls c'')
    (hsteps : c'.Steps c'') :
    c.Keeps d c'' ((decl :: decls).getLast?.bind Decl.values?) := by
  cases decls with
  | nil =>
    have hnone : c'.Keeps d c'' none := h'.keeps
    exact h.keeps.trans_levels hsteps hnone.levels_of_none
  | cons next others =>
    have hne : c'.rest ≠ [] := fun hnil => nomatch h'.ended hnil
    rw [List.getLast?_cons_cons]
    exact (h.keeps.levels hne).trans_keeps h'.keeps

/-- A clean run through declarations reads each of them. -/
lemma cleanRun_decls {fuel : Nat} (h : c.rest.length < fuel) :
    CleanRun ctx tokens K c (decls fuel) fun ds c' => DeclsRead ctx tokens c d ds c' := by
  induction fuel generalizing c K with
  | zero => exact absurd h (Nat.not_lt_zero _)
  | succ fuel ih =>
    apply cleanRun_peek
    split
    · refine CleanRun.pure fun _ => ⟨Cursor.Levels.refl.keeps, ?_, ?_, fun _ => rfl⟩
      · exact fun _ hdecl => nomatch hdecl
      · exact fun _ hdecl => nomatch hdecl
    · next ht =>
      apply cleanRun_take ht
      intro p c₁ hread hp
      have hlt := Cursor.length_lt hread
      have hlevels : c.Levels d c₁ d := levels_read hread (by rw [hp]; rfl)
      apply CleanRun.mono (ih (by omega))
      rintro ds c₂ - ⟨hkeeps, hsites, hentry, -⟩
      refine ⟨hlevels.trans_keeps hkeeps, hsites, hentry, fun hnil => ?_⟩
      rw [hnil] at hread
      cases hread
    · next t _ ht =>
      apply CleanRun.bindRuns (cleanRun_decl (d := d) ht) (runs_decl ht)
      rintro decl c₁ - ⟨-, hlt⟩
      apply (ih (c := c₁) (by omega)).bind
      intro ds c₂ h₂
      apply CleanRun.pure
      rintro ⟨⟨-, hdecl⟩, hdecls⟩
      refine ⟨?_, List.forall_mem_cons.2 ⟨hdecl.sites, hdecls.sites⟩, ?_, fun hnil => ?_⟩
      · exact hdecl.keeps_cons hdecls h₂
      · intro g hg
        rcases List.mem_cons.1 hg with hg | hg
        · exact hdecl.entry g hg.symm
        · exact hdecls.entry g hg
      · exact absurd hnil (Cursor.rest_ne_nil ht)

/-- What is known of a file that was read without a report. -/
structure FileRead (ctx : Context) (tokens : List Placed) (c : Cursor) (d : Nat)
    (file : SourceFile) (c' : Cursor) : Prop where
  keeps : c.Keeps d c' file.lastValues?
  sites : Documented ctx tokens file.docSites
  entry : ∀ g, .gen g ∈ file.decls → g.lParen = none → ∀ s ∈ g.specs, s.doc = g.doc

/-- A clean run through a file reads it. -/
lemma cleanRun_sourceFile :
    CleanRun ctx tokens True c sourceFile fun f c' => FileRead ctx tokens c d f c' := by
  apply cleanRun_docAbove
  intro doc hdoc
  apply CleanRun.bind (nests_requireSpan (d := d) (t := .keyword .packageKw) rfl)
  intro package c₁ _
  apply CleanRun.bind (nests_requireIdent (d := d))
  intro name c₂ _
  apply CleanRun.bind (nests_finishDecl (d := d))
  intro _ c₃ _
  apply cleanRun_remaining
  apply CleanRun.bind (cleanRun_decls (d := d) (Nat.lt_succ_self _))
  intro ds c₄ _
  apply CleanRun.bind (nests_note (d := d) _ _)
  intro _ c₅ h₅
  apply Looks.cleanRun (m := read) (fun _ _ => rfl)
  intro ctx'
  apply CleanRun.pure
  rintro ⟨⟨⟨⟨⟨-, hpackage, p, hread, hp, hspan⟩, hname, -⟩, hend, -⟩, hdecls⟩, hnote, -⟩
  have hdoc := hdoc p c₁.rest hread (not_inserted_of_token (hp ▸ nofun))
  rw [← hspan] at hdoc
  refine ⟨?_, List.forall_mem_cons.2 ⟨hdoc, documented_flatMap hdecls.sites⟩, hdecls.entry⟩
  exact (((hpackage.trans hname).trans hend).trans_keeps hdecls.keeps).trans_levels h₅ hnote

end Parser

end GoService.Source
