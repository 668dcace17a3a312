import GoService.Proofs.Source.Moves
import GoService.Source.Parser.Types

/-!
# Types in a moved source

In a moved source each reader of types reads the moved type, if the reader of the types inside it
does. The entries of parameter lists are moved one by one, so which identifiers are names is settled
as before (`groupParams_moved`).
-/

namespace GoService.Source.Parser

variable {f : Nat → Nat} {type : Parser TypeExpr}

/-- A token begins a type in either form. -/
lemma beginsType_returned (t : Token) : beginsType t.returned = beginsType t := by
  cases t <;> rfl

/-- A name is turned into a type alike in a moved source. -/
lemma moves_nameAsType (name : Ident) :
    Moves f (TypeExpr.moved f) (nameAsType name) (nameAsType (name.moved f)) :=
  (moves_note .type name.span).bindSame fun _ => .pure rfl

/-! ## Parameters -/

/-- The entry in the moved source. -/
def ParamEntry.moved (f : Nat → Nat) (e : ParamEntry) : ParamEntry :=
  ⟨e.names.map (Ident.moved f), e.ellipsis.map (Span.moved f), e.type.map (TypeExpr.moved f),
    e.span.moved f⟩

/-- Names are attached to entries alike in a moved source. -/
lemma attachNames_moved (waiting : List Ident) (from_ : Option Nat) (es : List ParamEntry) :
    attachNames (waiting.map (Ident.moved f)) (from_.map f) (es.map (ParamEntry.moved f)) =
      (attachNames waiting from_ es).map (ParamEntry.moved f) := by
  induction es generalizing waiting from_ with
  | nil =>
    rw [List.map_nil, attachNames, attachNames, List.map_map, List.map_map]
    rfl
  | cons e es ih =>
    obtain ⟨names, ellipsis, type, span⟩ := e
    cases type with
    | some type =>
      have hstart : (from_.map f).getD (f span.start) = f (from_.getD span.start) := by
        cases from_ <;> rfl
      rw [List.map_cons, attachNames, attachNames, List.map_cons]
      refine congrArg₂ List.cons ?_ (ih [] none)
      rw [ParamEntry.moved, ParamEntry.moved, List.map_append]
      exact congrArg (fun start => ParamEntry.mk _ _ _ ⟨start, _⟩) hstart
    | none =>
      rw [List.map_cons, attachNames, attachNames, ← ih, List.map_append, List.isEmpty_map,
        apply_ite (Option.map f)]
      rfl

/-- Parameters are grouped alike in a moved source. -/
lemma groupParams_moved (entries : List ParamEntry) :
    groupParams (entries.map (ParamEntry.moved f)) =
      (groupParams entries).map (ParamEntry.moved f) := by
  have hnamed : (entries.map (ParamEntry.moved f)).any
      (fun e => e.type.isSome && !e.names.isEmpty) =
        entries.any fun e => e.type.isSome && !e.names.isEmpty := by
    rw [List.any_map]
    refine List.any_congr rfl fun e => ?_
    simp [ParamEntry.moved]
  rw [groupParams, groupParams, hnamed]
  split
  · exact attachNames_moved [] none entries
  · rfl

/-- An entry is turned into a field alike in a moved source. -/
lemma moves_paramField (e : ParamEntry) :
    Moves f (Option.map (Field.moved f)) (paramField e) (paramField (e.moved f)) := by
  obtain ⟨names, ellipsis, type, span⟩ := e
  cases type with
  | some type => exact (moves_note .field span).bindSame fun _ => .pure rfl
  | none =>
    cases names with
    | nil => exact .pure rfl
    | cons name names =>
      exact (moves_nameAsType name).bind fun type =>
        (moves_note .field name.span).bindSame fun _ => .pure rfl

/-- Entries are turned into fields alike in a moved source. -/
lemma moves_paramFields (es : List ParamEntry) :
    Moves f (List.map (Field.moved f)) (paramFields es)
      (paramFields (es.map (ParamEntry.moved f))) := by
  induction es with
  | nil => exact .pure rfl
  | cons e es ih =>
    apply (moves_paramField e).bind
    intro field
    apply ih.bind
    intro fields
    refine .pure ?_
    rw [List.map_append]
    cases field <;> rfl

section

variable (hf : StrictMono f) (h : Moves f (TypeExpr.moved f) type type)
include hf h

/-- An entry of a list of parameters is read alike in a moved source. -/
lemma moves_paramEntry : Moves f (ParamEntry.moved f) (paramEntry type) (paramEntry type) := by
  apply moves_nextSpan.bind
  intro start
  have hunnamed : Moves f (ParamEntry.moved f)
      (do let t ← type; return ⟨[], none, some t, ← spanSince start⟩)
      (do let t ← type; return ⟨[], none, some t, ← spanSince (start.moved f)⟩) :=
    h.bind fun t => (moves_spanSince hf start).bind fun _ => .pure rfl
  apply Moves.peek fun _ => ⟨rfl, rfl⟩
  intro first
  refine Moves.peekAt (fun s => ?_) fun second => ?_
  -- a string literal in second place matters only to what comes after an identifier
  · cases first with
    | none => exact ⟨rfl, rfl⟩
    | some t =>
      cases t with
      | mark m => cases m <;> exact ⟨rfl, rfl⟩
      | _ => exact ⟨rfl, rfl⟩
  split
  · exact moves_take.bind fun dots => h.bind fun t => (moves_spanSince hf start).bind fun _ =>
      .pure rfl
  · split
    · exact (moves_requireIdent hf _).bind fun name => (moves_spanSince hf start).bind fun _ =>
        .pure rfl
    · split
      · exact (moves_requireIdent hf _).bind fun name => moves_take.bind fun dots =>
          h.bind fun t => (moves_spanSince hf start).bind fun _ => .pure rfl
      · split
        · exact (moves_requireIdent hf _).bind fun name => h.bind fun t =>
            (moves_spanSince hf start).bind fun _ => .pure rfl
        · exact hunnamed
  · exact hunnamed

/-- An entry of a list of parameters is read, or passed over, alike in a moved source. -/
lemma moves_paramEntryOrSkip :
    Moves f (ParamEntry.moved f) (paramEntryOrSkip type) (paramEntryOrSkip type) := by
  apply moves_position.bindSame
  intro before
  apply (moves_paramEntry hf h).bind
  intro entry
  apply (moves_complainIfStuck hf before _).bindSame
  intro _
  exact (moves_skipIfStuck before).bindSame fun _ => .pure rfl

/-- A list of parameters is read alike in a moved source. -/
lemma moves_params : Moves f (FieldList.moved f) (params type) (params type) := by
  apply (moves_requireSpan hf rfl _).bind
  intro opening
  apply (moves_separatedBy (moves_atEndOr _) (moves_paramEntryOrSkip hf h)).bind
  intro entries
  apply (moves_requireSpan hf rfl _).bind
  intro closing
  rw [groupParams_moved]
  apply (moves_paramFields _).bind
  intro fields
  refine .pure ?_
  rw [FieldList.moved, Field.movedAll_eq_map]

/-- Results are read alike in a moved source. -/
lemma moves_results : Moves f (Option.map (ResultList.moved f)) (results type) (results type) := by
  apply (moves_nextIsMark _).bindSame
  intro isList
  split
  · exact (moves_params hf h).bind fun _ => .pure rfl
  · apply (moves_nextIs beginsType_returned).bindSame
    intro isType
    split
    · exact h.bind fun _ => .pure rfl
    · exact .pure rfl

/-- A signature is read alike in a moved source. -/
lemma moves_signature : Moves f (Signature.moved f) (signature type) (signature type) := by
  apply moves_nextSpan.bind
  intro start
  apply (moves_params hf h).bind
  intro ps
  apply (moves_results hf h).bind
  intro rs
  exact (moves_noteSince hf _ start).bind fun span => .pure (Signature.moved_eq ⟨span, ps, rs⟩).symm

/-! ## Named types and unions -/

omit h in
/-- A name that may be qualified is read alike in a moved source. -/
lemma moves_qualifiedName : Moves f (Prod.map (Option.map (Ident.moved f)) (Ident.moved f))
    qualifiedName qualifiedName := by
  apply (moves_requireIdent hf _).bind
  intro first
  apply (moves_accept rfl).bind
  intro dot
  cases dot with
  | none => exact .pure rfl
  | some span => exact (moves_requireIdent hf _).bind fun _ => .pure rfl

/-- Type arguments are read alike in a moved source. -/
lemma moves_typeArgs : Moves f (TypeExpr.movedAll f) (typeArgs type) (typeArgs type) := by
  apply (moves_accept rfl).bind
  intro lBrack
  cases lBrack with
  | none => exact .pure rfl
  | some span =>
    apply (moves_separatedBy (moves_atEndOr _) h).bind
    intro args
    apply (moves_require hf rfl _).bind
    intro _
    exact .pure (TypeExpr.movedAll_eq_map args).symm

/-- A type with a name is read alike in a moved source. -/
lemma moves_namedType : Moves f (TypeExpr.moved f) (namedType type) (namedType type) := by
  apply moves_nextSpan.bind
  intro start
  apply (moves_qualifiedName hf).bind
  rintro ⟨pkg, name⟩
  apply (moves_typeArgs hf h).bind
  intro args
  exact (moves_noteSince hf _ start).bind fun _ => .pure rfl

omit hf in
/-- A term of a union is read alike in a moved source. -/
lemma moves_unionTerm : Moves f (UnionTerm.moved f) (unionTerm type) (unionTerm type) :=
  (moves_accept rfl).bind fun _ => h.bind fun _ => .pure rfl

omit hf in
/-- A union is read alike in a moved source. -/
lemma moves_union : Moves f (UnionTerm.movedAll f) (union type) (union type) := by
  have hmap : UnionTerm.movedAll f = List.map (UnionTerm.moved f) :=
    funext UnionTerm.movedAll_eq_map
  rw [hmap]
  exact moves_separatedBy (.pure rfl) (moves_unionTerm h)

/-! ## Structs and interfaces -/

omit h in
/-- More identifiers are read alike in a moved source, for any bound. -/
lemma moves_moreIdents (what : String) (fuel : Nat) :
    Moves f (List.map (Ident.moved f)) (moreIdents what fuel) (moreIdents what fuel) := by
  induction fuel with
  | zero => exact moves_giveUp
  | succ fuel ih =>
    apply Moves.peek fun _ => ⟨rfl, rfl⟩
    intro first
    refine Moves.peekAt (fun s => ?_) fun second => ?_
    · cases first with
      | none => exact ⟨rfl, rfl⟩
      | some t =>
        cases t with
        | mark m => cases m <;> exact ⟨rfl, rfl⟩
        | _ => exact ⟨rfl, rfl⟩
    split
    · exact moves_take.bind fun _ => (moves_requireIdent hf _).bind fun _ => ih.bind fun _ =>
        .pure rfl
    · exact .pure rfl

omit h in
/-- A list of identifiers is read alike in a moved source. -/
lemma moves_identList (what : String) :
    Moves f (List.map (Ident.moved f)) (identList what) (identList what) :=
  (moves_requireIdent hf _).bind fun _ => moves_remaining.bindSame fun _ =>
    (moves_moreIdents hf what _).bind fun _ => .pure rfl

omit hf h in
/-- The test for an embedded field comes out alike in a moved source. -/
lemma moves_atEmbedded : Moves f id atEmbedded atEmbedded := by
  apply Moves.peek fun _ => ⟨rfl, rfl⟩
  intro first
  refine Moves.peekAt (fun s => ?_) fun second => ?_
  · cases first with
    | none => exact ⟨rfl, rfl⟩
    | some t =>
      cases t with
      | mark m => cases m <;> exact ⟨rfl, rfl⟩
      | _ => exact ⟨rfl, rfl⟩
  split
  -- an opening bracket after a name is the one case that looks further
  case h_6 =>
    apply moves_get.bind
    intro c
    have hafter : tokenAfterRun? 0 ((c.moved f).rest.drop 1) =
        (tokenAfterRun? 0 (c.rest.drop 1)).map Token.returned := by
      rw [Cursor.moved, ← List.map_drop, tokenAfterRun?_moved]
    rw [hafter]
    cases tokenAfterRun? 0 (c.rest.drop 1) with
    | none => exact .pure rfl
    | some t =>
      refine .pure ?_
      rw [id, Bool.eq_iff_iff, decide_eq_true_iff, decide_eq_true_iff, Token.returned_eq_iff rfl,
        Token.returned_eq_iff rfl, Token.isString_returned]
  all_goals exact .pure rfl

omit hf h in
/-- The tag of a field is read alike in a moved source. -/
lemma moves_fieldTag : Moves f (Option.map (StringLiteral.moved f)) fieldTag fieldTag := by
  apply (moves_peekAt 0).bind
  intro t
  match t with
  | some (.stringLit s) => exact moves_take.bind fun _ => .pure rfl
  | some (.rawStringLit s) => exact moves_take.bind fun _ => .pure rfl
  | none | some (.ident _) | some (.number _) | some (.runeLit _) | some (.keyword _)
  | some (.mark _) | some .error => exact .pure rfl

/-- A field of a struct is read alike in a moved source. -/
lemma moves_structField : Moves f (Field.moved f) (structField type) (structField type) := by
  apply moves_nextSpan.bind
  intro start
  apply (moves_docAbove hf).bind
  intro doc
  apply moves_atEmbedded.bindSame
  intro embedded
  have hnames : Moves f (List.map (Ident.moved f))
      (if embedded then return [] else identList "field name")
      (if embedded then return [] else identList "field name") := by
    split
    · exact .pure rfl
    · exact moves_identList hf _
  apply hnames.bind
  intro names
  apply h.bind
  intro t
  apply moves_fieldTag.bind
  intro tag
  apply moves_commentBeside.bind
  intro comment
  exact (moves_noteSince hf _ start).bind fun _ => .pure rfl

omit h in
/-- The end of a field is read alike in a moved source. -/
lemma moves_finishField : Moves f id finishField finishField := by
  apply Moves.peek fun _ => ⟨rfl, rfl⟩
  intro t
  split
  · exact moves_take.bind fun _ => .pure rfl
  · exact .pure rfl
  · exact .pure rfl
  · exact (moves_complain hf _).bindSame fun _ => (moves_skipStatement hf).bind fun _ => .pure rfl

/-- A field of a struct, with its end, is read alike in a moved source. -/
lemma moves_structMember : Moves f (Field.moved f) (structMember type) (structMember type) :=
  (moves_structField hf h).bind fun _ => (moves_finishField hf).bindSame fun _ => .pure rfl

/-- A struct type is read alike in a moved source. -/
lemma moves_structType : Moves f (TypeExpr.moved f) (structType type) (structType type) := by
  apply moves_take.bind
  intro start
  apply (moves_requireSpan hf rfl _).bind
  intro lBrace
  apply (moves_membersUpTo (moves_structMember hf h)).bind
  intro fields
  apply (moves_requireSpan hf rfl _).bind
  intro rBrace
  apply (moves_noteSince hf _ start).bind
  intro span
  refine .pure ?_
  rw [TypeExpr.moved, Field.movedAll_eq_map]

/-- An element of an interface is read alike in a moved source. -/
lemma moves_interfaceElement :
    Moves f (InterfaceMember.moved f) (interfaceElement type) (interfaceElement type) := by
  apply Moves.peek fun _ => ⟨rfl, rfl⟩
  intro first
  refine Moves.peekAt (fun s => ?_) fun second => ?_
  · cases first with
    | none => exact ⟨rfl, rfl⟩
    | some t => cases t with | _ => exact ⟨rfl, rfl⟩
  split
  · exact (moves_requireIdent hf _).bind fun _ => (moves_signature hf h).bind fun _ => .pure rfl
  · exact (moves_union h).bind fun _ => .pure rfl

omit h in
/-- The end of an element is read alike in a moved source. -/
lemma moves_finishElement : Moves f id finishElement finishElement := by
  apply (moves_atEndOr _).bindSame
  intro atEnd
  split
  · exact .pure rfl
  · exact moves_finishStatement hf

/-- An element of an interface, with its end, is read alike in a moved source. -/
lemma moves_interfaceMember :
    Moves f (InterfaceMember.moved f) (interfaceMember type) (interfaceMember type) :=
  (moves_interfaceElement hf h).bind fun _ => (moves_finishElement hf).bindSame fun _ => .pure rfl

/-- An interface type is read alike in a moved source. -/
lemma moves_interfaceType :
    Moves f (TypeExpr.moved f) (interfaceType type) (interfaceType type) := by
  apply moves_take.bind
  intro start
  apply (moves_requireSpan hf rfl _).bind
  intro lBrace
  apply (moves_membersUpTo (moves_interfaceMember hf h)).bind
  intro elems
  apply (moves_requireSpan hf rfl _).bind
  intro rBrace
  apply (moves_noteSince hf _ start).bind
  intro span
  refine .pure ?_
  rw [TypeExpr.moved, InterfaceMember.movedAll_eq_map]

/-! ## Types -/

/-- A type that begins with a bracket is read alike in a moved source. -/
lemma moves_bracketType : Moves f (TypeExpr.moved f) (bracketType type) (bracketType type) := by
  apply moves_nextSpan.bind
  intro start
  apply Moves.peekAt fun _ => ⟨rfl, rfl⟩
  intro t
  split
  · exact moves_take.bind fun _ => moves_take.bind fun _ => h.bind fun elem =>
      (moves_noteSince hf _ start).bind fun _ => .pure rfl
  · exact (moves_skipRun hf).bind fun len => h.bind fun elem =>
      (moves_noteSince hf _ start).bind fun _ => .pure rfl

/-- A map type is read alike in a moved source. -/
lemma moves_mapType : Moves f (TypeExpr.moved f) (mapType type) (mapType type) := by
  apply moves_take.bind
  intro start
  apply (moves_require hf rfl _).bind
  intro _
  apply h.bind
  intro key
  apply (moves_require hf rfl _).bind
  intro _
  apply h.bind
  intro val
  exact (moves_noteSince hf _ start).bind fun _ => .pure rfl

omit hf h in
/-- The direction of a channel is read alike in a moved source. -/
lemma moves_chanDir : Moves f id chanDir chanDir := by
  apply (moves_accept rfl).bind
  intro arrow
  cases arrow with
  | none => exact .pure rfl
  | some span => exact .pure rfl

/-- A channel type is read alike in a moved source. -/
lemma moves_chanType : Moves f (TypeExpr.moved f) (chanType type) (chanType type) :=
  moves_take.bind fun start => moves_chanDir.bindSame fun _ => h.bind fun _ =>
    (moves_noteSince hf _ start).bind fun _ => .pure rfl

/-- A channel type that begins with an arrow is read alike in a moved source. -/
lemma moves_recvType : Moves f (TypeExpr.moved f) (recvType type) (recvType type) :=
  moves_take.bind fun start => (moves_require hf rfl _).bind fun _ => h.bind fun _ =>
    (moves_noteSince hf _ start).bind fun _ => .pure rfl

/-- The body of a type is read alike in a moved source if the types within are. -/
lemma moves_typeBody : Moves f (TypeExpr.moved f) (typeBody type) (typeBody type) := by
  apply Moves.peek fun _ => ⟨rfl, rfl⟩
  intro t
  split
  · exact moves_namedType hf h
  · exact moves_take.bind fun star => h.bind fun elem =>
      (moves_noteSince hf _ star).bind fun _ => .pure rfl
  · exact moves_bracketType hf h
  · exact moves_mapType hf h
  · exact moves_chanType hf h
  · exact moves_recvType hf h
  · exact moves_take.bind fun start => (moves_signature hf h).bind fun sig =>
      (moves_noteSince hf _ start).bind fun _ => .pure rfl
  · exact moves_structType hf h
  · exact moves_interfaceType hf h
  · exact moves_take.bind fun start => h.bind fun inner => (moves_require hf rfl _).bind fun _ =>
      (moves_noteSince hf _ start).bind fun _ => .pure rfl
  · exact moves_nextSpan.bind fun start => (moves_complain hf _).bindSame fun _ =>
      (moves_noteSince hf _ start).bind fun _ => .pure rfl

end

/-- A type that is nested too deep is told alike in a moved source. -/
lemma moves_tooDeep : Moves f (TypeExpr.moved f) tooDeep tooDeep :=
  moves_nextSpan.bind fun span => (moves_report span _).bindSame fun _ =>
    (moves_note .type span).bindSame fun _ => .pure rfl

/-- However deep types may be nested, a type is read alike in a moved source. -/
lemma moves_typeWithin (hf : StrictMono f) (n : Nat) :
    Moves f (TypeExpr.moved f) (typeWithin n) (typeWithin n) := by
  induction n with
  | zero => exact moves_tooDeep
  | succ n ih => exact moves_typeBody hf ih

end GoService.Source.Parser
