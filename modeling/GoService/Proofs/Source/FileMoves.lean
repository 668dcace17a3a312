import GoService.Proofs.Source.TypeMoves
import GoService.Source.Parser.File

/-!
# Files in a moved source

The readers of declarations do in a moved source what they do in the source, and so the whole file
is read as the file, moved (`moves_sourceFile`).
-/

namespace GoService.Source.Parser

variable {f : Nat → Nat}

/-! ## Type parameters -/

/-- The test for type parameters comes out alike in a moved source. -/
lemma moves_atTypeParams : Moves f id atTypeParams atTypeParams := by
  apply Moves.peekAt fun _ => ⟨rfl, rfl⟩
  intro first
  refine Moves.peekAt (fun s => ?_) fun second => ?_
  · cases first with
    | none => exact ⟨rfl, rfl⟩
    | some t => cases t with | _ => exact ⟨rfl, rfl⟩
  split
  · exact .pure rfl
  · exact .pure rfl

section

variable (hf : StrictMono f)
include hf

/-- The type of a declaration is read alike in a moved source. -/
lemma moves_topType : Moves f (TypeExpr.moved f) topType topType :=
  moves_typeWithin hf typeDepthLimit

/-- Type parameters with one constraint are read alike in a moved source. -/
lemma moves_typeParamGroup : Moves f (TypeParamGroup.moved f) typeParamGroup typeParamGroup := by
  apply moves_nextSpan.bind
  intro start
  apply (moves_separatedBy (.pure rfl) (moves_requireIdent hf _)).bind
  intro names
  apply (moves_union (moves_topType hf)).bind
  intro constraint
  exact (moves_noteSince hf _ start).bind fun _ => .pure rfl

omit hf in
/-- The test for the end of type parameters comes out alike in a moved source. -/
lemma moves_atNoTypeParam : Moves f id atNoTypeParam atNoTypeParam := by
  refine (moves_nextIs fun t => ?_).bindSame fun _ => .pure rfl
  cases t <;> rfl

/-- Type parameters are read alike in a moved source. -/
lemma moves_typeParams : Moves f (TypeParams.moved f) typeParams typeParams := by
  apply moves_take.bind
  intro lBrack
  apply (moves_separatedBy moves_atNoTypeParam (moves_typeParamGroup hf)).bind
  intro params
  apply (moves_requireSpan hf rfl _).bind
  intro rBrack
  rw [Span.cover_moved hf]
  exact (moves_note _ _).bindSame fun _ => .pure rfl

/-! ## Entries of declarations -/

omit hf in
/-- The name of an import is read alike in a moved source. -/
lemma moves_importLabel : Moves f (Option.map (ImportLabel.moved f)) importLabel importLabel := by
  apply Moves.peek fun _ => ⟨rfl, rfl⟩
  intro t
  split
  · exact moves_take.bind fun _ => .pure rfl
  · next word =>
    apply moves_take.bind
    intro span
    refine .pure ?_
    split
    · rfl
    · rfl
  · exact .pure rfl

/-- An import is read alike in a moved source. -/
lemma moves_importSpec (doc : Option CommentGroup) :
    Moves f (Option.map (ImportSpec.moved f)) (importSpec doc)
      (importSpec (doc.map (CommentGroup.moved f))) := by
  apply moves_importLabel.bind
  intro name
  have hpath (s : String) : Moves f (Option.map (ImportSpec.moved f))
      (do let span ← take; note .importSpec span; return some ⟨doc, name, ⟨s, span⟩⟩)
      (do
        let span ← take
        note .importSpec span
        return some ⟨doc.map (CommentGroup.moved f), name.map (ImportLabel.moved f),
          ⟨returnedLiteral s, span⟩⟩) :=
    moves_take.bind fun span => (moves_note _ span).bindSame fun _ => .pure rfl
  apply (moves_peekAt 0).bind
  intro t
  match t with
  | some (.stringLit s) => exact hpath s
  | some (.rawStringLit s) => exact hpath s
  | none | some (.ident _) | some (.number _) | some (.runeLit _) | some (.keyword _)
  | some (.mark _) | some .error =>
    exact (moves_complain hf _).bindSame fun _ => (moves_skipStatement hf).bind fun _ => .pure rfl

/-- Initial values are skipped alike in a moved source. -/
lemma moves_initialValues : Moves f (Option.map (Span.moved f)) initialValues initialValues := by
  apply (moves_accept rfl).bind
  intro assign
  cases assign with
  | none => exact .pure rfl
  | some span => exact (moves_skipStatement hf).bind fun _ => .pure rfl

/-- A value entry is read alike in a moved source. -/
lemma moves_valueSpec (doc : Option CommentGroup) :
    Moves f (ValueSpec.moved f) (valueSpec doc) (valueSpec (doc.map (CommentGroup.moved f))) := by
  apply (moves_identList hf _).bind
  intro names
  apply (moves_whenever (moves_nextIs beginsType_returned) (moves_topType hf)).bind
  intro type
  exact (moves_initialValues hf).bind fun _ => .pure rfl

omit hf in
/-- The test for a generic type comes out alike in a moved source. -/
lemma moves_isGeneric : Moves f id isGeneric isGeneric := by
  apply (moves_nextIsMark _).bindSame
  intro brackets
  split
  · exact moves_atTypeParams
  · exact .pure rfl

/-- A type entry is read alike in a moved source. -/
lemma moves_typeSpec (doc : Option CommentGroup) :
    Moves f (TypeSpec.moved f) (typeSpec doc) (typeSpec (doc.map (CommentGroup.moved f))) := by
  apply (moves_requireIdent hf _).bind
  intro name
  apply (moves_whenever moves_isGeneric (moves_typeParams hf)).bind
  intro tps
  apply (moves_accept rfl).bind
  intro equals
  apply (moves_topType hf).bind
  intro type
  exact (moves_note _ name.span).bindSame fun _ => .pure rfl

/-- An entry of a declaration is read alike in a moved source. -/
lemma moves_spec (kind : DeclKind) (doc : Option CommentGroup) :
    Moves f (Option.map (Spec.moved f)) (spec kind doc)
      (spec kind (doc.map (CommentGroup.moved f))) := by
  cases kind with
  | imports =>
    apply (moves_importSpec hf doc).bind
    intro o
    cases o with
    | none => exact .pure rfl
    | some s => exact .pure rfl
  | consts => exact (moves_valueSpec hf doc).bind fun _ => .pure rfl
  | vars => exact (moves_valueSpec hf doc).bind fun _ => .pure rfl
  | types => exact (moves_typeSpec hf doc).bind fun _ => .pure rfl

/-- An entry between parentheses is read alike in a moved source. -/
lemma moves_specMember (kind : DeclKind) :
    Moves f (Option.map (Spec.moved f)) (specMember kind) (specMember kind) := by
  apply (moves_docAbove hf).bind
  intro doc
  apply (moves_spec hf kind doc).bind
  intro entry
  exact (moves_finishStatement hf).bindSame fun _ => .pure rfl

/-- The entries of a declaration are read alike in a moved source. -/
lemma moves_specs (kind : DeclKind) (doc : Option CommentGroup) (grouped : Bool) :
    Moves f (Prod.map (List.map (Option.map (Spec.moved f))) (Option.map (Span.moved f)))
      (specs kind doc grouped) (specs kind (doc.map (CommentGroup.moved f)) grouped) := by
  cases grouped with
  | true =>
    apply (moves_membersUpTo (moves_specMember hf kind)).bind
    intro entries
    exact (moves_require hf rfl _).bind fun _ => .pure rfl
  | false => exact (moves_spec hf kind doc).bind fun _ => .pure rfl

/-! ## Declarations -/

/-- A declaration with entries is read alike in a moved source. -/
lemma moves_genDecl (kind : DeclKind) :
    Moves f (GenDecl.moved f) (genDecl kind) (genDecl kind) := by
  apply (moves_docAbove hf).bind
  intro doc
  apply moves_take.bind
  intro keyword
  apply (moves_accept rfl).bind
  intro lParen
  rw [Option.isSome_map]
  apply (moves_specs hf kind doc lParen.isSome).bind
  rintro ⟨entries, rParen⟩
  apply (moves_finishDecl hf).bindSame
  intro _
  apply (moves_noteSince hf _ keyword).bind
  intro span
  refine .pure ?_
  rw [GenDecl.moved, List.map_filterMap, List.filterMap_map]
  rfl

/-- A function declaration is read alike in a moved source. -/
lemma moves_funcDecl : Moves f (FuncDecl.moved f) funcDecl funcDecl := by
  apply (moves_docAbove hf).bind
  intro doc
  apply moves_take.bind
  intro keyword
  have hrecv := moves_params hf (moves_topType hf)
  apply (moves_whenever (moves_nextIsMark _) hrecv).bind
  intro recv
  apply (moves_requireIdent hf _).bind
  intro name
  apply (moves_whenever (moves_nextIsMark _) (moves_typeParams hf)).bind
  intro tps
  apply (moves_signature hf (moves_topType hf)).bind
  intro sig
  apply (moves_whenever (moves_nextIsMark _) (moves_skipRun hf)).bind
  intro body
  apply (moves_spanSince hf keyword).bind
  intro span
  apply (moves_finishDecl hf).bindSame
  intro _
  exact (moves_note _ span).bindSame fun _ => .pure rfl

/-- A declaration is read alike in a moved source. -/
lemma moves_decl (first : Token) : Moves f (Decl.moved f) (decl first) (decl first) := by
  unfold decl
  split
  · exact (moves_genDecl hf _).bind fun _ => .pure rfl
  · exact (moves_genDecl hf _).bind fun _ => .pure rfl
  · exact (moves_genDecl hf _).bind fun _ => .pure rfl
  · exact (moves_genDecl hf _).bind fun _ => .pure rfl
  · exact (moves_funcDecl hf).bind fun _ => .pure rfl
  · apply (moves_complain hf _).bindSame
    intro _
    apply moves_nextSpan.bind
    intro start
    apply moves_skipToDecl.bindSame
    intro _
    exact (moves_noteSince hf _ start).bind fun _ => .pure rfl

/-- Declarations are read alike in a moved source. -/
lemma moves_decls (fuel : Nat) : Moves f (List.map (Decl.moved f)) (decls fuel) (decls fuel) := by
  induction fuel with
  | zero => exact moves_giveUp
  | succ fuel ih =>
    apply Moves.peek fun _ => ⟨rfl, rfl⟩
    intro t
    split
    · exact .pure rfl
    · exact moves_take.bind fun _ => ih
    · exact (moves_decl hf _).bind fun _ => ih.bind fun _ => .pure rfl

/-- A file is read alike in a moved source. -/
lemma moves_sourceFile : Moves f (SourceFile.moved f) sourceFile sourceFile := by
  apply (moves_docAbove hf).bind
  intro doc
  apply (moves_requireSpan hf rfl _).bind
  intro package
  apply (moves_requireIdent hf _).bind
  intro name
  apply (moves_finishDecl hf).bindSame
  intro _
  apply moves_remaining.bindSame
  intro ahead
  apply (moves_decls hf _).bind
  intro ds
  apply (moves_note _ package).bindSame
  intro _
  exact moves_read.bind fun _ => .pure rfl

end

end GoService.Source.Parser
