import GoService.Proofs.Source.FileReadings
import GoService.Service.Shape

/-!
# Parameters and results come back as they were written

A function that is declared with the tokens of a signature is read without a report, and its
operands are those that were written, with their names, dots and types (`parse_headText`). This
needs one thing that Go does not: a parameter without a name and without dots must not be a local
name with type arguments. Such a parameter is taken for a name with an array type, and is reported
(`LocalInstance.not_read`).
-/

namespace GoService.Service

open Source

/-- The operand without the places in its type. -/
def Operand.bare (o : Operand) : Operand :=
  ⟨o.name, o.type.bare, o.variadic⟩

/-- The operands of a field do not depend on where it stands. -/
lemma fieldOperands_bare (f : Source.Field) :
    fieldOperands f.bare = (fieldOperands f).map Operand.bare := by
  obtain ⟨span, names, ellipsis, type, tag, embedded, doc, comment⟩ := f
  have hdots : (ellipsis.map fun _ => (default : Span)).isSome = ellipsis.isSome :=
    Option.isSome_map
  cases names with
  | nil => simp only [Field.bare, fieldOperands, Operand.bare, hdots, List.map_nil, List.map_cons]
  | cons name names =>
    simp only [Field.bare, fieldOperands, hdots, List.map_cons, List.map_map]
    rfl

/-- The operands of a list do not depend on where it stands. -/
lemma operands_bare (l : FieldList) : operands l.bare = (operands l).map Operand.bare := by
  obtain ⟨opening, fields, closing⟩ := l
  rw [FieldList.bare, operands, operands, Field.bares_eq_map, List.flatMap_map, List.map_flatMap]
  exact List.flatMap_congr fun f _ => fieldOperands_bare f

/-- The operands of results do not depend on where they stand. -/
lemma resultOperands_bare (results : Option ResultList) :
    resultOperands (results.map ResultList.bare) = (resultOperands results).map Operand.bare := by
  cases results with
  | none => rfl
  | some results =>
    cases results with
    | params l => exact operands_bare l
    | single type => rfl

/-- The name of the function is a word. -/
lemma isWord_F : isWord "F".toList :=
  rfl

/-- The name of the function. -/
def headWord : Word :=
  ⟨"F", isWord_F⟩

/-- A file that declares a function with the parameters and results. -/
def headText (lengths : Span → List Token) (s : Signature) : String :=
  "package p\n" ++ "func F " ++ String.ofList (spell (s.tokens lengths)) ++ "\n"

/-- The text of a function without a body, below a package clause. -/
lemma headText_eq (lengths : Span → List Token) (s : Signature) :
    headText lengths s = textOf [[.keyword .packageKw, .ident packageWord],
      .keyword .funcKw :: .ident headWord :: s.tokens lengths] := by
  refine (textOf_decl ?_).symm
  obtain ⟨ts, htokens⟩ := s.exists_tokens lengths
  rw [htokens, spell_cons_cons, spell_cons_cons]
  rfl

/-- Parameters and results come back from their text, and so do the operands. -/
theorem parse_headText {lengths : Span → List Token} {s : Signature} (hs : s.Grammatical)
    (hparts : ∀ T ∈ s.parts, T.WellFormed lengths ∧
      T.outline.typeNesting ≤ Parser.typeDepthLimit)
    (hlegible : ∀ t ∈ s.tokens lengths, t.Legible) :
    (parse (headText lengths s)).isClean ∧ ∃ f,
      (parse (headText lengths s)).file.file.decls = [.func f] ∧ f.name.name = "F" ∧
      f.signature.bare = s.bare ∧
      (operands f.signature.params).map Operand.bare = (operands s.params).map Operand.bare ∧
      (resultOperands f.signature.results).map Operand.bare =
        (resultOperands s.results).map Operand.bare := by
  have htokens : ∀ t ∈ .keyword .funcKw :: .ident headWord :: s.tokens lengths,
      Token.Legible t :=
    List.forall_mem_cons.2 ⟨legible_keyword _, List.forall_mem_cons.2 ⟨legible_ident rfl, hlegible⟩⟩
  obtain ⟨hclean, d, hdecls, f, rfl, -, hname, -, hsignature, -⟩ :=
    parse_textOf htokens nofun fun ctx c tail hctx htail h =>
      Parser.reads_headDecl hctx hs (fun T hT =>
        Parser.readsType_typeWithin hctx (hparts T hT).1 (hparts T hT).2) htail h
  rw [headText_eq]
  refine ⟨hclean, f, hdecls, congrArg Word.text hname, hsignature, ?_, ?_⟩
  · rw [Signature.bare_eq, Signature.bare_eq] at hsignature
    rw [← operands_bare, ← operands_bare, (Signature.mk.inj hsignature).2.1]
  · rw [Signature.bare_eq, Signature.bare_eq] at hsignature
    rw [← resultOperands_bare, ← resultOperands_bare, (Signature.mk.inj hsignature).2.2]

/-! ## A local name with type arguments -/

namespace LocalInstance

/-- The name of integers. -/
def intWord : Word :=
  ⟨"int", by decide⟩

/-- The name of the generic type. -/
def listWord : Word :=
  ⟨"List", by decide⟩

/-- The name of the first parameters. -/
def xsWord : Word :=
  ⟨"xs", by decide⟩

/-- The name of the last parameters. -/
def ysWord : Word :=
  ⟨"ys", by decide⟩

/-- The type of integers. -/
def int : TypeExpr :=
  .named default none ⟨intWord, default⟩ []

/-- The type `List[int]`. -/
def list : TypeExpr :=
  .named default none ⟨listWord, default⟩ [int]

/-- A parameter with names, with dots or without. -/
def param (names : List Word) (dots : Option Span) (type : TypeExpr) : Source.Field :=
  ⟨default, names.map (⟨·, default⟩), dots, type, none, false, none, none⟩

/-- Two parameters of the type with names, and dots before a result of the type without one. -/
def named : Signature :=
  ⟨default, ⟨default, [param [xsWord, ysWord] none list], default⟩,
    some (.params ⟨default, [param [] (some default) list, param [] none int], default⟩)⟩

/-- One parameter of the type without a name. -/
def unnamed : Signature :=
  ⟨default, ⟨default, [param [] none list], default⟩, none⟩

/-- No array has a length here. -/
def noLengths (_ : Span) : List Token :=
  []

/-- The generic type over integers is well-formed. -/
lemma list_wellFormed : list.WellFormed noLengths :=
  .intro True.intro (List.forall_mem_singleton.2 (.intro True.intro (List.forall_mem_nil _)))

/-- The type of integers is well-formed. -/
lemma int_wellFormed : int.WellFormed noLengths :=
  .intro True.intro (List.forall_mem_nil _)

/-- A function with named parameters of a generic type is read as it is written. -/
theorem named_read : headText noLengths named =
      "package p\nfunc F ( xs , ys List [ int ] ) ( ... List [ int ] , int )\n" ∧
    (parse (headText noLengths named)).isClean ∧ ∃ f,
      (parse (headText noLengths named)).file.file.decls = [.func f] ∧ f.name.name = "F" ∧
      f.signature.bare = named.bare ∧
      (operands f.signature.params).map Operand.bare = (operands named.params).map Operand.bare ∧
      (resultOperands f.signature.results).map Operand.bare =
        (resultOperands named.results).map Operand.bare := by
  have hparam (names : List Word) (dots : Option Span) (T : TypeExpr) :
      (param names dots T).IsParam := ⟨rfl, rfl, rfl, rfl⟩
  have hparams : named.params.Grammatical := by
    refine ⟨?_, .inl ?_, ?_⟩
    · exact List.forall_mem_singleton.2 (hparam _ _ _)
    · exact List.forall_mem_singleton.2 nofun
    · exact List.forall_mem_singleton.2 nofun
  have hresults : ∀ l, named.results = some (.params l) → l.Grammatical := by
    rintro _ ⟨⟩
    refine ⟨?_, .inr ?_, ?_⟩
    · exact List.forall_mem_cons.2 ⟨hparam _ _ _, List.forall_mem_singleton.2 (hparam _ _ _)⟩
    · exact List.forall_mem_cons.2 ⟨rfl, List.forall_mem_singleton.2 rfl⟩
    · exact List.forall_mem_cons.2 ⟨fun _ => nofun, List.forall_mem_singleton.2 fun _ _ => rfl⟩
  have hlegible : ∀ t ∈ named.tokens noLengths, t.Legible := by
    have hclear : ∀ t ∈ named.tokens noLengths, t.isClear := by decide +kernel
    exact fun t ht => legible_of_isClear (hclear t ht)
  have hlist : list.outline.typeNesting ≤ Parser.typeDepthLimit := by decide +kernel
  have hint : int.outline.typeNesting ≤ Parser.typeDepthLimit := by decide +kernel
  have hparts : ∀ T ∈ named.parts, T.WellFormed noLengths ∧
      T.outline.typeNesting ≤ Parser.typeDepthLimit :=
    List.forall_mem_cons.2 ⟨⟨list_wellFormed, hlist⟩, List.forall_mem_cons.2
      ⟨⟨list_wellFormed, hlist⟩, List.forall_mem_singleton.2 ⟨int_wellFormed, hint⟩⟩⟩
  exact ⟨by decide +kernel, parse_headText ⟨hparams, hresults, nofun⟩ hparts hlegible⟩

/-- The type alone is a parameter in Go, and it is not read as one. -/
theorem not_read : headText noLengths unnamed = "package p\nfunc F ( List [ int ] )\n" ∧
    (∀ T ∈ unnamed.parts, T.WellFormed noLengths ∧
      T.outline.typeNesting ≤ Parser.typeDepthLimit) ∧
    (∀ f ∈ unnamed.params.fields, f.IsParam ∧ f.names = []) ∧
    (parse (headText noLengths unnamed)).isClean = false := by
  refine ⟨by decide +kernel, ?_, ?_, by decide +kernel⟩
  · exact List.forall_mem_singleton.2 ⟨list_wellFormed, by decide +kernel⟩
  · exact List.forall_mem_singleton.2 ⟨⟨rfl, rfl, rfl, rfl⟩, rfl⟩

end LocalInstance

end GoService.Service
