import GoService.Proofs.Source.FileReadings

/-!
# Types come back as they were written

The declaration of an alias for a type, written with the tokens of the type, is read without a
report, and the type that is read is the written one (`parse_aliasText`). The parentheses that keep
the arrows of channels apart are a part of the tree, as they are for the reader.
-/

namespace GoService.Source

/-- The name of the alias. -/
def aliasWord : Word :=
  ⟨"X", by decide⟩

/-- A file that declares an alias for the type. -/
def aliasText (lengths : Span → List Token) (T : TypeExpr) : String :=
  "package p\n" ++ "type X = " ++ String.ofList (spell (T.tokens lengths)) ++ "\n"

/-- The text of an alias is that of its lines of tokens. -/
lemma aliasText_eq {lengths : Span → List Token} {T : TypeExpr} (h : T.tokens lengths ≠ []) :
    aliasText lengths T = textOf [[.keyword .packageKw, .ident packageWord],
      .keyword .typeKw :: .ident aliasWord :: .mark .assign :: T.tokens lengths] := by
  refine (textOf_decl ?_).symm
  obtain ⟨t, ts, htokens⟩ := List.exists_cons_of_ne_nil h
  rw [htokens, spell_cons_cons, spell_cons_cons, spell_cons_cons]
  rfl

/-- A well-formed type that is not nested too deeply comes back from its text. -/
theorem parse_aliasText {lengths : Span → List Token} {T : TypeExpr} (hT : T.WellFormed lengths)
    (hnesting : T.outline.typeNesting ≤ Parser.typeDepthLimit)
    (hlegible : ∀ t ∈ T.tokens lengths, t.Legible) :
    (parse (aliasText lengths T)).isClean ∧ ∃ g s,
      (parse (aliasText lengths T)).file.file.decls = [.gen g] ∧ g.lParen = none ∧
      g.specs = [.typeSpec s] ∧ s.name.name = "X" ∧ s.typeParams = none ∧ s.isAlias ∧
      s.type.bare = T.bare := by
  obtain ⟨t, ts, hfirst, -⟩ := hT.grammatical.exists_tokens
  have htokens : ∀ t ∈ .keyword .typeKw :: .ident aliasWord :: .mark .assign :: T.tokens lengths,
      Token.Legible t :=
    List.forall_mem_cons.2 ⟨legible_keyword _, List.forall_mem_cons.2 ⟨legible_ident rfl,
      List.forall_mem_cons.2 ⟨legible_mark _, hlegible⟩⟩⟩
  obtain ⟨hclean, d, hdecls, g, s, rfl, hparen, hspecs, hs⟩ :=
    parse_textOf htokens nofun fun ctx c tail hctx htail h =>
      Parser.reads_aliasDecl hctx (Parser.readsType_typeWithin hctx hT hnesting) htail h
  rw [aliasText_eq (hfirst ▸ List.cons_ne_nil t ts)]
  exact ⟨hclean, g, s, hdecls, hparen, hspecs, congrArg Word.text hs.name, hs.plain, hs.equals,
    hs.type⟩

/-! A type with an array length, a channel of channels, an embedded instance and a tag. -/

namespace Linked

/-- A type with a local name. -/
def ofName (word : Word) (args : List TypeExpr) : TypeExpr :=
  .named default none ⟨word, default⟩ args

/-- The name of the type of the elements. -/
def elemWord : Word :=
  ⟨"Elem", by decide⟩

/-- The name of the type of the tree. -/
def treeWord : Word :=
  ⟨"Tree", by decide⟩

/-- The name of the field. -/
def nextWord : Word :=
  ⟨"next", by decide⟩

/-- The type `chan (<-chan [3]Elem)`. -/
def channel : TypeExpr :=
  .chan default .both (.paren default (.chan default .recv
    (.array default default (ofName elemWord []))))

/-- The type with the fields next, with the channel as its type, and `*Tree[Elem]`, with a tag. -/
def type : TypeExpr :=
  .struct default default
    [⟨default, [⟨nextWord, default⟩], none, channel, none, false, none, none⟩,
      ⟨default, [], none, .pointer default default (ofName treeWord [ofName elemWord []]),
        some ⟨"\x60json:\"tree\"\x60", default⟩, true, none, none⟩]
    default

/-- The length of every array. -/
def lengths (_ : Span) : List Token :=
  [.number "3"]

/-- A type with a local name is well-formed if its arguments are. -/
lemma ofName_wellFormed (word : Word) {args : List TypeExpr}
    (h : ∀ S ∈ args, S.WellFormed lengths) : (ofName word args).WellFormed lengths :=
  .intro True.intro h

/-- The channel is well-formed. -/
lemma channel_wellFormed : channel.WellFormed lengths := by
  have hlocal := ofName_wellFormed elemWord (List.forall_mem_nil _)
  have harray : (TypeExpr.array default default (ofName elemWord [])).WellFormed lengths :=
    .intro ⟨nofun, balanced_nil.cons rfl rfl⟩ (List.forall_mem_singleton.2 hlocal)
  have hrecv := TypeExpr.WellFormed.intro (T := .chan default .recv _) True.intro
    (List.forall_mem_singleton.2 harray)
  have hparen := TypeExpr.WellFormed.intro (T := .paren default _) True.intro
    (List.forall_mem_singleton.2 hrecv)
  exact .intro rfl (List.forall_mem_singleton.2 hparen)

/-- The struct is well-formed. -/
lemma type_wellFormed : type.WellFormed lengths := by
  have htree := ofName_wellFormed treeWord
    (List.forall_mem_singleton.2 (ofName_wellFormed elemWord (List.forall_mem_nil _)))
  have hpointer := TypeExpr.WellFormed.intro (T := .pointer default default _) True.intro
    (List.forall_mem_singleton.2 htree)
  refine .intro (List.forall_mem_cons.2 ⟨?_, List.forall_mem_singleton.2 ?_⟩)
    (List.forall_mem_cons.2 ⟨channel_wellFormed, List.forall_mem_singleton.2 hpointer⟩)
  · exact ⟨rfl, rfl, rfl, nofun, fun _ => nofun⟩
  · exact ⟨rfl, rfl, rfl, fun _ => ⟨rfl, rfl⟩, nofun⟩

/-- A struct with a channel of channels, an array and a tag is read as it is written. -/
theorem linked_read : type.outline.typeNesting ≤ Parser.typeDepthLimit ∧
    aliasText lengths type = "package p\n" ++
      "type X = struct \x7b next chan ( <- chan [ 3 ] Elem ) ; " ++
      "* Tree [ Elem ] \x60json:\"tree\"\x60 \x7d\n" ∧
    (parse (aliasText lengths type)).isClean ∧ ∃ g s,
      (parse (aliasText lengths type)).file.file.decls = [.gen g] ∧ g.lParen = none ∧
      g.specs = [.typeSpec s] ∧ s.name.name = "X" ∧ s.typeParams = none ∧ s.isAlias ∧
      s.type.bare = type.bare := by
  have hnesting : type.outline.typeNesting ≤ Parser.typeDepthLimit := by decide +kernel
  have hlegible : ∀ t ∈ type.tokens lengths, Token.Legible t := by
    have hclear : ∀ t ∈ type.tokens lengths, Token.isClear t := by decide +kernel
    exact fun t ht => legible_of_isClear (hclear t ht)
  exact ⟨hnesting, by decide +kernel, parse_aliasText type_wellFormed hnesting hlegible⟩

end Linked

end GoService.Source
