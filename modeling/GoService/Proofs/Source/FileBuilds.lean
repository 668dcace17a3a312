import GoService.Proofs.Source.Totality
import GoService.Proofs.Source.TypeBuilds
import Mathlib.Data.List.Induction

/-!
# What the reader of files builds

Whatever errors a source text has, the nodes that are noted while it is read make up its tree: they
fill an arena in which every node refers to earlier ones only, and a visitor of the tree meets each
of them once (`nodes_visited_once`).
-/

namespace GoService.Source

namespace Parser

variable {ctx : Context}

/-- The type of a declaration is built. -/
lemma buildsTypes_topType : BuildsTypes ctx topType :=
  buildsTypes_typeWithin typeDepthLimit

/-! ## Type parameters -/

/-- Type parameters with one constraint are built. -/
lemma builds_typeParamGroup : Builds ctx [] typeParamGroup (fun g => [g.outline])
    fun g => ctx.Has g.attached := by
  apply looks_nextSpan.quiet.bind_builds
  intro start
  apply (quiet_separatedBy (looks_pure false) (quiet_requireIdent _)).bind_builds
  intro names
  apply (builds_union buildsTypes_topType).bind
  intro constraint hconstraint
  exact builds_noteSince (fun span => rfl) fun span => hconstraint

/-- Type parameters are built. -/
lemma builds_typeParams : Builds ctx [] typeParams (fun p => [p.outline])
    fun p => ctx.Has p.attached := by
  have hstop : Looks atNoTypeParam := fun _ _ => rfl
  apply quiet_take.bind_builds
  intro lBrack
  apply (builds_separatedBy hstop builds_typeParamGroup).bind
  intro groups hgroups
  apply (quiet_requireSpan _ _).bind_builds
  intro rBrack
  rw [← List.map_eq_flatMap]
  exact builds_note rfl (.flatMap hgroups)

/-! ## Entries of declarations -/

/-- The name of an import notes no node. -/
lemma quiet_importLabel : Quiet importLabel := by
  apply quiet_peek.bind
  intro t
  split
  · exact quiet_take.bind fun _ => quiet_pure _
  · exact quiet_take.bind fun _ => quiet_pure _
  · exact quiet_pure _

/-- The outlines of an entry that may be missing. -/
def Spec.outlines? (o : Option Spec) : List Outline :=
  (o.map Spec.outlines).getD []

/-- An import is built. -/
lemma builds_importSpec {doc : Option CommentGroup} (hdoc : ctx.Has doc.toList) :
    Builds ctx [] (importSpec doc) (fun o => Spec.outlines? (o.map .importSpec))
      fun o => ∀ s ∈ o, ctx.Has (Spec.importSpec s).attached := by
  apply quiet_importLabel.bind_builds
  intro name
  have hpath (text : String) : Builds ctx [] (do
      let span ← take
      note .importSpec span
      return some (⟨doc, name, ⟨text, span⟩⟩ : ImportSpec))
      (fun o => Spec.outlines? (o.map .importSpec))
      fun o => ∀ s ∈ o, ctx.Has (Spec.importSpec s).attached := by
    apply quiet_take.bind_builds
    intro span
    apply builds_note
    · rfl
    · rintro _ ⟨⟩
      exact hdoc
  apply quiet_peek.bind_builds
  intro t
  split
  · exact hpath _
  · exact hpath _
  · apply (quiet_complain _).bind_builds
    intro _
    apply quiet_skipStatement.bind_builds
    intro _
    exact .pure .nil fun _ hs => nomatch hs

/-- Initial values note no node. -/
lemma quiet_initialValues : Quiet initialValues := by
  apply (quiet_accept _).bind
  intro equals
  cases equals with
  | none => exact quiet_pure _
  | some span => exact quiet_skipStatement.bind fun _ => quiet_pure _

/-- A value entry is built. -/
lemma builds_valueSpec {doc : Option CommentGroup} (hdoc : ctx.Has doc.toList) :
    Builds ctx [] (valueSpec doc) (fun s => (Spec.valueSpec s).outlines)
      fun s => ctx.Has (Spec.valueSpec s).attached := by
  apply (quiet_identList _).bind_builds
  intro names
  apply (builds_whenever (looks_nextIs _) buildsTypes_topType).bind
  intro type htype
  apply quiet_initialValues.bind_builds
  intro values
  refine .pure (.of_eq ?_) (hdoc.append (.getD htype))
  cases type with
  | none => rfl
  | some type => rfl

/-- A type entry is built. -/
lemma builds_typeSpec {doc : Option CommentGroup} (hdoc : ctx.Has doc.toList) :
    Builds ctx [] (typeSpec doc) (fun s => (Spec.typeSpec s).outlines)
      fun s => ctx.Has (Spec.typeSpec s).attached := by
  apply (quiet_requireIdent _).bind_builds
  intro name
  apply (builds_whenever looks_isGeneric builds_typeParams).bind
  intro tps htps
  apply (quiet_accept _).bind_builds
  intro equals
  apply buildsTypes_topType.bind
  intro type htype
  apply builds_note
  · cases tps with
    | none => rfl
    | some tps => rfl
  · exact (hdoc.append (.getD htps)).append htype

/-- An entry of a declaration is built. -/
lemma builds_spec (kind : DeclKind) {doc : Option CommentGroup} (hdoc : ctx.Has doc.toList) :
    Builds ctx [] (spec kind doc) Spec.outlines? fun o => ∀ s ∈ o, ctx.Has s.attached := by
  have hvalue : Builds ctx [] (do return some (.valueSpec (← valueSpec doc))) Spec.outlines?
      fun o => ∀ s ∈ o, ctx.Has s.attached := by
    apply (builds_valueSpec hdoc).bind
    intro s hs
    refine .pure (.refl _) ?_
    rintro _ ⟨⟩
    exact hs
  cases kind with
  | imports =>
    apply (builds_importSpec hdoc).bind
    intro o ho
    refine .pure (.refl _) fun s hs => ?_
    obtain ⟨i, hi, rfl⟩ := Option.map_eq_some_iff.1 hs
    exact ho i hi
  | consts => exact hvalue
  | vars => exact hvalue
  | types =>
    apply (builds_typeSpec hdoc).bind
    intro s hs
    refine .pure (.refl _) ?_
    rintro _ ⟨⟩
    exact hs

/-- An entry between parentheses is built. -/
lemma builds_specMember (kind : DeclKind) : Builds ctx [] (specMember kind) Spec.outlines?
    fun o => ∀ s ∈ o, ctx.Has s.attached := by
  apply builds_docAbove
  intro doc hdoc
  apply (builds_spec kind hdoc).bind
  intro entry hentry
  apply quiet_finishStatement.bind_builds
  intro _
  exact .pure (.refl _) hentry

/-- The entries of a declaration are built. -/
lemma builds_specs (kind : DeclKind) {doc : Option CommentGroup} (hdoc : ctx.Has doc.toList)
    (grouped : Bool) : Builds ctx [] (specs kind doc grouped) (fun r => r.1.flatMap Spec.outlines?)
      fun r => ∀ o ∈ r.1, ∀ s ∈ o, ctx.Has s.attached := by
  rw [specs]
  split
  · apply (builds_membersUpTo (builds_specMember kind)).bind
    intro entries hentries
    apply (quiet_require _ _).bind_builds
    intro rParen
    exact .pure (.refl _) hentries
  · apply (builds_spec kind hdoc).bind
    intro entry hentry
    refine .pure (.of_eq (List.flatMap_singleton ..).symm) fun o ho => ?_
    cases List.mem_singleton.1 ho
    exact hentry

/-! ## Declarations -/

/-- An entry that could not be read has left no node. -/
lemma flatMap_outlines? (entries : List (Option Spec)) :
    entries.flatMap Spec.outlines? = (entries.filterMap id).flatMap Spec.outlines := by
  induction entries with
  | nil => rfl
  | cons o os ih =>
    cases o with
    | none => exact ih
    | some s =>
      rw [List.flatMap_cons, ih]
      rfl

/-- A declaration with entries is built. -/
lemma builds_genDecl (kind : DeclKind) : Builds ctx [] (genDecl kind)
    (fun d => [(Decl.gen d).outline]) fun d => ctx.Has (Decl.gen d).attached := by
  apply builds_docAbove
  intro doc hdoc
  apply quiet_take.bind_builds
  intro keyword
  apply (quiet_accept _).bind_builds
  intro lParen
  apply (builds_specs kind hdoc _).bind
  rintro ⟨entries, rParen⟩ hentries
  apply quiet_finishDecl.bind_builds
  intro _
  rw [flatMap_outlines?]
  refine builds_noteSince (fun span => rfl) fun span => hdoc.append (.flatMap fun s hs => ?_)
  obtain ⟨o, ho, hs⟩ := List.mem_filterMap.1 hs
  exact hentries o ho s hs

/-- A function declaration is built. -/
lemma builds_funcDecl : Builds ctx [] funcDecl (fun d => [(Decl.func d).outline])
    fun d => ctx.Has (Decl.func d).attached := by
  apply builds_docAbove
  intro doc hdoc
  apply quiet_take.bind_builds
  intro keyword
  apply (builds_whenever (looks_nextIs _) (builds_params buildsTypes_topType)).bind
  intro recv hrecv
  apply (quiet_requireIdent _).bind_builds
  intro name
  apply (builds_whenever (looks_nextIs _) builds_typeParams).bind
  intro tps htps
  apply (builds_signature buildsTypes_topType).bind
  intro s hs
  apply (quiet_whenever (looks_nextIs _) quiet_skipRun).bind_builds
  intro body
  apply (looks_spanSince _).quiet.bind_builds
  intro span
  apply quiet_finishDecl.bind_builds
  intro _
  apply builds_note
  · cases tps with
    | none => rfl
    | some tps => rfl
  · exact ((hdoc.append (.getD hrecv)).append (.getD htps)).append hs

/-- A declaration is built. -/
lemma builds_decl (t : Token) : Builds ctx [] (decl t) (fun d => [d.outline])
    fun d => ctx.Has d.attached := by
  have hgen (kind : DeclKind) : Builds ctx [] (do return Decl.gen (← genDecl kind))
      (fun d => [d.outline]) fun d => ctx.Has d.attached := by
    apply (builds_genDecl kind).bind
    intro d hd
    exact .pure (.refl _) hd
  rw [decl.eq_def]
  split
  · exact hgen _
  · exact hgen _
  · exact hgen _
  · exact hgen _
  · apply builds_funcDecl.bind
    intro d hd
    exact .pure (.refl _) hd
  · apply (quiet_complain _).bind_builds
    intro _
    apply looks_nextSpan.quiet.bind_builds
    intro start
    apply quiet_skipToDecl.bind_builds
    intro _
    exact builds_noteSince (fun span => rfl) fun span => Context.has_nil

/-- Declarations are built. -/
lemma builds_decls (fuel : Nat) : Builds ctx [] (decls fuel)
    (fun ds => ds.flatMap fun d => [d.outline]) fun ds => ∀ d ∈ ds, ctx.Has d.attached := by
  induction fuel with
  | zero => exact builds_giveUp
  | succ fuel ih =>
    apply quiet_peek.bind_builds
    intro t
    split
    · exact builds_nil
    · exact quiet_take.bind_builds fun _ => ih
    · next t _ =>
      apply (builds_decl t).bind
      intro d hd
      exact builds_cons (P := fun d : Decl => ctx.Has d.attached) hd ih

/-- The outlines of the comment groups of a file. -/
def groupOutlines (groups : List CommentGroup) : List Outline :=
  groups.map fun g => .node .commentGroup g.span []

/-- The comment groups are there before a file is read, and end up below it. -/
lemma builds_sourceFile : Builds ctx (groupOutlines ctx.groups) sourceFile (fun f => [f.outline])
    fun f => ctx.Has f.attached ∧ f.comments = ctx.groups := by
  apply builds_docAbove
  intro doc hdoc
  apply (quiet_requireSpan _ _).bind_builds
  intro package
  apply (quiet_requireIdent _).bind_builds
  intro name
  apply quiet_finishDecl.bind_builds
  intro _
  apply quiet_remaining.bind_builds
  intro n
  apply (builds_decls _).bind
  intro ds hds
  rw [← List.map_eq_flatMap]
  refine Builds.perm ?_ List.perm_append_comm
  intro c
  refine ⟨_, rfl, Assembles.single .sourceFile package (.refl _), ?_, rfl⟩
  exact hdoc.append (.flatMap hds)

end Parser

/-! ## Sources -/

/-- What a reader of comments notes are trees by themselves. -/
lemma assembles_groups (groups : List CommentGroup) :
    Assembles [] (groups.map fun g => ⟨.commentGroup, g.span⟩) (Parser.groupOutlines groups) := by
  induction groups using List.reverseRecOn with
  | nil => exact .done .nil
  | append_singleton groups g ih =>
    rw [List.map_append, Parser.groupOutlines, List.map_append]
    have hmid : (Parser.groupOutlines groups).Perm ([] ++ Parser.groupOutlines groups) := .refl _
    exact ih.node hmid (List.perm_append_singleton ..).symm

/-- The groups that a tree refers to are among those of the file. -/
lemma attached_parse (source : String) :
    ∀ g ∈ (parse source).file.file.attached, g ∈ (parse source).file.file.comments := by
  have hbuilds : Parser.Builds (.ofLexed source.toList (lex source.toList)) _ Parser.sourceFile
    _ _ := Parser.builds_sourceFile
  obtain ⟨-, -, -, hattached, -⟩ := hbuilds (.start (lex source.toList).clampedTokens)
  exact hattached

/-- The nodes noted while a text was read fill an arena; everything that the tree refers to is
there, and a walk down from the file meets the nodes as a visitor of the tree does, each of them
once. -/
structure VisitedOnce (d : Document) {n : Nat} (arena : Arena n) (root : Fin n) : Prop where
  allocated : arena.labels = d.built
  tree : arena.outlineAt root = d.file.outline
  once : (arena.walk root).Perm (List.range n)
  visits : (d.file.outline.visits 0).map (some ∘ Visit.label) =
    (arena.walk root).map (arena.labels[·]?)
  counts : ∀ kind, (d.file.outline.visits 0).countP (·.kind = kind) =
    d.built.countP (·.kind = kind)
  attached : ∀ g ∈ d.file.attached, g ∈ d.file.comments

/-- Whatever errors a source text has, its tree is made up of exactly the nodes that were allocated
for it, each after the nodes below it, and a visitor meets every one of them once. -/
theorem nodes_visited_once (source : String) :
    ∃ (n : Nat) (arena : Arena n) (root : Fin n), VisitedOnce (parse source).file arena root := by
  let ctx := Context.ofLexed source.toList (lex source.toList)
  have hbuilds : Parser.Builds ctx _ Parser.sourceFile _ _ := Parser.builds_sourceFile
  obtain ⟨log, hlog, hassembles, -⟩ := hbuilds (.start (lex source.toList).clampedTokens)
  have hbuilt : (parse source).file.built =
      ctx.groups.map (fun g => ⟨.commentGroup, g.span⟩) ++ log := by
    have hreverse := congrArg List.reverse hlog
    rw [List.reverse_append, List.reverse_reverse] at hreverse
    exact congrArg (ctx.groups.map (fun g => (⟨.commentGroup, g.span⟩ : NodeLabel)) ++ ·) hreverse
  obtain ⟨n, arena, root, hlabels, htree, hwalk⟩ :=
    ((assembles_groups ctx.groups).trans hassembles).exists_arena
  have hallocated : arena.labels = (parse source).file.built := hlabels.trans hbuilt.symm
  change _ = (parse source).file.file.outline at htree
  have hperm := Arena.perm_labels hwalk
  rw [htree, hallocated, ← Outline.label_visits 0] at hperm
  refine ⟨n, arena, root, hallocated, htree, hwalk, ?_, fun kind => ?_, attached_parse source⟩
  · rw [arena.labels_walk, htree, ← Outline.label_visits 0, List.map_map]
  · rw [← hperm.countP_eq, List.countP_map]
    rfl

end GoService.Source
