import GoService.Proofs.Source.Arenas
import GoService.Proofs.Source.Runs

/-!
# What parsers build

`Builds` says what becomes of the trees at hand while a parser runs from wherever it stands: with
the nodes that it notes they are put together to the trees of its result. Nothing that was noted
before is lost or used again, as the trees at hand are all that a new node can take. The rules are
those of runs (`Runs`), but loops need no bound here: a loop that is cut short gives what it has
built.
-/

namespace GoService.Source.Parser

variable {α β : Type} {ctx : Context}

/-- A parser that notes no node. -/
def Quiet (m : Parser α) : Prop :=
  ∀ ctx c, (m ctx c).2.built = c.built

/-- From the trees at hand and the nodes that it notes a parser puts together the trees of its
result, which fits. -/
def Builds (ctx : Context) (held : List Outline) (m : Parser α) (trees : α → List Outline)
    (post : α → Prop) : Prop :=
  ∀ c, ∃ log, (m ctx c).2.built = log.reverse ++ c.built ∧
    Assembles held log (trees (m ctx c).1) ∧ post (m ctx c).1

section

variable {m : Parser α} {f : α → Parser β} {held held' : List Outline} {trees : α → List Outline}
  {trees' : β → List Outline} {P P' : α → Prop} {Q : β → Prop}

/-! ## Parsers that note nothing -/

/-- What leaves the cursor as it is notes no node. -/
lemma Looks.quiet (hm : Looks m) : Quiet m := by
  intro ctx c
  rw [hm ctx c]

/-- Steps that note no node note none together. -/
lemma Quiet.bind (hm : Quiet m) (hf : ∀ a, Quiet (f a)) : Quiet (m >>= f) :=
  fun ctx c => (hf _ ctx _).trans (hm ctx c)

/-- A result that is at hand notes no node. -/
lemma quiet_pure (a : α) : Quiet (pure a : Parser α) :=
  fun _ _ => rfl

/-- What a parser that notes nothing gives may matter. -/
lemma Quiet.bind_builds_of (hm : Quiet m) (hP : ∀ c, P (m ctx c).1)
    (hf : ∀ a, P a → Builds ctx held (f a) trees' Q) : Builds ctx held (m >>= f) trees' Q := by
  intro c
  obtain ⟨log, hlog, h⟩ := hf _ (hP c) (m ctx c).2
  refine ⟨log, ?_, h⟩
  rw [hm ctx c] at hlog
  exact hlog

/-- A step that notes no node may come first. -/
lemma Quiet.bind_builds (hm : Quiet m) (hf : ∀ a, Builds ctx held (f a) trees' Q) :
    Builds ctx held (m >>= f) trees' Q :=
  hm.bind_builds_of (P := fun _ => True) (fun _ => True.intro) fun a _ => hf a

/-! ## Rules -/

/-- A result that is at hand has the trees at hand. -/
lemma Builds.pure {a : α} (htrees : held.Perm (trees a)) (h : P a) :
    Builds ctx held (pure a) trees P :=
  fun _ => ⟨[], rfl, .done htrees, h⟩

/-- The order of the trees at hand does not matter. -/
lemma Builds.perm (hm : Builds ctx held m trees P) (h : held'.Perm held) :
    Builds ctx held' m trees P := by
  intro c
  obtain ⟨log, hlog, hassembles, hP⟩ := hm c
  exact ⟨log, hlog, Assembles.trans (.done h) hassembles, hP⟩

/-- What a parser does not need stays at hand for what comes after it. -/
lemma Builds.bindBeside (hm : Builds ctx held m trees P)
    (hf : ∀ a, P a → Builds ctx (held' ++ trees a) (f a) trees' Q) :
    Builds ctx (held' ++ held) (m >>= f) trees' Q := by
  intro c
  obtain ⟨log, hlog, hassembles, hP⟩ := hm c
  obtain ⟨log', hlog', hassembles', hQ⟩ := hf _ hP (m ctx c).2
  refine ⟨log ++ log', ?_, (hassembles.frame held').trans hassembles', hQ⟩
  rw [List.reverse_append, List.append_assoc, ← hlog]
  exact hlog'

/-- What takes the trees of a result as those at hand may follow. -/
lemma Builds.andThen (hm : Builds ctx held m trees P)
    (hf : ∀ a, P a → Builds ctx (trees a) (f a) trees' Q) :
    Builds ctx held (m >>= f) trees' Q := by
  rw [← List.nil_append held]
  exact hm.bindBeside hf

/-- What follows has the trees of the result beside those at hand. -/
lemma Builds.bind (hm : Builds ctx [] m trees P)
    (hf : ∀ a, P a → Builds ctx (held ++ trees a) (f a) trees' Q) :
    Builds ctx held (m >>= f) trees' Q := by
  have h := hm.bindBeside hf
  rw [List.append_nil] at h
  exact h

/-- Trees may be written in another way, and more may be known of the result than is needed. -/
lemma Builds.mono {trees₂ : α → List Outline} (hm : Builds ctx held m trees P)
    (htrees : ∀ a, trees₂ a = trees a) (h : ∀ a, P a → P' a) : Builds ctx held m trees₂ P' := by
  intro c
  obtain ⟨log, hlog, hassembles, hP⟩ := hm c
  exact ⟨log, hlog, htrees _ ▸ hassembles, h _ hP⟩

end

/-! ## Steps of parsers -/

/-- To look at the cursor notes no node. -/
lemma quiet_get : Quiet (get : Parser Cursor) :=
  fun _ _ => rfl

/-- To ask for the position notes no node. -/
lemma quiet_position : Quiet position :=
  fun _ _ => rfl

/-- To ask for what remains notes no node. -/
lemma quiet_remaining : Quiet remaining :=
  fun _ _ => rfl

/-- To look ahead notes no node. -/
lemma quiet_peekAt (n : Nat) : Quiet (peekAt n) :=
  fun _ _ => rfl

/-- To look at the next token notes no node. -/
lemma quiet_peek : Quiet peek :=
  quiet_peekAt 0

/-- To read a token leaves the nodes. -/
lemma built_next (c : Cursor) : c.next.built = c.built := by
  obtain ⟨rest, pos, prevEnd, diagnostics, built, gaveUp⟩ := c
  cases rest with
  | nil => rfl
  | cons => rfl

/-- To read tokens leaves the nodes. -/
lemma built_advance (n : Nat) (c : Cursor) : (c.advance n).built = c.built := by
  induction n generalizing c with
  | zero => rfl
  | succ n ih => rw [Cursor.advance, ih, built_next]

/-- To take the next token notes no node. -/
lemma quiet_take : Quiet take :=
  looks_nextSpan.quiet.bind fun _ => Quiet.bind (fun _ c => built_next c) fun _ => quiet_pure _

/-- A report notes no node. -/
lemma quiet_report (span : Span) (problem : Problem) : Quiet (report span problem) :=
  fun _ _ => rfl

/-- A complaint notes no node. -/
lemma quiet_complain (what : String) : Quiet (complain what) :=
  looks_nextSpan.quiet.bind fun _ => looks_found.quiet.bind fun _ => quiet_report _ _

/-- To accept a token notes no node. -/
lemma quiet_accept (t : Token) : Quiet (accept t) := by
  apply quiet_peek.bind
  intro t'
  split
  · exact quiet_take.bind fun _ => quiet_pure _
  · exact quiet_pure _

/-- To require a token notes no node. -/
lemma quiet_require (t : Token) (what : String) : Quiet (require t what) := by
  apply (quiet_accept t).bind
  intro o
  cases o with
  | some span => exact quiet_pure _
  | none => exact (quiet_complain what).bind fun _ => quiet_pure _

/-- To require a token for its place notes no node. -/
lemma quiet_requireSpan (t : Token) (what : String) : Quiet (requireSpan t what) := by
  apply (quiet_require t what).bind
  intro o
  cases o with
  | some span => exact quiet_pure _
  | none => exact looks_nextSpan.quiet

/-- To require an identifier notes no node. -/
lemma quiet_requireIdent (what : String) : Quiet (requireIdent what) := by
  apply quiet_peek.bind
  intro t
  split
  · exact quiet_take.bind fun _ => quiet_pure _
  · exact (quiet_complain what).bind fun _ => looks_nextSpan.quiet.bind fun _ => quiet_pure _

/-- The end of a statement notes no node. -/
lemma quiet_endStatement : Quiet endStatement := by
  apply quiet_peek.bind
  intro t
  split
  · exact quiet_take.bind fun _ => quiet_pure _
  · exact quiet_pure _
  · exact quiet_pure _
  · exact quiet_pure _
  · exact (quiet_complain _).bind fun _ => quiet_pure _

/-- To pass over tokens notes no node. -/
lemma quiet_advance (n : Cursor → Nat) : Quiet (modify fun c => c.advance (n c)) :=
  fun _ c => built_advance (n c) c

/-- To skip a run notes no node. -/
lemma quiet_skipRun : Quiet skipRun := by
  apply looks_nextSpan.quiet.bind
  intro start
  apply quiet_get.bind
  intro c
  obtain ⟨n, left⟩ := balancedLength 0 c.rest
  apply (quiet_advance fun _ => n).bind
  intro _
  dsimp only
  split
  · exact (quiet_report start _).bind fun _ => (looks_spanSince start).quiet
  · exact (looks_spanSince start).quiet

/-- To skip a statement notes no node. -/
lemma quiet_skipStatement : Quiet skipStatement :=
  looks_nextSpan.quiet.bind fun start =>
    (quiet_advance fun c => terminatorDistance 0 c.rest).bind fun _ => (looks_spanSince start).quiet

/-- To skip to the next declaration notes no node. -/
lemma quiet_skipToDecl : Quiet skipToDecl := by
  rintro ctx ⟨rest, pos, prevEnd, diagnostics, built, gaveUp⟩
  cases rest with
  | nil => rfl
  | cons t ts => exact built_advance _ _

/-- The end of a declaration notes no node. -/
lemma quiet_finishDecl : Quiet finishDecl := by
  apply quiet_endStatement.bind
  intro ended
  cases ended with
  | true => exact quiet_pure _
  | false => exact quiet_skipToDecl

/-- The end of a statement, with what is left of it, notes no node. -/
lemma quiet_finishStatement : Quiet finishStatement := by
  apply quiet_endStatement.bind
  intro ended
  cases ended with
  | true => exact quiet_pure _
  | false => exact quiet_skipStatement.bind fun _ => quiet_pure _

/-- A complaint at a place that was not left notes no node. -/
lemma quiet_complainIfStuck (before : Nat) (what : String) :
    Quiet (complainIfStuck before what) := by
  apply quiet_position.bind
  intro pos
  split
  · exact quiet_complain what
  · exact quiet_pure _

/-- To skip at a place that was not left notes no node. -/
lemma quiet_skipIfStuck (before : Nat) : Quiet (skipIfStuck before) := by
  apply quiet_position.bind
  intro pos
  split
  · exact quiet_take.bind fun _ => quiet_pure _
  · exact quiet_pure _

/-! ## Nodes -/

section

variable {held : List Outline} {trees : α → List Outline} {P : α → Prop}

/-- A node takes all trees at hand. -/
lemma builds_note {kind : NodeKind} {span : Span} {a : α}
    (htree : trees a = [.node kind span held]) (h : P a) :
    Builds ctx held (do note kind span; return a) trees P := by
  refine fun c => ⟨[⟨kind, span⟩], rfl, ?_, h⟩
  have hsingle := Assembles.single kind span (.refl held)
  rw [← htree] at hsingle
  exact hsingle

/-- A node that is noted last has the trees at hand as its children. -/
lemma builds_noteSince {kind : NodeKind} {start : Span} {build : Span → α}
    (htree : ∀ span, trees (build span) = [.node kind span held]) (h : ∀ span, P (build span)) :
    Builds ctx held (do return build (← noteSince kind start)) trees P := by
  refine fun c => ⟨[⟨kind, (spanSince start ctx c).1⟩], rfl, ?_, h _⟩
  have hsingle := Assembles.single kind (spanSince start ctx c).1 (.refl held)
  rw [← htree] at hsingle
  exact hsingle

end

/-! ## Loops -/

section

variable {item : Parser α} {trees : α → List Outline} {P : α → Prop}

/-- No item has no tree. -/
lemma builds_nil : Builds ctx [] (pure []) (fun as : List α => as.flatMap trees)
    fun as => ∀ a ∈ as, P a :=
  .pure .nil fun _ ha => nomatch ha

/-- To give up leaves no item and no tree. -/
lemma builds_giveUp : Builds ctx [] giveUp (fun as : List α => as.flatMap trees)
    fun as => ∀ a ∈ as, P a :=
  fun _ => ⟨[], rfl, .done .nil, fun _ ha => nomatch ha⟩

/-- An item stands before those that are read after it. -/
lemma builds_cons {more : Parser (List α)} {a : α} (ha : P a)
    (hmore : Builds ctx [] more (fun as => as.flatMap trees) fun as => ∀ a ∈ as, P a) :
    Builds ctx (trees a) (do return a :: (← more)) (fun as => as.flatMap trees)
      fun as => ∀ a ∈ as, P a := by
  apply hmore.bind
  intro as has
  exact .pure (.of_eq List.flatMap_cons.symm) (List.forall_mem_cons.2 ⟨ha, has⟩)

/-- An item that may be missing has its own trees, or none. -/
lemma builds_whenever {cond : Parser Bool} (hcond : Looks cond)
    (hitem : Builds ctx [] item trees P) : Builds ctx [] (whenever cond item)
      (fun o => (o.map trees).getD []) fun o => ∀ a ∈ o, P a := by
  apply hcond.quiet.bind_builds
  intro b
  cases b with
  | false => exact .pure (.refl _) fun _ ha => nomatch ha
  | true =>
    apply hitem.bind
    intro a ha
    refine .pure (.refl _) ?_
    rintro _ ⟨⟩
    exact ha

/-- An item that may be missing notes no node if it never does. -/
lemma quiet_whenever {cond : Parser Bool} (hcond : Looks cond) (hitem : Quiet item) :
    Quiet (whenever cond item) := by
  apply hcond.quiet.bind
  intro b
  cases b with
  | false => exact quiet_pure _
  | true => exact hitem.bind fun _ => quiet_pure _

/-- Items between separators note no node if none of them does. -/
lemma quiet_separatedBy {stop : Parser Bool} {separator : Mark} (hstop : Looks stop)
    (hitem : Quiet item) : Quiet (separatedBy stop separator item) := by
  have hloop (fuel : Nat) : Quiet (separated stop separator item fuel) := by
    induction fuel with
    | zero => exact fun _ _ => rfl
    | succ fuel ih =>
      apply hstop.quiet.bind
      intro stops
      cases stops with
      | true => exact quiet_pure _
      | false =>
        apply hitem.bind
        intro a
        apply (quiet_accept _).bind
        intro o
        cases o with
        | some span => exact ih.bind fun _ => quiet_pure _
        | none => exact quiet_pure _
  exact quiet_remaining.bind fun _ => hloop _

/-- Items between separators have the trees of each, for any bound. -/
lemma builds_separated {stop : Parser Bool} {separator : Mark} (hstop : Looks stop)
    (hitem : Builds ctx [] item trees P) (fuel : Nat) :
    Builds ctx [] (separated stop separator item fuel) (fun as => as.flatMap trees)
      fun as => ∀ a ∈ as, P a := by
  induction fuel with
  | zero => exact builds_giveUp
  | succ fuel ih =>
    apply hstop.quiet.bind_builds
    intro stops
    cases stops with
    | true => exact builds_nil
    | false =>
      apply hitem.bind
      intro a ha
      apply (quiet_accept _).bind_builds
      intro o
      cases o with
      | some span => exact builds_cons ha ih
      | none => exact builds_cons ha builds_nil

/-- Items between separators have the trees of each. -/
lemma builds_separatedBy {stop : Parser Bool} {separator : Mark} (hstop : Looks stop)
    (hitem : Builds ctx [] item trees P) :
    Builds ctx [] (separatedBy stop separator item) (fun as => as.flatMap trees)
      fun as => ∀ a ∈ as, P a :=
  quiet_remaining.bind_builds fun _ => builds_separated hstop hitem _

/-- Items up to a closing mark have the trees of each, for any bound. -/
lemma builds_members {closer : Mark} (hitem : Builds ctx [] item trees P) (fuel : Nat) :
    Builds ctx [] (members closer item fuel) (fun as => as.flatMap trees)
      fun as => ∀ a ∈ as, P a := by
  induction fuel with
  | zero => exact builds_giveUp
  | succ fuel ih =>
    apply quiet_peek.bind_builds
    intro t
    cases t with
    | none => exact builds_nil
    | some t =>
      dsimp only
      split
      · exact builds_nil
      · split
        · exact quiet_take.bind_builds fun _ => ih
        · apply quiet_position.bind_builds
          intro before
          apply hitem.bind
          intro a ha
          exact (quiet_skipIfStuck before).bind_builds fun _ => builds_cons ha ih

/-- Items up to a closing mark have the trees of each. -/
lemma builds_membersUpTo {closer : Mark} (hitem : Builds ctx [] item trees P) :
    Builds ctx [] (membersUpTo closer item) (fun as => as.flatMap trees)
      fun as => ∀ a ∈ as, P a :=
  quiet_remaining.bind_builds fun _ => builds_members hitem _

end

end GoService.Source.Parser
