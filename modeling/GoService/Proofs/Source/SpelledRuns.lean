import GoService.Proofs.Source.CleanRuns
import GoService.Proofs.Source.SpelledTrees
import GoService.Source.Parser.Types

/-!
# Runs that read what they give

A clean run gives what the tokens spell that it has read. `Cursor.Yields` says this of the tokens
between two cursors and of a list of parts; lists of parts are put together as the runs that give
them (`Yields.trans`), and a node is made of the parts that were read since the cursor stood at its
first token (`Yields.node`).
-/

namespace GoService.Source

/-- A row of tokens spells an identifier. -/
abbrev SpellsIdent (row : List Placed) (i : Ident) : Prop :=
  Spells row i.spanTree

/-- An identifier at its token is spelled by it. -/
lemma spellsIdent {p : Placed} {word : Word} (hp : p.token = .ident word) :
    SpellsIdent [p] ⟨word, p.span⟩ := by
  have hspells : Spells [p] (.token p.token p.span) := .token (hp ▸ nofun)
  rwa [hp] at hspells

namespace Cursor

variable {α β : Type} {c c' c'' : Cursor} {p : Placed} {row : List Placed}

/-! ## What has been read -/

/-- Tokens in order stay in order. -/
lemma Steps.inOrder (h : c.Steps c') (horder : InOrder c.rest) : InOrder c'.rest := by
  obtain ⟨read, hrest, -⟩ := h.exists_read
  refine horder.sublist ?_
  rw [hrest]
  exact List.sublist_append_right ..

/-- The last token read is the one behind which the cursor stands. -/
lemma Steps.getLast?_read (h : c.Steps c') (hrest : c.rest = row ++ c'.rest) (hne : row ≠ []) :
    row.getLast?.map (·.span.stop) = some c'.prevEnd := by
  induction h generalizing row with
  | refl => exact absurd (List.self_eq_append_left.1 hrest) hne
  | @tail c₁ c' hsteps hstep ih =>
    obtain ⟨read, hread, -⟩ := Steps.exists_read hsteps
    cases hstep with
    | @read t ts h =>
      rw [hread, h, ← List.singleton_append, ← List.append_assoc] at hrest
      rw [← List.append_cancel_right hrest, List.getLast?_concat]
      rfl
    | report => exact ih hrest hne
    | note => exact ih hrest hne

/-- The next token, if there is one, stands at the given place. -/
def StartsAt (c : Cursor) (start : Span) : Prop :=
  ∀ p ∈ c.rest.head?, p.span = start

/-- A token that is taken is the one at which the cursor starts. -/
lemma Takes.startsAt (h : c.Takes p c') : c.StartsAt p.span := by
  intro q hq
  rw [h.rest] at hq
  cases hq
  rfl

/-- From the first token read to the last one. -/
lemma Steps.covers {start : Span} (h : c.Steps c') (hstart : c.StartsAt start)
    (horder : InOrder row) (hrest : c.rest = row ++ c'.rest) (hne : row ≠ []) :
    Covers row ⟨start.start, max c'.prevEnd start.start⟩ := by
  have hlast := h.getLast?_read hrest hne
  obtain ⟨first, others, rfl⟩ := List.exists_cons_of_ne_nil hne
  have hfirst : first.span = start := by
    apply hstart
    rw [hrest]
    rfl
  have hcovers : Covers (first :: others) ⟨start.start, c'.prevEnd⟩ :=
    ⟨by rw [← hfirst]; rfl, hlast⟩
  have hle : start.start ≤ c'.prevEnd := by
    rw [← hfirst]
    exact Nat.le_trans (horder.forward first List.mem_cons_self)
      (hcovers.le_stop horder List.mem_cons_self)
  rw [Nat.max_eq_left hle]
  exact hcovers

/-- Behind a token the cursor stands where it ends. -/
lemma Takes.prevEnd_eq (h : c.Takes p c') : c'.prevEnd = p.span.stop := by
  have hrest : c.rest = [p] ++ c'.rest := h.rest
  have hlast := h.steps.getLast?_read hrest (List.cons_ne_nil _ _)
  exact (Option.some.inj hlast).symm

/-! ## What is made of it -/

/-- In the tokens that were read between two cursors stand, one after another, rows for each of the
parts. -/
structure Yields (c : Cursor) (R : List Placed → α → Prop) (c' : Cursor) (as : List α) : Prop where
  steps : c.Steps c'
  row : InOrder c.rest → ∃ row, c.rest = row ++ c'.rest ∧ InOrder row ∧ InRows R row as

namespace Yields

variable {R : List Placed → α → Prop} {R' : List Placed → β → Prop} {as bs : List α}
  {cs : List β}

/-- Steps yield no parts. -/
lemma of_steps (h : c.Steps c') : c.Yields R c' [] := by
  refine ⟨h, fun horder => ?_⟩
  obtain ⟨read, hrest, -⟩ := h.exists_read
  rw [hrest] at horder
  exact ⟨read, hrest, horder.sublist (List.sublist_append_left ..), .nil read⟩

/-- On the spot there are no parts. -/
lemma refl : c.Yields R c [] :=
  of_steps .refl

/-- The parts of what is read first come before those of what is read next. -/
lemma trans (h : c.Yields R c' as) (h' : c'.Yields R c'' bs) : c.Yields R c'' (as ++ bs) := by
  refine ⟨h.steps.trans h'.steps, fun horder => ?_⟩
  obtain ⟨row, hrest, -, hrow⟩ := h.row horder
  obtain ⟨row', hrest', -, hrow'⟩ := h'.row (h.steps.inOrder horder)
  rw [hrest', ← List.append_assoc] at hrest
  rw [hrest] at horder
  exact ⟨row ++ row', hrest, horder.sublist (List.sublist_append_left ..), hrow.append hrow'⟩

/-- What is read behind the parts does not matter. -/
lemma andSteps (h : c.Yields R c' as) (h' : c'.Steps c'') : c.Yields R c'' as := by
  have htrans := h.trans (of_steps h')
  rwa [List.append_nil] at htrans

/-- What is read before the parts does not matter. -/
lemma afterSteps (h : c.Steps c') (h' : c'.Yields R c'' as) : c.Yields R c'' as :=
  (of_steps h).trans h'

/-- Parts are settled by the tokens from which they come. -/
lemma settle (h : c.Yields R c' as)
    (hR : ∀ row, InOrder row → InRows R row as → InRows R' row cs) : c.Yields R' c' cs := by
  refine ⟨h.steps, fun horder => ?_⟩
  obtain ⟨row, hrest, horder', hrow⟩ := h.row horder
  exact ⟨row, hrest, horder', hR row horder' hrow⟩

/-- Each part that is yielded may stand for several others. -/
lemma flatMap {f : α → List β} (h : c.Yields R c' as)
    (hf : ∀ row a, R row a → InRows R' row (f a)) : c.Yields R' c' (as.flatMap f) :=
  h.settle fun _ _ hrow => hrow.flatMap hf

/-- Each part that is yielded may stand for another one. -/
lemma map {f : α → β} (h : c.Yields R c' as) (hf : ∀ row a, R row a → R' row (f a)) :
    c.Yields R' c' (as.map f) :=
  h.settle fun _ _ hrow => hrow.map hf

end Yields

/-- A token that is taken yields what its row spells. -/
lemma Takes.yields {R : List Placed → α → Prop} {a : α} (h : c.Takes p c')
    (ha : InOrder [p] → R [p] a) : c.Yields R c' [a] := by
  refine ⟨h.steps, fun horder => ?_⟩
  rw [h.rest] at horder
  have hread : InOrder [p] :=
    horder.sublist (List.cons_sublist_cons.2 (List.nil_sublist _))
  exact ⟨[p], h.rest, hread, .single (ha hread)⟩

/-- A token that is taken yields itself. -/
lemma Takes.token {t : Token} (h : c.Takes p c') (hp : p.token = t) (ht : t ≠ .mark .semi) :
    c.Yields Spells c' [.token t p.span] := by
  subst hp
  exact h.yields fun _ => .token ht

/-- A literal that is taken yields itself. -/
lemma Takes.literal {text : String} (h : c.Takes p c')
    (hp : p.token = .stringLit text ∨ p.token = .rawStringLit text) :
    c.Yields Spells c' [.literal text p.span] :=
  h.yields fun _ => .literal hp

/-- An identifier that is taken yields itself. -/
lemma Takes.ident {word : Word} (h : c.Takes p c') (hp : p.token = .ident word) :
    c.Yields SpellsIdent c' [⟨word, p.span⟩] :=
  h.yields fun _ => spellsIdent hp

namespace Yields

/-- Things of which each is a place. -/
lemma trees (f : α → SpanTree) {as : List α} (h : c.Yields (fun row a => Spells row (f a)) c' as) :
    c.Yields Spells c' (as.map f) :=
  h.map fun _ _ ha => ha

/-- What yields the tree of a thing yields the thing. -/
lemma of_tree (f : α → SpanTree) {a : α} (h : c.Yields Spells c' [f a]) :
    c.Yields (fun row a => Spells row (f a)) c' [a] :=
  h.settle fun _ _ hrow => .of_map hrow

/-- Things of which each has several places. -/
lemma parts (f : α → List SpanTree) {as : List α}
    (h : c.Yields (fun row a => InRows Spells row (f a)) c' as) :
    c.Yields Spells c' (as.flatMap f) :=
  h.flatMap fun _ _ ha => ha

/-- What yields the trees of a thing yields the thing. -/
lemma of_parts (f : α → List SpanTree) {a : α} (h : c.Yields Spells c' (f a)) :
    c.Yields (fun row a => InRows Spells row (f a)) c' [a] :=
  h.settle fun _ _ hrow => .single hrow

/-- What yields identifiers yields their trees. -/
lemma idents {names : List Ident} (h : c.Yields SpellsIdent c' names) :
    c.Yields Spells c' (names.map Ident.spanTree) :=
  h.trees Ident.spanTree

variable {start : Span} {parts : List SpanTree}

/-- The parts of a node make up the node, which begins with the first token read. -/
lemma node (h : c.Yields Spells c' parts) (hne : parts ≠ []) (hstart : c.StartsAt start) :
    c.Yields Spells c' [.node ⟨start.start, max c'.prevEnd start.start⟩ parts] := by
  refine ⟨h.steps, fun horder => ?_⟩
  obtain ⟨row, hrest, horder', hrow⟩ := h.row horder
  have hcovers := h.steps.covers hstart horder' hrest
    (hrow.row_ne_nil hne fun _ _ => Spells.ne_nil)
  exact ⟨row, hrest, horder', .single (.node hcovers hrow)⟩

end Yields

/-- Tokens that are skipped are kept by their place. -/
lemma Steps.skipped {start : Span} (h : c.Steps c') (hstart : c.StartsAt start)
    (hlt : c'.rest.length < c.rest.length) :
    c.Yields Spells c' [.skipped ⟨start.start, max c'.prevEnd start.start⟩] := by
  refine ⟨h, fun horder => ?_⟩
  obtain ⟨read, hrest, -⟩ := h.exists_read
  have horder' : InOrder read := by
    rw [hrest] at horder
    exact horder.sublist (List.sublist_append_left ..)
  have hne : read ≠ [] := by
    intro hnil
    rw [hrest, hnil] at hlt
    exact Nat.lt_irrefl _ hlt
  exact ⟨read, hrest, horder', .single (.skipped (h.covers hstart horder' hrest hne))⟩

end Cursor

namespace Parser

variable {α β : Type} {ctx : Context} {tokens : List Placed} {c : Cursor} {K : Prop}

/-! ## Rules -/

section

variable {m : Parser α} {f : α → Parser β} {P : α → Cursor → Prop} {Q : β → Cursor → Prop}

/-- What is known of every run is known of a clean one. -/
lemma Runs.cleanRun (hm : Runs ctx c m P) : CleanRun ctx tokens K c m P :=
  fun _ => hm.mono fun _ _ _ hP _ _ => hP

/-- A part that is known of every run, and of which nothing is kept. -/
lemma CleanRun.after (hm : Runs ctx c m P)
    (hf : ∀ a c', c.Steps c' → P a c' → CleanRun ctx tokens K c' (f a) Q) :
    CleanRun ctx tokens K c (m >>= f) Q := by
  refine CleanRun.bindRuns (P := fun _ _ => True) hm.trivial.cleanRun hm fun a c' hsteps hP => ?_
  exact (hf a c' hsteps hP).assume And.left

/-- The cursor starts at the place of the next token. -/
lemma startsAt_nextSpan (ctx : Context) (c : Cursor) : c.StartsAt (nextSpan ctx c).1 := by
  intro p hp
  obtain ⟨rest, pos, prevEnd, diagnostics, built, gaveUp⟩ := c
  cases rest with
  | nil => cases hp
  | cons t ts =>
    cases hp
    rfl

/-- What is read from here on begins at the next token. -/
lemma cleanRun_startsAt {f : Span → Parser β}
    (hf : ∀ start, c.StartsAt start → CleanRun ctx tokens K c (f start) Q) :
    CleanRun ctx tokens K c (nextSpan >>= f) Q :=
  looks_nextSpan.cleanRun_fst (hf _ (startsAt_nextSpan ctx c))

/-- What is left to do once all parts of a node are read. -/
lemma cleanRun_node {kind : NodeKind} {start : Span} {build : Span → α}
    (h : K → ∀ c', c.Steps c' → P (build ⟨start.start, max c'.prevEnd start.start⟩) c') :
    CleanRun ctx tokens K c (do return build (← noteSince kind start)) P := by
  have hstep : c.Steps
      { c with built := ⟨kind, ⟨start.start, max c.prevEnd start.start⟩⟩ :: c.built } :=
    .single (.note c _)
  exact fun _ => ⟨hstep, fun _ hK => h hK _ hstep⟩

end

/-! ## Reading tokens -/

section

variable {t : Token} {what : String}

/-- In a clean run a token that has to be there is taken. -/
lemma cleanRun_require : CleanRun ctx tokens K c (require t what)
    fun o c' => ∃ p, c.Takes p c' ∧ p.token = t ∧ o = some p.span := by
  apply cleanRun_accepts
  · intro p c' h hp
    exact .pure fun _ => ⟨p, h, hp, rfl⟩
  · exact (cleanRun_complain _).never fun _ c' => .pure True.intro

/-- A token that is required for its place is taken. -/
lemma cleanRun_requireTaken : CleanRun ctx tokens K c (requireSpan t what)
    fun span c' => ∃ p, c.Takes p c' ∧ p.token = t ∧ span = p.span := by
  apply cleanRun_require.bind
  intro o c' _
  cases o with
  | none => exact .of_false looks_nextSpan.runs.trivial fun ⟨_, p, _, _, hp⟩ => nomatch hp
  | some span => exact CleanRun.pure fun ⟨_, p, h, hp, hspan⟩ => ⟨p, h, hp, Option.some.inj hspan⟩

/-- A token that is required for its place yields itself. -/
lemma cleanRun_requireSpan (ht : t ≠ .mark .semi) : CleanRun ctx tokens K c (requireSpan t what)
    fun span c' => c.Yields Spells c' [.token t span] := by
  apply cleanRun_requireTaken.mono
  intro span c' _ htaken
  obtain ⟨p, h, hp, rfl⟩ := htaken
  exact h.token hp ht

/-- An identifier that is ahead is taken. -/
lemma cleanRun_ident {f : Ident → Parser β} {word : Word} {Q : β → Cursor → Prop}
    (h : c.ahead 0 = some (.ident word))
    (hf : ∀ p c', c.Takes p c' → p.token = .ident word →
      CleanRun ctx tokens K c' (f ⟨word, p.span⟩) Q) :
    CleanRun ctx tokens K c (requireIdent what >>= f) Q := by
  have hident : requireIdent what ctx c = (do return ⟨word, ← take⟩ : Parser Ident) ctx c := by
    rw [requireIdent, peek_bind, h]
  refine (cleanRun_takes (f := fun span => f ⟨word, span⟩) h hf).congr ?_
  show f (requireIdent what ctx c).1 ctx (requireIdent what ctx c).2 = _
  rw [hident]
  rfl

/-- An identifier that is required yields itself. -/
lemma cleanRun_requireIdent : CleanRun ctx tokens K c (requireIdent what)
    fun name c' => c.Yields SpellsIdent c' [name] := by
  apply cleanRun_peek
  split
  · next word ht =>
    apply cleanRun_takes ht
    intro p c' h hp
    exact CleanRun.pure fun _ => h.ident hp
  · apply (cleanRun_complain _).never
    intro _ c'
    apply looks_nextSpan.bind_runs
    intro span
    exact .pure True.intro

/-- A bracketed run is skipped as a whole. -/
lemma cleanRun_skipRun {t : Token} (ht : c.ahead 0 = some t) (hopening : t.isOpening) :
    CleanRun ctx tokens K c skipRun fun span c' => c.Yields Spells c' [.skipped span] := by
  obtain ⟨p, ps, hrest, rfl⟩ := Cursor.exists_rest ht
  apply cleanRun_startsAt
  intro start hstart
  apply cleanRun_get
  -- the opening bracket is read in any case, so the skipped run is not empty
  have hlength : balancedLength 0 c.rest =
      ((balancedLength 1 ps).1 + 1, (balancedLength 1 ps).2) := by
    rw [hrest, balancedLength, if_pos hopening]
  rw [hlength]
  have hspan {c' : Cursor} (hsteps : c.Steps c') (hlt : c'.rest.length < c.rest.length) :
      CleanRun ctx tokens K c' (spanSince start)
        fun span c' => c.Yields Spells c' [.skipped span] :=
    fun _ => ⟨.refl, fun _ _ => hsteps.skipped hstart hlt⟩
  have hadvance : Runs ctx c (modify fun c => c.advance ((balancedLength 1 ps).1 + 1))
      fun _ c' => c'.rest.length < c.rest.length :=
    ⟨c.steps_advance _, Cursor.length_advance_succ _ (Cursor.rest_ne_nil ht)⟩
  apply CleanRun.after hadvance
  intro _ c₁ h₁ hlt
  dsimp only
  split
  · exact (cleanRun_report _ _).never fun _ c₂ => (looks_spanSince start).runs.trivial
  · exact hspan h₁ hlt

end

/-! ## Loops -/

section

variable {item : Parser α} {R : List Placed → α → Prop} {stop : Parser Bool}
  {separator closer : Mark}

/-- An item that may be missing is yielded if it is there. -/
lemma yields_whenever {cond : Parser Bool} (hcond : Looks cond)
    (hitem : (cond ctx c).1 = true → CleanRun ctx tokens K c item fun a c' => c.Yields R c' [a]) :
    CleanRun ctx tokens K c (whenever cond item) fun o c' => c.Yields R c' o.toList := by
  apply hcond.cleanRun_fst
  split
  · next h =>
    apply (hitem h).bind
    intro a c' _
    exact CleanRun.pure And.right
  · exact CleanRun.pure fun _ => .refl

/-- Items between separators are yielded one after another, for any bound. -/
lemma yields_separated (hstop : Looks stop)
    (hitem : ∀ c, CleanRun ctx tokens True c item fun a c' => c.Yields R c' [a]) {fuel : Nat}
    (h : c.rest.length < fuel) :
    CleanRun ctx tokens K c (separated stop separator item fuel) fun as c' =>
      c.Yields R c' as ∧ ((stop ctx c).1 = false → as ≠ []) := by
  induction fuel generalizing c K with
  | zero => exact absurd h (Nat.not_lt_zero _)
  | succ fuel ih =>
    apply hstop.cleanRun_fst
    cases (stop ctx c).1 with
    | true => exact CleanRun.pure fun _ => ⟨.refl, nofun⟩
    | false =>
      apply ((hitem c).assume fun _ => True.intro).bind
      intro a c₁ h₁
      have hle := h₁.length_le
      apply cleanRun_accepts
      · intro p c₂ h₂ _
        have hlt := Cursor.length_lt h₂.rest
        apply (ih (by omega)).bind
        intro as c₃ _
        apply CleanRun.pure
        intro hK
        obtain ⟨⟨-, ha⟩, has, -⟩ := hK
        exact ⟨(ha.andSteps h₂.steps).trans has, fun _ => List.cons_ne_nil _ _⟩
      · exact CleanRun.pure fun hK => ⟨hK.2, fun _ => List.cons_ne_nil _ _⟩

/-- Items between separators are yielded one after another. -/
lemma yields_separatedBy (hstop : Looks stop)
    (hitem : ∀ c, CleanRun ctx tokens True c item fun a c' => c.Yields R c' [a]) :
    CleanRun ctx tokens K c (separatedBy stop separator item) fun as c' =>
      c.Yields R c' as ∧ ((stop ctx c).1 = false → as ≠ []) := by
  apply cleanRun_remaining
  exact yields_separated hstop hitem (Nat.lt_succ_self _)

/-- Items up to a closing mark are yielded one after another, for any bound. -/
lemma yields_members
    (hitem : ∀ c, CleanRun ctx tokens True c item fun a c' => c.Yields R c' [a]) {fuel : Nat}
    (h : c.rest.length < fuel) :
    CleanRun ctx tokens K c (members closer item fuel) fun as c' => c.Yields R c' as := by
  induction fuel generalizing c K with
  | zero => exact absurd h (Nat.not_lt_zero _)
  | succ fuel ih =>
    apply cleanRun_peek
    cases ht : c.ahead 0 with
    | none => exact CleanRun.pure fun _ => .refl
    | some t =>
      dsimp only
      split
      · exact CleanRun.pure fun _ => .refl
      · split
        · apply cleanRun_takes ht
          intro p c₁ h₁ _
          have hlt := Cursor.length_lt h₁.rest
          exact (ih (by omega)).mono fun _ _ _ has => .afterSteps h₁.steps has
        · apply cleanRun_position
          apply ((hitem c).assume fun _ => True.intro).bind
          intro a c₁ h₁
          -- a member that reads nothing is skipped, so there is always less left to read
          apply CleanRun.after (runs_skipIfStuck_of_ahead h₁ ht)
          intro _ c₂ h₂ hlt
          apply (ih (c := c₂) (by omega)).bind
          intro as c₃ _
          apply CleanRun.pure
          intro hK
          obtain ⟨⟨-, ha⟩, has⟩ := hK
          exact (ha.andSteps h₂).trans has

/-- Items up to a closing mark are yielded one after another. -/
lemma yields_membersUpTo
    (hitem : ∀ c, CleanRun ctx tokens True c item fun a c' => c.Yields R c' [a]) :
    CleanRun ctx tokens K c (membersUpTo closer item) fun as c' => c.Yields R c' as := by
  apply cleanRun_remaining
  exact yields_members hitem (Nat.lt_succ_self _)

end

end Parser

end GoService.Source
