import GoService.Source.Parser.Cursor
import Mathlib.Logic.Relation

/-!
# Runs of parsers

What a parser does to the cursor comes in steps: it reads a token that is there, reports a problem
or notes a node. `Runs` says that a parser gets from a cursor to the one it leaves in such steps,
and what holds afterwards. A run never gives up, as no step does; so a loop runs only if its number
of steps is never used up. This is the case as soon as there are more steps than tokens ahead, since
every round of a loop reads a token (`runs_separatedBy`, `runs_membersUpTo`).
-/

namespace GoService.Source

/-! ## Steps -/

namespace Cursor

/-- One step of a parser. -/
inductive Step : Cursor → Cursor → Prop where
  | read {c : Cursor} {t : Placed} {ts : List Placed} (h : c.rest = t :: ts) :
    Step c { c with rest := ts, pos := c.pos + 1, prevEnd := t.span.stop }
  | report (c : Cursor) (d : Diagnostic) : Step c { c with diagnostics := d :: c.diagnostics }
  | note (c : Cursor) (label : NodeLabel) : Step c { c with built := label :: c.built }

/-- Steps one after another. -/
abbrev Steps : Cursor → Cursor → Prop :=
  Relation.ReflTransGen Step

variable {c c' : Cursor}

/-- To read a token is a step, or none at the end. -/
lemma steps_next (c : Cursor) : c.Steps c.next := by
  rw [next]
  split
  · exact .refl
  · next h => exact .single (.read h)

/-- To pass over tokens takes steps. -/
lemma steps_advance (n : Nat) (c : Cursor) : c.Steps (c.advance n) := by
  induction n generalizing c with
  | zero => exact .refl
  | succ n ih => exact (steps_next c).trans (ih c.next)

/-- To read a token leaves the others. -/
lemma rest_next (c : Cursor) : c.next.rest = c.rest.drop 1 := by
  obtain ⟨rest, pos, prevEnd, diagnostics, built, gaveUp⟩ := c
  cases rest <;> rfl

/-- To pass over tokens leaves the others. -/
lemma rest_advance (n : Nat) (c : Cursor) : (c.advance n).rest = c.rest.drop n := by
  induction n generalizing c with
  | zero => rfl
  | succ n ih =>
    rw [advance, ih, rest_next, List.drop_drop, Nat.add_comm]

/-- To read a token leaves fewer. -/
lemma length_next (h : c.rest ≠ []) : c.next.rest.length < c.rest.length := by
  rw [next]
  split
  · next hnil => exact absurd hnil h
  · next t ts hcons =>
    rw [hcons]
    exact Nat.lt_succ_self _

/-- What has been read stands before what is ahead. -/
lemma Steps.exists_read (h : c.Steps c') :
    ∃ read, c.rest = read ++ c'.rest ∧ c'.pos = c.pos + read.length := by
  induction h with
  | refl => exact ⟨[], rfl, rfl⟩
  | tail _ hstep ih =>
    obtain ⟨read, hrest, hpos⟩ := ih
    cases hstep with
    | @read t ts h =>
      refine ⟨read ++ [t], ?_, ?_⟩
      · rw [hrest, h, List.append_assoc]
        rfl
      · rw [hpos, List.length_append, Nat.add_assoc]
        rfl
    | report => exact ⟨read, hrest, hpos⟩
    | note => exact ⟨read, hrest, hpos⟩

/-- To pass over tokens moves the position by as many as there are. -/
lemma pos_advance (n : Nat) (c : Cursor) : (c.advance n).pos = c.pos + min n c.rest.length := by
  obtain ⟨read, hrest, hpos⟩ := (steps_advance n c).exists_read
  have hlength := congrArg List.length hrest
  rw [rest_advance, List.length_append, List.length_drop] at hlength
  omega

/-- Steps never leave more tokens. -/
lemma Steps.length_le (h : c.Steps c') : c'.rest.length ≤ c.rest.length := by
  obtain ⟨read, hrest, -⟩ := h.exists_read
  rw [hrest, List.length_append]
  exact Nat.le_add_left ..

/-- To pass over one token or more leaves fewer. -/
lemma length_advance_succ (n : Nat) (h : c.rest ≠ []) :
    (c.advance (n + 1)).rest.length < c.rest.length :=
  Nat.lt_of_le_of_lt (steps_advance n c.next).length_le (length_next h)

/-- A parser that stands where it stood has read nothing. -/
lemma Steps.rest_eq (h : c.Steps c') (hpos : c'.pos = c.pos) : c'.rest = c.rest := by
  obtain ⟨read, hrest, hlength⟩ := h.exists_read
  have hread : read = [] := by
    apply List.eq_nil_of_length_eq_zero
    omega
  rw [hrest, hread, List.nil_append]

/-- Where the position is another one, fewer tokens are left. -/
lemma Steps.length_lt (h : c.Steps c') (hpos : c'.pos ≠ c.pos) :
    c'.rest.length < c.rest.length := by
  obtain ⟨read, hrest, hlength⟩ := h.exists_read
  rw [hrest, List.length_append]
  omega

/-- Steps never give up. -/
lemma Steps.gaveUp_eq (h : c.Steps c') : c'.gaveUp = c.gaveUp := by
  induction h with
  | refl => rfl
  | tail _ hstep ih =>
    cases hstep with
    | read => exact ih
    | report => exact ih
    | note => exact ih

/-- The cursor stands among the given tokens or at their end. -/
structure Within (tokens : List Placed) (c : Cursor) : Prop where
  pos : c.pos ≤ tokens.length
  rest : c.rest = tokens.drop c.pos
  prevEnd : c.prevEnd = ((tokens.take c.pos).getLast?.map fun t => t.span.stop).getD 0

/-- The cursor at the start is within the tokens. -/
lemma within_start (tokens : List Placed) : Within tokens (.start tokens) :=
  ⟨Nat.zero_le _, rfl, rfl⟩

/-- The next token is among the given ones, so the cursor stays among them when it is read. -/
lemma Step.within {tokens : List Placed} (h : Step c c') (hc : Within tokens c) :
    Within tokens c' := by
  cases h with
  | @read t ts h =>
    have hdrop : tokens.drop c.pos = t :: ts := hc.rest ▸ h
    have hlt : c.pos < tokens.length := by
      apply Nat.lt_of_not_le
      intro hle
      rw [List.drop_eq_nil_of_le hle] at hdrop
      cases hdrop
    have hget : tokens[c.pos] :: tokens.drop (c.pos + 1) = t :: ts :=
      (List.drop_eq_getElem_cons hlt).symm.trans hdrop
    obtain ⟨ht, hts⟩ := List.cons.inj hget
    refine ⟨hlt, hts.symm, ?_⟩
    show t.span.stop = ((tokens.take (c.pos + 1)).getLast?.map fun t => t.span.stop).getD 0
    rw [List.take_succ_eq_append_getElem hlt, List.getLast?_concat, ht]
    rfl
  | report => exact ⟨hc.pos, hc.rest, hc.prevEnd⟩
  | note => exact ⟨hc.pos, hc.rest, hc.prevEnd⟩

/-- Steps stay within the tokens. -/
lemma Steps.within {tokens : List Placed} (h : c.Steps c') (hc : Within tokens c) :
    Within tokens c' := by
  induction h with
  | refl => exact hc
  | tail _ hstep ih => exact hstep.within ih

/-- The token `n` places ahead. -/
def ahead (c : Cursor) (n : Nat) : Option Token :=
  c.rest[n]?.map Placed.token

/-- Where a token is ahead there are tokens left. -/
lemma rest_ne_nil {t : Token} (h : c.ahead 0 = some t) : c.rest ≠ [] := by
  intro hnil
  rw [ahead, hnil] at h
  cases h

/-- Where no token is ahead there are none left. -/
lemma rest_eq_nil (h : c.ahead 0 = none) : c.rest = [] := by
  cases hrest : c.rest with
  | nil => rfl
  | cons t ts =>
    rw [ahead, hrest] at h
    cases h

end Cursor

namespace Parser

open Cursor (Steps)

variable {α β : Type} {ctx : Context} {c : Cursor}

/-! ## Runs -/

/-- A parser gets from a cursor to the one that it leaves in steps, with a result that fits. -/
structure Runs (ctx : Context) (c : Cursor) (m : Parser α) (post : α → Cursor → Prop) : Prop where
  steps : c.Steps (m ctx c).2
  post : post (m ctx c).1 (m ctx c).2

/-- A parser that leaves the cursor as it is. -/
def Looks (m : Parser α) : Prop :=
  ∀ ctx c, (m ctx c).2 = c

section

variable {m : Parser α} {f : α → Parser β} {P P' : α → Cursor → Prop} {Q : β → Cursor → Prop}

/-- A result that is at hand takes no steps. -/
lemma Runs.pure {a : α} (h : P a c) : Runs ctx c (pure a) P :=
  ⟨.refl, h⟩

/-- Runs one after another are a run. -/
lemma Runs.bind (hm : Runs ctx c m P)
    (hf : ∀ a c', c.Steps c' → P a c' → Runs ctx c' (f a) Q) : Runs ctx c (m >>= f) Q := by
  have h := hf _ _ hm.steps hm.post
  exact ⟨hm.steps.trans h.steps, h.post⟩

/-- What a parser gives may not matter for what comes after it. -/
lemma Runs.andThen (hm : Runs ctx c m P) (hf : ∀ a c', Runs ctx c' (f a) Q) :
    Runs ctx c (m >>= f) Q :=
  hm.bind fun a c' _ _ => hf a c'

/-- Less may be known of a run. -/
lemma Runs.mono (hm : Runs ctx c m P) (h : ∀ a c', c.Steps c' → P a c' → P' a c') :
    Runs ctx c m P' :=
  ⟨hm.steps, h _ _ hm.steps hm.post⟩

/-- What is known of a run may be forgotten. -/
lemma Runs.trivial (hm : Runs ctx c m P) : Runs ctx c m fun _ _ => True :=
  hm.mono fun _ _ _ _ => True.intro

/-- What is ahead after a run is no more than before it. -/
lemma Runs.shorter {n : Nat} (hm : Runs ctx c m P) (h : c.rest.length < n) :
    Runs ctx c m fun a c' => P a c' ∧ c'.rest.length < n :=
  hm.mono fun _ _ hsteps hP => ⟨hP, Nat.lt_of_le_of_lt hsteps.length_le h⟩

/-- What only looks takes no steps. -/
lemma Looks.runs (hm : Looks m) : Runs ctx c m fun _ c' => c' = c := by
  refine ⟨?_, hm ctx c⟩
  rw [hm ctx c]

/-- Only what a parser does from the cursor matters. -/
lemma Runs.congr {m' : Parser α} (hm : Runs ctx c m' P) (h : m ctx c = m' ctx c) :
    Runs ctx c m P :=
  ⟨h ▸ hm.steps, h ▸ hm.post⟩

/-- What a parser that only looks gives may matter. -/
lemma Looks.runs_fst (hm : Looks m) (hf : Runs ctx c (f (m ctx c).1) Q) :
    Runs ctx c (m >>= f) Q := by
  apply hf.congr
  show f (m ctx c).1 ctx (m ctx c).2 = _
  rw [hm ctx c]

/-- What only looks may come first in a run. -/
lemma Looks.bind_runs (hm : Looks m) (hf : ∀ a, Runs ctx c (f a) Q) : Runs ctx c (m >>= f) Q :=
  hm.runs_fst (hf _)

/-- What only looks, one after another, only looks. -/
lemma Looks.bind (hm : Looks m) (hf : ∀ a, Looks (f a)) : Looks (m >>= f) := by
  intro ctx c
  show (f (m ctx c).1 ctx (m ctx c).2).2 = c
  rw [hm ctx c]
  exact hf _ ctx c

/-- A result that is at hand does not move the cursor. -/
lemma looks_pure (a : α) : Looks (pure a : Parser α) :=
  fun _ _ => rfl

end

/-! ## Looking ahead -/

section

variable {β : Type} {Q : β → Cursor → Prop}

/-- A run may begin with a look at the cursor. -/
lemma runs_get {f : Cursor → Parser β} (h : Runs ctx c (f c) Q) : Runs ctx c (get >>= f) Q :=
  ⟨h.steps, h.post⟩

/-- A run may begin with a look ahead. -/
lemma runs_peekAt {n : Nat} {f : Option Token → Parser β} (h : Runs ctx c (f (c.ahead n)) Q) :
    Runs ctx c (peekAt n >>= f) Q :=
  ⟨h.steps, h.post⟩

/-- A look at the next token finds the token ahead. -/
lemma peek_bind (f : Option Token → Parser β) : (peek >>= f) ctx c = f (c.ahead 0) ctx c :=
  rfl

/-- A run may begin with a look at the next token. -/
lemma runs_peek {f : Option Token → Parser β} (h : Runs ctx c (f (c.ahead 0)) Q) :
    Runs ctx c (peek >>= f) Q :=
  ⟨h.steps, h.post⟩

/-- A run may begin by asking for the position. -/
lemma runs_position {f : Nat → Parser β} (h : Runs ctx c (f c.pos) Q) :
    Runs ctx c (position >>= f) Q :=
  ⟨h.steps, h.post⟩

/-- A run may begin by asking for what remains. -/
lemma runs_remaining {f : Nat → Parser β} (h : Runs ctx c (f c.rest.length) Q) :
    Runs ctx c (remaining >>= f) Q :=
  ⟨h.steps, h.post⟩

end

/-- A look ahead only looks. -/
lemma looks_peekAt (n : Nat) : Looks (peekAt n) :=
  fun _ _ => rfl

/-- A test of the next token only looks. -/
lemma looks_nextIs (p : Token → Bool) : Looks (nextIs p) :=
  fun _ _ => rfl

/-- The test for a mark or the end only looks. -/
lemma looks_atEndOr (m : Mark) : Looks (atEndOr m) :=
  fun _ _ => rfl

/-- To ask for the place since a start only looks. -/
lemma looks_spanSince (start : Span) : Looks (spanSince start) :=
  fun _ _ => rfl

/-- To ask for the comment beside only looks. -/
lemma looks_commentBeside : Looks commentBeside :=
  fun _ _ => rfl

/-- To ask for the place of the next token only looks. -/
lemma looks_nextSpan : Looks nextSpan := by
  intro ctx c
  obtain ⟨rest, pos, prevEnd, diagnostics, built, gaveUp⟩ := c
  cases rest with
  | nil => rfl
  | cons => rfl

/-- The place of the next token is that of the first token left. -/
lemma nextSpan_eq {t : Placed} {ts : List Placed} (h : c.rest = t :: ts) :
    nextSpan ctx c = (t.span, c) := by
  obtain ⟨rest, pos, prevEnd, diagnostics, built, gaveUp⟩ := c
  cases h
  rfl

/-- To ask for the documentation above only looks. -/
lemma looks_docAbove : Looks docAbove :=
  Looks.bind (fun _ _ => rfl) fun _ => Looks.bind (fun _ _ => rfl) fun _ =>
    looks_nextSpan.bind fun _ => looks_pure _

/-- To ask what was found only looks. -/
lemma looks_found : Looks found := by
  apply (looks_peekAt 0).bind
  intro t
  cases t with
  | none => exact looks_pure _
  | some t => exact looks_nextSpan.bind fun _ => looks_pure _

/-! ## Steps of parsers -/

/-- To take a token is to read it. -/
lemma runs_take : Runs ctx c take fun _ c' => c' = c.next := by
  apply looks_nextSpan.bind_runs
  intro span
  exact ⟨c.steps_next, rfl⟩

/-- To take a token that is ahead leaves fewer. -/
lemma runs_take_of_ahead {t : Token} (h : c.ahead 0 = some t) :
    Runs ctx c take fun _ c' => c'.rest.length < c.rest.length := by
  apply runs_take.mono
  rintro span c' - rfl
  exact Cursor.length_next (Cursor.rest_ne_nil h)

/-- A report leaves the tokens and the position. -/
lemma runs_report (span : Span) (problem : Problem) :
    Runs ctx c (report span problem) fun _ c' => c'.rest = c.rest ∧ c'.pos = c.pos :=
  ⟨.single (.report c ⟨span, problem⟩), rfl, rfl⟩

/-- To note a node leaves the tokens. -/
lemma runs_note (kind : NodeKind) (span : Span) :
    Runs ctx c (note kind span) fun _ c' => c'.rest = c.rest :=
  ⟨.single (.note c ⟨kind, span⟩), rfl⟩

/-- To note a node since a start leaves the tokens. -/
lemma runs_noteSince (kind : NodeKind) (start : Span) :
    Runs ctx c (noteSince kind start) fun _ c' => c'.rest = c.rest := by
  apply (looks_spanSince start).bind_runs
  intro span
  apply (runs_note kind span).bind
  rintro _ c' - hrest
  exact .pure hrest

/-- A complaint leaves the tokens and the position. -/
lemma runs_complain (what : String) :
    Runs ctx c (complain what) fun _ c' => c'.rest = c.rest ∧ c'.pos = c.pos := by
  apply looks_nextSpan.bind_runs
  intro span
  apply looks_found.bind_runs
  intro found
  exact runs_report span _

/-- A token that is accepted has been read. -/
lemma runs_accept (t : Token) :
    Runs ctx c (accept t) fun o c' => o.isSome → c'.rest.length < c.rest.length := by
  apply runs_peek
  split
  · next h =>
    apply (runs_take_of_ahead h).bind
    intro span c' _ hlt
    exact .pure fun _ => hlt
  · exact .pure fun h => nomatch h

/-- To require a token is a run. -/
lemma runs_require (t : Token) (what : String) :
    Runs ctx c (require t what) fun _ _ => True := by
  apply (runs_accept t).andThen
  intro o c'
  cases o with
  | some span => exact .pure True.intro
  | none =>
    apply (runs_complain what).andThen
    intro _ c'
    exact .pure True.intro

/-- To require a token for its place is a run. -/
lemma runs_requireSpan (t : Token) (what : String) :
    Runs ctx c (requireSpan t what) fun _ _ => True := by
  apply (runs_require t what).andThen
  intro o c'
  cases o with
  | some span => exact .pure True.intro
  | none => exact looks_nextSpan.runs.trivial

/-- To require an identifier is a run. -/
lemma runs_requireIdent (what : String) :
    Runs ctx c (requireIdent what) fun _ _ => True := by
  apply runs_peek
  split
  · apply runs_take.andThen
    intro span c'
    exact .pure True.intro
  · apply (runs_complain what).andThen
    intro _ c'
    apply looks_nextSpan.bind_runs
    intro span
    exact .pure True.intro

/-- To read the end of a statement is a run. -/
lemma runs_endStatement : Runs ctx c endStatement fun _ _ => True := by
  apply runs_peek
  split
  · apply runs_take.andThen
    intro span c'
    exact .pure True.intro
  · exact .pure True.intro
  · exact .pure True.intro
  · exact .pure True.intro
  · apply (runs_complain _).andThen
    intro _ c'
    exact .pure True.intro

/-! ## Skipping -/

/-- To pass over tokens is a run. -/
lemma runs_advance (n : Cursor → Nat) :
    Runs ctx c (modify fun c => c.advance (n c)) fun _ c' => c' = c.advance (n c) :=
  ⟨c.steps_advance (n c), rfl⟩

/-- To skip a run of tokens is a run. -/
lemma runs_skipRun : Runs ctx c skipRun fun _ _ => True := by
  apply looks_nextSpan.bind_runs
  intro start
  apply runs_get
  obtain ⟨n, left⟩ := balancedLength 0 c.rest
  apply (runs_advance fun _ => n).andThen
  intro _ c'
  have hspan (c : Cursor) : Runs ctx c (spanSince start) fun _ _ => True :=
    (looks_spanSince start).runs.trivial
  dsimp only
  split
  · apply (runs_report start _).andThen
    intro _ c''
    exact hspan c''
  · exact hspan c'

/-- To skip a statement passes over the tokens up to its end. -/
lemma runs_skipStatement :
    Runs ctx c skipStatement fun _ c' => c' = c.advance (terminatorDistance 0 c.rest) := by
  apply looks_nextSpan.bind_runs
  intro start
  apply (runs_advance fun c => terminatorDistance 0 c.rest).bind
  intro _ c' _ hc'
  exact (looks_spanSince start).runs.mono fun _ _ _ heq => heq.trans hc'

/-- If a token is ahead, it is skipped in any case. -/
lemma runs_skipToDecl :
    Runs ctx c skipToDecl fun _ c' => c.rest ≠ [] → c'.rest.length < c.rest.length := by
  obtain ⟨rest, pos, prevEnd, diagnostics, built, gaveUp⟩ := c
  cases rest with
  | nil => exact ⟨.refl, fun hne => absurd rfl hne⟩
  | cons t ts =>
    have hsucc := Nat.add_comm 1 (declDistance (depthAfter t.token) ts)
    refine ⟨Cursor.steps_advance (1 + declDistance (depthAfter t.token) ts) _, fun hne => ?_⟩
    show (Cursor.advance (1 + declDistance (depthAfter t.token) ts) _).rest.length < _
    rw [hsucc]
    exact Cursor.length_advance_succ _ hne

/-- To read the end of a declaration is a run. -/
lemma runs_finishDecl : Runs ctx c finishDecl fun _ _ => True := by
  apply runs_endStatement.andThen
  intro ended c'
  cases ended with
  | true => exact .pure True.intro
  | false => exact runs_skipToDecl.trivial

/-- To read the end of a statement, with what is left of it, is a run. -/
lemma runs_finishStatement : Runs ctx c finishStatement fun _ _ => True := by
  apply runs_endStatement.andThen
  intro ended c'
  cases ended with
  | true => exact .pure True.intro
  | false =>
    apply runs_skipStatement.andThen
    intro _ c''
    exact .pure True.intro

/-- A complaint at a place that was not left is a run. -/
lemma runs_complainIfStuck (before : Nat) (what : String) :
    Runs ctx c (complainIfStuck before what) fun _ _ => True := by
  apply runs_position
  split
  · exact (runs_complain what).trivial
  · exact .pure True.intro

/-- To skip at a place that was not left is a run. -/
lemma runs_skipIfStuck (before : Nat) : Runs ctx c (skipIfStuck before) fun _ _ => True := by
  apply runs_position
  split
  · apply runs_take.andThen
    intro _ c'
    exact .pure True.intro
  · exact .pure True.intro

/-- Where something was ahead, at least one token has been read afterwards. -/
lemma runs_skipIfStuck_of_ahead {c₀ : Cursor} (h : c₀.Steps c) {t : Token}
    (ht : c₀.ahead 0 = some t) :
    Runs ctx c (skipIfStuck c₀.pos) fun _ c' => c'.rest.length < c₀.rest.length := by
  apply runs_position
  split
  · next hpos =>
    have hrest := h.rest_eq hpos
    have ht' : c.ahead 0 = some t := by
      rw [Cursor.ahead, hrest]
      exact ht
    apply (runs_take_of_ahead ht').bind
    intro _ c' _ hlt
    rw [hrest] at hlt
    exact .pure hlt
  · next hpos => exact .pure (h.length_lt hpos)

/-! ## Loops -/

section

variable {item : Parser α} {P : α → Prop}

/-- An item that may be missing fits if it does when it is there. -/
lemma runs_whenever {cond : Parser Bool} (hcond : Looks cond)
    (hitem : Runs ctx c item fun a _ => P a) :
    Runs ctx c (whenever cond item) fun o _ => ∀ a ∈ o, P a := by
  apply hcond.bind_runs
  intro b
  cases b with
  | false => exact .pure fun a ha => nomatch ha
  | true =>
    apply hitem.bind
    rintro a c' - ha
    apply Runs.pure
    rintro _ ⟨⟩
    exact ha

/-- With more steps than tokens ahead a loop over separators ends by itself. -/
lemma runs_separated {stop : Parser Bool} {separator : Mark} (hstop : Looks stop)
    (hitem : ∀ c, Runs ctx c item fun a _ => P a) {fuel : Nat} (h : c.rest.length < fuel) :
    Runs ctx c (separated stop separator item fuel) fun as _ => ∀ a ∈ as, P a := by
  induction fuel generalizing c with
  | zero => exact absurd h (Nat.not_lt_zero _)
  | succ fuel ih =>
    apply hstop.bind_runs
    intro stops
    cases stops with
    | true => exact .pure fun a ha => nomatch ha
    | false =>
      apply (hitem c).bind
      intro a c₁ h₁ ha
      apply (runs_accept _).bind
      intro o c₂ h₂ hread
      cases o with
      | none =>
        apply Runs.pure
        intro b hb
        cases List.mem_singleton.1 hb
        exact ha
      | some span =>
        have hfuel : c₂.rest.length < fuel := by
          have hle := h₁.length_le
          have hlt := hread rfl
          omega
        apply (ih hfuel).bind
        intro as c₃ _ has
        exact .pure (List.forall_mem_cons.2 ⟨ha, has⟩)

/-- Items between separators fit if each does. -/
lemma runs_separatedBy {stop : Parser Bool} {separator : Mark} (hstop : Looks stop)
    (hitem : ∀ c, Runs ctx c item fun a _ => P a) :
    Runs ctx c (separatedBy stop separator item) fun as _ => ∀ a ∈ as, P a := by
  apply runs_remaining
  exact runs_separated hstop hitem (Nat.lt_succ_self _)

/-- With more steps than tokens ahead a loop up to a bracket ends by itself, even if its items read
nothing. -/
lemma runs_members {closer : Mark} (hitem : ∀ c, Runs ctx c item fun a _ => P a) {fuel : Nat}
    (h : c.rest.length < fuel) :
    Runs ctx c (members closer item fuel) fun as _ => ∀ a ∈ as, P a := by
  induction fuel generalizing c with
  | zero => exact absurd h (Nat.not_lt_zero _)
  | succ fuel ih =>
    apply runs_peek
    cases ht : c.ahead 0 with
    | none => exact .pure fun a ha => nomatch ha
    | some t =>
      dsimp only
      split
      · exact .pure fun a ha => nomatch ha
      · split
        · apply (runs_take_of_ahead ht).bind
          intro _ c₁ _ hlt
          exact ih (by omega)
        · apply runs_position
          apply (hitem c).bind
          intro a c₁ h₁ ha
          apply (runs_skipIfStuck_of_ahead h₁ ht).bind
          intro _ c₂ _ hlt
          apply (ih (c := c₂) (by omega)).bind
          intro as c₃ _ has
          exact .pure (List.forall_mem_cons.2 ⟨ha, has⟩)

/-- Items up to a closing mark fit if each does. -/
lemma runs_membersUpTo {closer : Mark} (hitem : ∀ c, Runs ctx c item fun a _ => P a) :
    Runs ctx c (membersUpTo closer item) fun as _ => ∀ a ∈ as, P a := by
  apply runs_remaining
  exact runs_members hitem (Nat.lt_succ_self _)

end

end Parser

end GoService.Source
