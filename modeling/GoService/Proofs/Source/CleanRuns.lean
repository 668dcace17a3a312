import GoService.Proofs.Source.Brackets
import GoService.Proofs.Source.Runs

/-!
# Clean runs

What a parser has done when it has reported nothing. Reports are never taken back, so whatever is
known of clean runs of the parts is known of a clean run of the whole: `CleanRun` collects it as an
assumption for what comes later. `Nests` also says how a clean run changes the depth of brackets; a
loop over the items between brackets may in addition run to the end of the tokens, and then the
closing bracket is missing (`CleanRun.closed`).
-/

namespace GoService.Source

namespace Cursor

variable {c c' c'' : Cursor} {d d' d'' : Nat}

/-- Nothing has been reported. -/
def Clean (c : Cursor) : Prop :=
  c.diagnostics = []

/-- Reports are never taken back. -/
lemma Steps.clean (h : c.Steps c') (hclean : c'.Clean) : c.Clean := by
  induction h with
  | refl => exact hclean
  | tail _ hstep ih =>
    cases hstep with
    | read => exact ih hclean
    | report => cases hclean
    | note => exact ih hclean

/-- At the end of the tokens there are none to come. -/
lemma Steps.rest_eq_nil (h : c.Steps c') (hnil : c.rest = []) : c'.rest = [] := by
  have hle := h.length_le
  rw [hnil] at hle
  exact List.eq_nil_of_length_eq_zero (Nat.le_zero.1 hle)

/-- What is read on the way takes the depth of brackets from `d` to `d'`. -/
def Levels (c : Cursor) (d : Nat) (c' : Cursor) (d' : Nat) : Prop :=
  ∃ read, c.rest = read ++ c'.rest ∧ bracketDepth? d (read.map Placed.token) = some d'

/-- Where nothing is read the depth stays. -/
lemma Levels.of_rest_eq (h : c'.rest = c.rest) : c.Levels d c' d :=
  ⟨[], h.symm, rfl⟩

/-- On the spot the depth stays. -/
lemma Levels.refl : c.Levels d c d :=
  .of_rest_eq rfl

/-- The depth changes step by step. -/
lemma Levels.trans (h : c.Levels d c' d') (h' : c'.Levels d' c'' d'') : c.Levels d c'' d'' := by
  obtain ⟨read, hread, hd⟩ := h
  obtain ⟨read', hread', hd'⟩ := h'
  refine ⟨read ++ read', ?_, ?_⟩
  · rw [hread, hread', List.append_assoc]
  · rw [List.map_append, bracketDepth?_append_of_eq hd]
    exact hd'

/-- The token has been read on the way. -/
structure Takes (c : Cursor) (p : Placed) (c' : Cursor) : Prop where
  rest : c.rest = p :: c'.rest
  steps : c.Steps c'

/-- Where a token is ahead, it is the first of the rest. -/
lemma exists_rest {t : Token} (h : c.ahead 0 = some t) :
    ∃ p ps, c.rest = p :: ps ∧ p.token = t := by
  cases hrest : c.rest with
  | nil => exact absurd hrest (rest_ne_nil h)
  | cons p ps =>
    rw [ahead, hrest] at h
    exact ⟨p, ps, rfl, Option.some.inj h⟩

/-- To read a token leaves fewer. -/
lemma length_lt {p : Placed} (h : c.rest = p :: c'.rest) : c'.rest.length < c.rest.length := by
  rw [h]
  exact Nat.lt_succ_self _

/-- After a token is read, what is ahead was one further ahead. -/
lemma ahead_of_read {p : Placed} (h : c.rest = p :: c'.rest) (n : Nat) :
    c'.ahead n = c.ahead (n + 1) := by
  rw [ahead, ahead, h]
  rfl

end Cursor

namespace Parser

open Cursor (Steps)

variable {α β γ : Type} {ctx : Context} {tokens : List Placed} {c c₀ : Cursor} {K : Prop}
  {d d' e : Nat}

/-! ## Rules -/

/-- Under an assumption, a run that starts among the tokens and reports nothing leaves what fits. -/
def CleanRun (ctx : Context) (tokens : List Placed) (K : Prop) (c : Cursor) (m : Parser α)
    (Q : α → Cursor → Prop) : Prop :=
  Cursor.Within tokens c → Runs ctx c m fun a c' => c'.Clean → K → Q a c'

/-- A clean run that takes the depth of brackets from `d` to `d'`. -/
abbrev Nests (ctx : Context) (tokens : List Placed) (K : Prop) (c : Cursor) (d : Nat)
    (m : Parser α) (d' : Nat) (Q : α → Cursor → Prop) : Prop :=
  CleanRun ctx tokens K c m fun a c' => c.Levels d c' d' ∧ Q a c'

section

variable {m : Parser α} {f : α → Parser β} {P P' : α → Cursor → Prop} {Q : β → Cursor → Prop}

/-- A result that is at hand is known of. -/
lemma CleanRun.pure {a : α} (h : K → P a c) : CleanRun ctx tokens K c (pure a) P :=
  fun _ => Runs.pure fun _ => h

/-- What is known of every run is known of a clean one too. -/
lemma CleanRun.bindRuns (hm : CleanRun ctx tokens K c m P) (hruns : Runs ctx c m P')
    (hf : ∀ a c', c.Steps c' → P' a c' → CleanRun ctx tokens (K ∧ P a c') c' (f a) Q) :
    CleanRun ctx tokens K c (m >>= f) Q := by
  intro hwithin
  obtain ⟨h₁, hP⟩ := hm hwithin
  obtain ⟨h₂, hQ⟩ := hf _ _ h₁ hruns.post (h₁.within hwithin)
  exact ⟨h₁.trans h₂, fun hclean hK => hQ hclean ⟨hK, hP (h₂.clean hclean) hK⟩⟩

/-- What is known of a clean run of the first step is an assumption for the next. -/
lemma CleanRun.bind (hm : CleanRun ctx tokens K c m P)
    (hf : ∀ a c', c.Steps c' → CleanRun ctx tokens (K ∧ P a c') c' (f a) Q) :
    CleanRun ctx tokens K c (m >>= f) Q :=
  fun hwithin => hm.bindRuns (hm hwithin) (fun a c' h _ => hf a c' h) hwithin

/-- What is assumed helps to show what is left. -/
lemma CleanRun.conseq {K' : Prop} (hm : CleanRun ctx tokens K' c m P) (hK : K → K')
    (h : ∀ a c', K → c.Steps c' → P a c' → P' a c') : CleanRun ctx tokens K c m P' :=
  fun hwithin => (hm hwithin).mono fun a c' hsteps hP hclean hk =>
    h a c' hk hsteps (hP hclean (hK hk))

/-- Less may be known of a clean run. -/
lemma CleanRun.mono (hm : CleanRun ctx tokens K c m P) (h : ∀ a c', c.Steps c' → P a c' → P' a c') :
    CleanRun ctx tokens K c m P' :=
  hm.conseq id fun a c' _ => h a c'

/-- More may be assumed of a clean run. -/
lemma CleanRun.assume {K' : Prop} (hm : CleanRun ctx tokens K' c m P) (h : K → K') :
    CleanRun ctx tokens K c m P :=
  hm.conseq h fun _ _ _ _ => id

/-- Nothing is to be shown of a run that cannot be part of a clean one. -/
lemma CleanRun.of_false (hm : Runs ctx c m fun _ _ => True) (h : ¬ K) :
    CleanRun ctx tokens K c m P :=
  fun _ => hm.mono fun _ _ _ _ _ hK => absurd hK h

/-- A result that is at hand leaves the depth. -/
lemma Nests.pure {a : α} (h : K → P a c) : Nests ctx tokens K c d (pure a) d P :=
  CleanRun.pure fun hK => ⟨.refl, h hK⟩

/-- Clean runs one after another change the depth one after another. -/
lemma Nests.bind (hm : Nests ctx tokens K c d m e P)
    (hf : ∀ a c', c.Steps c' → Nests ctx tokens (K ∧ P a c') c' e (f a) d' Q) :
    Nests ctx tokens K c d (m >>= f) d' Q := by
  apply CleanRun.bind hm
  intro a c₁ h₁ hwithin
  apply (hf a c₁ h₁ hwithin).mono
  rintro b c₂ - hQ hclean ⟨hK, hlevels, hP⟩
  obtain ⟨hlevels', hb⟩ := hQ hclean ⟨hK, hP⟩
  exact ⟨hlevels.trans hlevels', hb⟩

/-- What a parser gives may not matter for what comes after it. -/
lemma Nests.andThen (hm : Nests ctx tokens K c d m e P)
    (hf : ∀ a c', Nests ctx tokens K c' e (f a) d' Q) : Nests ctx tokens K c d (m >>= f) d' Q :=
  Nests.bind hm fun a c' _ => (hf a c').assume And.left

/-- Less may be known of a clean run that changes the depth. -/
lemma Nests.mono (hm : Nests ctx tokens K c d m d' P)
    (h : ∀ a c', c.Steps c' → P a c' → P' a c') : Nests ctx tokens K c d m d' P' :=
  CleanRun.mono hm fun a c' hsteps => And.imp_right (h a c' hsteps)

/-- Of a clean run that changes the depth, the change may be forgotten. -/
lemma Nests.cleanRun (hm : Nests ctx tokens K c d m d' P) : CleanRun ctx tokens K c m P :=
  CleanRun.mono hm fun _ _ _ => And.right

/-- What comes after a run leaves no more tokens ahead than there were. -/
lemma Nests.shorter {n : Nat} (hm : Nests ctx tokens K c d m d' P) (h : K → c.rest.length < n) :
    Nests ctx tokens K c d m d' fun a c' => c'.rest.length < n ∧ P a c' :=
  fun hwithin => (hm hwithin).mono fun _ _ hsteps hP hclean hK =>
    have hQ := hP hclean hK
    ⟨hQ.1, Nat.lt_of_le_of_lt hsteps.length_le (h hK), hQ.2⟩

/-- Only what a parser does from the cursor matters. -/
lemma CleanRun.congr {m' : Parser α} (hm : CleanRun ctx tokens K c m' P)
    (h : m ctx c = m' ctx c) : CleanRun ctx tokens K c m P :=
  fun hwithin => (hm hwithin).congr h

/-- What a parser that only looks gives may matter. -/
lemma Looks.cleanRun_fst (hm : Looks m) (hf : CleanRun ctx tokens K c (f (m ctx c).1) Q) :
    CleanRun ctx tokens K c (m >>= f) Q :=
  fun hwithin => hm.runs_fst (hf hwithin)

/-- What only looks may come first in a clean run. -/
lemma Looks.cleanRun (hm : Looks m) (hf : ∀ a, CleanRun ctx tokens K c (f a) Q) :
    CleanRun ctx tokens K c (m >>= f) Q :=
  fun hwithin => hm.bind_runs fun a => hf a hwithin

end

section

variable {f : Option Token → Parser β} {Q : β → Cursor → Prop}

/-- A clean run may begin with a look at the next token. -/
lemma cleanRun_peek (h : CleanRun ctx tokens K c (f (c.ahead 0)) Q) :
    CleanRun ctx tokens K c (peek >>= f) Q :=
  fun hwithin => runs_peek (h hwithin)

/-- A clean run may begin with a look ahead. -/
lemma cleanRun_peekAt {n : Nat} (h : CleanRun ctx tokens K c (f (c.ahead n)) Q) :
    CleanRun ctx tokens K c (peekAt n >>= f) Q :=
  fun hwithin => runs_peekAt (h hwithin)

/-- A clean run may begin by asking for the position. -/
lemma cleanRun_position {f : Nat → Parser β} (h : CleanRun ctx tokens K c (f c.pos) Q) :
    CleanRun ctx tokens K c (position >>= f) Q :=
  fun hwithin => runs_position (h hwithin)

/-- A clean run may begin by asking for what remains. -/
lemma cleanRun_remaining {f : Nat → Parser β} (h : CleanRun ctx tokens K c (f c.rest.length) Q) :
    CleanRun ctx tokens K c (remaining >>= f) Q :=
  fun hwithin => runs_remaining (h hwithin)

/-- A clean run may begin by asking for the place of the next token. -/
lemma cleanRun_nextSpan {f : Span → Parser β} {p : Placed} {ps : List Placed}
    (hrest : c.rest = p :: ps) (h : CleanRun ctx tokens K c (f p.span) Q) :
    CleanRun ctx tokens K c (nextSpan >>= f) Q := by
  apply h.congr
  show f (nextSpan ctx c).1 ctx (nextSpan ctx c).2 = _
  rw [nextSpan_eq hrest]

/-- A report is never part of a clean run. -/
lemma cleanRun_report (span : Span) (problem : Problem) :
    CleanRun ctx tokens K c (report span problem) fun _ _ => False :=
  fun _ => ⟨(runs_report span problem).steps, nofun⟩

/-- A run that complains is not clean. -/
lemma cleanRun_complain (what : String) :
    CleanRun ctx tokens K c (complain what) fun _ _ => False := by
  apply looks_nextSpan.cleanRun
  intro span
  apply looks_found.cleanRun
  intro found
  exact cleanRun_report span _

/-- After a run that is not clean there is no clean run. -/
lemma CleanRun.never {m : Parser α} {f : α → Parser β}
    (hm : CleanRun ctx tokens K c m fun _ _ => False)
    (hf : ∀ a c', Runs ctx c' (f a) fun _ _ => True) : CleanRun ctx tokens K c (m >>= f) Q :=
  hm.bind fun a c' _ => .of_false (hf a c') And.right

end

/-! ## Reading tokens -/

section

variable {p : Placed} {t : Token} {what : String} {Q : β → Cursor → Prop}

/-- To take the token ahead, with the steps that this takes. -/
lemma cleanRun_takes {f : Span → Parser β} (h : c.ahead 0 = some t)
    (hf : ∀ p c', c.Takes p c' → p.token = t → CleanRun ctx tokens K c' (f p.span) Q) :
    CleanRun ctx tokens K c (take >>= f) Q := by
  obtain ⟨p, ps, hrest, hp⟩ := Cursor.exists_rest h
  obtain ⟨htake, hnext⟩ : take ctx c = (p.span, c.next) ∧ c.rest = p :: c.next.rest := by
    obtain ⟨rest, pos, prevEnd, diagnostics, built, gaveUp⟩ := c
    cases hrest
    exact ⟨rfl, rfl⟩
  have heq : (take >>= f) ctx c = f p.span ctx c.next := by
    show f (take ctx c).1 ctx (take ctx c).2 = _
    rw [htake]
  intro hwithin
  obtain ⟨hsteps, hpost⟩ :=
    hf p c.next ⟨hnext, c.steps_next⟩ hp (c.steps_next.within hwithin)
  rw [← heq] at hsteps hpost
  exact ⟨c.steps_next.trans hsteps, hpost⟩

/-- To take the token ahead. -/
lemma cleanRun_take {f : Span → Parser β} (h : c.ahead 0 = some t)
    (hf : ∀ p c', c.rest = p :: c'.rest → p.token = t → CleanRun ctx tokens K c' (f p.span) Q) :
    CleanRun ctx tokens K c (take >>= f) Q :=
  cleanRun_takes h fun p c' htakes => hf p c' htakes.rest

/-- A token that is read changes the depth as it does by itself. -/
lemma levels_read {c' : Cursor} (hread : c.rest = p :: c'.rest)
    (hd : p.token.depthAfter? d = some e) : c.Levels d c' e :=
  ⟨[p], hread, by rw [List.map_singleton, bracketDepth?_cons_of_eq hd, bracketDepth?_nil]⟩

/-- To take the token ahead changes the depth as the token does. -/
lemma nests_take {f : Span → Parser β} (h : c.ahead 0 = some t) (hd : t.depthAfter? d = some e)
    (hf : ∀ p c', c.rest = p :: c'.rest → p.token = t → Nests ctx tokens K c' e (f p.span) d' Q) :
    Nests ctx tokens K c d (take >>= f) d' Q := by
  apply cleanRun_take h
  rintro p c' hread rfl
  apply CleanRun.mono (hf p c' hread rfl)
  rintro b c'' - ⟨hlevels, hb⟩
  exact ⟨(levels_read hread hd).trans hlevels, hb⟩

/-- A token is accepted, with the steps that this takes, or is not there. -/
lemma cleanRun_accepts {f : Option Span → Parser β}
    (hsome : ∀ p c', c.Takes p c' → p.token = t → CleanRun ctx tokens K c' (f (some p.span)) Q)
    (hnone : CleanRun ctx tokens K c (f none) Q) : CleanRun ctx tokens K c (accept t >>= f) Q := by
  by_cases ht : c.ahead 0 = some t
  · apply (cleanRun_takes (f := fun span => f (some span)) ht hsome).congr
    show ((if c.ahead 0 = some t then _ else _) >>= f) ctx c = _
    rw [if_pos ht]
    rfl
  · apply hnone.congr
    show ((if c.ahead 0 = some t then _ else _) >>= f) ctx c = _
    rw [if_neg ht]
    rfl

/-- A token is accepted or is not there. -/
lemma cleanRun_accept {f : Option Span → Parser β}
    (hsome : ∀ p c', c.rest = p :: c'.rest → p.token = t →
      CleanRun ctx tokens K c' (f (some p.span)) Q)
    (hnone : CleanRun ctx tokens K c (f none) Q) : CleanRun ctx tokens K c (accept t >>= f) Q :=
  cleanRun_accepts (fun p c' htakes => hsome p c' htakes.rest) hnone

/-- To accept a token changes the depth as the token does. -/
lemma nests_accept {f : Option Span → Parser β} (hd : t.depthAfter? d = some e)
    (hsome : ∀ p c', c.rest = p :: c'.rest → p.token = t →
      Nests ctx tokens K c' e (f (some p.span)) d' Q)
    (hnone : Nests ctx tokens K c d (f none) d' Q) :
    Nests ctx tokens K c d (accept t >>= f) d' Q := by
  refine cleanRun_accept ?_ hnone
  rintro p c' hread rfl
  apply CleanRun.mono (hsome p c' hread rfl)
  rintro b c'' - ⟨hlevels, hb⟩
  exact ⟨(levels_read hread hd).trans hlevels, hb⟩

/-- Where a token is missing that has to be there, the run is not clean. -/
lemma nests_require (hd : t.depthAfter? d = some e) : Nests ctx tokens K c d (require t what) e
    fun o c' => ∃ p, c.rest = p :: c'.rest ∧ p.token = t ∧ o = some p.span := by
  apply nests_accept hd
  · intro p c' hread hp
    exact .pure fun _ => ⟨p, hread, hp, rfl⟩
  · exact (cleanRun_complain _).never fun _ c' => .pure True.intro

/-- A clean run that requires a token for its place has read the token. -/
lemma nests_requireSpan (hd : t.depthAfter? d = some e) :
    Nests ctx tokens K c d (requireSpan t what) e
      fun span c' => ∃ p, c.rest = p :: c'.rest ∧ p.token = t ∧ span = p.span := by
  apply (nests_require hd).bind
  intro o c' _
  cases o with
  | none => exact .of_false looks_nextSpan.runs.trivial fun ⟨_, p, _, _, hp⟩ => nomatch hp
  | some span => exact .pure fun ⟨_, p, hread, hp, hspan⟩ => ⟨p, hread, hp, Option.some.inj hspan⟩

/-- An identifier that is ahead is read. -/
lemma nests_ident {f : Ident → Parser β} {word : Word} (h : c.ahead 0 = some (.ident word))
    (hf : ∀ p c', c.rest = p :: c'.rest →
      Nests ctx tokens K c' d (f ⟨word, p.span⟩) d' Q) :
    Nests ctx tokens K c d (requireIdent what >>= f) d' Q := by
  have hident : requireIdent what ctx c = (do return ⟨word, ← take⟩ : Parser Ident) ctx c := by
    rw [requireIdent, peek_bind, h]
  refine (nests_take (f := fun span => f ⟨word, span⟩) h rfl fun p c' hread _ =>
    hf p c' hread).congr ?_
  show f (requireIdent what ctx c).1 ctx (requireIdent what ctx c).2 = _
  rw [hident]
  rfl

/-- A clean run that requires an identifier has read it. -/
lemma nests_requireIdent : Nests ctx tokens K c d (requireIdent what) d
    fun name c' => ∃ p, c.rest = p :: c'.rest ∧ name.span = p.span := by
  apply cleanRun_peek
  split
  · next word ht =>
    apply nests_take ht rfl
    intro p c' hread _
    exact .pure fun _ => ⟨p, hread, rfl⟩
  · apply (cleanRun_complain _).never
    intro _ c'
    apply looks_nextSpan.bind_runs
    intro span
    exact .pure True.intro

/-- A clean run to the end of a statement has found the end. -/
lemma nests_endStatement :
    Nests ctx tokens K c d endStatement d fun ended _ => ended = true := by
  apply cleanRun_peek
  split
  · next ht =>
    apply nests_take ht rfl
    intro p c' _ _
    exact .pure fun _ => rfl
  · exact Nests.pure fun _ => rfl
  · exact Nests.pure fun _ => rfl
  · exact Nests.pure fun _ => rfl
  · exact (cleanRun_complain _).never fun _ c' => .pure True.intro

/-- A clean run to the end of a declaration keeps the depth. -/
lemma nests_finishDecl : Nests ctx tokens K c d finishDecl d fun _ _ => True := by
  apply nests_endStatement.bind
  intro ended c' _
  cases ended with
  | true => exact .pure fun _ => True.intro
  | false => exact .of_false runs_skipToDecl.trivial fun hK => nomatch hK.2

/-- A clean run to the end of a statement, with what is left of it, keeps the depth. -/
lemma nests_finishStatement : Nests ctx tokens K c d finishStatement d fun _ _ => True := by
  apply nests_endStatement.bind
  intro ended c' _
  cases ended with
  | true => exact .pure fun _ => True.intro
  | false =>
    have hruns : Runs ctx c' (do let _ ← skipStatement) fun _ _ => True := by
      apply runs_skipStatement.andThen
      intro _ c''
      exact .pure True.intro
    exact .of_false hruns fun hK => nomatch hK.2

/-- To note a node keeps the depth. -/
lemma nests_note (kind : NodeKind) (span : Span) :
    Nests ctx tokens K c d (note kind span) d fun _ _ => True :=
  fun _ => ⟨(runs_note kind span).steps, fun _ _ => ⟨.of_rest_eq rfl, True.intro⟩⟩

/-- Tokens are where they were when a node has been noted. -/
lemma nests_noted {kind : NodeKind} {span : Span} {f : Unit → Parser β}
    (hf : ∀ c', c'.rest = c.rest → Nests ctx tokens K c' d (f ()) d' Q) :
    Nests ctx tokens K c d (note kind span >>= f) d' Q := by
  intro hwithin
  have hstep : c.Steps { c with built := ⟨kind, span⟩ :: c.built } := .single (.note c _)
  obtain ⟨hsteps, hpost⟩ :=
    hf { c with built := ⟨kind, span⟩ :: c.built } rfl (hstep.within hwithin)
  exact ⟨hstep.trans hsteps, fun hclean hK => hpost hclean hK⟩

/-- What is left to do once all parts of a node are read: the node begins where its first part
does. -/
lemma nests_node {kind : NodeKind} {start : Span} {build : Span → α} {P : α → Cursor → Prop}
    (h : K → ∀ span c', span.start = start.start → c'.rest = c.rest → P (build span) c') :
    Nests ctx tokens K c d (do return build (← noteSince kind start)) d P :=
  fun _ => ⟨.single (.note c _), fun _ hK => ⟨.of_rest_eq rfl, h hK _ _ rfl rfl⟩⟩

end

/-! ## Skipping -/

/-- A clean run may begin with a look at the cursor. -/
lemma cleanRun_get {f : Cursor → Parser β} {Q : β → Cursor → Prop}
    (h : CleanRun ctx tokens K c (f c) Q) : CleanRun ctx tokens K c (get >>= f) Q :=
  fun hwithin => runs_get (h hwithin)

/-- To pass over tokens changes the depth as they do. -/
lemma levels_advance {n : Nat} (h : bracketDepth? d ((c.rest.take n).map Placed.token) = some e) :
    c.Levels d (c.advance n) e :=
  ⟨c.rest.take n, by rw [Cursor.rest_advance, List.take_append_drop], h⟩

/-- Tokens that are skipped change the depth as they say. -/
lemma nests_advance {n : Cursor → Nat}
    (h : bracketDepth? d ((c.rest.take (n c)).map Placed.token) = some e) :
    Nests ctx tokens K c d (modify fun c => c.advance (n c)) e fun _ c' =>
      c' = c.advance (n c) :=
  fun _ => ⟨c.steps_advance (n c), fun _ _ => ⟨levels_advance h, rfl⟩⟩

/-- A run that begins with an opener is skipped with its closer. -/
lemma nests_skipRun {t : Token} (ht : c.ahead 0 = some t) (hopening : t.isOpening) :
    Nests ctx tokens K c d skipRun d fun _ _ => True := by
  obtain ⟨p, ps, hrest, rfl⟩ := Cursor.exists_rest ht
  apply cleanRun_nextSpan hrest
  apply cleanRun_get
  have hlength : balancedLength 0 c.rest =
      ((balancedLength 1 ps).1 + 1, (balancedLength 1 ps).2) := by
    rw [hrest, balancedLength, if_pos hopening]
  rw [hlength]
  cases hleft : (balancedLength 1 ps).2 with
  | zero =>
    have hdepth := bracketDepth?_of_balancedLength (Prod.ext rfl hleft)
    refine (nests_advance (e := d) ?_).andThen fun _ c' => ?_
    · rw [hrest, List.take_succ_cons, List.map_cons,
        bracketDepth?_cons_of_eq (Token.depthAfter?_opening d hopening)]
      exact bracketDepth?_add d hdepth
    · exact (looks_spanSince p.span).cleanRun fun _ => Nests.pure fun _ => True.intro
  | succ left =>
    have hadvance : CleanRun ctx tokens K c
        (modify fun c => c.advance ((balancedLength 1 ps).1 + 1)) fun _ _ => True :=
      fun _ => (runs_advance _).mono fun _ _ _ _ _ _ => True.intro
    apply hadvance.bind
    intro _ c' _
    rw [if_pos (Nat.succ_pos left)]
    exact (cleanRun_report _ _).never fun _ c'' => (looks_spanSince p.span).runs.trivial

/-- Where there was no complaint about being stuck, the place had been left. -/
lemma nests_complainIfStuck (before : Nat) (what : String) :
    Nests ctx tokens K c d (complainIfStuck before what) d fun _ c' => c' = c ∧ c.pos ≠ before := by
  apply cleanRun_position
  split
  · exact (cleanRun_complain what).mono fun _ _ _ h => h.elim
  · next hpos => exact Nests.pure fun _ => ⟨rfl, hpos⟩

/-- Where something has been read, nothing is skipped. -/
lemma nests_skipIfStuck {before : Nat} (hread : K → c.pos ≠ before) :
    Nests ctx tokens K c d (skipIfStuck before) d fun _ c' => c' = c := by
  apply cleanRun_position
  split
  · next hpos =>
    refine .of_false ?_ fun hK => hread hK hpos
    apply runs_take.andThen
    intro _ c'
    exact .pure True.intro
  · exact Nests.pure fun _ => rfl

/-! ## Loops -/

section

variable {item : Parser α} {P : α → Prop} {stop : Parser Bool} {separator closer : Mark}

/-- An item that may be missing keeps the depth if it does when it is there. -/
lemma nests_whenever {cond : Parser Bool} (hcond : Looks cond)
    (hitem : (cond ctx c).1 = true → Nests ctx tokens K c d item d fun a _ => P a) :
    Nests ctx tokens K c d (whenever cond item) d fun o _ => ∀ a ∈ o, P a := by
  apply hcond.cleanRun_fst
  split
  · next h =>
    apply (hitem h).bind
    intro a c' _
    apply Nests.pure
    rintro ⟨-, ha⟩ _ ⟨⟩
    exact ha
  · exact Nests.pure fun _ a ha => nomatch ha

/-- Where the loop does not stop at once, something is read. -/
lemma nests_separated (hstop : Looks stop)
    (hseparator : (Token.mark separator).depthAfter? d = some d)
    (hitem : ∀ c, Nests ctx tokens True c d item d
      fun a c' => c'.rest.length < c.rest.length ∧ P a) {fuel : Nat}
    (h : c.rest.length < fuel) :
    Nests ctx tokens K c d (separated stop separator item fuel) d fun as c' =>
      ((stop ctx c).1 = false → c'.rest.length < c.rest.length) ∧ ∀ a ∈ as, P a := by
  induction fuel generalizing c K with
  | zero => exact absurd h (Nat.not_lt_zero _)
  | succ fuel ih =>
    apply hstop.cleanRun_fst
    cases (stop ctx c).1 with
    | true => exact Nests.pure fun _ => ⟨nofun, fun a ha => nomatch ha⟩
    | false =>
      apply Nests.bind ((hitem c).assume fun _ => True.intro)
      intro a c₁ h₁
      have hle := h₁.length_le
      apply nests_accept hseparator
      · intro p c₂ hread _
        have hlt := Cursor.length_lt hread
        apply Nests.bind (ih (by omega))
        intro as c₃ h₃
        apply Nests.pure
        rintro ⟨⟨-, -, ha⟩, -, has⟩
        have hle' := h₃.length_le
        exact ⟨fun _ => by omega, List.forall_mem_cons.2 ⟨ha, has⟩⟩
      · exact .pure fun ⟨_, hlt, ha⟩ => ⟨fun _ => hlt, List.forall_mem_singleton.2 ha⟩

/-- Items between separators keep the depth if each does. -/
lemma nests_separatedBy (hstop : Looks stop)
    (hseparator : (Token.mark separator).depthAfter? d = some d)
    (hitem : ∀ c, Nests ctx tokens True c d item d
      fun a c' => c'.rest.length < c.rest.length ∧ P a) :
    Nests ctx tokens K c d (separatedBy stop separator item) d fun as c' =>
      ((stop ctx c).1 = false → c'.rest.length < c.rest.length) ∧ ∀ a ∈ as, P a := by
  apply cleanRun_remaining
  exact nests_separated hstop hseparator hitem (Nat.lt_succ_self _)

/-- What a clean run of an item between brackets leaves: the depth of brackets is as before, unless
the tokens have ended, and something has been read. -/
structure ItemRead (c : Cursor) (d : Nat) (c' : Cursor) : Prop where
  levels : c'.rest ≠ [] → c.Levels d c' d
  shorter : c'.rest.length < c.rest.length

/-- An item that keeps the depth is an item that has been read. -/
lemma Nests.itemRead (hm : Nests ctx tokens K c d item d
    fun a c' => c'.rest.length < c.rest.length ∧ P a) :
    CleanRun ctx tokens K c item fun a c' => ItemRead c d c' ∧ P a :=
  CleanRun.mono hm fun _ _ _ ⟨hlevels, hlt, ha⟩ => ⟨⟨fun _ => hlevels, hlt⟩, ha⟩

/-- A parser of items between brackets, at tokens at which an item can begin. -/
def ReadsItems (ctx : Context) (tokens : List Placed) (d : Nat) (closer : Mark) (item : Parser α)
    (P : α → Prop) : Prop :=
  ∀ c t, c.ahead 0 = some t → t ≠ .mark closer → t ≠ .mark .semi →
    CleanRun ctx tokens True c item fun a c' => ItemRead c d c' ∧ P a

/-- A clean run through items up to a closing mark keeps the depth while tokens are left, for any
bound. -/
lemma cleanRun_members (hitem : ReadsItems ctx tokens d closer item P) {fuel : Nat}
    (h : c.rest.length < fuel) : CleanRun ctx tokens K c (members closer item fuel)
      fun as c' => (c'.rest ≠ [] → c.Levels d c' d) ∧ ∀ a ∈ as, P a := by
  induction fuel generalizing c K with
  | zero => exact absurd h (Nat.not_lt_zero _)
  | succ fuel ih =>
    apply cleanRun_peek
    cases ht : c.ahead 0 with
    | none => exact .pure fun _ => ⟨fun _ => .refl, fun a ha => nomatch ha⟩
    | some t =>
      dsimp only
      split
      · exact .pure fun _ => ⟨fun _ => .refl, fun a ha => nomatch ha⟩
      · next hcloser =>
        split
        · next hsemi =>
          subst hsemi
          apply cleanRun_take ht
          intro p c₁ hread hp
          have hlt := Cursor.length_lt hread
          have hsemi : c.Levels d c₁ d := levels_read hread (by rw [hp]; rfl)
          exact (ih (by omega)).mono fun as c' _ h =>
            ⟨fun hne => hsemi.trans (h.1 hne), h.2⟩
        · next hsemi =>
          apply cleanRun_position
          apply CleanRun.bind ((hitem c t ht hcloser hsemi).assume fun _ => True.intro)
          intro a c₁ h₁
          -- the item has taken a token, so nothing is skipped
          have hskip : CleanRun ctx tokens (K ∧ ItemRead c d c₁ ∧ P a) c₁ (skipIfStuck c.pos)
              fun _ c' => c' = c₁ := by
            refine (nests_skipIfStuck (d := d) fun hK hpos => ?_).cleanRun
            exact Nat.lt_irrefl _ (h₁.rest_eq hpos ▸ hK.2.1.shorter)
          apply hskip.bindRuns (runs_skipIfStuck_of_ahead h₁ ht)
          intro _ c₂ h₂ hlt
          apply CleanRun.bind (ih (by omega))
          intro as c₃ h₃
          apply CleanRun.pure
          rintro ⟨⟨⟨-, hread, ha⟩, rfl⟩, hlevels, has⟩
          refine ⟨fun hne => ?_, List.forall_mem_cons.2 ⟨ha, has⟩⟩
          -- the depth is only known of an item behind which tokens are left
          have hne₁ : c₂.rest ≠ [] := fun hnil => hne (h₃.rest_eq_nil hnil)
          exact (hread.levels hne₁).trans (hlevels hne)

/-- A clean run through items up to a closing mark keeps the depth while tokens are left. -/
lemma cleanRun_membersUpTo (hitem : ReadsItems ctx tokens d closer item P) :
    CleanRun ctx tokens K c (membersUpTo closer item)
      fun as c' => (c'.rest ≠ [] → c.Levels d c' d) ∧ ∀ a ∈ as, P a := by
  apply cleanRun_remaining
  exact cleanRun_members hitem (Nat.lt_succ_self _)

/-- Items and the bracket after them: since the bracket is there, the tokens have not ended. -/
lemma nests_closed {close : Parser β} {f : List α → β → Parser γ} {Q : γ → Cursor → Prop}
    (hitem : ReadsItems ctx tokens d closer item P)
    (hclose : ∀ c, Nests ctx tokens True c d close e fun _ c' => ∃ p, c.rest = p :: c'.rest)
    (hf : ∀ as b c', Nests ctx tokens (K ∧ ∀ a ∈ as, P a) c' e (f as b) d' Q) :
    Nests ctx tokens K c d (do
      let as ← membersUpTo closer item
      let b ← close
      f as b) d' Q := by
  apply (cleanRun_membersUpTo hitem).bind
  intro as c₁ _
  apply CleanRun.bind ((hclose c₁).assume fun _ => True.intro)
  intro b c₂ _
  apply (hf as b c₂).conseq fun hK => ⟨hK.1.1, hK.1.2.2⟩
  rintro a c₃ ⟨⟨-, hlevels, -⟩, hlevels', p, hp⟩ - ⟨hlevels'', ha⟩
  have hne : c₁.rest ≠ [] := by
    rw [hp]
    exact List.cons_ne_nil _ _
  exact ⟨(hlevels hne).trans (hlevels'.trans hlevels''), ha⟩

end

end Parser

end GoService.Source
