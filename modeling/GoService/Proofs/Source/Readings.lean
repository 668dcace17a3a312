import GoService.Proofs.Source.Brackets
import GoService.Proofs.Source.Runs

/-!
# Reading tokens that are known

What a parser does before known tokens: it reads up to some of them, reports nothing, and what it
gives is determined by what it has read (`Reads`). There is one rule for each thing a parser does.
A loop over items reads a row of items if it reads each of them before what follows it.
-/

namespace GoService.Source

namespace Cursor

/-- The tokens ahead, wherever they stand. -/
def tokens (c : Cursor) : List Token :=
  c.rest.map Placed.token

variable {c c' : Cursor} {t : Token} {ts : List Token}

/-- What is ahead is among the tokens ahead. -/
lemma ahead_eq (c : Cursor) (n : Nat) : c.ahead n = c.tokens[n]? := by
  rw [tokens, List.getElem?_map]
  rfl

/-- There are as many tokens ahead as places. -/
lemma length_tokens (c : Cursor) : c.tokens.length = c.rest.length :=
  List.length_map ..

/-- To pass over tokens leaves the others. -/
lemma tokens_advance (n : Nat) (c : Cursor) : (c.advance n).tokens = c.tokens.drop n := by
  rw [tokens, rest_advance, List.map_drop]
  rfl

/-- To read a token leaves the others. -/
lemma tokens_next (h : c.tokens = t :: ts) : c.next.tokens = ts := by
  rw [tokens, rest_next, List.map_drop]
  exact congrArg (List.drop 1) h

/-- To read a token reports nothing. -/
lemma diagnostics_next (c : Cursor) : c.next.diagnostics = c.diagnostics := by
  obtain ⟨rest, pos, prevEnd, diagnostics, built, gaveUp⟩ := c
  cases rest <;> rfl

/-- To pass over tokens reports nothing. -/
lemma diagnostics_advance (n : Nat) (c : Cursor) : (c.advance n).diagnostics = c.diagnostics := by
  induction n generalizing c with
  | zero => rfl
  | succ n ih => rw [advance, ih, diagnostics_next]

/-- The position is another one when fewer tokens are ahead. -/
lemma Steps.pos_ne (h : c.Steps c') (hlt : c'.tokens.length < c.tokens.length) :
    c'.pos ≠ c.pos := by
  intro hpos
  rw [length_tokens, length_tokens, h.rest_eq hpos] at hlt
  exact Nat.lt_irrefl _ hlt

end Cursor

namespace Parser

variable {α β : Type} {ctx : Context} {c : Cursor} {t : Token} {ts after : List Token}

/-! ## Rules -/

/-- The parser reads up to the given tokens, reports nothing, and its result fits. -/
def Reads (ctx : Context) (c : Cursor) (m : Parser α) (after : List Token) (P : α → Prop) : Prop :=
  Runs ctx c m fun a c' => c'.tokens = after ∧ c'.diagnostics = c.diagnostics ∧ P a

section

variable {m : Parser α} {f : α → Parser β} {P P' : α → Prop} {Q : β → Prop}

/-- A result that is at hand is read. -/
lemma Reads.pure {a : α} (h : c.tokens = after) (ha : P a) : Reads ctx c (pure a) after P :=
  Runs.pure ⟨h, rfl, ha⟩

/-- What is read one after another is read. -/
lemma Reads.bind (hm : Reads ctx c m ts P)
    (hf : ∀ a c', c.Steps c' → c'.tokens = ts → P a → Reads ctx c' (f a) after Q) :
    Reads ctx c (m >>= f) after Q := by
  apply Runs.bind hm
  rintro a c' hsteps ⟨htokens, hdiagnostics, ha⟩
  apply (hf a c' hsteps htokens ha).mono
  rintro b c'' - ⟨hafter, hdiagnostics', hb⟩
  exact ⟨hafter, hdiagnostics'.trans hdiagnostics, hb⟩

/-- Less may be known of what is read. -/
lemma Reads.mono (hm : Reads ctx c m after P) (h : ∀ a, P a → P' a) : Reads ctx c m after P' :=
  Runs.mono hm fun a _ _ ⟨hafter, hdiagnostics, ha⟩ => ⟨hafter, hdiagnostics, h a ha⟩

/-- What only looks may come first. -/
lemma Looks.reads (hm : Looks m) (hf : ∀ a, Reads ctx c (f a) after Q) :
    Reads ctx c (m >>= f) after Q :=
  hm.bind_runs hf

/-- What a parser sees when it looks ahead is known. -/
lemma Looks.reads_of_eq (hm : Looks m) {a : α} (ha : (m ctx c).1 = a)
    (hf : Reads ctx c (f a) after Q) : Reads ctx c (m >>= f) after Q := by
  subst ha
  exact hm.runs_fst hf

end

section

variable {Q : β → Prop}

/-- A look ahead finds the token that is there. -/
lemma reads_peekAt {f : Option Token → Parser β} {n : Nat} {o : Option Token}
    (h : c.tokens[n]? = o) (hf : Reads ctx c (f o) after Q) :
    Reads ctx c (peekAt n >>= f) after Q := by
  apply runs_peekAt
  rw [c.ahead_eq, h]
  exact hf

/-- A look at the next token finds the token that is there. -/
lemma reads_peek {f : Option Token → Parser β} {o : Option Token} (h : c.tokens.head? = o)
    (hf : Reads ctx c (f o) after Q) : Reads ctx c (peek >>= f) after Q :=
  reads_peekAt (by rw [← List.head?_eq_getElem?, h]) hf

/-- A test of the next token is made of the token that is there. -/
lemma nextIs_eq (p : Token → Bool) : (nextIs p ctx c).1 = c.tokens.head?.any p := by
  show (c.ahead 0).any p = _
  rw [c.ahead_eq, ← List.head?_eq_getElem?]

/-- A test of the next token comes out as it does for the token that is there. -/
lemma reads_nextIs {f : Bool → Parser β} {p : Token → Bool} {b : Bool}
    (h : c.tokens.head?.any p = b) (hf : Reads ctx c (f b) after Q) :
    Reads ctx c (nextIs p >>= f) after Q :=
  (looks_nextIs p).reads_of_eq ((nextIs_eq p).trans h) hf

/-- The test for a mark or the end comes out as it does for the token that is there. -/
lemma atEndOr_eq {m : Mark} (h : c.tokens = t :: ts) :
    (atEndOr m ctx c).1 = (t == .mark m) := by
  have hahead : c.ahead 0 = some t := by
    rw [c.ahead_eq, h]
    rfl
  rw [atEndOr, peek_bind, hahead]
  rfl

/-- One may begin by asking for the position. -/
lemma reads_position {f : Nat → Parser β} (h : Reads ctx c (f c.pos) after Q) :
    Reads ctx c (position >>= f) after Q :=
  runs_position h

/-- One may begin by asking for what remains. -/
lemma reads_remaining {f : Nat → Parser β} (h : Reads ctx c (f c.tokens.length) after Q) :
    Reads ctx c (remaining >>= f) after Q := by
  rw [c.length_tokens] at h
  exact runs_remaining h

end

/-! ## Single tokens -/

section

variable {what : String}

/-- The next token is taken. -/
lemma reads_take (h : c.tokens = t :: ts) : Reads ctx c take ts fun _ => True := by
  apply runs_take.mono
  rintro span c' - rfl
  exact ⟨Cursor.tokens_next h, c.diagnostics_next, True.intro⟩

/-- The token that is there is accepted. -/
lemma reads_accept (h : c.tokens = t :: ts) :
    Reads ctx c (accept t) ts fun o => ∃ span, o = some span := by
  apply reads_peek (o := some t) (by rw [h]; rfl)
  rw [if_pos rfl]
  apply (reads_take h).bind
  intro span c' _ hts _
  exact .pure hts ⟨span, rfl⟩

/-- A token that is not there is not accepted. -/
lemma reads_accept_absent (h : c.tokens.head? ≠ some t) :
    Reads ctx c (accept t) c.tokens fun o => o = none := by
  apply reads_peek rfl
  rw [if_neg h]
  exact .pure rfl rfl

/-- The token that is there is required, and found. -/
lemma reads_require (h : c.tokens = t :: ts) :
    Reads ctx c (require t what) ts fun o => ∃ span, o = some span := by
  apply (reads_accept h).bind
  rintro _ c' _ hts ⟨span, rfl⟩
  exact .pure hts ⟨span, rfl⟩

/-- The token that is there is required for its place. -/
lemma reads_requireSpan (h : c.tokens = t :: ts) :
    Reads ctx c (requireSpan t what) ts fun _ => True := by
  apply (reads_require h).bind
  rintro _ c' _ hts ⟨span, rfl⟩
  exact .pure hts True.intro

/-- The identifier that is there is required, and found. -/
lemma reads_requireIdent {word : Word} (h : c.tokens = .ident word :: ts) :
    Reads ctx c (requireIdent what) ts fun name => name.word = word := by
  apply reads_peek (o := some (.ident word)) (by rw [h]; rfl)
  apply (reads_take h).bind
  intro span c' _ hts _
  exact .pure hts rfl

/-- To note a node reads nothing. -/
lemma reads_note (kind : NodeKind) (span : Span) :
    Reads ctx c (note kind span) c.tokens fun _ => True :=
  ⟨.single (.note c ⟨kind, span⟩), rfl, rfl, True.intro⟩

/-- What is left to do once all parts of a node are read. -/
lemma reads_node {kind : NodeKind} {start : Span} {build : Span → α} {P : α → Prop}
    (h : c.tokens = after) (hbuild : ∀ span, P (build span)) :
    Reads ctx c (do return build (← noteSince kind start)) after P := by
  show Reads ctx c (spanSince start >>= fun span => note kind span >>= fun _ => pure (build span)) _ _
  apply (looks_spanSince start).reads
  intro span
  apply (reads_note kind span).bind
  intro _ c' _ hc' _
  exact .pure (hc'.trans h) (hbuild span)

/-- Nothing is reported if the place was left. -/
lemma reads_complainIfStuck {f : Unit → Parser β} {Q : β → Prop} {before : Nat}
    (h : c.pos ≠ before) (hf : Reads ctx c (f ()) after Q) :
    Reads ctx c (complainIfStuck before what >>= f) after Q := by
  apply Runs.congr hf
  show ((if c.pos = before then _ else _ : Parser Unit) >>= f) ctx c = _
  rw [if_neg h]
  rfl

/-- Nothing is skipped if the place was left. -/
lemma reads_skipIfStuck {f : Unit → Parser β} {Q : β → Prop} {before : Nat}
    (h : c.pos ≠ before) (hf : Reads ctx c (f ()) after Q) :
    Reads ctx c (skipIfStuck before >>= f) after Q := by
  apply Runs.congr hf
  show ((if c.pos = before then _ else _ : Parser Unit) >>= f) ctx c = _
  rw [if_neg h]
  rfl

/-- The end of a statement is a semicolon, or the tokens have ended. -/
lemma reads_endStatement (h : c.tokens = .mark .semi :: after ∨ c.tokens = [] ∧ after = []) :
    Reads ctx c endStatement after fun ended => ended = true := by
  rcases h with h | ⟨h, rfl⟩
  · apply reads_peek (o := some (.mark .semi)) (by rw [h]; rfl)
    apply (reads_take h).bind
    intro _ c' _ hts _
    exact .pure hts rfl
  · apply reads_peek (o := none) (by rw [h]; rfl)
    exact .pure h rfl

/-- An item that is missing is not read. -/
lemma reads_whenever_absent {cond : Parser Bool} {item : Parser α} (hcond : Looks cond)
    (h : (cond ctx c).1 = false) :
    Reads ctx c (whenever cond item) c.tokens fun o => o = none := by
  apply hcond.reads_of_eq h
  exact .pure rfl rfl

end

/-! ## Bracketed runs -/

section

variable {opener closer : Token} {inner : List Token}

/-- The tokens of a run that begins with an opener and ends with its closer. -/
lemma exists_run {ps : List Placed} (h : ps.map Placed.token = opener :: (inner ++ closer :: ts)) :
    ∃ p ps₁ q ps₂, ps = p :: (ps₁ ++ q :: ps₂) ∧ p.token = opener ∧ ps₁.map Placed.token = inner ∧
      q.token = closer ∧ ps₂.map Placed.token = ts := by
  obtain ⟨p, ps', rfl, hp, h⟩ := List.map_eq_cons_iff.1 h
  obtain ⟨ps₁, ps', rfl, h₁, h⟩ := List.map_eq_append_iff.1 h
  obtain ⟨q, ps₂, rfl, hq, h₂⟩ := List.map_eq_cons_iff.1 h
  exact ⟨p, ps₁, q, ps₂, rfl, hp, h₁, hq, h₂⟩

variable (ho : opener.isOpening) (hc : closer.isClosing) (hinner : Balanced inner)
include ho hc hinner

/-- The length of a run with its brackets counts both of them. -/
lemma balancedLength_run {ps : List Placed}
    (h : ps.map Placed.token = opener :: (inner ++ closer :: ts)) :
    balancedLength 0 ps = (inner.length + 2, 0) := by
  obtain ⟨p, ps₁, q, ps₂, rfl, rfl, rfl, rfl, -⟩ := exists_run h
  rw [balancedLength, if_pos ho, balancedLength_append (hinner.bracketDepth? 0), balancedLength,
    if_neg (Token.not_isOpening_of_isClosing hc), if_pos hc, if_pos (Nat.le_refl 1),
    List.length_map]
  exact Prod.ext (by dsimp only; omega) rfl

/-- After a run comes the token behind its closing bracket. -/
lemma tokenAfterRun?_run {ps : List Placed}
    (h : ps.map Placed.token = opener :: (inner ++ closer :: ts)) :
    tokenAfterRun? 0 ps = ts.head? := by
  obtain ⟨p, ps₁, q, ps₂, rfl, rfl, rfl, rfl, rfl⟩ := exists_run h
  rw [tokenAfterRun?, if_pos ho, tokenAfterRun?_append (hinner.bracketDepth? 0), tokenAfterRun?,
    if_neg (Token.not_isOpening_of_isClosing hc), if_pos hc, if_pos (Nat.le_refl 1),
    List.head?_map]

/-- A run is skipped to behind its closing bracket. -/
lemma reads_skipRun (h : c.tokens = opener :: (inner ++ closer :: after)) :
    Reads ctx c skipRun after fun _ => True := by
  apply looks_nextSpan.reads
  intro start
  apply runs_get
  rw [balancedLength_run ho hc hinner h]
  have hadvance : Reads ctx c (modify fun c => c.advance (inner.length + 2)) after
      fun _ => True := by
    refine ⟨c.steps_advance _, ?_, c.diagnostics_advance _, True.intro⟩
    show (c.advance (inner.length + 2)).tokens = after
    rw [Cursor.tokens_advance, h, List.drop_succ_cons, ← List.drop_drop, List.drop_left]
    rfl
  apply Reads.bind hadvance
  intro _ c' _ hafter _
  apply (looks_spanSince start).reads
  intro span
  exact .pure hafter True.intro

end

/-! ## Loops -/

section

variable {ξ : Type} {item : Parser α} {write : ξ → List Token} {R : ξ → α → Prop} {xs : List ξ}

/-- A loop over separators reads a row of items if it does not stop before one of them and reads
each before what follows it. -/
lemma reads_separated {stop : Parser Bool} {separator : Mark} (hstop : Looks stop)
    (hgo : ∀ x ∈ xs, ∀ c rest, c.tokens = write x ++ rest → (stop ctx c).1 = false)
    (hitem : ∀ x ∈ xs, ∀ c rest, c.tokens = write x ++ rest →
      rest.head? = some (.mark separator) ∨ rest = after → Reads ctx c item rest (R x))
    (hafter : after.head? ≠ some (.mark separator)) {fuel : Nat} (hfuel : c.tokens.length < fuel)
    (hne : xs ≠ []) (h : c.tokens = [.mark separator].intercalate (xs.map write) ++ after) :
    Reads ctx c (separated stop separator item fuel) after fun as => List.Forall₂ R xs as := by
  induction fuel generalizing c xs with
  | zero => exact absurd hfuel (Nat.not_lt_zero _)
  | succ fuel ih =>
    cases xs with
    | nil => exact absurd rfl hne
    | cons x xs =>
      have hmem : x ∈ x :: xs := List.mem_cons_self
      cases xs with
      | nil =>
        rw [List.map_singleton, List.intercalate_singleton] at h
        apply hstop.reads_of_eq (hgo x hmem c _ h)
        apply (hitem x hmem c _ h (.inr rfl)).bind
        intro a c₁ _ h₁ ha
        apply (reads_accept_absent (h₁ ▸ hafter)).bind
        rintro _ c₂ _ h₂ rfl
        exact .pure (h₂.trans h₁) (.cons ha .nil)
      | cons y ys =>
        rw [List.map_cons, List.map_cons, List.intercalate_cons_cons, List.append_assoc,
          List.append_assoc, List.singleton_append] at h
        apply hstop.reads_of_eq (hgo x hmem c _ h)
        apply (hitem x hmem c _ h (.inl rfl)).bind
        intro a c₁ _ h₁ ha
        apply (reads_accept h₁).bind
        rintro _ c₂ _ h₂ ⟨span, rfl⟩
        -- the separator has been read at least, so the bound suffices for the others
        have hlt : c₂.tokens.length < fuel := by
          rw [h, List.length_append, List.length_cons] at hfuel
          rw [h₂]
          omega
        apply (ih (fun x hx => hgo x (List.mem_cons_of_mem _ hx))
          (fun x hx => hitem x (List.mem_cons_of_mem _ hx)) hlt (List.cons_ne_nil _ _) h₂).bind
        intro as c₃ _ h₃ has
        exact .pure h₃ (.cons ha has)

/-- Items between separators are read if each is read and the end is told from them. -/
lemma reads_separatedBy {stop : Parser Bool} {separator : Mark} (hstop : Looks stop)
    (hgo : ∀ x ∈ xs, ∀ c rest, c.tokens = write x ++ rest → (stop ctx c).1 = false)
    (hend : xs = [] → ∀ c, c.tokens = after → (stop ctx c).1 = true)
    (hitem : ∀ x ∈ xs, ∀ c rest, c.tokens = write x ++ rest →
      rest.head? = some (.mark separator) ∨ rest = after → Reads ctx c item rest (R x))
    (hafter : after.head? ≠ some (.mark separator))
    (h : c.tokens = [.mark separator].intercalate (xs.map write) ++ after) :
    Reads ctx c (separatedBy stop separator item) after fun as => List.Forall₂ R xs as := by
  apply reads_remaining
  cases xs with
  | nil =>
    apply hstop.reads_of_eq (hend rfl c h)
    exact .pure h .nil
  | cons x xs =>
    exact reads_separated hstop hgo hitem hafter (Nat.lt_succ_self _) (List.cons_ne_nil _ _) h

/-- The item is read before a semicolon, with it, and before a closing bracket, without it. -/
structure ReadsItem (ctx : Context) (closer : Mark) (item : Parser α) (written : List Token)
    (P : α → Prop) : Prop where
  first : ∃ t ts, written = t :: ts ∧ t ≠ .mark closer ∧ t ≠ .mark .semi
  semi : ∀ c rest, c.tokens = written ++ .mark .semi :: rest → Reads ctx c item rest P
  last : ∀ c rest, c.tokens = written ++ .mark closer :: rest →
    Reads ctx c item (.mark closer :: rest) P

/-- A loop up to a closing bracket reads items with semicolons between them. -/
lemma reads_members {closer : Mark}
    (hitem : ∀ x ∈ xs, ReadsItem ctx closer item (write x) (R x)) {fuel : Nat}
    (hfuel : c.tokens.length < fuel)
    (h : c.tokens = [.mark .semi].intercalate (xs.map write) ++ .mark closer :: after) :
    Reads ctx c (members closer item fuel) (.mark closer :: after)
      fun as => List.Forall₂ R xs as := by
  induction fuel generalizing c xs with
  | zero => exact absurd hfuel (Nat.not_lt_zero _)
  | succ fuel ih =>
    cases xs with
    | nil =>
      apply reads_peek (o := some (.mark closer)) (by rw [h]; rfl)
      dsimp only
      rw [if_pos rfl]
      exact .pure h .nil
    | cons x xs =>
      obtain ⟨⟨t, ts, hwrite, hcloser, hsemi⟩, hmid, hlast⟩ := hitem x List.mem_cons_self
      -- one item, and then the others
      have hstep {rest left : List Token} (hrest : c.tokens = write x ++ rest)
          (hread : Reads ctx c item left (R x)) (hleft : left.length ≤ rest.length)
          (hothers : left = [.mark .semi].intercalate (xs.map write) ++ .mark closer :: after) :
          Reads ctx c (members closer item (fuel + 1)) (.mark closer :: after)
            fun as => List.Forall₂ R (x :: xs) as := by
        apply reads_peek (o := some t) (by rw [hrest, hwrite]; rfl)
        dsimp only
        rw [if_neg hcloser, if_neg hsemi]
        apply reads_position
        apply hread.bind
        intro a c₁ h₁ htokens ha
        have hpos : c₁.pos ≠ c.pos := by
          apply h₁.pos_ne
          rw [htokens, hrest, hwrite, List.length_append, List.length_cons]
          omega
        apply reads_skipIfStuck hpos
        have hlt : c₁.tokens.length < fuel := by
          rw [hrest, hwrite, List.length_append, List.length_cons] at hfuel
          rw [htokens]
          omega
        apply (ih (fun x hx => hitem x (List.mem_cons_of_mem _ hx)) hlt (htokens.trans hothers)).bind
        intro as c₂ _ h₂ has
        exact .pure h₂ (.cons ha has)
      cases xs with
      | nil =>
        rw [List.map_singleton, List.intercalate_singleton] at h
        exact hstep h (hlast c _ h) (Nat.le_refl _) rfl
      | cons y ys =>
        rw [List.map_cons, List.map_cons, List.intercalate_cons_cons, List.append_assoc,
          List.append_assoc, List.singleton_append] at h
        exact hstep h (hmid c _ h) (Nat.le_succ _) rfl

/-- Items up to a closing mark are read if each is. -/
lemma reads_membersUpTo {closer : Mark}
    (hitem : ∀ x ∈ xs, ReadsItem ctx closer item (write x) (R x))
    (h : c.tokens = [.mark .semi].intercalate (xs.map write) ++ .mark closer :: after) :
    Reads ctx c (membersUpTo closer item) (.mark closer :: after)
      fun as => List.Forall₂ R xs as := by
  apply reads_remaining
  exact reads_members hitem (Nat.lt_succ_self _) h

end

end Parser

end GoService.Source
