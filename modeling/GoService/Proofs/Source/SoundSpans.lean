import GoService.Proofs.Source.Placement
import GoService.Proofs.Source.Runs
import GoService.Proofs.Source.SpanTrees
import GoService.Proofs.Text.Slices

/-!
# Places that lie in a source

A place is sound if it lies in the source and cuts no character (`Span.IsSound`). All places that
the lexer gives are sound, and a parser makes others only of the offsets at which these begin and
end.
`Stores` says so of one parser: where it stands among sound places, all that it gives, reports and
notes is sound, and it goes forward. Errors in the source do not matter, nor do loops that are cut
short.
-/

namespace GoService.Source

variable {src : List Char}

/-- What is not there fits anything. -/
lemma forall_mem_none {α : Type} {P : α → Prop} : ∀ a ∈ (none : Option α), P a := by
  intro a ha
  cases ha

/-! ## Sound places -/

/-- The offset lies between two characters of a source, or at one of its ends. -/
def IsBoundary (src : List Char) (offset : Nat) : Prop :=
  ∃ before after, src = before ++ after ∧ byteSize before = offset

/-- The start of a source is between its characters. -/
lemma isBoundary_zero : IsBoundary src 0 :=
  ⟨[], src, rfl, rfl⟩

/-- The end of a source is between its characters. -/
lemma isBoundary_end : IsBoundary src (byteSize src) :=
  ⟨src, [], (List.append_nil src).symm, rfl⟩

/-- Nothing between the characters of a source is behind its end. -/
lemma IsBoundary.le {offset : Nat} (h : IsBoundary src offset) : offset ≤ byteSize src := by
  obtain ⟨before, after, rfl, rfl⟩ := h
  rw [byteSize_append]
  exact Nat.le_add_right ..

/-- The later one of two offsets is between characters. -/
lemma IsBoundary.max {m n : Nat} (hm : IsBoundary src m) (hn : IsBoundary src n) :
    IsBoundary src (max m n) := by
  rcases Nat.le_total m n with hle | hle
  · rwa [Nat.max_eq_right hle]
  · rwa [Nat.max_eq_left hle]

/-- The earlier one of two offsets is between characters. -/
lemma IsBoundary.min {m n : Nat} (hm : IsBoundary src m) (hn : IsBoundary src n) :
    IsBoundary src (min m n) := by
  rcases Nat.le_total m n with hle | hle
  · rwa [Nat.min_eq_left hle]
  · rwa [Nat.min_eq_right hle]

/-- Between two boundaries there is a text. -/
lemma IsBoundary.exists_slice {m n : Nat} (hm : IsBoundary src m) (hn : IsBoundary src n)
    (hle : m ≤ n) : ∃ text, sliceBytes src m n = some text ∧ byteSize text = n - m := by
  obtain ⟨before, after, rfl, rfl⟩ := hm
  obtain ⟨before', after', heq, rfl⟩ := hn
  rcases List.append_eq_append_iff.1 heq with ⟨text, rfl, rfl⟩ | ⟨mid, rfl, -⟩
  · rw [byteSize_append, Nat.add_sub_cancel_left, ← List.append_assoc]
    exact ⟨text, sliceBytes_append before text after', rfl⟩
  · have hmid : mid = [] := byteSize_eq_zero.1 (by rw [byteSize_append] at hle; omega)
    rw [hmid, List.append_nil, Nat.sub_self]
    exact ⟨[], sliceBytes_eq_some.2 ⟨before', after, by simp, rfl, rfl⟩, rfl⟩

/-- The place lies in a source, and begins and ends between characters. -/
structure Span.IsSound (src : List Char) (s : Span) : Prop where
  start : IsBoundary src s.start
  stop : IsBoundary src s.stop
  le : s.start ≤ s.stop

namespace Span.IsSound

variable {s s' : Span}

/-- An empty place between characters is sound. -/
lemma emptyAt {offset : Nat} (h : IsBoundary src offset) : (Span.emptyAt offset).IsSound src :=
  ⟨h, h, Nat.le_refl _⟩

/-- The place that covers two sound ones is sound. -/
lemma cover (h : s.IsSound src) (h' : s'.IsSound src) : (s.cover s').IsSound src :=
  ⟨h.start.min h'.start, h.stop.max h'.stop,
    Nat.le_trans (Nat.min_le_left ..) (Nat.le_trans h.le (Nat.le_max_left ..))⟩

end Span.IsSound

/-- A place that cuts a text out of the source is sound. -/
lemma Span.Cuts.isSound {text : List Char} {s : Span} (h : s.Cuts src text) : s.IsSound src := by
  obtain ⟨before, after, rfl, -, rfl⟩ := h
  refine ⟨⟨before, text ++ after, List.append_assoc .., rfl⟩, ⟨before ++ text, after, rfl, ?_⟩,
    Nat.le_add_right ..⟩
  rw [byteSize_append]
  rfl

/-! ## Sound trees -/

namespace SpanTree

/-- All places in a tree are sound. -/
def IsSound (src : List Char) (t : SpanTree) : Prop :=
  t.Everywhere fun s => s.span.IsSound src

/-- All places in some trees are sound. -/
def AllSound (src : List Char) (ts : List SpanTree) : Prop :=
  ∀ t ∈ ts, t.IsSound src

variable {span : Span} {ts ts' : List SpanTree}

/-- A token at a sound place is sound. -/
lemma isSound_token {t : Token} (h : span.IsSound src) : (token t span).IsSound src :=
  .intro h nofun

/-- A literal at a sound place is sound. -/
lemma isSound_literal {text : String} (h : span.IsSound src) : (literal text span).IsSound src :=
  .intro h nofun

/-- What is skipped at a sound place is sound. -/
lemma isSound_skipped (h : span.IsSound src) : (skipped span).IsSound src :=
  .intro h nofun

/-- What is recovered at a sound place is sound. -/
lemma isSound_recovered (h : span.IsSound src) : (recovered span).IsSound src :=
  .intro h nofun

/-- A node at a sound place with sound parts is sound. -/
lemma isSound_node (h : span.IsSound src) (hparts : AllSound src ts) : (node span ts).IsSound src :=
  .intro h hparts

namespace AllSound

/-- No trees are sound. -/
lemma nil : AllSound src [] :=
  List.forall_mem_nil _

/-- A sound tree may come before sound trees. -/
lemma cons {t : SpanTree} (h : t.IsSound src) (hs : AllSound src ts) : AllSound src (t :: ts) :=
  List.forall_mem_cons.2 ⟨h, hs⟩

/-- One sound tree is sound trees. -/
lemma single {t : SpanTree} (h : t.IsSound src) : AllSound src [t] :=
  cons h nil

/-- Sound trees one after another are sound. -/
lemma append (h : AllSound src ts) (h' : AllSound src ts') : AllSound src (ts ++ ts') :=
  List.forall_mem_append.2 ⟨h, h'⟩

/-- Trees of sound things are sound. -/
lemma map {α : Type} {f : α → SpanTree} {as : List α} (h : ∀ a ∈ as, (f a).IsSound src) :
    AllSound src (as.map f) :=
  List.forall_mem_map.2 h

/-- Trees of things each with sound trees are sound. -/
lemma flatMap {α : Type} {f : α → List SpanTree} {as : List α} (h : ∀ a ∈ as, AllSound src (f a)) :
    AllSound src (as.flatMap f) :=
  List.forall_mem_flatMap.2 h

/-- The tree of a thing that may be missing is sound if it is when it is there. -/
lemma option {α : Type} {f : α → SpanTree} {o : Option α} (h : ∀ a ∈ o, (f a).IsSound src) :
    AllSound src (o.map f).toList := by
  rw [Option.toList_map]
  exact map fun a ha => h a (Option.mem_toList.1 ha)

/-- A token that may be missing is sound if its place is when it is there. -/
lemma token? {t : Token} {o : Option Span} (h : ∀ s ∈ o, s.IsSound src) :
    AllSound src (token? t o) :=
  option fun s hs => isSound_token (h s hs)

end AllSound

end SpanTree

/-! ## What the lexer gives -/

/-- The first line break is between characters. -/
lemma isBoundary_of_firstLineBreak? {offset at_ : Nat} {before text after : List Char}
    (h : firstLineBreak? offset text = some at_) (hoffset : byteSize before = offset)
    (hsrc : src = before ++ (text ++ after)) : IsBoundary src at_ := by
  induction text generalizing offset before with
  | nil => cases h
  | cons c text ih =>
    rw [firstLineBreak?] at h
    split at h
    · cases h
      exact ⟨before, _, hsrc, hoffset⟩
    · have hoffset' : byteSize (before ++ [c]) = offset + c.utf8Size := by
        rw [byteSize_append, hoffset]
        rfl
      have hsrc' : src = (before ++ [c]) ++ (text ++ after) := by
        rw [hsrc, List.append_assoc]
        rfl
      exact ih h hoffset' hsrc'

/-- A semicolon that a line end stands for lies between characters. -/
lemma Lexes.isBoundary {armed : Bool} {offset at_ : Nat} {cs before : List Char} {is : List Item}
    (h : Lexes armed offset cs is) (hsrc : src = before ++ cs) (hoffset : byteSize before = offset)
    (hi : .semicolon at_ ∈ is) : IsBoundary src at_ := by
  -- offsets are measured from the start of the source, so what stands before the rest is kept
  induction h generalizing before with
  | finished => cases hi
  | statementEnd =>
    cases List.mem_singleton.1 hi
    exact ⟨before, _, hsrc, hoffset⟩
  | @piece text armed offset rest items armed' is hne h hrest ih =>
    rcases List.mem_append.1 hi with hi | hi
    · cases h with
      | blank | byteOrderMark | lineEnd => cases hi
      | statementEnd =>
        cases List.mem_singleton.1 hi
        exact ⟨before, _, hsrc, hoffset⟩
      | comment | fault | token => cases List.mem_singleton.1 hi
      | commentOverBreak _ hbreak =>
        rcases List.mem_cons.1 hi with heq | hi
        · cases heq
        cases List.mem_singleton.1 hi
        exact isBoundary_of_firstLineBreak? hbreak hoffset hsrc
      | unclosed =>
        rcases List.mem_cons.1 hi with heq | hi
        · cases heq
        · cases List.mem_singleton.1 hi
    · have hsrc' : src = (before ++ text) ++ rest := by rw [hsrc, List.append_assoc]
      have hoffset' : byteSize (before ++ text) = offset + byteSize text := by
        rw [byteSize_append, hoffset]
      exact ih hsrc' hoffset' hi

/-- The items of a source are at sound places. -/
lemma isSound_of_mem_items {i : Item} (hi : i ∈ itemsFrom false 0 src) : i.span.IsSound src := by
  have hstands := standsIn_items hi
  cases i with
  | token p =>
    obtain ⟨text, hcuts, -⟩ := hstands
    exact hcuts.isSound
  | semicolon offset =>
    exact .emptyAt ((lexes_itemsFrom false 0 src).isBoundary (List.nil_append src).symm rfl hi)
  | comment => exact Span.Cuts.isSound hstands
  | fault =>
    obtain ⟨text, hcuts⟩ := hstands
    exact hcuts.isSound

/-- The tokens of a source are at sound places. -/
lemma isSound_of_mem_tokens {p : Placed} (hp : p ∈ (findings src).tokens) : p.span.IsSound src := by
  obtain ⟨i, hi, hplaced⟩ := List.mem_filterMap.1 hp
  rw [span_of_placed? hplaced]
  exact isSound_of_mem_items hi

/-- The reports of the lexer are at sound places. -/
lemma isSound_of_mem_diagnostics {d : Diagnostic} (hd : d ∈ (findings src).diagnostics) :
    d.span.IsSound src := by
  have hspan : d.span ∈ (findings src).diagnostics.map (·.span) := List.mem_map_of_mem hd
  rw [spans_of_diagnostics] at hspan
  obtain ⟨p, hp, hspan⟩ := List.mem_map.1 hspan
  rw [← hspan]
  exact isSound_of_mem_tokens (List.mem_of_mem_filter hp)

/-! ## Cursors -/

namespace Cursor

variable {c c' : Cursor}

/-- The offset at which the next token begins; behind the last one, the end of the source. -/
def offset (src : List Char) (c : Cursor) : Nat :=
  (c.rest.head?.map fun p => p.span.start).getD (byteSize src)

/-- All places that a cursor has are sound. -/
structure Sound (src : List Char) (c : Cursor) : Prop where
  tokens : ∀ p ∈ c.rest, p.span.IsSound src
  order : InOrder c.rest
  prevEnd : IsBoundary src c.prevEnd
  diagnostics : ∀ d ∈ c.diagnostics, d.span.IsSound src
  built : ∀ label ∈ c.built, label.span.IsSound src

/-- The second cursor is sound, and not before the first one. -/
structure Reaches (src : List Char) (c c' : Cursor) : Prop where
  sound : c'.Sound src
  forward : c.offset src ≤ c'.offset src

/-- A sound cursor reaches itself. -/
lemma Sound.reaches (h : c.Sound src) : c.Reaches src c :=
  ⟨h, Nat.le_refl _⟩

/-- What is reached from what is reached is reached. -/
lemma Reaches.trans {c'' : Cursor} (h : c.Reaches src c') (h' : c'.Reaches src c'') :
    c.Reaches src c'' :=
  ⟨h'.sound, Nat.le_trans h.forward h'.forward⟩

/-- A sound cursor reaches the one behind the next token. -/
lemma Sound.next (h : c.Sound src) : c.Reaches src c.next := by
  obtain ⟨rest, pos, prevEnd, diagnostics, built, gaveUp⟩ := c
  cases rest with
  | nil => exact h.reaches
  | cons p ps =>
    obtain ⟨hp, hps⟩ := List.forall_mem_cons.1 h.tokens
    refine ⟨⟨hps, h.order.sublist (List.sublist_cons_self ..), hp.stop, h.diagnostics, h.built⟩, ?_⟩
    -- the next offset is the end of the source or the start of a token behind this one
    cases ps with
    | nil => exact hp.start.le
    | cons q qs =>
      exact Nat.le_trans hp.le ((List.pairwise_cons.1 h.order.apart).1 q List.mem_cons_self)

/-- A sound cursor reaches those behind later tokens. -/
lemma Sound.advance (h : c.Sound src) (n : Nat) : c.Reaches src (c.advance n) := by
  induction n generalizing c with
  | zero => exact h.reaches
  | succ n ih => exact h.next.trans (ih h.next.sound)

/-- The cursor at the start is sound. -/
lemma sound_start (src : List Char) : (Cursor.start (findings src).tokens).Sound src :=
  ⟨fun _ => isSound_of_mem_tokens, inOrder_lex src, isBoundary_zero, nofun, nofun⟩

end Cursor

namespace Parser

variable {α β : Type} {c : Cursor}

/-! ## Rules -/

/-- In the source whose places a cursor has, all that a parser gives, reports and notes is sound. -/
def Stores (src : List Char) (c : Cursor) (m : Parser α) (P : α → Prop) : Prop :=
  ∀ ctx : Context, ctx.endOffset = byteSize src → c.Sound src →
    c.Reaches src (m ctx c).2 ∧ P (m ctx c).1

section

variable {m : Parser α} {f : α → Parser β} {P P' : α → Prop} {Q : β → Prop}

/-- A result that is at hand is given. -/
lemma Stores.pure {a : α} (h : P a) : Stores src c (pure a) P :=
  fun _ _ hc => ⟨hc.reaches, h⟩

/-- What sound parsers give one after another is sound. -/
lemma Stores.bind (hm : Stores src c m P)
    (hf : ∀ a c', c.offset src ≤ c'.offset src → P a → Stores src c' (f a) Q) :
    Stores src c (m >>= f) Q := by
  intro ctx hctx hc
  obtain ⟨hreaches, hP⟩ := hm ctx hctx hc
  obtain ⟨hreaches', hQ⟩ := hf _ _ hreaches.forward hP ctx hctx hreaches.sound
  exact ⟨hreaches.trans hreaches', hQ⟩

/-- Where it does not matter how far a parser has come. -/
lemma Stores.andThen (hm : Stores src c m P) (hf : ∀ a c', P a → Stores src c' (f a) Q) :
    Stores src c (m >>= f) Q :=
  hm.bind fun a c' _ => hf a c'

/-- Less may be known of what a parser gives. -/
lemma Stores.mono (hm : Stores src c m P) (h : ∀ a, P a → P' a) : Stores src c m P' :=
  fun ctx hctx hc => ⟨(hm ctx hctx hc).1, h _ (hm ctx hctx hc).2⟩

/-- What only looks may come first. -/
lemma Looks.bind_stores (hm : Looks m) (hf : ∀ a, Stores src c (f a) Q) :
    Stores src c (m >>= f) Q := by
  intro ctx hctx hc
  show c.Reaches src (f (m ctx c).1 ctx (m ctx c).2).2 ∧ Q (f (m ctx c).1 ctx (m ctx c).2).1
  rw [hm ctx c]
  exact hf _ ctx hctx hc

end

/-! ## Tokens -/

/-- The place of the next token is sound, and starts at the offset of the cursor. -/
lemma stores_nextSpan :
    Stores src c nextSpan fun s => s.IsSound src ∧ s.start = c.offset src := by
  intro ctx hctx hc
  obtain ⟨rest, pos, prevEnd, diagnostics, built, gaveUp⟩ := c
  cases rest with
  | nil =>
    have hend : nextSpan ctx ⟨[], pos, prevEnd, diagnostics, built, gaveUp⟩ =
        (.emptyAt (byteSize src), ⟨[], pos, prevEnd, diagnostics, built, gaveUp⟩) := by
      rw [← hctx]
      rfl
    rw [hend]
    exact ⟨hc.reaches, .emptyAt isBoundary_end, rfl⟩
  | cons p ps => exact ⟨hc.reaches, hc.tokens p List.mem_cons_self, rfl⟩

/-- Where only the place of the next token matters. -/
lemma stores_start {f : Span → Parser β} {Q : β → Prop}
    (hf : ∀ start c', start.IsSound src → Stores src c' (f start) Q) :
    Stores src c (nextSpan >>= f) Q :=
  stores_nextSpan.andThen fun start c' h => hf start c' h.1

/-- The place since a sound start is sound. -/
lemma stores_spanSince {start : Span} (h : start.IsSound src) :
    Stores src c (spanSince start) fun s => s.IsSound src ∧ s.start = start.start :=
  fun _ _ hc => ⟨hc.reaches, ⟨h.start, hc.prevEnd.max h.start, Nat.le_max_right ..⟩, rfl⟩

/-- To pass over tokens keeps the cursor sound. -/
lemma stores_advance (n : Cursor → Nat) :
    Stores src c (modify fun c => c.advance (n c)) fun _ => True :=
  fun _ _ hc => ⟨hc.advance _, True.intro⟩

/-- The next token is taken from a sound place. -/
lemma stores_take : Stores src c take fun s => s.IsSound src := by
  apply stores_start
  intro span c₁ hspan
  have hnext : Stores src c₁ (modify Cursor.next) fun _ => True :=
    fun _ _ hc => ⟨hc.next, True.intro⟩
  apply hnext.andThen
  intro _ c₂ _
  exact .pure hspan

/-- A report at a sound place keeps the cursor sound. -/
lemma stores_report {span : Span} (problem : Problem) (h : span.IsSound src) :
    Stores src c (report span problem) fun _ => True :=
  fun _ _ hc => ⟨⟨⟨hc.tokens, hc.order, hc.prevEnd,
    List.forall_mem_cons.2 ⟨h, hc.diagnostics⟩, hc.built⟩, Nat.le_refl _⟩, True.intro⟩

/-- A node at a sound place keeps the cursor sound. -/
lemma stores_note {span : Span} (kind : NodeKind) (h : span.IsSound src) :
    Stores src c (note kind span) fun _ => True :=
  fun _ _ hc => ⟨⟨⟨hc.tokens, hc.order, hc.prevEnd, hc.diagnostics,
    List.forall_mem_cons.2 ⟨h, hc.built⟩⟩, Nat.le_refl _⟩, True.intro⟩

/-- What is left to do once all parts of a node are read. -/
lemma stores_node {kind : NodeKind} {start : Span} {build : Span → α} {P : α → Prop}
    (hstart : start.IsSound src) (h : ∀ span, span.IsSound src → P (build span)) :
    Stores src c (do return build (← noteSince kind start)) P := by
  have hnote : Stores src c (noteSince kind start) fun s => s.IsSound src := by
    apply (stores_spanSince hstart).andThen
    intro span c₁ hspan
    apply (stores_note kind hspan.1).andThen
    intro _ c₂ _
    exact .pure hspan.1
  apply hnote.andThen
  intro span c₁ hspan
  exact .pure (h span hspan)

/-- A complaint is at a sound place. -/
lemma stores_complain (what : String) : Stores src c (complain what) fun _ => True := by
  apply stores_start
  intro span c₁ hspan
  apply looks_found.bind_stores
  intro found
  exact stores_report _ hspan

/-- A token is accepted at a sound place. -/
lemma stores_accept (t : Token) : Stores src c (accept t) fun o => ∀ s ∈ o, s.IsSound src := by
  apply (looks_peekAt 0).bind_stores
  intro t'
  split
  · apply stores_take.andThen
    intro span c₁ hspan
    apply Stores.pure
    intro s hs
    cases hs
    exact hspan
  · exact .pure nofun

/-- A token is required at a sound place. -/
lemma stores_require (t : Token) (what : String) :
    Stores src c (require t what) fun o => ∀ s ∈ o, s.IsSound src := by
  apply (stores_accept t).andThen
  intro o c₁ ho
  cases o with
  | some span => exact .pure ho
  | none =>
    apply (stores_complain what).andThen
    intro _ c₂ _
    exact .pure nofun

/-- The place of a required token is sound. -/
lemma stores_requireSpan (t : Token) (what : String) :
    Stores src c (requireSpan t what) fun s => s.IsSound src := by
  apply (stores_require t what).andThen
  intro o c₁ ho
  cases o with
  | some span => exact .pure (ho span rfl)
  | none => exact stores_nextSpan.mono fun _ => And.left

/-- A required identifier is at a sound place. -/
lemma stores_requireIdent (what : String) :
    Stores src c (requireIdent what) fun i => i.spanTree.IsSound src := by
  apply (looks_peekAt 0).bind_stores
  intro t
  split
  · apply stores_take.andThen
    intro span c₁ hspan
    exact .pure (SpanTree.isSound_token hspan)
  · apply (stores_complain what).andThen
    intro _ c₁ _
    apply stores_start
    intro span c₂ hspan
    exact .pure (SpanTree.isSound_token (.emptyAt hspan.start))

/-- The end of a statement is complained of at a sound place. -/
lemma stores_endStatement : Stores src c endStatement fun _ => True := by
  apply (looks_peekAt 0).bind_stores
  intro t
  split
  · apply stores_take.andThen
    intro _ c₁ _
    exact .pure True.intro
  · exact .pure True.intro
  · exact .pure True.intro
  · exact .pure True.intro
  · apply (stores_complain _).andThen
    intro _ c₁ _
    exact .pure True.intro

/-! ## Skipping -/

/-- A run is skipped at a sound place. -/
lemma stores_skipRun : Stores src c skipRun fun s => s.IsSound src := by
  apply stores_start
  intro start c₁ hstart
  have hspan (c : Cursor) : Stores src c (spanSince start) fun s => s.IsSound src :=
    (stores_spanSince hstart).mono fun _ => And.left
  have hget : Looks (get : Parser Cursor) := fun _ _ => rfl
  apply hget.bind_stores
  intro c'
  obtain ⟨n, left⟩ := balancedLength 0 c'.rest
  apply (stores_advance fun _ => n).andThen
  intro _ c₂ _
  dsimp only
  split
  · apply (stores_report _ hstart).andThen
    intro _ c₃ _
    exact hspan c₃
  · exact hspan c₂

/-- A statement is skipped at a sound place. -/
lemma stores_skipStatement : Stores src c skipStatement fun s => s.IsSound src := by
  apply stores_start
  intro start c₁ hstart
  apply (stores_advance fun c => terminatorDistance 0 c.rest).andThen
  intro _ c₂ _
  exact (stores_spanSince hstart).mono fun _ => And.left

/-- To skip to the next declaration keeps the cursor sound. -/
lemma stores_skipToDecl : Stores src c skipToDecl fun _ => True := by
  intro ctx _ hc
  obtain ⟨rest, pos, prevEnd, diagnostics, built, gaveUp⟩ := c
  cases rest with
  | nil => exact ⟨hc.reaches, True.intro⟩
  | cons p ps => exact ⟨hc.advance _, True.intro⟩

/-- The end of a declaration is complained of at a sound place. -/
lemma stores_finishDecl : Stores src c finishDecl fun _ => True := by
  apply stores_endStatement.andThen
  intro ended c₁ _
  cases ended with
  | true => exact .pure True.intro
  | false => exact stores_skipToDecl

/-- The end of a statement, with what is left of it, is complained of at a sound place. -/
lemma stores_finishStatement : Stores src c finishStatement fun _ => True := by
  apply stores_endStatement.andThen
  intro ended c₁ _
  cases ended with
  | true => exact .pure True.intro
  | false =>
    apply stores_skipStatement.andThen
    intro _ c₂ _
    exact .pure True.intro

/-- To ask for the position only looks. -/
lemma looks_position : Looks position :=
  fun _ _ => rfl

/-- A place that was not left is a sound one to complain of. -/
lemma stores_complainIfStuck (before : Nat) (what : String) :
    Stores src c (complainIfStuck before what) fun _ => True := by
  apply looks_position.bind_stores
  intro pos
  split
  · exact stores_complain what
  · exact .pure True.intro

/-- To skip at a place that was not left keeps the cursor sound. -/
lemma stores_skipIfStuck (before : Nat) : Stores src c (skipIfStuck before) fun _ => True := by
  apply looks_position.bind_stores
  intro pos
  split
  · apply stores_take.andThen
    intro _ c₁ _
    exact .pure True.intro
  · exact .pure True.intro

/-! ## Loops -/

/-- Items that fit, each at an offset that is not before that of the item before it. -/
inductive Ascends (Q : Nat → α → Prop) : Nat → List α → Prop
  | nil : Ascends Q n []
  | cons (hle : n ≤ m) (h : Q m a) (hs : Ascends Q m as) : Ascends Q n (a :: as)

section

variable {item : Parser α} {P : α → Prop} {Q : Nat → α → Prop} {stop : Parser Bool}
  {separator closer : Mark}

/-- What ascends from an offset ascends from an earlier one. -/
lemma Ascends.mono {as : List α} {m n : Nat} (h : Ascends Q n as) (hle : m ≤ n) :
    Ascends Q m as := by
  cases h with
  | nil => exact .nil
  | cons hle' h hs => exact .cons (Nat.le_trans hle hle') h hs

/-- What holds of each item wherever it is read holds of items that ascend. -/
lemma Ascends.forall {as : List α} {n : Nat} (h : Ascends Q n as) (hP : ∀ m a, Q m a → P a) :
    ∀ a ∈ as, P a := by
  induction h with
  | nil => exact nofun
  | cons _ h _ ih => exact List.forall_mem_cons.2 ⟨hP _ _ h, ih⟩

/-- To give up gives no items. -/
lemma stores_giveUp {P : List α → Prop} (h : P []) : Stores src c giveUp P :=
  fun _ _ hc => ⟨⟨⟨hc.tokens, hc.order, hc.prevEnd, hc.diagnostics, hc.built⟩, Nat.le_refl _⟩, h⟩

/-- An item that may be missing fits if it does when it is there. -/
lemma stores_whenever {cond : Parser Bool} (hcond : Looks cond) (hitem : Stores src c item P) :
    Stores src c (whenever cond item) fun o => ∀ a ∈ o, P a := by
  apply hcond.bind_stores
  intro b
  cases b with
  | false => exact .pure nofun
  | true =>
    apply hitem.andThen
    intro a c₁ ha
    apply Stores.pure
    intro b hb
    cases hb
    exact ha

/-- Items between separators ascend, for any bound. -/
lemma stores_separated (hstop : Looks stop) (hitem : ∀ c, Stores src c item (Q (c.offset src)))
    (fuel : Nat) :
    Stores src c (separated stop separator item fuel) (Ascends Q (c.offset src)) := by
  induction fuel generalizing c with
  | zero => exact stores_giveUp .nil
  | succ fuel ih =>
    apply hstop.bind_stores
    intro stops
    cases stops with
    | true => exact .pure .nil
    | false =>
      apply (hitem c).bind
      intro a c₁ hle ha
      apply (stores_accept _).bind
      intro o c₂ hle' _
      cases o with
      | none => exact .pure (.cons (Nat.le_refl _) ha .nil)
      | some span =>
        apply ih.andThen
        intro as c₃ has
        exact .pure (.cons (Nat.le_refl _) ha (has.mono (Nat.le_trans hle hle')))

/-- To ask for what remains only looks. -/
lemma looks_remaining : Looks remaining :=
  fun _ _ => rfl

/-- Items between separators ascend. -/
lemma stores_separatedBy (hstop : Looks stop) (hitem : ∀ c, Stores src c item (Q (c.offset src))) :
    Stores src c (separatedBy stop separator item) (Ascends Q (c.offset src)) :=
  looks_remaining.bind_stores fun _ => stores_separated hstop hitem _

/-- Where the order of items does not matter. -/
lemma stores_eachBy (hstop : Looks stop) (hitem : ∀ c, Stores src c item P) :
    Stores src c (separatedBy stop separator item) fun as => ∀ a ∈ as, P a :=
  (stores_separatedBy (Q := fun _ => P) hstop hitem).mono fun _ has => has.forall fun _ _ => id

/-- Items up to a closing mark fit if each does, for any bound. -/
lemma stores_members (hitem : ∀ c, Stores src c item P) (fuel : Nat) :
    Stores src c (members closer item fuel) fun as => ∀ a ∈ as, P a := by
  induction fuel generalizing c with
  | zero => exact stores_giveUp nofun
  | succ fuel ih =>
    apply (looks_peekAt 0).bind_stores
    intro t
    cases t with
    | none => exact .pure nofun
    | some t =>
      dsimp only
      split
      · exact .pure nofun
      · split
        · apply stores_take.andThen
          intro _ c₁ _
          exact ih
        · apply looks_position.bind_stores
          intro before
          apply (hitem c).andThen
          intro a c₁ ha
          apply (stores_skipIfStuck before).andThen
          intro _ c₂ _
          apply ih.andThen
          intro as c₃ has
          exact .pure (List.forall_mem_cons.2 ⟨ha, has⟩)

/-- Items up to a closing mark fit if each does. -/
lemma stores_membersUpTo (hitem : ∀ c, Stores src c item P) :
    Stores src c (membersUpTo closer item) fun as => ∀ a ∈ as, P a :=
  looks_remaining.bind_stores fun _ => stores_members hitem _

end

end Parser

end GoService.Source
