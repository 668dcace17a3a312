import GoService.Proofs.Source.Placement
import GoService.Proofs.Source.SpanTrees
import Mathlib.Data.List.Pairwise

/-!
# Trees that tokens spell

A row of tokens spells a tree of places if each token of the tree is one of the row, and each node
begins with the first and ends with the last token of its part of the row (`Spells`). Where tokens
are in order this alone says how the places of the tree lie to one another: the parts of a node lie
within the node, one after another (`Spells.nests`).
-/

namespace GoService.Source

/-! ## Rows of parts -/

variable {α β : Type}

/-- In the row of tokens stand, one after another and perhaps with tokens between them, rows for
each of the parts. -/
inductive InRows (R : List Placed → α → Prop) : List Placed → List α → Prop
  | nil (row : List Placed) : InRows R row []
  | cons (gap : List Placed) (h : R row a) (hs : InRows R rest as) :
      InRows R (gap ++ (row ++ rest)) (a :: as)

namespace InRows

variable {R : List Placed → α → Prop} {R' : List Placed → β → Prop} {row row' : List Placed}
  {a : α} {as as' : List α}

/-- Other tokens may stand before the rows. -/
lemma before (gap : List Placed) (h : InRows R row as) : InRows R (gap ++ row) as := by
  cases h with
  | nil => exact .nil _
  | cons gap' h hs =>
    rw [← List.append_assoc]
    exact .cons _ h hs

/-- Rows may follow one another. -/
lemma append (h : InRows R row as) (h' : InRows R row' as') :
    InRows R (row ++ row') (as ++ as') := by
  induction h with
  | nil gap => exact h'.before gap
  | cons gap h _ ih =>
    rw [List.append_assoc, List.append_assoc]
    exact .cons gap h ih

/-- Other tokens may stand behind the rows. -/
lemma behind (h : InRows R row as) (gap : List Placed) : InRows R (row ++ gap) as := by
  have happend := h.append (.nil gap)
  rwa [List.append_nil] at happend

/-- A row for one part is rows for it. -/
lemma single (h : R row a) : InRows R row [a] := by
  have hcons := InRows.cons [] h (.nil [])
  rw [List.append_nil] at hcons
  exact hcons

/-- Each part may stand for several others. -/
lemma flatMap {f : α → List β} (h : InRows R row as) (hf : ∀ row a, R row a → InRows R' row (f a)) :
    InRows R' row (as.flatMap f) := by
  induction h with
  | nil gap => exact .nil gap
  | cons gap h _ ih => exact before gap ((hf _ _ h).append ih)

/-- Each part may stand for another one. -/
lemma map {f : α → β} (h : InRows R row as) (hf : ∀ row a, R row a → R' row (f a)) :
    InRows R' row (as.map f) := by
  rw [List.map_eq_flatMap]
  exact h.flatMap fun _ _ ha => .single (hf _ _ ha)

/-- What is known of the images is known of the parts. -/
lemma of_map {f : α → β} (h : InRows R' row (as.map f)) :
    InRows (fun row a => R' row (f a)) row as := by
  induction as generalizing row with
  | nil => exact .nil row
  | cons a as ih =>
    cases h with
    | cons gap h hs => exact .cons gap h (ih hs)

/-- Each part has its own row. -/
lemma exists_row (h : InRows R row as) (ha : a ∈ as) : ∃ row', row'.Sublist row ∧ R row' a := by
  induction h with
  | nil => cases ha
  | cons gap h hs ih =>
    rcases List.mem_cons.1 ha with rfl | ha
    · exact ⟨_, (List.sublist_append_left ..).trans (List.sublist_append_right ..), h⟩
    · obtain ⟨row', hsub, hrow⟩ := ih ha
      refine ⟨row', hsub.trans ?_, hrow⟩
      exact (List.sublist_append_right ..).trans (List.sublist_append_right ..)

/-- The rows of two parts stand one after the other. -/
lemma pairwise (h : InRows R row as) :
    as.Pairwise fun a b => ∃ r r', (r ++ r').Sublist row ∧ R r a ∧ R r' b := by
  induction h with
  | nil => exact .nil
  | @cons r a rest as gap h hs ih =>
    refine List.pairwise_cons.2 ⟨fun b hb => ?_, ih.imp ?_⟩
    · obtain ⟨r', hsub, hr'⟩ := hs.exists_row hb
      exact ⟨r, r', (hsub.append_left r).trans (List.sublist_append_right ..), h, hr'⟩
    · intro b b' hrows
      obtain ⟨r₁, r₂, hsub, h₁, h₂⟩ := hrows
      refine ⟨r₁, r₂, hsub.trans ?_, h₁, h₂⟩
      exact (List.sublist_append_right ..).trans (List.sublist_append_right ..)

/-- Rows of parts that take tokens take tokens. -/
lemma row_ne_nil (h : InRows R row as) (hne : as ≠ []) (hR : ∀ row a, R row a → row ≠ []) :
    row ≠ [] := by
  cases h with
  | nil => exact absurd rfl hne
  | cons gap h _ =>
    intro hnil
    have happend := (List.append_eq_nil_iff.1 hnil).2
    exact hR _ _ h (List.append_eq_nil_iff.1 happend).1

end InRows

/-! ## The places that tokens cover -/

/-- The place begins where the first of the tokens begins, and ends where the last one ends. -/
structure Covers (row : List Placed) (span : Span) : Prop where
  start : row.head?.map (·.span.start) = some span.start
  stop : row.getLast?.map (·.span.stop) = some span.stop

namespace Covers

variable {row row' : List Placed} {s s' : Span}

/-- A place that tokens cover begins and ends with some of them. -/
lemma exists_ends (h : Covers row s) : ∃ first ∈ row, ∃ last ∈ row,
    first.span.start = s.start ∧ last.span.stop = s.stop := by
  obtain ⟨first, hfirst, hstart⟩ := Option.map_eq_some_iff.1 h.start
  obtain ⟨last, hlast, hstop⟩ := Option.map_eq_some_iff.1 h.stop
  exact ⟨first, List.mem_of_head? hfirst, last, List.mem_of_getLast? hlast, hstart, hstop⟩

/-- Only tokens cover a place. -/
lemma ne_nil (h : Covers row s) : row ≠ [] := by
  obtain ⟨first, hfirst, -⟩ := h.exists_ends
  exact List.ne_nil_of_mem hfirst

/-- One token covers its own place. -/
lemma single (p : Placed) : Covers [p] p.span :=
  ⟨rfl, rfl⟩

/-- Tokens cover one place only. -/
lemma unique (h : Covers row s) (h' : Covers row s') : s = s' := by
  have hstart := Option.some.inj (h.start.symm.trans h'.start)
  have hstop := Option.some.inj (h.stop.symm.trans h'.stop)
  obtain ⟨start, stop⟩ := s
  cases hstart
  cases hstop
  rfl

/-- No token of an ordered row begins before the place that the row covers. -/
lemma start_le (h : Covers row s) (horder : InOrder row) {p : Placed} (hp : p ∈ row) :
    s.start ≤ p.span.start := by
  cases row with
  | nil => cases hp
  | cons first row =>
    have hstart : first.span.start = s.start := Option.some.inj h.start
    rw [← hstart]
    rcases List.mem_cons.1 hp with rfl | hp
    · exact Nat.le_refl _
    · have hfirst := horder.forward first List.mem_cons_self
      exact Nat.le_trans hfirst ((List.pairwise_cons.1 horder.apart).1 p hp)

/-- No token of an ordered row ends behind the place that the row covers. -/
lemma le_stop (h : Covers row s) (horder : InOrder row) {p : Placed} (hp : p ∈ row) :
    p.span.stop ≤ s.stop := by
  obtain ⟨last, hlast, hstop⟩ := Option.map_eq_some_iff.1 h.stop
  obtain ⟨others, rfl⟩ := List.getLast?_eq_some_iff.1 hlast
  rw [← hstop]
  rcases List.mem_append.1 hp with hp | hp
  · have hforward := horder.forward last (List.mem_append_right _ (List.mem_singleton_self _))
    have hapart := (List.pairwise_append.1 horder.apart).2.2 p hp last (List.mem_singleton_self _)
    exact Nat.le_trans hapart hforward
  · cases List.mem_singleton.1 hp
    exact Nat.le_refl _

/-- What a part of a row covers lies within what the row covers. -/
lemma within (h : Covers row s) (horder : InOrder row) (h' : Covers row' s')
    (hsub : row'.Sublist row) : s.start ≤ s'.start ∧ s'.stop ≤ s.stop := by
  obtain ⟨first, hfirst, last, hlast, hstart, hstop⟩ := h'.exists_ends
  rw [← hstart, ← hstop]
  exact ⟨h.start_le horder (hsub.subset hfirst), h.le_stop horder (hsub.subset hlast)⟩

/-- Rows one after the other cover places one after the other. -/
lemma apart (h : Covers row s) (h' : Covers row' s') (horder : InOrder (row ++ row')) :
    s.stop ≤ s'.start := by
  obtain ⟨-, -, last, hlast, -, hstop⟩ := h.exists_ends
  obtain ⟨first, hfirst, -, -, hstart, -⟩ := h'.exists_ends
  rw [← hstop, ← hstart]
  exact (List.pairwise_append.1 horder.apart).2.2 last hlast first hfirst

end Covers

/-! ## Spelling -/

/-- The tokens spell the tree. -/
inductive Spells : List Placed → SpanTree → Prop
  | token (hp : p.token ≠ .mark .semi) : Spells [p] (.token p.token p.span)
  | literal (hp : p.token = .stringLit text ∨ p.token = .rawStringLit text) :
      Spells [p] (.literal text p.span)
  | skipped (h : Covers row span) : Spells row (.skipped span)
  | node (h : Covers row span) (hparts : InRows Spells row parts) : Spells row (.node span parts)

namespace Spells

variable {row : List Placed} {t : SpanTree}

/-- A tree that is spelled is at the place that its tokens cover. -/
lemma covers (h : Spells row t) : Covers row t.span := by
  cases h with
  | token hp => exact .single _
  | literal hp => exact .single _
  | skipped h => exact h
  | node h _ => exact h

/-- A tree is spelled by some tokens. -/
lemma ne_nil (h : Spells row t) : row ≠ [] :=
  h.covers.ne_nil

/-- A tree ends behind its start. -/
lemma forward (h : Spells row t) (horder : InOrder row) : t.span.start ≤ t.span.stop := by
  obtain ⟨p, hp⟩ := List.exists_mem_of_ne_nil row h.ne_nil
  have hstart := h.covers.start_le horder hp
  exact Nat.le_trans hstart (Nat.le_trans (horder.forward p hp) (h.covers.le_stop horder hp))

/-- A part of a tree is spelled by a part of the row. -/
lemma part (h : Spells row t) {s : SpanTree} (hs : s ∈ t.parts) :
    ∃ row', row'.Sublist row ∧ Spells row' s := by
  cases h with
  | node _ hparts => exact hparts.exists_row hs
  | _ => cases hs

end Spells

namespace SpanTree

/-- The parts of the place lie within it, one after another. -/
structure Nests (t : SpanTree) : Prop where
  within : ∀ s ∈ t.parts, t.span.start ≤ s.span.start ∧ s.span.stop ≤ t.span.stop
  apart : t.parts.Pairwise fun s s' => s.span.stop ≤ s'.span.start

/-- A place that is kept for a token or a literal is that of the token in a source, and has its
text; something was made of every place. -/
def IsExact (src : List Char) : SpanTree → Prop
  | .token t span => ⟨span, t⟩ ∈ (lex src).tokens ∧ ∃ text, span.Cuts src text ∧ t.IsWritten text
  | .literal text span =>
    (⟨span, .stringLit text⟩ ∈ (lex src).tokens ∨ ⟨span, .rawStringLit text⟩ ∈ (lex src).tokens) ∧
      span.Cuts src text.toList
  | .recovered _ => False
  | .skipped _ | .node .. => True

/-- Something was made of the place. -/
def IsIntact : SpanTree → Prop
  | .recovered _ => False
  | .token .. | .literal .. | .skipped _ | .node .. => True

end SpanTree

namespace Spells

variable {row : List Placed} {t : SpanTree}

/-- A tree that is spelled by tokens in order is nested. -/
lemma nests (h : Spells row t) (horder : InOrder row) : t.Nests := by
  cases h with
  | node h hparts =>
    refine ⟨fun s hs => ?_, hparts.pairwise.imp fun {s s'} hrows => ?_⟩
    · obtain ⟨row', hsub, hs⟩ := hparts.exists_row hs
      exact h.within horder hs.covers hsub
    · obtain ⟨r, r', hsub, hs, hs'⟩ := hrows
      exact hs.covers.apart hs'.covers (horder.sublist hsub)
  | _ => exact ⟨nofun, .nil⟩

/-- Tokens spell only places of which something was made. -/
lemma isIntact (h : Spells row t) : t.IsIntact := by
  cases h <;> trivial

/-- A tree that is spelled by tokens of the source is exact. -/
lemma isExact {src : List Char} (h : Spells row t) (hrow : ∀ p ∈ row, p ∈ (lex src).tokens) :
    t.IsExact src := by
  cases h with
  | token hp =>
    have hmem := hrow _ List.mem_cons_self
    exact ⟨hmem, cuts_of_mem_tokens hmem (not_inserted_of_token hp)⟩
  | @literal p text hp =>
    obtain ⟨span, token⟩ := p
    have hmem := hrow _ List.mem_cons_self
    have hsemi : token ≠ .mark .semi := by
      rcases hp with rfl | rfl <;> exact nofun
    obtain ⟨text', hcuts, hwritten⟩ := cuts_of_mem_tokens hmem (not_inserted_of_token hsemi)
    rcases hp with rfl | rfl
    · exact ⟨.inl hmem, hwritten ▸ hcuts⟩
    · exact ⟨.inr hmem, hwritten ▸ hcuts⟩
  | skipped => exact True.intro
  | node => exact True.intro

end Spells

/-- What holds of all trees that parts of a row spell holds everywhere in a tree that the row
spells. -/
theorem Spells.everywhere {tokens row : List Placed} {P : SpanTree → Prop} {t : SpanTree}
    (h : Spells row t) (hsub : row.Sublist tokens)
    (hP : ∀ row t, row.Sublist tokens → Spells row t → P t) : t.Everywhere P := by
  refine .intro (hP row t hsub h) fun s hs => ?_
  obtain ⟨row', hsub', h'⟩ := h.part hs
  have hsmaller := SpanTree.sizeOf_lt_of_mem_parts hs
  exact h'.everywhere (hsub'.trans hsub) hP
termination_by sizeOf t

end GoService.Source
