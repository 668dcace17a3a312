import GoService.Source.Parser.Cursor
import Mathlib.Data.List.Count
import Mathlib.Data.List.Induction
import Mathlib.Tactic.Lemma

/-!
# Brackets in rows of tokens

How deep brackets are open after a row of tokens. The depth starts anywhere and there is none as
soon as a closer has no opener (`bracketDepth?`); a row is matched if from depth zero there is one,
and balanced if it is zero again, which is the same as counting openers and closers. The kinds of
brackets do not matter. The functions that skip tokens stop where the depth says.
-/

namespace GoService.Source

/-- The depth after a token; a closer has to have an opener. -/
def Token.depthAfter? (depth : Nat) (t : Token) : Option Nat :=
  if t.isOpening then some (depth + 1)
  else if t.isClosing then (if depth = 0 then none else some (depth - 1))
  else some depth

/-- The depth after tokens that begin at a depth. -/
def bracketDepth? (depth : Nat) (ts : List Token) : Option Nat :=
  ts.foldlM Token.depthAfter? depth

/-- No closer comes before its opener. -/
def Matched (ts : List Token) : Prop :=
  ∀ before, before <+: ts → before.countP Token.isClosing ≤ before.countP Token.isOpening

/-- No closer comes before its opener, and none is missing. -/
structure Balanced (ts : List Token) : Prop where
  matched : Matched ts
  closed : ts.countP Token.isClosing = ts.countP Token.isOpening

variable {d e : Nat} {t : Token} {ts us : List Token}

/-- No bracket is both opening and closing. -/
lemma Token.not_isClosing_of_isOpening (h : t.isOpening) : t.isClosing = false := by
  cases t with
  | mark m => cases m <;> first | rfl | cases h
  | _ => rfl

/-- A closing bracket is not an opening one. -/
lemma Token.not_isOpening_of_isClosing (h : t.isClosing) : ¬ t.isOpening := fun ho => by
  rw [not_isClosing_of_isOpening ho] at h
  cases h

/-! ## Depths -/

/-- Without tokens the depth stays. -/
@[simp]
lemma bracketDepth?_nil (d : Nat) : bracketDepth? d [] = some d :=
  rfl

/-- The depth after tokens is that after the first and then after the others. -/
lemma bracketDepth?_cons (d : Nat) (t : Token) (ts : List Token) :
    bracketDepth? d (t :: ts) = (t.depthAfter? d).bind (bracketDepth? · ts) :=
  List.foldlM_cons

/-- The depth after two runs of tokens is that after the second from that after the first. -/
lemma bracketDepth?_append (d : Nat) (ts us : List Token) :
    bracketDepth? d (ts ++ us) = (bracketDepth? d ts).bind (bracketDepth? · us) :=
  List.foldlM_append

/-- Tokens go on from the depth that those before them lead to. -/
lemma bracketDepth?_append_of_eq (h : bracketDepth? d ts = some e) :
    bracketDepth? d (ts ++ us) = bracketDepth? e us := by
  rw [bracketDepth?_append, h]
  rfl

/-- Tokens go on from the depth that the one before them leads to. -/
lemma bracketDepth?_cons_of_eq (h : t.depthAfter? d = some e) :
    bracketDepth? d (t :: ts) = bracketDepth? e ts := by
  rw [bracketDepth?_cons, h]
  rfl

/-- An opening bracket leads one level deeper. -/
lemma Token.depthAfter?_opening (d : Nat) (h : t.isOpening) : t.depthAfter? d = some (d + 1) :=
  if_pos h

/-- A closing bracket leads back one level. -/
lemma Token.depthAfter?_closing (d : Nat) (h : t.isClosing) : t.depthAfter? (d + 1) = some d := by
  rw [depthAfter?, if_neg (not_isOpening_of_isClosing h), if_pos h, if_neg (Nat.succ_ne_zero d),
    Nat.add_sub_cancel]

/-- Any other token leaves the depth. -/
lemma Token.depthAfter?_other (d : Nat) (ho : ¬ t.isOpening) (hc : ¬ t.isClosing) :
    t.depthAfter? d = some d := by
  rw [depthAfter?, if_neg ho, if_neg hc]

/-- There is no depth after a closer at depth zero only. -/
lemma Token.depthAfter?_eq_none (h : t.depthAfter? d = none) : d = 0 ∧ t.isClosing := by
  rw [depthAfter?] at h
  split at h
  · cases h
  · split at h
    · next hc =>
      split at h
      · next hd => exact ⟨hd, hc⟩
      · cases h
    · cases h

/-- Openers and closers make up for the change of the depth after a token. -/
lemma Token.count_of_depthAfter? (h : t.depthAfter? d = some e) :
    e + [t].countP isClosing = d + [t].countP isOpening := by
  rw [depthAfter?] at h
  simp only [List.countP_singleton]
  split at h
  · next ho =>
    cases h
    rw [not_isClosing_of_isOpening ho, if_pos ho]
    rfl
  · next ho =>
    rw [if_neg ho]
    split at h
    · next hc =>
      rw [if_pos hc]
      split at h
      · cases h
      · cases h
        omega
    · next hc =>
      cases h
      rw [if_neg hc]

/-- Opening brackets account for the depth that is gained, closing ones for what is lost. -/
lemma count_of_bracketDepth? (h : bracketDepth? d ts = some e) :
    e + ts.countP Token.isClosing = d + ts.countP Token.isOpening := by
  induction ts generalizing d with
  | nil =>
    cases h
    rfl
  | cons t ts ih =>
    rw [bracketDepth?_cons] at h
    obtain ⟨d', hd', h⟩ := Option.bind_eq_some_iff.1 h
    have ht := Token.count_of_depthAfter? hd'
    have hts := ih h
    rw [← List.singleton_append, List.countP_append, List.countP_append]
    omega

/-- Tokens that are matched deep down are matched further down too. -/
lemma bracketDepth?_add (k : Nat) (h : bracketDepth? d ts = some e) :
    bracketDepth? (k + d) ts = some (k + e) := by
  induction ts generalizing d with
  | nil =>
    cases h
    rfl
  | cons t ts ih =>
    rw [bracketDepth?_cons] at h
    obtain ⟨d', hd', h⟩ := Option.bind_eq_some_iff.1 h
    have ht : t.depthAfter? (k + d) = some (k + d') := by
      rw [Token.depthAfter?] at hd' ⊢
      split at hd'
      · next ho =>
        cases hd'
        rw [if_pos ho, Nat.add_assoc]
      · next ho =>
        rw [if_neg ho]
        split at hd'
        · next hc =>
          split at hd'
          · cases hd'
          · cases hd'
            rw [if_pos hc, if_neg (by omega)]
            congr 1
            omega
        · next hc =>
          cases hd'
          rw [if_neg hc]
    rw [bracketDepth?_cons_of_eq ht]
    exact ih h

/-- Either a closer comes at depth zero or there is a depth at the end. -/
lemma exists_closer_or (d : Nat) (ts : List Token) :
    (∃ inner closer after, ts = inner ++ closer :: after ∧ bracketDepth? d inner = some 0 ∧
      closer.isClosing) ∨ ∃ e, bracketDepth? d ts = some e := by
  induction ts generalizing d with
  | nil => exact .inr ⟨d, rfl⟩
  | cons t ts ih =>
    cases hd : t.depthAfter? d with
    | none =>
      obtain ⟨rfl, hc⟩ := Token.depthAfter?_eq_none hd
      exact .inl ⟨[], t, ts, rfl, rfl, hc⟩
    | some d' =>
      rcases ih d' with ⟨inner, closer, after, rfl, hinner, hc⟩ | ⟨e, he⟩
      · exact .inl ⟨t :: inner, closer, after, rfl, (bracketDepth?_cons_of_eq hd).trans hinner, hc⟩
      · exact .inr ⟨e, (bracketDepth?_cons_of_eq hd).trans he⟩

/-- Each closer has its opener exactly if there is a depth at the end. -/
lemma matched_iff : Matched ts ↔ ∃ e, bracketDepth? 0 ts = some e := by
  induction ts using List.reverseRecOn with
  | nil =>
    refine ⟨fun _ => ⟨0, rfl⟩, fun _ before hbefore => ?_⟩
    rw [List.prefix_nil.1 hbefore]
    exact Nat.le_refl _
  | append_singleton ts t ih =>
    constructor
    · intro h
      obtain ⟨e, he⟩ := ih.1 fun before hbefore => h before (hbefore.trans (List.prefix_append ..))
      have hcount := count_of_bracketDepth? he
      have hall := h _ (List.prefix_refl _)
      rw [List.countP_append, List.countP_append] at hall
      simp only [List.countP_singleton] at hall
      rw [bracketDepth?_append_of_eq he, bracketDepth?_cons, Token.depthAfter?]
      split
      · exact ⟨_, rfl⟩
      · next ho =>
        split
        · next hc =>
          rw [if_pos hc, if_neg ho] at hall
          rw [if_neg (by omega)]
          exact ⟨_, rfl⟩
        · exact ⟨_, rfl⟩
    · rintro ⟨e, he⟩ before hbefore
      rcases List.prefix_concat_iff.1 hbefore with rfl | hbefore
      · have hcount := count_of_bracketDepth? he
        omega
      · rw [bracketDepth?_append] at he
        obtain ⟨d, hd, -⟩ := Option.bind_eq_some_iff.1 he
        exact ih.2 ⟨d, hd⟩ before hbefore

/-- Brackets are balanced exactly if the depth comes back to none. -/
lemma balanced_iff : Balanced ts ↔ bracketDepth? 0 ts = some 0 := by
  constructor
  · rintro ⟨hmatched, hclosed⟩
    obtain ⟨e, he⟩ := matched_iff.1 hmatched
    have hcount := count_of_bracketDepth? he
    have hzero : e = 0 := by omega
    rw [he, hzero]
  · intro h
    have hcount := count_of_bracketDepth? h
    exact ⟨matched_iff.2 ⟨0, h⟩, by omega⟩

/-- Balanced tokens leave the depth as it is. -/
lemma Balanced.bracketDepth? (h : Balanced ts) (d : Nat) : bracketDepth? d ts = some d :=
  bracketDepth?_add d (balanced_iff.1 h)

/-! ## Balanced rows -/

/-- No tokens are balanced. -/
lemma balanced_nil : Balanced [] :=
  balanced_iff.2 rfl

/-- Balanced tokens one after another are balanced. -/
lemma Balanced.append (hts : Balanced ts) (hus : Balanced us) : Balanced (ts ++ us) := by
  rw [balanced_iff, bracketDepth?_append_of_eq (balanced_iff.1 hts)]
  exact balanced_iff.1 hus

/-- A token that is no bracket may stand before balanced tokens. -/
lemma Balanced.cons (ho : t.isOpening = false) (hc : t.isClosing = false) (hts : Balanced ts) :
    Balanced (t :: ts) := by
  rw [balanced_iff, bracketDepth?_cons_of_eq
    (Token.depthAfter?_other 0 (Bool.eq_false_iff.1 ho) (Bool.eq_false_iff.1 hc))]
  exact balanced_iff.1 hts

/-- Balanced tokens do not begin with a closing bracket. -/
lemma Balanced.not_isClosing (h : Balanced (t :: ts)) : ¬ t.isClosing := by
  intro hc
  have hle := h.matched [t] ⟨ts, rfl⟩
  have ho := Bool.eq_false_iff.2 (Token.not_isOpening_of_isClosing hc)
  rw [List.countP_singleton, List.countP_singleton, hc, ho] at hle
  exact absurd hle (by decide)

/-- Brackets around a balanced row, and a balanced row after them. -/
lemma Balanced.bracketed {closer : Token} (ho : t.isOpening) (hc : closer.isClosing)
    (hts : Balanced ts) (hus : Balanced us) : Balanced (t :: (ts ++ closer :: us)) := by
  rw [balanced_iff, bracketDepth?_cons_of_eq (Token.depthAfter?_opening 0 ho),
    bracketDepth?_append_of_eq (hts.bracketDepth? 1),
    bracketDepth?_cons_of_eq (Token.depthAfter?_closing 0 hc)]
  exact balanced_iff.1 hus

/-- Balanced rows with a token between them that is no bracket are balanced. -/
lemma Balanced.intercalate {rows : List (List Token)} (ho : t.isOpening = false)
    (hc : t.isClosing = false) (h : ∀ row ∈ rows, Balanced row) :
    Balanced ([t].intercalate rows) := by
  induction rows with
  | nil => exact balanced_nil
  | cons row rows ih =>
    obtain ⟨hrow, hrows⟩ := List.forall_mem_cons.1 h
    cases rows with
    | nil =>
      rw [List.intercalate_singleton]
      exact hrow
    | cons next rows =>
      rw [List.intercalate_cons_cons, List.append_assoc]
      exact hrow.append ((ih hrows).cons ho hc)

/-! ## Skipping -/

namespace Parser

variable {n : Nat} {ps qs : List Placed}

/-- Tokens that do not bring the depth to zero are a part of the run. -/
lemma balancedLength_append (h : bracketDepth? d (ps.map Placed.token) = some e) :
    balancedLength (d + 1) (ps ++ qs) =
      ((balancedLength (e + 1) qs).1 + ps.length, (balancedLength (e + 1) qs).2) := by
  induction ps generalizing d with
  | nil =>
    cases h
    rfl
  | cons p ps ih =>
    rw [List.map_cons, bracketDepth?_cons, Token.depthAfter?] at h
    rw [List.cons_append, balancedLength]
    split
    · next ho =>
      rw [if_pos ho] at h
      rw [ih h]
      rfl
    · next ho =>
      rw [if_neg ho] at h
      split
      · next hc =>
        rw [if_pos hc] at h
        cases d with
        | zero => cases h
        | succ d =>
          rw [if_neg (by omega)]
          rw [if_neg (Nat.succ_ne_zero d)] at h
          exact congrArg (fun r => (r.1 + 1, r.2)) (ih h)
      · next hc =>
        rw [if_neg hc] at h
        rw [ih h]
        rfl

/-- After tokens that change the depth, the run is followed by what it is followed by from there. -/
lemma tokenAfterRun?_append (h : bracketDepth? d (ps.map Placed.token) = some e) :
    tokenAfterRun? (d + 1) (ps ++ qs) = tokenAfterRun? (e + 1) qs := by
  induction ps generalizing d with
  | nil =>
    cases h
    rfl
  | cons p ps ih =>
    rw [List.map_cons, bracketDepth?_cons, Token.depthAfter?] at h
    rw [List.cons_append, tokenAfterRun?]
    split
    · next ho =>
      rw [if_pos ho] at h
      exact ih h
    · next ho =>
      rw [if_neg ho] at h
      split
      · next hc =>
        rw [if_pos hc] at h
        cases d with
        | zero => cases h
        | succ d =>
          rw [if_neg (by omega)]
          rw [if_neg (Nat.succ_ne_zero d)] at h
          exact ih h
      · next hc =>
        rw [if_neg hc] at h
        exact ih h

/-- A run that ends has brought the depth to zero. -/
lemma bracketDepth?_of_balancedLength (h : balancedLength (d + 1) ps = (n, 0)) :
    bracketDepth? (d + 1) ((ps.take n).map Placed.token) = some 0 := by
  induction ps generalizing d n with
  | nil => cases h
  | cons p ps ih =>
    rw [balancedLength] at h
    split at h
    · next ho =>
      obtain ⟨rfl, hleft⟩ := Prod.mk.inj h
      rw [List.take_succ_cons, List.map_cons,
        bracketDepth?_cons_of_eq (Token.depthAfter?_opening _ ho)]
      exact ih (Prod.ext rfl hleft)
    · next ho =>
      split at h
      · next hc =>
        split at h
        · next hd =>
          obtain ⟨rfl, -⟩ := Prod.mk.inj h
          have hzero : d = 0 := by omega
          subst hzero
          rw [List.take_succ_cons, List.map_cons,
            bracketDepth?_cons_of_eq (Token.depthAfter?_closing _ hc)]
          rfl
        · next hd =>
          obtain ⟨rfl, hleft⟩ := Prod.mk.inj h
          obtain ⟨k, rfl⟩ := Nat.exists_eq_succ_of_ne_zero (show d ≠ 0 by omega)
          rw [List.take_succ_cons, List.map_cons,
            bracketDepth?_cons_of_eq (Token.depthAfter?_closing _ hc)]
          exact ih (Prod.ext rfl hleft)
      · next hc =>
        obtain ⟨rfl, hleft⟩ := Prod.mk.inj h
        rw [List.take_succ_cons, List.map_cons,
          bracketDepth?_cons_of_eq (Token.depthAfter?_other _ ho hc)]
        exact ih (Prod.ext rfl hleft)

/-- What is skipped of a statement is matched, and balanced if anything comes after it. -/
lemma bracketDepth?_terminatorDistance (d : Nat) (ps : List Placed) :
    ∃ e, bracketDepth? d ((ps.take (terminatorDistance d ps)).map Placed.token) = some e ∧
      (e = 0 ∨ ps.drop (terminatorDistance d ps) = []) := by
  induction ps generalizing d with
  | nil => exact ⟨d, rfl, .inr rfl⟩
  | cons p ps ih =>
    rw [terminatorDistance]
    split
    · next hstop => exact ⟨d, rfl, .inl hstop.1⟩
    · next hstop =>
      split
      · next ho =>
        rw [List.take_succ_cons, List.map_cons, List.drop_succ_cons,
          bracketDepth?_cons_of_eq (Token.depthAfter?_opening _ ho)]
        exact ih (d + 1)
      · next ho =>
        split
        · next hc =>
          obtain ⟨k, rfl⟩ := Nat.exists_eq_succ_of_ne_zero (show d ≠ 0 from
            fun hzero => hstop ⟨hzero, .inr hc⟩)
          rw [List.take_succ_cons, List.map_cons, List.drop_succ_cons,
            bracketDepth?_cons_of_eq (Token.depthAfter?_closing _ hc)]
          exact ih k
        · next hc =>
          rw [List.take_succ_cons, List.map_cons, List.drop_succ_cons,
            bracketDepth?_cons_of_eq (Token.depthAfter?_other _ ho hc)]
          exact ih d

end Parser

end GoService.Source
