import GoService.Resolution.Reference
import Mathlib.Tactic.Lemma

/-!
# Outcomes

What a stateful computation over `Known` gives when it is run in a state. `Ends x k P E` says that
`x` started in `k` ends in a value and a state as `P` has them, or in an error and a state as `E`
has them; there is one rule for each way in which computations are put together, and nothing after
this module looks into the monad.
-/

namespace GoService.Resolution

open Data Package Source

/-- What a computation gives in a state, and the state that it leaves. -/
def outcome (x : ExceptT ε (StateM Known) α) (k : Known) : Except ε α × Known :=
  x.run.run k

/-- A computation that is started in `k` gives a value as `P` has it or an error as `E` has it. -/
structure Ends (x : ExceptT ε (StateM Known) α) (k : Known) (P : α → Known → Prop)
    (E : ε → Known → Prop) : Prop where
  ok : ∀ {a k'}, outcome x k = (.ok a, k') → P a k'
  error : ∀ {e k'}, outcome x k = (.error e, k') → E e k'

section Outcome

variable {k : Known} {ε ε' α β : Type}

/-- Every computation gives a value or an error. -/
lemma outcome_cases (x : ExceptT ε (StateM Known) α) (k : Known) :
    (∃ a k', outcome x k = (.ok a, k')) ∨ ∃ e k', outcome x k = (.error e, k') := by
  cases h : outcome x k with
  | mk r k' =>
    cases r with
    | ok a => exact .inl ⟨a, k', rfl⟩
    | error e => exact .inr ⟨e, k', rfl⟩

/-- A sequence goes on where its first part gives a value. -/
lemma outcome_bind (x : ExceptT ε (StateM Known) α) (f : α → ExceptT ε (StateM Known) β)
    (k : Known) :
    outcome (x >>= f) k =
      match outcome x k with
      | (.ok a, k₁) => outcome (f a) k₁
      | (.error e, k₁) => (.error e, k₁) := by
  simp only [outcome, ExceptT.run, bind, ExceptT.bind, ExceptT.mk, StateT.run, StateT.bind]
  cases h : x k with
  | mk r k₁ =>
    cases r with
    | ok a => rfl
    | error e => rfl

/-- A handler runs where the computation that it guards has failed. -/
lemma outcome_tryCatch (x : ExceptT ε (StateM Known) α) (f : ε → ExceptT ε (StateM Known) α)
    (k : Known) :
    outcome (tryCatch x f) k =
      match outcome x k with
      | (.ok a, k₁) => (.ok a, k₁)
      | (.error e, k₁) => outcome (f e) k₁ := by
  simp only [outcome, ExceptT.run, tryCatch, tryCatchThe, MonadExceptOf.tryCatch,
    ExceptT.tryCatch, ExceptT.mk, StateT.run, StateT.bind, bind]
  cases h : x k with
  | mk r k₁ =>
    cases r with
    | ok a => rfl
    | error e => rfl

/-- What is settled without the state leaves it as it is. -/
@[simp]
lemma outcome_liftExcept (r : Except ε α) :
    outcome (liftExcept r : ExceptT ε (StateM Known) α) k = (r, k) := by
  cases r with
  | ok a => rfl
  | error e => rfl

/-- An error that is put in another form leaves the rest. -/
lemma outcome_adapt (f : ε → ε') (x : ExceptT ε (StateM Known) α) :
    outcome (ExceptT.adapt f x) k = ((outcome x k).1.mapError f, (outcome x k).2) := rfl

/-- A computation between entering and leaving is run after entering, and then the state is left. -/
lemma outcome_bracketed (enter leave : Known → Known) (x : Resolve α) :
    outcome (bracketed enter leave x) k =
      ((outcome x (enter k)).1, leave (outcome x (enter k)).2) := rfl

/-- Asking for a package gives what loading it gives. -/
@[simp]
lemma outcome_askPackage (path : String) :
    outcome (askPackage path) k =
      (.ok (k.packages.load path).1, k.withPackages (k.packages.load path).2) := rfl

end Outcome

namespace Ends

section

variable {k : Known} {ε ε' α β : Type} {P : α → Known → Prop} {E : ε → Known → Prop}

/-- A computation with a value ends as the value does. -/
lemma of_ok {x : ExceptT ε (StateM Known) α} {a : α} {k' : Known}
    (hx : outcome x k = (.ok a, k')) (h : P a k') : Ends x k P E := by
  refine ⟨fun ho => ?_, fun ho => ?_⟩
  · cases hx.symm.trans ho
    exact h
  · cases hx.symm.trans ho

/-- A computation with an error ends as the error does. -/
lemma of_error {x : ExceptT ε (StateM Known) α} {e : ε} {k' : Known}
    (hx : outcome x k = (.error e, k')) (h : E e k') : Ends x k P E := by
  refine ⟨fun ho => ?_, fun ho => ?_⟩
  · cases hx.symm.trans ho
  · cases hx.symm.trans ho
    exact h

/-- A computation ends with what comes out of it. -/
lemma of_outcome (x : ExceptT ε (StateM Known) α) (k : Known) :
    Ends x k (fun a k' => outcome x k = (.ok a, k')) fun e k' => outcome x k = (.error e, k') :=
  ⟨id, id⟩

/-- Computations with the same outcome end alike. -/
lemma congr {x y : ExceptT ε (StateM Known) α} (ho : outcome x k = outcome y k)
    (h : Ends y k P E) : Ends x k P E :=
  ⟨fun hx => h.ok (ho.symm.trans hx), fun hx => h.error (ho.symm.trans hx)⟩

/-- What a computation ends in may be described less exactly. -/
lemma imp {x : ExceptT ε (StateM Known) α} {P' : α → Known → Prop} {E' : ε → Known → Prop}
    (h : Ends x k P E) (hP : ∀ {a k'}, P a k' → P' a k') (hE : ∀ {e k'}, E e k' → E' e k') :
    Ends x k P' E' :=
  ⟨fun ho => hP (h.ok ho), fun ho => hE (h.error ho)⟩

/-- A value ends a computation. -/
lemma pure {a : α} (h : P a k) : Ends (pure a) k P E :=
  of_ok rfl h

/-- An error ends a computation. -/
lemma throw {e : ε} (h : E e k) : Ends (throw e) k P E :=
  of_error rfl h

/-- The second part of a sequence starts where the first ends. -/
lemma bind {x : ExceptT ε (StateM Known) α} {f : α → ExceptT ε (StateM Known) β}
    {Q : β → Known → Prop} (hx : Ends x k (fun a k₁ => Ends (f a) k₁ Q E) E) :
    Ends (x >>= f) k Q E := by
  obtain ⟨a, k₁, ho⟩ | ⟨e, k₁, ho⟩ := outcome_cases x k
  · have hb : outcome (x >>= f) k = outcome (f a) k₁ := by
      rw [outcome_bind, ho]
    have hf := hx.ok ho
    exact ⟨fun h => hf.ok (hb.symm.trans h), fun h => hf.error (hb.symm.trans h)⟩
  · have hb : outcome (x >>= f) k = (.error e, k₁) := by
      rw [outcome_bind, ho]
    exact of_error hb (hx.error ho)

/-- A handler starts where the computation that it guards has failed. -/
lemma tryCatch {x : ExceptT ε (StateM Known) α} {f : ε → ExceptT ε (StateM Known) α}
    (hx : Ends x k P fun e k₁ => Ends (f e) k₁ P E) : Ends (tryCatch x f) k P E := by
  obtain ⟨a, k₁, ho⟩ | ⟨e, k₁, ho⟩ := outcome_cases x k
  · have hb : outcome (MonadExcept.tryCatch x f) k = (.ok a, k₁) := by
      rw [outcome_tryCatch, ho]
    exact of_ok hb (hx.ok ho)
  · have hb : outcome (MonadExcept.tryCatch x f) k = outcome (f e) k₁ := by
      rw [outcome_tryCatch, ho]
    have hf := hx.error ho
    exact ⟨fun h => hf.ok (hb.symm.trans h), fun h => hf.error (hb.symm.trans h)⟩

/-- Looking at the state ends with it. -/
lemma get {P : Known → Known → Prop} (h : P k k) :
    Ends (get : ExceptT ε (StateM Known) Known) k P E :=
  of_ok rfl h

/-- Changing the state ends with the changed one. -/
lemma modify {f : Known → Known} {P : PUnit → Known → Prop} (h : P ⟨⟩ (f k)) :
    Ends (modify f : ExceptT ε (StateM Known) PUnit) k P E :=
  of_ok rfl h

/-- An error that is put in another form ends in that form. -/
lemma adapt {f : ε → ε'} {x : ExceptT ε (StateM Known) α} {E' : ε' → Known → Prop}
    (h : Ends x k P fun e => E' (f e)) : Ends (ExceptT.adapt f x) k P E' := by
  obtain ⟨a, k₁, ho⟩ | ⟨e, k₁, ho⟩ := outcome_cases x k
  · have ha : outcome (ExceptT.adapt f x) k = (.ok a, k₁) := by
      rw [outcome_adapt, ho]
      rfl
    exact of_ok ha (h.ok ho)
  · have ha : outcome (ExceptT.adapt f x) k = (.error (f e), k₁) := by
      rw [outcome_adapt, ho]
      rfl
    exact of_error ha (h.error ho)

end

section

variable {k : Known} {α : Type} {P : α → Known → Prop} {E : ResolutionError → Known → Prop}

/-- A bracketed resolution starts in the changed state, and what it leaves is changed back. -/
lemma bracketed {enter leave : Known → Known} {x : Resolve α}
    (h : Ends x (enter k) (fun a k' => P a (leave k')) fun e k' => E e (leave k')) :
    Ends (bracketed enter leave x) k P E := by
  obtain ⟨a, k₁, ho⟩ | ⟨e, k₁, ho⟩ := outcome_cases x (enter k)
  · have hb : outcome (GoService.Resolution.bracketed enter leave x) k = (.ok a, leave k₁) := by
      rw [outcome_bracketed, ho]
    exact of_ok hb (h.ok ho)
  · have hb : outcome (GoService.Resolution.bracketed enter leave x) k = (.error e, leave k₁) := by
      rw [outcome_bracketed, ho]
    exact of_error hb (h.error ho)

/-- Looking at the table ends with it. -/
lemma structsNow {P : StructTable → Known → Prop} (h : P k.structs k) :
    Ends structsNow k P E :=
  of_ok rfl h

/-- Changing the table ends with the changed one. -/
lemma modifyStructs {f : StructTable → StructTable} {P : Unit → Known → Prop}
    (h : P ⟨⟩ (k.withStructs (f k.structs))) : Ends (modifyStructs f) k P E :=
  of_ok rfl h

end

end Ends

end GoService.Resolution
