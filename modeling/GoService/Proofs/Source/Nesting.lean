import GoService.Source.Node
import Mathlib.Order.Basic

/-!
# The nesting of types

How many types lie within one another in a tree. The greatest such number is read off the outline of
the tree, which has a node for each type.
-/

namespace GoService.Source

mutual

/-- The greatest number of types that lie within one another. -/
def Outline.typeNesting : Outline → Nat
  | .node kind _ children =>
    if kind = .type then Outline.typeNestings children + 1 else Outline.typeNestings children

/-- The greatest number of types that lie within one another in any of the trees. -/
def Outline.typeNestings : List Outline → Nat
  | [] => 0
  | o :: os => max o.typeNesting (Outline.typeNestings os)

end

namespace Outline

/-- Trees are nested as deep as the deeper part of them. -/
lemma typeNestings_append (os os' : List Outline) :
    typeNestings (os ++ os') = max (typeNestings os) (typeNestings os') := by
  induction os with
  | nil => exact (Nat.zero_max _).symm
  | cons o os ih => rw [List.cons_append, typeNestings, typeNestings, ih, Nat.max_assoc]

/-- No tree among others is nested deeper than they are. -/
lemma typeNesting_le_of_mem {o : Outline} {os : List Outline} (h : o ∈ os) :
    o.typeNesting ≤ typeNestings os := by
  induction os with
  | nil => cases h
  | cons o' os ih =>
    rw [typeNestings]
    rcases List.mem_cons.1 h with rfl | h
    · exact Nat.le_max_left ..
    · exact Nat.le_trans (ih h) (Nat.le_max_right ..)

section

variable {α : Type} {n : Nat} {as : List α}

/-- If no tree is nested deeper than some depth, neither are all of them. -/
lemma typeNestings_map_le {f : α → Outline} (h : ∀ a ∈ as, (f a).typeNesting ≤ n) :
    typeNestings (as.map f) ≤ n := by
  induction as with
  | nil => exact Nat.zero_le n
  | cons a as ih =>
    obtain ⟨ha, has⟩ := List.forall_mem_cons.1 h
    exact Nat.max_le.2 ⟨ha, ih has⟩

/-- A tree that may be missing is nested no deeper than if it is there. -/
lemma typeNestings_toList_le {f : α → Outline} {o : Option α}
    (h : ∀ a ∈ o, (f a).typeNesting ≤ n) : typeNestings (o.map f).toList ≤ n := by
  cases o with
  | none => exact Nat.zero_le n
  | some a => exact Nat.max_le.2 ⟨h a rfl, Nat.zero_le n⟩

/-- If no part is nested deeper than some depth, neither is the whole. -/
lemma typeNestings_flatMap_le {f : α → List Outline} (h : ∀ a ∈ as, typeNestings (f a) ≤ n) :
    typeNestings (as.flatMap f) ≤ n := by
  induction as with
  | nil => exact Nat.zero_le n
  | cons a as ih =>
    obtain ⟨ha, has⟩ := List.forall_mem_cons.1 h
    rw [List.flatMap_cons, typeNestings_append]
    exact Nat.max_le.2 ⟨ha, ih has⟩

/-- No part is nested deeper than the whole. -/
lemma typeNestings_le_of_mem {f : α → List Outline} {a : α} (h : a ∈ as) :
    typeNestings (f a) ≤ typeNestings (as.flatMap f) := by
  obtain ⟨before, after, rfl⟩ := List.append_of_mem h
  rw [List.flatMap_append, List.flatMap_cons, typeNestings_append, typeNestings_append]
  exact Nat.le_trans (Nat.le_max_left ..) (Nat.le_max_right ..)

end

end Outline

/-! ## Lists in a tree -/

/-- The trees of types are one for each. -/
lemma TypeExpr.outlines_eq_map (ts : List TypeExpr) :
    TypeExpr.outlines ts = ts.map TypeExpr.outline := by
  induction ts with
  | nil => rfl
  | cons t ts ih => rw [TypeExpr.outlines, ih, List.map_cons]

/-- The trees of fields are one for each. -/
lemma Field.outlines_eq_map (fs : List Field) : Field.outlines fs = fs.map Field.outline := by
  induction fs with
  | nil => rfl
  | cons f fs ih => rw [Field.outlines, ih, List.map_cons]

/-- The trees of the terms of a union are one for each. -/
lemma UnionTerm.outlines_eq_map (ts : List UnionTerm) :
    UnionTerm.outlines ts = ts.map UnionTerm.outline := by
  induction ts with
  | nil => rfl
  | cons t ts ih => rw [UnionTerm.outlines, ih, List.map_cons]

/-- The trees of the elements of an interface are those of each. -/
lemma InterfaceMember.outlines_eq_flatMap (es : List InterfaceMember) :
    InterfaceMember.outlines es = es.flatMap InterfaceMember.memberOutlines := by
  induction es with
  | nil => rfl
  | cons e es ih => rw [InterfaceMember.outlines, ih, List.flatMap_cons]

/-- A field has the types within its own type. -/
lemma Field.typeNesting_outline (f : Field) :
    f.outline.typeNesting = f.type.outline.typeNesting := by
  cases f
  rw [Field.outline, Outline.typeNesting, if_neg nofun, Outline.typeNestings, Outline.typeNestings,
    Nat.max_zero]

end GoService.Source
