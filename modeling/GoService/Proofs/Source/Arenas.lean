import GoService.Source.Node
import Mathlib.Data.List.Perm.Basic
import Mathlib.Data.Option.Basic

/-!
# Arenas

A reader that allocates nodes one after another, each after the nodes below it, fills an arena. In
an `Arena` every node refers to earlier ones only, so a walk down from any node comes to an end;
whether it meets every node, and each once, depends on who refers to whom. `Assembles` says which
nodes are noted while trees become the parts of greater trees. Where in the end a single tree is
left, the noted nodes fill an arena that a walk from the root of this tree meets node by node
(`Assembles.exists_arena`).
-/

namespace GoService.Source

/-! ## Outlines and their labels -/

mutual

/-- The labels of an outline, parents first. -/
def Outline.labels : Outline → List NodeLabel
  | .node kind span children => ⟨kind, span⟩ :: Outline.labelsAll children

/-- The labels of trees, each as it was put together. -/
def Outline.labelsAll : List Outline → List NodeLabel
  | [] => []
  | o :: os => o.labels ++ Outline.labelsAll os

end

mutual

/-- On the way down the labels are met in their order. -/
lemma Outline.label_visits (depth : Nat) :
    (o : Outline) → (o.visits depth).map Visit.label = o.labels
  | .node kind span children => by
    rw [Outline.visits, Outline.labels, List.map_cons, Outline.label_visitsAll]
    rfl

/-- The visits to trees carry their labels. -/
lemma Outline.label_visitsAll (depth : Nat) :
    (os : List Outline) → (Outline.visitsAll depth os).map Visit.label = Outline.labelsAll os
  | [] => rfl
  | o :: os => by
    rw [Outline.visitsAll, Outline.labelsAll, List.map_append, Outline.label_visits,
      Outline.label_visitsAll]

end

/-- The labels of trees are those of each. -/
lemma Outline.labelsAll_eq_flatMap (os : List Outline) :
    Outline.labelsAll os = os.flatMap Outline.labels := by
  induction os with
  | nil => rfl
  | cons o os ih => rw [Outline.labelsAll, ih, List.flatMap_cons]

/-! ## Arenas -/

/-- Nodes in the order in which they were allocated: the label of each, and which of the nodes
before it lie directly below it. -/
inductive Arena : Nat → Type where
  | empty : Arena 0
  | alloc {n : Nat} (arena : Arena n) (label : NodeLabel) (children : List (Fin n)) : Arena (n + 1)

namespace Arena

variable {n : Nat}

/-- The labels of the nodes, in their order. -/
def labels : {n : Nat} → Arena n → List NodeLabel
  | _, .empty => []
  | _, .alloc arena label _ => arena.labels ++ [label]

/-- What lies at and below a node. -/
def outlineAt : {n : Nat} → Arena n → Fin n → Outline
  | _ + 1, .alloc arena label children, i =>
    if h : i.val < _ then arena.outlineAt ⟨i, h⟩
    else .node label.kind label.span (children.map arena.outlineAt)

/-- The nodes that are met on the way down from a node, parents first. -/
def walk : {n : Nat} → Arena n → Fin n → List Nat
  | n + 1, .alloc arena _ children, i =>
    if h : i.val < n then arena.walk ⟨i, h⟩ else n :: children.flatMap arena.walk

section

variable (arena : Arena n) (label : NodeLabel) (children : List (Fin n))

/-- The trees of the nodes at hand are as before. -/
@[simp]
lemma outlineAt_castSucc (i : Fin n) :
    (arena.alloc label children).outlineAt i.castSucc = arena.outlineAt i :=
  dif_pos i.isLt

/-- The tree of the new node has its children. -/
@[simp]
lemma outlineAt_last : (arena.alloc label children).outlineAt (Fin.last n) =
    .node label.kind label.span (children.map arena.outlineAt) :=
  dif_neg (Nat.lt_irrefl n)

/-- The walks from the nodes at hand are as before. -/
@[simp]
lemma walk_castSucc (i : Fin n) :
    (arena.alloc label children).walk i.castSucc = arena.walk i :=
  dif_pos i.isLt

/-- The walk from the new node goes there first. -/
@[simp]
lemma walk_last :
    (arena.alloc label children).walk (Fin.last n) = n :: children.flatMap arena.walk :=
  dif_neg (Nat.lt_irrefl n)

end

/-- There is a label for every node. -/
lemma length_labels (arena : Arena n) : arena.labels.length = n := by
  induction arena with
  | empty => rfl
  | alloc arena label children ih => rw [labels, List.length_append, ih, List.length_singleton]

/-- A walk stays among the nodes of the arena. -/
lemma lt_of_mem_walk {arena : Arena n} {i : Fin n} {j : Nat} (h : j ∈ arena.walk i) : j < n := by
  induction arena with
  | empty => exact i.elim0
  | @alloc n arena label children ih =>
    cases i using Fin.lastCases with
    | cast i =>
      rw [walk_castSucc] at h
      exact Nat.lt_succ_of_lt (ih h)
    | last =>
      rw [walk_last] at h
      rcases List.mem_cons.1 h with rfl | h
      · exact Nat.lt_succ_self _
      · obtain ⟨k, -, hk⟩ := List.mem_flatMap.1 h
        exact Nat.lt_succ_of_lt (ih hk)

/-- Along a walk stand the labels of what lies at and below its node. -/
lemma labels_walk (arena : Arena n) (i : Fin n) :
    (arena.walk i).map (arena.labels[·]?) = (arena.outlineAt i).labels.map some := by
  induction arena with
  | empty => exact i.elim0
  | @alloc n arena label children ih =>
    have hbelow (i : Fin n) : (arena.walk i).map ((arena.labels ++ [label])[·]?) =
        (arena.outlineAt i).labels.map some := by
      rw [← ih i]
      refine List.map_congr_left fun j hj => List.getElem?_append_left ?_
      rw [length_labels]
      exact lt_of_mem_walk hj
    rw [labels]
    cases i using Fin.lastCases with
    | cast i => rw [walk_castSucc, outlineAt_castSucc, hbelow]
    | last =>
      have hlast : (arena.labels ++ [label])[n]? = some label := by
        rw [List.getElem?_append_right (Nat.le_of_eq (length_labels arena)), length_labels,
          Nat.sub_self, List.getElem?_cons_zero]
      have hchildren : (children.flatMap arena.walk).map ((arena.labels ++ [label])[·]?) =
          (Outline.labelsAll (children.map arena.outlineAt)).map some := by
        rw [List.map_flatMap, Outline.labelsAll_eq_flatMap, List.flatMap_map, List.map_flatMap]
        exact List.flatMap_congr fun i _ => hbelow i
      rw [walk_last, outlineAt_last, Outline.labels, List.map_cons, List.map_cons, hlast, hchildren]

/-- The labels met on a walk that meets every node once are those of the arena. -/
lemma perm_labels {arena : Arena n} {root : Fin n} (h : (arena.walk root).Perm (List.range n)) :
    (arena.outlineAt root).labels.Perm arena.labels := by
  have hrange : (List.range n).map (arena.labels[·]?) = arena.labels.map some := by
    apply List.ext_getElem
    · rw [List.length_map, List.length_map, List.length_range, length_labels]
    · intro i _ hi
      rw [List.length_map] at hi
      rw [List.getElem_map, List.getElem_map, List.getElem_range, List.getElem?_eq_getElem hi]
  rw [← List.map_perm_map_iff (Option.some_injective _), ← arena.labels_walk, ← hrange]
  exact h.map _

end Arena

/-! ## Trees put together node by node -/

/-- While nodes are noted, the trees at hand become the trees that are left: each new node takes
some of them as those below it. -/
inductive Assembles (held : List Outline) : List NodeLabel → List Outline → Prop where
  | done {left : List Outline} (h : held.Perm left) : Assembles held [] left
  | node {log : List NodeLabel} {mid children others left : List Outline} {kind : NodeKind}
    {span : Span} (h : Assembles held log mid) (hmid : mid.Perm (children ++ others))
    (hleft : (.node kind span children :: others).Perm left) :
    Assembles held (log ++ [⟨kind, span⟩]) left

namespace Assembles

variable {held held' mid left left' : List Outline} {log log' : List NodeLabel}

/-- In which order the trees are left does not matter. -/
lemma perm (h : Assembles held log left) (hleft : left.Perm left') : Assembles held log left' := by
  cases h with
  | done h => exact .done (h.trans hleft)
  | node h hmid hnode => exact .node h hmid (hnode.trans hleft)

/-- What is put together from what has been put together is put together. -/
lemma trans (h : Assembles held log mid) (h' : Assembles mid log' left) :
    Assembles held (log ++ log') left := by
  induction h' with
  | done hperm =>
    rw [List.append_nil]
    exact h.perm hperm
  | node _ hmid hleft ih =>
    rw [← List.append_assoc]
    exact .node ih hmid hleft

/-- What is not touched stays beside the rest. -/
lemma frame (h : Assembles held log left) (os : List Outline) :
    Assembles (os ++ held) log (os ++ left) := by
  induction h with
  | done h => exact .done (h.append_left os)
  | @node log mid children others left kind span _ hmid hleft ih =>
    have hmid' : (os ++ mid).Perm (children ++ (os ++ others)) := by
      refine (hmid.append_left os).trans ?_
      rw [← List.append_assoc, ← List.append_assoc]
      exact List.perm_append_comm.append_right others
    exact .node ih hmid' (List.perm_middle.symm.trans (hleft.append_left os))

/-- One node with all the trees at hand below it. -/
lemma single (kind : NodeKind) (span : Span) (h : held.Perm left) :
    Assembles held [⟨kind, span⟩] [.node kind span left] := by
  have hnone : Assembles held [] left := .done h
  refine hnone.node ?_ (.refl _)
  rw [List.append_nil]

end Assembles

/-- Values of a function, in whatever order, are split as the arguments are. -/
lemma exists_split_of_map_perm {α β : Type} {f : α → β} {as : List α} {bs cs : List β}
    (h : (as.map f).Perm (bs ++ cs)) :
    ∃ as₁ as₂, as.Perm (as₁ ++ as₂) ∧ as₁.map f = bs ∧ as₂.map f = cs := by
  have hcomp : Relation.Comp (· = List.map f ·) List.Perm (bs ++ cs) as := by
    rw [List.eq_map_comp_perm]
    exact h.symm
  obtain ⟨as', hmap, hperm⟩ := hcomp
  obtain ⟨as₁, as₂, rfl, h₁, h₂⟩ := List.map_eq_append_iff.1 hmap.symm
  exact ⟨as₁, as₂, hperm.symm, h₁, h₂⟩

/-- An arena in which the given nodes stand for the given trees, in whatever order, and a walk down
from these nodes meets every node once. -/
structure Arena.Holds {n : Nat} (arena : Arena n) (roots : List (Fin n)) (trees : List Outline) :
    Prop where
  outlines : (roots.map arena.outlineAt).Perm trees
  walks : (roots.flatMap arena.walk).Perm (List.range n)

/-- The noted nodes fill an arena. -/
lemma Assembles.exists_holds {log : List NodeLabel} {left : List Outline}
    (h : Assembles [] log left) :
    ∃ (n : Nat) (arena : Arena n) (roots : List (Fin n)), arena.labels = log ∧
      arena.Holds roots left := by
  induction h with
  | done h =>
    cases h.nil_eq
    exact ⟨0, .empty, [], rfl, .refl _, .refl _⟩
  | @node log mid children others left kind span _ hmid hleft ih =>
    obtain ⟨n, arena, roots, hlabels, houtlines, hwalks⟩ := ih
    obtain ⟨below, beside, hroots, hbelow, hbeside⟩ :=
      exists_split_of_map_perm (houtlines.trans hmid)
    refine ⟨n + 1, arena.alloc ⟨kind, span⟩ below, .last n :: beside.map Fin.castSucc, ?_, ?_, ?_⟩
    · rw [Arena.labels, hlabels]
    · refine List.Perm.trans (.of_eq ?_) hleft
      rw [List.map_cons, Arena.outlineAt_last, hbelow, List.map_map, ← hbeside]
      congr 1
      exact List.map_congr_left fun i _ => Arena.outlineAt_castSucc ..
    · have hbesides : (beside.map Fin.castSucc).flatMap (arena.alloc ⟨kind, span⟩ below).walk =
          beside.flatMap arena.walk := by
        rw [List.flatMap_map]
        exact List.flatMap_congr fun i _ => Arena.walk_castSucc ..
      have hall : (below.flatMap arena.walk ++ beside.flatMap arena.walk).Perm (List.range n) := by
        rw [← List.flatMap_append]
        exact (hroots.symm.flatMap_right _).trans hwalks
      rw [List.flatMap_cons, Arena.walk_last, hbesides, List.cons_append, List.range_succ]
      exact (hall.cons n).trans (List.perm_append_singleton n _).symm

/-- Where a single tree is left, its root is a node from which all others are met. -/
lemma Assembles.exists_arena {log : List NodeLabel} {tree : Outline}
    (h : Assembles [] log [tree]) :
    ∃ (n : Nat) (arena : Arena n) (root : Fin n), arena.labels = log ∧
      arena.outlineAt root = tree ∧ (arena.walk root).Perm (List.range n) := by
  obtain ⟨n, arena, roots, hlabels, houtlines, hwalks⟩ := h.exists_holds
  obtain ⟨root, rfl, hroot⟩ := List.map_eq_singleton_iff.1 (List.perm_singleton.1 houtlines)
  rw [List.flatMap_singleton] at hwalks
  exact ⟨n, arena, root, hlabels, hroot, hwalks⟩

end GoService.Source
