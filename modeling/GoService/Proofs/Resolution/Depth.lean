import GoService.Proofs.Resolution.Growth

/-!
# Depth

How deep a resolution can go, counted by the keys that it can still come to. Each key is expanded at
most once; entering a struct takes a key for good, and what is embedded begins anew with it; within
a struct each key is embedded at most once. So the steps below a declared name are bounded by
`declSteps` and those below the fields of a struct by `fieldSteps`, and both go down with every step
to another declaration, whatever the keys are.
-/

namespace GoService.Resolution.Known

open Data Package Source

/-- How many steps a declared name can need: each key is expanded at most once, and with each key
that is entered all of them can be embedded. -/
def declSteps (k : Known) (keys : List String) : Nat :=
  1 + keys.countP (· ∉ k.trail.expanding) +
    keys.countP (· ∉ k.structs.keys) * (keys.length + 1)

/-- How many steps the fields of a struct can need: each key is embedded at most once. -/
def fieldSteps (k : Known) (keys : List String) : Nat :=
  keys.countP (· ∉ k.trail.embedding) + k.declSteps keys

variable {k k' : Known} {keys : List String} {key : String}

/-- Some steps are left for every declaration. -/
lemma declSteps_pos (k : Known) (keys : List String) : 0 < k.declSteps keys := by
  rw [declSteps]
  omega

/-- A declaration needs no more steps than the fields that refer to it. -/
lemma declSteps_le_fieldSteps (k : Known) (keys : List String) :
    k.declSteps keys ≤ k.fieldSteps keys :=
  Nat.le_add_left ..

/-- Fewer steps are left for declarations when more is known. -/
lemma Grows.declSteps_le (h : k.Grows k') (keys : List String) :
    k'.declSteps keys ≤ k.declSteps keys := by
  have hkeys := countP_notMem_le h.structs.keys keys
  have hmul := Nat.mul_le_mul_right (keys.length + 1) hkeys
  rw [declSteps, declSteps, h.trail]
  omega

/-- Fewer steps are left for fields when more is known. -/
lemma Grows.fieldSteps_le (h : k.Grows k') (keys : List String) :
    k'.fieldSteps keys ≤ k.fieldSteps keys := by
  have hdecl := h.declSteps_le keys
  rw [fieldSteps, fieldSteps, h.trail]
  omega

/-- A declared name needs no more steps than there are for so many keys. -/
lemma declSteps_le_stepBound (k : Known) (keys : List String) :
    k.declSteps keys ≤ stepBound keys.length := by
  have hexpand := List.countP_le_length (p := (· ∉ k.trail.expanding)) (l := keys)
  have henter := List.countP_le_length (p := (· ∉ k.structs.keys)) (l := keys)
  have hmul := Nat.mul_le_mul_right (keys.length + 1) henter
  have hsquare : (keys.length + 1) * (keys.length + 1) ≤ (keys.length + 2) * (keys.length + 2) :=
    Nat.mul_le_mul (by omega) (by omega)
  rw [declSteps, stepBound, Nat.mul_assoc]
  rw [Nat.succ_mul] at hsquare
  omega

/-- Expanding a key for the first time leaves fewer steps. -/
lemma declSteps_expand (hkey : key ∈ keys) (hout : key ∉ k.trail.expanding) :
    (k.expand key).declSteps keys < k.declSteps keys := by
  have hlt := countP_notMem_cons_lt hkey hout
  show 1 + keys.countP (· ∉ key :: k.trail.expanding) + _ < 1 + _ + _
  show 1 + _ + keys.countP (· ∉ k.structs.keys) * _ < _
  omega

/-- Embedding a key for the first time leaves fewer steps. -/
lemma fieldSteps_embed (hkey : key ∈ keys) (hout : key ∉ k.trail.embedding) :
    (k.embed key).fieldSteps keys < k.fieldSteps keys := by
  have hlt := countP_notMem_cons_lt hkey hout
  show keys.countP (· ∉ key :: k.trail.embedding) + k.declSteps keys < _ + k.declSteps keys
  omega

/-- Entering a struct for the first time leaves fewer steps. -/
lemma fieldSteps_enterStruct (hkey : key ∈ keys) (hfresh : key ∉ k.structs.keys) :
    (k.enterStruct key).fieldSteps keys + 1 < k.declSteps keys := by
  -- the table has one more of the keys, which makes up for all the embeddings that begin anew
  have hentered : keys.countP (· ∉ (k.structs.enter key).keys) <
      keys.countP (· ∉ k.structs.keys) := by
    refine Nat.lt_of_le_of_lt (countP_notMem_le ?_ keys) (countP_notMem_cons_lt hkey hfresh)
    rw [StructTable.keys_enter hfresh]
    intro key' hmem
    rcases List.mem_cons.1 hmem with rfl | hmem
    · exact List.mem_append_right _ (List.mem_singleton.2 rfl)
    · exact List.mem_append_left _ hmem
  have hothers : keys.countP (· ∉ [key]) < keys.length := by
    refine Nat.lt_of_lt_of_le (countP_notMem_cons_lt hkey List.not_mem_nil) ?_
    exact List.countP_le_length
  have hmul := Nat.mul_le_mul_right (keys.length + 1) hentered
  rw [Nat.succ_mul] at hmul
  show keys.countP (· ∉ [key]) + (1 + keys.countP (· ∉ k.trail.expanding) +
    keys.countP (· ∉ (k.structs.enter key).keys) * (keys.length + 1)) + 1 <
    1 + keys.countP (· ∉ k.trail.expanding) +
    keys.countP (· ∉ k.structs.keys) * (keys.length + 1)
  omega

end GoService.Resolution.Known
