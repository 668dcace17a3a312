import GoService.Data.StructTable
import GoService.Service.Function

/-!
# The structs behind functions

The structs that functions take and give, together with all that can be reached from these through
the types of fields. `reach` visits each key once; what the table does not hold finished leads no
further.
-/

namespace GoService.Service

open Data

/-- The keys of the structs mentioned in the fields of the finished struct at a key. -/
def references (structs : StructTable) (key : String) : List String :=
  match structs.get? key with
  | some s => s.fields.flatMap (·.type.structKeys)
  | none => []

/-- How many registered structs have not been seen. -/
def unseen (structs : StructTable) (seen : List String) : Nat :=
  structs.states.keys.countP (· ∉ seen)

/-- The number of times that structs are mentioned in the table. -/
def mentions (structs : StructTable) : Nat :=
  (structs.states.keys.flatMap (references structs)).length

/-- No struct mentions more structs than all of them do. -/
theorem length_references_le {structs : StructTable} {key : String}
    (h : key ∈ structs.states.keys) : (references structs key).length ≤ mentions structs := by
  rw [mentions, List.flatMap_def]
  exact (List.sublist_flatten_of_mem (List.mem_map_of_mem h)).length_le

/-- What is not registered mentions nothing. -/
theorem references_eq_nil_of_not_mem {structs : StructTable} {key : String}
    (h : key ∉ structs.states.keys) : references structs key = [] := by
  have hn : structs.states.get? key = none := by
    rw [Dict.get?, List.lookup_eq_none_iff]
    intro e he
    rw [bne_iff_ne]
    rintro rfl
    exact h (List.mem_map_of_mem he)
  simp [references, StructTable.get?, StructTable.state?, hn]

/-- A bound on the visits that are left. -/
def work (structs : StructTable) (seen pending : List String) : Nat :=
  unseen structs seen * mentions structs + pending.length

/-- A visit to a struct that has not been seen leaves less work. -/
theorem work_visit_lt {structs : StructTable} {seen : List String} {key : String}
    (hs : key ∉ seen) (pending : List String) :
    work structs (key :: seen) (references structs key ++ pending) <
      work structs seen (key :: pending) := by
  have hle : unseen structs (key :: seen) ≤ unseen structs seen :=
    countP_notMem_le (List.subset_cons_self key seen) structs.states.keys
  simp only [work, List.length_append, List.length_cons]
  by_cases hm : key ∈ structs.states.keys
  · have hlt : unseen structs (key :: seen) + 1 ≤ unseen structs seen :=
      countP_notMem_cons_lt hm hs
    have hmul := Nat.mul_le_mul_right (mentions structs) hlt
    have hrefs := length_references_le hm
    rw [Nat.add_mul] at hmul
    omega
  -- a key the table does not have may leave the count as it is: then the list is shorter
  · have hmul := Nat.mul_le_mul_right (mentions structs) hle
    rw [references_eq_nil_of_not_mem hm, List.length_nil]
    omega

/-- The keys seen, together with those that can be reached from keys still to be visited. -/
def reach (structs : StructTable) (seen : List String) : List String → List String
  | [] => seen
  | key :: pending =>
    if key ∈ seen then reach structs seen pending
    else reach structs (key :: seen) (references structs key ++ pending)
  termination_by pending => work structs seen pending
  decreasing_by
    · simp [work]
    · next hs => exact work_visit_lt hs pending

/-- The keys of all structs behind functions, sorted. -/
def componentsOf (structs : StructTable) (fns : List Function) : List String :=
  (reach structs [] (fns.flatMap Function.structKeys)).mergeSort fun a b => decide (a ≤ b)

end GoService.Service
