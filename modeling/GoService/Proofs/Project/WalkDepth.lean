import GoService.Proofs.Project.Directories

/-!
# The depth of a walk

A walk goes on below a directory as long as it has steps left, and it has enough of them. Inside a
directory what is left to be entered gets smaller; and a link leads only to a directory that the
walk is not in, of which there is then one less. So from some number of steps on the walk meets the
same (`below_eq`), and the number that it starts with is as great (`reach_lt`).
-/

namespace GoService.Project

/-! ## Places of directories -/

namespace FileTree

mutual

/-- The names that lead to a directory, for each directory of a tree. -/
def dirPlaces : FileTree → List (List String)
  | dir es => [] :: dirPlacesOf es
  | file _ | link _ => []

/-- The places of directories in the entries of a directory. -/
def dirPlacesOf : List (String × FileTree) → List (List String)
  | [] => []
  | (name, t) :: es => (dirPlaces t).map (name :: ·) ++ dirPlacesOf es

end

mutual

/-- A tree has no more directories than nodes. -/
lemma length_dirPlaces_le : (t : FileTree) → t.dirPlaces.length ≤ t.weight
  | dir es => Nat.succ_le_succ (length_dirPlacesOf_le es)
  | file _ => Nat.zero_le _
  | link _ => Nat.zero_le _

/-- Entries have no more directories than nodes. -/
lemma length_dirPlacesOf_le : (es : List (String × FileTree)) →
    (dirPlacesOf es).length ≤ weightEntries es
  | [] => Nat.zero_le _
  | (name, t) :: es => by
    rw [dirPlacesOf, List.length_append, List.length_map, weightEntries]
    exact Nat.add_le_add (length_dirPlaces_le t) (length_dirPlacesOf_le es)

end

/-- A directory in an entry is one of the directory of the entry. -/
lemma mem_dirPlacesOf {es : List (String × FileTree)} {e : String × FileTree} (he : e ∈ es)
    {names : List String} (h : names ∈ e.2.dirPlaces) : e.1 :: names ∈ dirPlacesOf es := by
  induction es with
  | nil => cases he
  | cons e' es ih =>
    rw [dirPlacesOf]
    rcases List.mem_cons.1 he with rfl | he
    · exact List.mem_append_left _ (List.mem_map_of_mem h)
    · exact List.mem_append_right _ (ih he)

/-- An entry has no more nodes than its directory. -/
lemma weight_le_of_mem {es : List (String × FileTree)} {e : String × FileTree} (he : e ∈ es) :
    e.2.weight ≤ weightEntries es := by
  induction es with
  | nil => cases he
  | cons e' es ih =>
    rw [weightEntries]
    rcases List.mem_cons.1 he with rfl | he
    · exact Nat.le_add_right ..
    · exact Nat.le_trans (ih he) (Nat.le_add_left ..)

/-- Names lead from a node down to another one. -/
inductive Leads : FileTree → List String → FileTree → Prop where
  | here (t : FileTree) : Leads t [] t
  | inside {es : List (String × FileTree)} {e : String × FileTree} {names : List String}
    {node : FileTree} (he : e ∈ es) (h : Leads e.2 names node) :
    Leads (dir es) (e.1 :: names) node

/-- What is found at names is led to by them. -/
lemma leads_of_at? {files node : FileTree} {names : List String}
    (h : files.at? names = some node) : Leads files names node := by
  induction names generalizing files with
  | nil =>
    cases h
    exact .here _
  | cons name names ih =>
    rw [at?] at h
    split at h
    · next child hchild =>
      cases files with
      | dir es =>
        obtain ⟨before, after, rfl, -⟩ := List.lookup_eq_some_iff.1 hchild
        exact .inside (e := (name, child)) (List.mem_append_right _ (List.mem_cons_self ..)) (ih h)
      | file _ => cases hchild
      | link _ => cases hchild
    · cases h

/-- What a path leads to is led to by the names of its place. -/
lemma leads_of_lookup {files : FileTree} {p : FilePath} {place : Place}
    (h : files.lookup p = .ok place) : Leads files place.names place.node :=
  leads_of_at? (at?_of_lookup h)

/-- A directory to which names lead is one of those of the tree. -/
lemma Leads.mem_dirPlaces {files node : FileTree} {names : List String}
    (h : Leads files names node) {es : List (String × FileTree)} (hnode : node = dir es) :
    names ∈ files.dirPlaces := by
  induction h with
  | here t =>
    subst hnode
    exact List.mem_cons_self ..
  | inside he _ ih => exact List.mem_cons_of_mem _ (mem_dirPlacesOf he (ih hnode))

/-- A node to which names lead has no more nodes than the tree. -/
lemma Leads.weight_le {files node : FileTree} {names : List String}
    (h : Leads files names node) : node.weight ≤ files.weight := by
  induction h with
  | here t => exact Nat.le_refl _
  | inside he _ ih => exact Nat.le_trans ih (Nat.le_succ_of_le (weight_le_of_mem he))

end FileTree

/-! ## Enough steps -/

namespace OpenDir

variable {files : FileTree} {ancestors : List OpenDir} {d : OpenDir} {e : String × FileTree}

/-- The directories that a walk is not in. -/
def free (files : FileTree) (inside : List OpenDir) : List (List String) :=
  files.dirPlaces.filter fun names => !(inside.map OpenDir.names).contains names

/-- How far down a walk can go: first below the directory, and then from each directory that it is
not in yet. -/
def reach (files : FileTree) (ancestors : List OpenDir) (d : OpenDir) : Nat :=
  (free files (d :: ancestors)).length * (files.weight + 1) + FileTree.weightEntries d.entries

/-- One directory more to be in is one less to be entered. -/
lemma free_cons (d : OpenDir) (inside : List OpenDir) :
    free files (d :: inside) = (free files inside).filter (· ≠ d.names) := by
  rw [free, free, List.filter_filter]
  refine List.filter_congr fun names _ => ?_
  rw [List.map_cons, List.contains_cons, Bool.not_or]
  by_cases h : names = d.names
  · simp [h]
  · simp [h]

/-- A walk that enters a directory that it is not in has one less to enter. -/
lemma length_free_cons_lt {d : OpenDir} {inside : List OpenDir} (hd : d.names ∈ files.dirPlaces)
    (hfresh : ∀ a ∈ inside, a.names ≠ d.names) :
    (free files (d :: inside)).length < (free files inside).length := by
  rw [free_cons, List.length_filter_lt_length_iff_exists]
  refine ⟨d.names, List.mem_filter.2 ⟨hd, ?_⟩, by simp⟩
  simpa using hfresh

/-- Entering a directory leaves less to be entered. -/
lemma reach_inner_lt {i : OpenDir} (h : Inner files (d :: ancestors) d e i) (he : e ∈ d.entries) :
    reach files (d :: ancestors) i < reach files ancestors d := by
  obtain ⟨-, -, ⟨hdir, -⟩ | ⟨-, hplace, hfresh⟩⟩ := h
  · have hweight := FileTree.weight_le_of_mem he
    rw [hdir] at hweight
    have hfree : (free files (i :: d :: ancestors)).length ≤
        (free files (d :: ancestors)).length := by
      rw [free_cons]
      exact List.length_filter_le ..
    have hmul := Nat.mul_le_mul_right (files.weight + 1) hfree
    rw [reach, reach]
    exact Nat.add_lt_add_of_le_of_lt hmul hweight
  · have hleads := FileTree.leads_of_lookup hplace
    have hweight : FileTree.weightEntries i.entries < files.weight := hleads.weight_le
    have hfree := Nat.mul_le_mul_right (files.weight + 1)
      (Nat.succ_le_of_lt (length_free_cons_lt (hleads.mem_dirPlaces rfl) hfresh))
    rw [reach, reach]
    rw [Nat.succ_mul] at hfree
    omega

/-- As soon as there are more steps than directories to go down to, their number does not matter. -/
lemma below_eq {skip : WalkEntry → Bool} {fuel fuel' : Nat} (h : reach files ancestors d < fuel)
    (h' : reach files ancestors d < fuel') :
    d.below files skip fuel ancestors = d.below files skip fuel' ancestors := by
  induction fuel generalizing fuel' ancestors d with
  | zero => exact absurd h (Nat.not_lt_zero _)
  | succ fuel ih =>
    cases fuel' with
    | zero => exact absurd h' (Nat.not_lt_zero _)
    | succ fuel' =>
      rw [below, below]
      refine List.flatMap_congr fun e he => ?_
      split
      · rfl
      · next entry inner hvisit =>
        cases inner with
        | none => rfl
        | some i =>
          have hinner := (visit_eq_ok hvisit).2 i rfl
          have hlt := reach_inner_lt hinner (mem_entries_of_mem_sortedEntries he)
          have hbelow : i.below files skip fuel (d :: ancestors) =
              i.below files skip fuel' (d :: ancestors) := ih (by omega) (by omega)
          dsimp only
          rw [hbelow]

/-- A walk has more steps than it can go down. -/
lemma reach_lt {names : List String} (h : FileTree.Leads files names (.dir d.entries)) :
    reach files [] d < (files.weight + 1) * (files.weight + 1) := by
  have hfree : (free files [d]).length ≤ files.weight :=
    Nat.le_trans (List.length_filter_le ..) (FileTree.length_dirPlaces_le files)
  have hweight : FileTree.weightEntries d.entries < files.weight := h.weight_le
  have hmul := Nat.mul_le_mul_right (files.weight + 1) hfree
  rw [reach, Nat.succ_mul]
  omega

end OpenDir

end GoService.Project
