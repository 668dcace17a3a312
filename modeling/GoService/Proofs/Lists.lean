import Mathlib.Data.List.Forall2
import Mathlib.Data.List.Induction
import Mathlib.Data.List.Perm.Basic
import Mathlib.Data.String.Basic

/-!
# Lists

Lists that are related element by element, lists that are put together from their parts, and lists
that are sorted by name.
-/

namespace GoService

/-! ## Element by element -/

/-- A run over a list gives one result for each element. -/
lemma forall₂_of_mapM_ok {ε α β : Type} {f : α → Except ε β} {xs : List α} {ys : List β}
    (h : xs.mapM f = .ok ys) : List.Forall₂ (fun x y => f x = .ok y) xs ys := by
  induction xs generalizing ys with
  | nil =>
    cases h
    exact .nil
  | cons x xs ih =>
    rw [List.mapM_cons] at h
    cases hx : f x with
    | error e =>
      rw [hx] at h
      cases h
    | ok y =>
      cases hxs : xs.mapM f with
      | error e =>
        rw [hx, hxs] at h
        cases h
      | ok ys =>
        rw [hx, hxs] at h
        cases h
        exact .cons hx (ih hxs)

/-- A run over a list gives results, or stops at the first element at which something goes wrong. -/
lemma mapM_ok_or_error {ε α β : Type} (f : α → Except ε β) (xs : List α) :
    (∃ ys, xs.mapM f = .ok ys) ∨
    ∃ before x after error, xs = before ++ x :: after ∧ (∀ x' ∈ before, ∃ y, f x' = .ok y) ∧
      f x = .error error ∧ xs.mapM f = .error error := by
  induction xs with
  | nil => exact .inl ⟨[], rfl⟩
  | cons x xs ih =>
    rw [List.mapM_cons]
    cases hx : f x with
    | error error =>
      exact .inr ⟨[], x, xs, error, rfl, fun _ h => absurd h List.not_mem_nil, hx, rfl⟩
    | ok y =>
      rcases ih with ⟨ys, hys⟩ | ⟨before, x', after, error, hxs, hbefore, hx', herror⟩
      · rw [hys]
        exact .inl ⟨y :: ys, rfl⟩
      · rw [herror]
        refine .inr ⟨x :: before, x', after, error, congrArg (x :: ·) hxs, ?_, hx', rfl⟩
        exact List.forall_mem_cons.2 ⟨⟨y, hx⟩, hbefore⟩

/-- A run over a list gives what it gives for each element. -/
lemma mapM_eq_some_iff {α β : Type} {f : β → Option α} {bs : List β} {as : List α} :
    bs.mapM f = some as ↔ List.Forall₂ (fun b a => f b = some a) bs as := by
  induction bs generalizing as with
  | nil => simp [eq_comm]
  | cons b bs ih =>
    rw [List.mapM_cons, List.forall₂_cons_left_iff]
    simp only [Option.bind_eq_bind, Option.bind_eq_some_iff, Option.pure_def, ih, Option.some.injEq]
    constructor
    · rintro ⟨a, ha, as', has, rfl⟩
      exact ⟨a, as', ha, has, rfl⟩
    · rintro ⟨a, as', ha, has, rfl⟩
      exact ⟨a, ha, as', has, rfl⟩

/-- Where one thing only gives a result, a run over a list can be undone. -/
lemma mapM_eq_some_iff_map {α β : Type} {f : β → Option α} {g : α → β}
    (h : ∀ b a, f b = some a ↔ b = g a) {bs : List β} {as : List α} :
    bs.mapM f = some as ↔ bs = as.map g := by
  rw [mapM_eq_some_iff, ← List.forall₂_eq_eq_eq, List.forall₂_map_right_iff]
  simp only [h]

/-- What corresponds to an element of the second list is in the first one. -/
lemma exists_of_forall₂ {α β : Type} {R : α → β → Prop} {xs : List α} {ys : List β}
    (h : List.Forall₂ R xs ys) {y : β} (hy : y ∈ ys) : ∃ x ∈ xs, R x y := by
  induction h with
  | nil => cases hy
  | @cons x y' xs ys hR _ ih =>
    rcases List.mem_cons.1 hy with rfl | hy
    · exact ⟨x, List.mem_cons_self .., hR⟩
    · obtain ⟨x', hx', hR'⟩ := ih hy
      exact ⟨x', List.mem_cons_of_mem _ hx', hR'⟩

/-- Lists whose elements have the same images have the same images as a whole. -/
lemma map_eq_of_forall₂ {α β γ : Type} {f : α → γ} {g : β → γ} {xs : List α} {ys : List β}
    (h : List.Forall₂ (fun x y => g y = f x) xs ys) : ys.map g = xs.map f := by
  induction h with
  | nil => rfl
  | cons hxy _ ih => rw [List.map_cons, List.map_cons, hxy, ih]

/-- Where only one element gives anything, it gives everything. -/
lemma flatMap_eq_of_only {α β : Type} {g : α → List β} {xs : List α} {x : α} (hnodup : xs.Nodup)
    (hx : x ∈ xs) (h : ∀ x' ∈ xs, x' ≠ x → g x' = []) : xs.flatMap g = g x := by
  obtain ⟨before, after, rfl⟩ := List.append_of_mem hx
  have hnone : ∀ x' ∈ before ++ after, g x' = [] := by
    intro x' hx'
    have hperm : (before ++ x :: after).Perm (x :: (before ++ after)) := List.perm_middle
    obtain ⟨hne, -⟩ := List.nodup_cons.1 (hperm.nodup_iff.1 hnodup)
    exact h x' (hperm.mem_iff.2 (List.mem_cons_of_mem _ hx')) (ne_of_mem_of_not_mem hx' hne)
  have hbefore : before.flatMap g = [] :=
    List.flatMap_eq_nil_iff.2 fun x' hx' => hnone x' (List.mem_append_left _ hx')
  have hafter : after.flatMap g = [] :=
    List.flatMap_eq_nil_iff.2 fun x' hx' => hnone x' (List.mem_append_right _ hx')
  rw [List.flatMap_append, List.flatMap_cons, hbefore, hafter, List.nil_append, List.append_nil]

/-! ## Folds that fail -/

/-- A fold that fails does so at the first element whose step fails. -/
lemma exists_of_foldlM_error {ε α β : Type} {f : β → α → Except ε β} {xs : List α} {b : β} {e : ε}
    (h : xs.foldlM f b = .error e) :
    ∃ before x after b', xs = before ++ x :: after ∧ before.foldlM f b = .ok b' ∧
      f b' x = .error e := by
  induction xs generalizing b with
  | nil => cases h
  | cons x xs ih =>
    rw [List.foldlM_cons] at h
    cases hx : f b x with
    | error e' =>
      rw [hx] at h
      cases h
      exact ⟨[], x, xs, b, rfl, rfl, hx⟩
    | ok b₁ =>
      rw [hx] at h
      obtain ⟨before, x', after, b', rfl, hbefore, hx'⟩ := ih h
      refine ⟨x :: before, x', after, b', rfl, ?_, hx'⟩
      rw [List.foldlM_cons, hx]
      exact hbefore

/-! ## Separators -/

section

variable {α β : Type} {sep : List β}

/-- Rows put together begin with the first one. -/
lemma exists_intercalate_cons (xs : List β) (rows : List (List β)) :
    ∃ ys, sep.intercalate (xs :: rows) = xs ++ ys := by
  cases rows with
  | nil => exact ⟨[], by rw [List.intercalate_singleton, List.append_nil]⟩
  | cons => exact ⟨_, List.intercalate_cons_cons.trans (List.append_assoc ..)⟩

/-- Two lists of rows put together are the one and the other with a separator between them. -/
lemma intercalate_append {xs ys : List (List β)} (hxs : xs ≠ []) (hys : ys ≠ []) :
    sep.intercalate (xs ++ ys) = sep.intercalate xs ++ (sep ++ sep.intercalate ys) := by
  induction xs with
  | nil => exact absurd rfl hxs
  | cons x xs ih =>
    cases xs with
    | nil =>
      rw [List.singleton_append, List.intercalate_cons_of_ne_nil hys, List.intercalate_singleton,
        List.append_assoc]
    | cons x' xs =>
      rw [List.cons_append, List.cons_append, List.intercalate_cons_cons, ← List.cons_append,
        ih (List.cons_ne_nil _ _), List.intercalate_cons_cons]
      simp only [List.append_assoc]

/-- Rows with separators in them, and the same separators between them. -/
lemma intercalate_flatMap {rows : α → List (List β)} {as : List α} (h : ∀ a ∈ as, rows a ≠ []) :
    sep.intercalate (as.flatMap rows) =
      sep.intercalate (as.map fun a => sep.intercalate (rows a)) := by
  induction as with
  | nil => rfl
  | cons a as ih =>
    obtain ⟨ha, has⟩ := List.forall_mem_cons.1 h
    cases as with
    | nil => rw [List.flatMap_singleton, List.map_singleton, List.intercalate_singleton]
    | cons a' as =>
      have hne : (a' :: as).flatMap rows ≠ [] := by
        rw [List.flatMap_cons]
        exact List.append_ne_nil_of_left_ne_nil (has a' List.mem_cons_self) _
      rw [List.flatMap_cons, intercalate_append ha hne, ih has, List.map_cons, List.map_cons,
        List.map_cons, List.intercalate_cons_cons, List.append_assoc]

end

/-! ## Parts -/

/-- Nothing is there twice after duplicates are erased. -/
theorem nodup_eraseDups (names : List String) : names.eraseDups.Nodup := by
  match names with
  | [] => exact List.nodup_nil
  | name :: names =>
    rw [List.eraseDups_cons, List.nodup_cons]
    refine ⟨fun h => ?_, nodup_eraseDups _⟩
    simpa using List.mem_eraseDups.1 h
  termination_by names.length
  decreasing_by exact Nat.lt_succ_of_le (List.length_filter_le ..)

/-- A name at the end stays if it did not come before. -/
lemma eraseDups_concat (xs : List String) (x : String) :
    (xs ++ [x]).eraseDups = if x ∈ xs then xs.eraseDups else xs.eraseDups ++ [x] := by
  rw [List.eraseDups_append]
  by_cases hx : x ∈ xs
  · simp [List.removeAll, hx]
  · simp [List.removeAll, hx, List.eraseDups_cons]

/-- There are no more duplicates to erase. -/
lemma eraseDups_eraseDups (xs : List String) : xs.eraseDups.eraseDups = xs.eraseDups := by
  induction xs using List.reverseRecOn with
  | nil => rfl
  | append_singleton xs x ih =>
    rw [eraseDups_concat]
    split
    · exact ih
    · next hx => rw [eraseDups_concat, if_neg (mt List.mem_eraseDups.1 hx), ih]

/-- Duplicates can be erased in each part first. -/
lemma eraseDups_append_eraseDups (xs ys : List String) :
    (xs.eraseDups ++ ys.eraseDups).eraseDups = (xs ++ ys).eraseDups := by
  induction ys using List.reverseRecOn with
  | nil => rw [List.eraseDups_nil, List.append_nil, List.append_nil, eraseDups_eraseDups]
  | append_singleton ys y ih =>
    rw [← List.append_assoc, eraseDups_concat (xs ++ ys), eraseDups_concat ys]
    by_cases hy : y ∈ ys
    · rw [if_pos hy, if_pos (List.mem_append_right _ hy), ih]
    · rw [if_neg hy, ← List.append_assoc, eraseDups_concat, ih]
      simp only [List.mem_append, List.mem_eraseDups]

/-- What stands before an element among the distinct ones are the distinct ones before its first
occurrence. -/
lemma exists_of_eraseDups_eq {xs before after : List String} {x : String}
    (h : xs.eraseDups = before ++ x :: after) :
    ∃ xs₁ xs₂, xs = xs₁ ++ x :: xs₂ ∧ xs₁.eraseDups = before := by
  induction xs using List.reverseRecOn generalizing after with
  | nil => exact absurd h (by simp)
  | append_singleton xs y ih =>
    rw [eraseDups_concat] at h
    split at h
    · obtain ⟨xs₁, xs₂, rfl, hbefore⟩ := ih h
      exact ⟨xs₁, xs₂ ++ [y], by simp, hbefore⟩
    · rcases List.eq_nil_or_concat after with rfl | ⟨after, z, rfl⟩
      · obtain ⟨hbefore, hlast⟩ := List.append_inj' h rfl
        cases hlast
        exact ⟨xs, [], rfl, hbefore⟩
      · rw [List.concat_eq_append, ← List.cons_append, ← List.append_assoc] at h
        obtain ⟨xs₁, xs₂, rfl, hbefore⟩ := ih (List.append_inj' h rfl).1
        exact ⟨xs₁, xs₂ ++ [y], by simp, hbefore⟩

section

variable {α : Type} {g : α → Nat} {n : Nat} {as : List α}

/-- In a list in the order of numbers those with the greatest number come last. -/
lemma filter_lt_append_filter_eq (horder : as.Pairwise fun a b => g a ≤ g b)
    (hbound : ∀ a ∈ as, g a ≤ n) : as.filter (g · < n) ++ as.filter (g · == n) = as := by
  induction as with
  | nil => rfl
  | cons a as ih =>
    obtain ⟨ha, has⟩ := List.pairwise_cons.1 horder
    have hrest := ih has fun b hb => hbound b (List.mem_cons_of_mem _ hb)
    rcases Nat.lt_or_eq_of_le (hbound a (List.mem_cons_self ..)) with hlt | hlast
    · rw [List.filter_cons_of_pos (p := (g · < n)) (decide_eq_true hlt),
        List.filter_cons_of_neg (p := (g · == n)) (by simp; omega)]
      exact congrArg (a :: ·) hrest
    · have hnone : as.filter (g · < n) = [] := by
        refine List.filter_eq_nil_iff.2 fun b hb => ?_
        have hle := ha b hb
        simp only [decide_eq_true_eq]
        omega
      rw [hnone] at hrest
      rw [List.filter_cons_of_neg (p := (g · < n)) (by simp; omega), hnone,
        List.filter_cons_of_pos (p := (g · == n)) (by simp [hlast])]
      exact congrArg (a :: ·) hrest

/-- A list in the order of numbers is what its parts with each number make up. -/
lemma flatMap_filter_eq (horder : as.Pairwise fun a b => g a ≤ g b) (hbound : ∀ a ∈ as, g a < n) :
    ((List.range n).flatMap fun i => as.filter (g · == i)) = as := by
  induction n generalizing as with
  | zero =>
    cases as with
    | nil => rfl
    | cons a as => exact absurd (hbound a (List.mem_cons_self ..)) (Nat.not_lt_zero _)
  | succ n ih =>
    have hsplit := filter_lt_append_filter_eq horder fun a ha => Nat.le_of_lt_succ (hbound a ha)
    have hinit := ih (horder.sublist (List.filter_sublist (p := (g · < n)))) fun a ha =>
      of_decide_eq_true (List.mem_filter.1 ha).2
    rw [List.range_succ, List.flatMap_append, List.flatMap_singleton]
    refine Eq.trans (congrArg (· ++ as.filter (g · == n)) ?_) hsplit
    refine Eq.trans (List.flatMap_congr fun i hi => ?_) hinit
    have hlt := List.mem_range.1 hi
    rw [List.filter_filter]
    refine List.filter_congr fun a _ => ?_
    by_cases heq : g a = i
    · simp [heq, hlt]
    · simp [heq]

end

section

variable {α : Type} {g : α → String} {as : List α} {keys : List String}

/-- The parts of a list with different keys make up the list if each element has one of the keys. -/
lemma flatMap_filter_perm (hkeys : keys.Nodup) (has : ∀ a ∈ as, g a ∈ keys) :
    (keys.flatMap fun key => as.filter (g · == key)).Perm as := by
  induction keys generalizing as with
  | nil =>
    rw [List.eq_nil_iff_forall_not_mem.2 fun a ha => List.not_mem_nil (has a ha)]
    exact .nil
  | cons key keys ih =>
    obtain ⟨hkey, hkeys⟩ := List.nodup_cons.1 hkeys
    have hothers : ∀ a ∈ as.filter (fun a => !g a == key), g a ∈ keys := by
      intro a ha
      obtain ⟨ha, hne⟩ := List.mem_filter.1 ha
      exact (List.mem_cons.1 (has a ha)).resolve_left (by simpa using hne)
    have hsame : (keys.flatMap fun key' => as.filter (g · == key')) =
        keys.flatMap fun key' => (as.filter fun a => !g a == key).filter (g · == key') := by
      refine List.flatMap_congr fun key' hkey' => ?_
      have hne : key' ≠ key := fun heq => hkey (heq ▸ hkey')
      rw [List.filter_filter]
      refine List.filter_congr fun a _ => ?_
      by_cases heq : g a = key'
      · simp [heq, hne]
      · simp [heq]
    rw [List.flatMap_cons, hsame]
    exact ((ih hkeys hothers).append_left _).trans (List.filter_append_perm ..)

end

/-! ## Sorting by name -/

section

variable {α : Type} (name : α → String)

/-- The order by name is transitive. -/
lemma le_name_trans (a b c : α) (hab : decide (name a ≤ name b) = true)
    (hbc : decide (name b ≤ name c) = true) : decide (name a ≤ name c) = true :=
  decide_eq_true (le_trans (of_decide_eq_true hab) (of_decide_eq_true hbc))

/-- Any two names can be compared. -/
lemma le_name_total (a b : α) : (decide (name a ≤ name b) || decide (name b ≤ name a)) = true := by
  simpa using le_total (name a) (name b)

/-- A list that is sorted by name has its names in order. -/
lemma pairwise_mergeSort_name (xs : List α) :
    (xs.mergeSort fun a b => decide (name a ≤ name b)).Pairwise fun a b => name a ≤ name b :=
  (List.pairwise_mergeSort (le_name_trans name) (le_name_total name) xs).imp of_decide_eq_true

/-- Sorting leaves elements of one name in their order. -/
lemma filter_mergeSort_name (xs : List α) (n : String) :
    (xs.mergeSort fun a b => decide (name a ≤ name b)).filter (name · == n) =
      xs.filter (name · == n) := by
  have hequal : (xs.filter (name · == n)).Pairwise fun a b => decide (name a ≤ name b) = true := by
    refine List.pairwise_of_forall_mem_list fun a ha b hb => ?_
    have heq := (eq_of_beq (List.mem_filter.1 ha).2).trans (eq_of_beq (List.mem_filter.1 hb).2).symm
    exact decide_eq_true heq.le
  have hsublist := List.sublist_mergeSort (le_name_trans name) (le_name_total name) hequal
    List.filter_sublist
  have hfilter := hsublist.filter (name · == n)
  rw [List.filter_filter] at hfilter
  simp only [Bool.and_self] at hfilter
  refine (hfilter.eq_of_length ?_).symm
  exact ((List.mergeSort_perm xs _).filter _).length_eq.symm

end

/-! ## Equal neighbours -/

section

variable {α β : Type} [BEq α] [BEq β]

/-- What is kept already stands before what is still to come. -/
lemma eraseRepsBy_loop (x : α) (xs acc : List α) :
    List.eraseRepsBy.loop (fun a b => a == b) x xs acc = acc.reverse ++ (x :: xs).eraseReps := by
  have hstep (y : α) (ys : List α) :
      (y :: ys).eraseReps = List.eraseRepsBy.loop (fun a b => a == b) y ys [] := rfl
  rw [hstep]
  induction xs generalizing x acc with
  | nil => rw [List.eraseRepsBy.loop, List.eraseRepsBy.loop, List.reverse_cons,
      List.reverse_singleton]
  | cons y xs ih =>
    cases h : x == y with
    | true =>
      simp only [List.eraseRepsBy.loop, h]
      exact ih x acc
    | false =>
      simp only [List.eraseRepsBy.loop, h]
      rw [ih y (x :: acc), ih y [x], List.reverse_cons, List.append_assoc, List.reverse_singleton]

variable [LawfulBEq α] [LawfulBEq β]

/-- Of two equal neighbours one is left. -/
lemma eraseReps_cons_self (x : α) (xs : List α) :
    (x :: x :: xs).eraseReps = (x :: xs).eraseReps := by
  simp only [List.eraseReps, List.eraseRepsBy, List.eraseRepsBy.loop, beq_self_eq_true]

/-- Different neighbours are both left. -/
lemma eraseReps_cons_of_ne {x y : α} (h : x ≠ y) (xs : List α) :
    (x :: y :: xs).eraseReps = x :: (y :: xs).eraseReps := by
  have hloop := eraseRepsBy_loop y xs [x]
  rw [List.reverse_singleton, List.singleton_append] at hloop
  rw [← hloop, List.eraseReps, List.eraseRepsBy, List.eraseRepsBy.loop, beq_false_of_ne h]

/-- Neighbours that are equal under an injective function were equal before. -/
lemma eraseReps_map {f : α → β} (hf : f.Injective) (xs : List α) :
    (xs.map f).eraseReps = xs.eraseReps.map f := by
  match xs with
  | [] => rfl
  | [x] => rfl
  | x :: y :: xs =>
    have hrest := eraseReps_map hf (y :: xs)
    rw [List.map_cons] at hrest
    rw [List.map_cons, List.map_cons]
    by_cases hxy : x = y
    · rw [hxy, eraseReps_cons_self, eraseReps_cons_self, hrest]
    · rw [eraseReps_cons_of_ne (hf.ne hxy), eraseReps_cons_of_ne hxy, hrest, List.map_cons]
  termination_by xs.length

/-- In order, equal elements stand next to each other. -/
lemma eraseReps_eq_eraseDups [LinearOrder α] {xs : List α} (h : xs.Pairwise (· ≤ ·)) :
    xs.eraseReps = xs.eraseDups := by
  match xs, h with
  | [], _ => rfl
  | [x], _ => rfl
  | x :: y :: xs, h =>
    obtain ⟨hx, hy⟩ := List.pairwise_cons.1 h
    have hrest := eraseReps_eq_eraseDups hy
    by_cases hxy : x = y
    · subst hxy
      rw [eraseReps_cons_self, hrest, List.eraseDups_cons, List.eraseDups_cons,
        List.filter_cons_of_neg (by simp)]
    · have hnew : ∀ z ∈ y :: xs, (!z == x) = true := by
        intro z hz
        have hyz : y ≤ z := by
          rcases List.mem_cons.1 hz with rfl | hz
          · exact le_rfl
          · exact (List.pairwise_cons.1 hy).1 z hz
        have hlt : x < z := lt_of_lt_of_le (lt_of_le_of_ne (hx y List.mem_cons_self) hxy) hyz
        simpa using hlt.ne'
      rw [eraseReps_cons_of_ne hxy, hrest, @List.eraseDups_cons _ _ x, List.filter_eq_self.2 hnew]
  termination_by xs.length

end

end GoService
