import GoService.SymbolTable
import GoService.Proofs.Lists
import Mathlib.Data.List.Nodup
import Mathlib.Data.List.Induction

/-!
# Strings by number

A symbol table keeps the strings in the order in which they first came, and a bucket has the numbers
of all strings with its hash (`Knows`). So a string is found by comparison whatever the hash
function is (`Knows.get?_eq`), and strings and numbers correspond to each other
(`interned_in_order`), as long as there are no more strings than numbers.
-/

namespace GoService.SymbolTable

variable {hash : String → UInt64} {t : SymbolTable hash} {known : List String} {s : String}

/-- Interns strings one after another: their numbers, and the table that is left. -/
def internAll (t : SymbolTable hash) : List String → List Nat × SymbolTable hash
  | [] => ([], t)
  | s :: ss =>
    let first := t.intern s
    let rest := internAll first.2 ss
    (first.1 :: rest.1, rest.2)

/-- The table has these strings, each with its place as its number. A number stands in the bucket of
the hash of its string, beside those of the strings that collide with it. -/
structure Knows (t : SymbolTable hash) (known : List String) : Prop where
  names : t.names.toList = known
  distinct : known.Nodup
  bucket : ∀ h n, n ∈ t.buckets.getD h [] ↔ ∃ s, known[n]? = some s ∧ hash s = h

/-- The empty table knows no strings. -/
lemma knows_empty : Knows (empty : SymbolTable hash) [] := by
  refine ⟨rfl, List.nodup_nil, fun h n => ?_⟩
  simp [empty]

/-! ## Finding a string -/

/-- A string that is known is found under its index. -/
lemma Knows.get?_eq_some_iff (h : t.Knows known) {n : Nat} :
    t.get? s = some n ↔ known[n]? = some s := by
  have hname (m : Nat) : (t.names[m]? == some s) = true ↔ known[m]? = some s := by
    rw [beq_iff_eq, ← h.names, Array.getElem?_toList]
  have hfound {m : Nat} (hget : t.get? s = some m) : known[m]? = some s :=
    (hname m).1 (List.find?_some (p := fun m => t.names[m]? == some s) hget)
  refine ⟨hfound, fun hn => ?_⟩
  have hmem : n ∈ t.bucket s := (h.bucket (hash s) n).2 ⟨s, hn, rfl⟩
  cases hget : t.get? s with
  | none => exact absurd ((hname n).2 hn) (List.find?_eq_none.1 hget n hmem)
  | some m =>
    -- the strings of one bucket are told apart, since no string has two numbers
    obtain ⟨hlt, -⟩ := List.getElem?_eq_some_iff.1 (hfound hget)
    rw [(List.getElem?_inj hlt h.distinct).1 ((hfound hget).trans hn.symm)]

/-- A string is found exactly if it is known, under its place. -/
lemma Knows.get?_eq (h : t.Knows known) (s : String) :
    t.get? s = if s ∈ known then some (known.idxOf s) else none := by
  split
  · next hs => exact h.get?_eq_some_iff.2 (List.getElem?_idxOf hs)
  · next hs =>
    refine Option.eq_none_iff_forall_ne_some.2 fun n hn => hs ?_
    exact List.mem_of_getElem? (h.get?_eq_some_iff.1 hn)

/-! ## One more string -/

/-- A known string keeps its symbol, and the table stays. -/
lemma Knows.intern_of_mem (h : t.Knows known) (hs : s ∈ known) :
    t.intern s = (known.idxOf s, t) := by
  rw [intern, h.get?_eq, if_pos hs]

/-- A new string gets the next symbol, if there is one left, and is known from then on. -/
lemma Knows.intern_of_notMem (h : t.Knows known) (hs : s ∉ known)
    (hroom : known.length < symbolLimit) :
    (t.intern s).1 = known.length ∧ (t.intern s).2.Knows (known ++ [s]) := by
  have hsize : t.names.size = known.length := by
    rw [← h.names, Array.length_toList]
  have hintern : t.intern s = (known.length,
      ⟨t.names.push s, t.buckets.insert (hash s) (t.bucket s ++ [known.length])⟩) := by
    rw [intern, h.get?_eq, if_neg hs, hsize, Nat.mod_eq_of_lt hroom]
  rw [hintern]
  refine ⟨rfl, ?_, ?_, fun code n => ?_⟩
  · rw [Array.toList_push, h.names]
  · exact List.nodup_append.2 ⟨h.distinct, List.nodup_singleton s, by
      rintro a ha b hb rfl
      exact hs (List.mem_singleton.1 hb ▸ ha)⟩
  · have hnew : (∃ s', (known ++ [s])[n]? = some s' ∧ hash s' = code) ↔
        (∃ s', known[n]? = some s' ∧ hash s' = code) ∨ n = known.length ∧ hash s = code := by
      rw [List.getElem?_append]
      split
      · next hlt =>
        refine (or_iff_left fun hn => ?_).symm
        omega
      · next hge =>
        have hnone : known[n]? = none := List.getElem?_eq_none (Nat.le_of_not_lt hge)
        have hlast : n - known.length = 0 ↔ n = known.length := by omega
        simp [hnone, List.getElem?_singleton, hlast, and_assoc]
    rw [hnew, ← h.bucket, Std.HashMap.getD_insert]
    by_cases hcode : hash s = code
    · subst hcode
      rw [if_pos (beq_self_eq_true _), List.mem_append, List.mem_singleton, and_iff_left rfl]
      rfl
    · rw [if_neg (by simpa using hcode), or_iff_left fun hn => hcode hn.2]

/-! ## All strings -/

/-- The last of several strings is interned after the others. -/
lemma internAll_concat (t : SymbolTable hash) (ss : List String) (s : String) :
    t.internAll (ss ++ [s]) =
      ((t.internAll ss).1 ++ [((t.internAll ss).2.intern s).1],
        ((t.internAll ss).2.intern s).2) := by
  induction ss generalizing t with
  | nil => rfl
  | cons s' ss ih => rw [List.cons_append, internAll, ih, internAll]; rfl

/-- The strings of a table are those that were interned, in the order in which they first came, and
each call told the place of its string in this order. -/
lemma knows_internAll (hash : String → UInt64) (ss : List String)
    (hroom : ss.eraseDups.length ≤ symbolLimit) :
    (internAll (empty : SymbolTable hash) ss).2.Knows ss.eraseDups ∧
      (internAll (empty : SymbolTable hash) ss).1 = ss.map ss.eraseDups.idxOf := by
  induction ss using List.reverseRecOn with
  | nil => exact ⟨knows_empty, rfl⟩
  | append_singleton ss s ih =>
    rw [eraseDups_concat] at hroom ⊢
    rw [internAll_concat, List.map_append, List.map_singleton]
    split
    · next hs =>
      rw [if_pos hs] at hroom
      obtain ⟨hknows, hnumbers⟩ := ih hroom
      rw [hknows.intern_of_mem (List.mem_eraseDups.2 hs), hnumbers]
      exact ⟨hknows, rfl⟩
    · next hs =>
      rw [if_neg hs, List.length_append, List.length_singleton] at hroom
      obtain ⟨hknows, hnumbers⟩ := ih (Nat.le_of_succ_le hroom)
      have hs := mt List.mem_eraseDups.1 hs
      obtain ⟨hnew, hstep⟩ := hknows.intern_of_notMem hs hroom
      refine ⟨hstep, ?_⟩
      rw [hnew, hnumbers, List.idxOf_append_of_notMem hs, List.idxOf_cons_self, Nat.add_zero]
      refine congrArg (· ++ [ss.eraseDups.length]) (List.map_congr_left fun s' hs' => ?_)
      rw [List.idxOf_append_of_mem (List.mem_eraseDups.2 hs')]

/-- Whatever the hash function is, strings that are interned one after another get the numbers from
zero in the order in which they first come, so that two calls tell the same number exactly if they
are for the same string. At the end, and so at any time after a call, the number that it told leads
back to its string; a string has a number exactly if it was interned, namely the one that interning
it again tells without a change of the table; and there are as many numbers as different strings. -/
theorem interned_in_order (hash : String → UInt64) {ss : List String}
    (hroom : ss.eraseDups.length ≤ symbolLimit) :
    let run := internAll (empty : SymbolTable hash) ss
    run.1 = ss.map ss.eraseDups.idxOf ∧
      (∀ i j : Nat, run.1[i]? = run.1[j]? ↔ ss[i]? = ss[j]?) ∧
      run.1.map run.2.resolve = ss ∧
      (∀ s n, run.2.get? s = some n ↔ s ∈ ss ∧ run.2.intern s = (n, run.2)) ∧
      run.2.size = ss.eraseDups.length ∧ run.2.names.toList = ss.eraseDups := by
  obtain ⟨hknows, hnumbers⟩ := knows_internAll hash ss hroom
  generalize internAll (empty : SymbolTable hash) ss = run at hknows hnumbers
  have hplace {s : String} (hs : s ∈ ss) : ss.eraseDups[ss.eraseDups.idxOf s]? = some s :=
    List.getElem?_idxOf (List.mem_eraseDups.2 hs)
  refine ⟨hnumbers, fun i j => ?_, ?_, fun s n => ?_, ?_, hknows.names⟩
  · have hback (i : Nat) : (run.1[i]?).bind (ss.eraseDups[·]?) = ss[i]? := by
      rw [hnumbers, List.getElem?_map]
      cases hi : ss[i]? with
      | none => rfl
      | some s => exact hplace (List.mem_of_getElem? hi)
    refine ⟨fun heq => by rw [← hback i, heq, hback j], fun heq => ?_⟩
    rw [hnumbers, List.getElem?_map, List.getElem?_map, heq]
  · have hresolve : ∀ s ∈ ss, (run.2.resolve ∘ ss.eraseDups.idxOf) s = s := fun s hs => by
      rw [Function.comp_apply, resolve, Array.getD_eq_getD_getElem?, ← Array.getElem?_toList,
        hknows.names, hplace hs, Option.getD_some]
    rw [hnumbers, List.map_map, List.map_congr_left hresolve, List.map_id']
  · constructor
    · intro hget
      have hs := List.mem_of_getElem? (hknows.get?_eq_some_iff.1 hget)
      exact ⟨List.mem_eraseDups.1 hs, by rw [intern, hget]⟩
    · intro ⟨hs, hintern⟩
      have hs := List.mem_eraseDups.2 hs
      rw [hknows.intern_of_mem hs] at hintern
      rw [hknows.get?_eq, if_pos hs, (Prod.mk.inj hintern).1]
  · rw [size, ← Array.length_toList, hknows.names]

/-- Two strings that share their bucket, and one of them again. -/
theorem collision_told_apart :
    let run := internAll (empty : SymbolTable fun _ => 7) ["b", "a", "b"]
    run.1 = [0, 1, 0] ∧ run.1.map run.2.resolve = ["b", "a", "b"] ∧ run.2.size = 2 := by
  have hroom : ["b", "a", "b"].eraseDups.length ≤ symbolLimit := by decide
  obtain ⟨hnumbers, -, hresolve, -, hsize, -⟩ := interned_in_order (fun _ => 7) hroom
  exact ⟨hnumbers, hresolve, hsize⟩

end GoService.SymbolTable
