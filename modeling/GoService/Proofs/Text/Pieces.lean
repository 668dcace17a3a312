import GoService.Text.Blank
import GoService.Text.Lines
import Mathlib.Data.List.Basic
import Mathlib.Data.List.TakeWhile
import Mathlib.Tactic.Lemma

/-!
# Pieces of a text

A text is cut at a separator into pieces that do not have it, and pieces without the separator that
are joined by it, or each ended by it, are what the joined text is cut into again. What is trimmed
at its end has no white space there.
-/

namespace GoService.Text

variable {sep : Char}

/-! ## Pieces -/

/-- A separator at the front has an empty piece before it. -/
lemma split_cons_self (cs : List Char) : split sep (sep :: cs) = [] :: split sep cs :=
  if_pos rfl

/-- A piece without separators ends at the first one. -/
lemma split_append_of_notMem {p : List Char} (hp : sep ∉ p) (cs : List Char) :
    split sep (p ++ sep :: cs) = p :: split sep cs := by
  induction p with
  | nil => exact split_cons_self cs
  | cons c p ih =>
    obtain ⟨hc, hp⟩ := not_or.1 (List.mem_cons.not.1 hp)
    rw [List.cons_append, split, if_neg (Ne.symm hc), ih hp]

/-- A text without separators is its only piece. -/
lemma split_of_notMem {p : List Char} (hp : sep ∉ p) : split sep p = [p] := by
  induction p with
  | nil => rfl
  | cons c p ih =>
    obtain ⟨hc, hp⟩ := not_or.1 (List.mem_cons.not.1 hp)
    rw [split, if_neg (Ne.symm hc), ih hp]

/-- At a separator a text falls into two, which are cut apart each for itself. -/
lemma split_append_cons (as bs : List Char) :
    split sep (as ++ sep :: bs) = split sep as ++ split sep bs := by
  induction as with
  | nil => exact split_cons_self bs
  | cons c as ih =>
    rw [List.cons_append, split, split, ih]
    by_cases hc : c = sep
    · rw [if_pos hc, if_pos hc, List.cons_append]
    · rw [if_neg hc, if_neg hc]
      cases hsplit : split sep as with
      | nil => exact absurd hsplit (split_ne_nil sep as)
      | cons p ps => rfl

/-- What comes in front of a text without a separator belongs to the first piece. -/
lemma split_append_left {p cs q : List Char} {qs : List (List Char)} (hp : sep ∉ p)
    (h : split sep cs = q :: qs) : split sep (p ++ cs) = (p ++ q) :: qs := by
  induction p with
  | nil => exact h
  | cons c p ih =>
    obtain ⟨hc, hp⟩ := not_or.1 (List.mem_cons.not.1 hp)
    rw [List.cons_append, split, if_neg (Ne.symm hc), ih hp]
    rfl

/-- What comes behind a text without a separator belongs to the last piece. -/
lemma exists_split_append {p : List Char} (hp : sep ∉ p) (cs : List Char) :
    ∃ qs q, split sep cs = qs ++ [q] ∧ split sep (cs ++ p) = qs ++ [q ++ p] := by
  induction cs with
  | nil => exact ⟨[], [], rfl, split_of_notMem hp⟩
  | cons c cs ih =>
    obtain ⟨qs, q, hcs, happend⟩ := ih
    rw [List.cons_append, split, split, hcs, happend]
    by_cases hc : c = sep
    · rw [if_pos hc, if_pos hc]
      exact ⟨[] :: qs, q, rfl, rfl⟩
    · rw [if_neg hc, if_neg hc]
      cases qs with
      | nil => exact ⟨[], c :: q, rfl, rfl⟩
      | cons q' qs => exact ⟨(c :: q') :: qs, q, rfl, rfl⟩

/-- When characters other than the separator are written in another way, without it, so are those of
each piece. -/
lemma split_flatMap {f : Char → List Char} (hsep : f sep = [sep])
    (hother : ∀ c, c ≠ sep → sep ∉ f c) (cs : List Char) :
    split sep (cs.flatMap f) = (split sep cs).map (·.flatMap f) := by
  induction cs with
  | nil => rfl
  | cons c cs ih =>
    rw [List.flatMap_cons, split]
    by_cases hc : c = sep
    · rw [if_pos hc, hc, hsep, List.singleton_append, split_cons_self, ih]
      rfl
    · rw [if_neg hc]
      cases hsplit : split sep cs with
      | nil => exact absurd hsplit (split_ne_nil sep cs)
      | cons p ps =>
        rw [hsplit] at ih
        rw [split_append_left (hother c hc) ih]
        rfl

/-- No piece has a separator within. -/
lemma notMem_of_mem_split {cs p : List Char} (hp : p ∈ split sep cs) : sep ∉ p := by
  induction cs generalizing p with
  | nil =>
    cases List.mem_singleton.1 hp
    exact List.not_mem_nil
  | cons c cs ih =>
    rw [split] at hp
    split at hp
    · rcases List.mem_cons.1 hp with rfl | hp
      · exact List.not_mem_nil
      · exact ih hp
    · next hc =>
      cases hsplit : split sep cs with
      | nil => exact absurd hsplit (split_ne_nil sep cs)
      | cons q qs =>
        rw [hsplit] at hp ih
        rcases List.mem_cons.1 hp with rfl | hp
        · exact List.not_mem_cons_of_ne_of_not_mem (Ne.symm hc) (ih (List.mem_cons_self ..))
        · exact ih (List.mem_cons_of_mem _ hp)

/-- The characters of a part are in the text that joins it. -/
lemma mem_joinWith {seam p : List Char} {c : Char} (hc : c ∈ p) {ps : List (List Char)}
    (hp : p ∈ ps) : c ∈ joinWith seam ps := by
  induction ps with
  | nil => exact absurd hp List.not_mem_nil
  | cons q ps ih =>
    cases ps with
    | nil => exact List.mem_singleton.1 hp ▸ hc
    | cons q' ps =>
      rw [joinWith, List.mem_append, List.mem_append]
      rcases List.mem_cons.1 hp with rfl | hp
      · exact .inl (.inl hc)
      · exact .inr (ih hp)

/-- The characters of a piece are in the text. -/
lemma mem_of_mem_split {cs p : List Char} {c : Char} (hp : p ∈ split sep cs) (hc : c ∈ p) :
    c ∈ cs :=
  joinWith_split sep cs ▸ mem_joinWith hc hp

/-- Pieces that are joined by the separator are cut apart again. -/
lemma split_joinWith {ps : List (List Char)} (hne : ps ≠ []) (h : ∀ p ∈ ps, sep ∉ p) :
    split sep (joinWith [sep] ps) = ps := by
  induction ps with
  | nil => exact absurd rfl hne
  | cons p ps ih =>
    obtain ⟨hp, hps⟩ := List.forall_mem_cons.1 h
    cases ps with
    | nil => exact split_of_notMem hp
    | cons q qs =>
      rw [joinWith, List.append_assoc, List.singleton_append, split_append_of_notMem hp,
        ih (List.cons_ne_nil _ _) hps]

/-- Pieces that are each ended by the separator are cut apart again, with nothing after the last
separator. -/
lemma split_flatMap_concat {ps : List (List Char)} (h : ∀ p ∈ ps, sep ∉ p) :
    split sep (ps.flatMap (· ++ [sep])) = ps ++ [[]] := by
  induction ps with
  | nil => rfl
  | cons p ps ih =>
    obtain ⟨hp, hps⟩ := List.forall_mem_cons.1 h
    rw [List.flatMap_cons, List.append_assoc, List.singleton_append, split_append_of_notMem hp,
      ih hps, List.cons_append]

/-! ## Pieces of a string -/

/-- A string has at least one piece. -/
lemma splitString_ne_nil (sep : Char) (s : String) : splitString sep s ≠ [] :=
  fun h => split_ne_nil sep s.toList (List.map_eq_nil_iff.1 h)

/-- A string without separators is its only piece. -/
lemma splitString_of_notMem {s : String} (h : sep ∉ s.toList) : splitString sep s = [s] := by
  rw [splitString, split_of_notMem h, List.map_singleton, String.ofList_toList]

/-- To join pieces is to put the seam between them. -/
lemma joinWith_eq_intercalate (sep : List Char) (ps : List (List Char)) :
    joinWith sep ps = sep.intercalate ps := by
  induction ps with
  | nil => rfl
  | cons p ps ih =>
    cases ps with
    | nil => rw [joinWith, List.intercalate_singleton]
    | cons q qs => rw [joinWith, ih, List.intercalate_cons_cons]

/-- Pieces between slashes are joined to the string. -/
lemma intercalate_splitString (s : String) : "/".intercalate (splitString '/' s) = s := by
  have hinverse : String.toList ∘ String.ofList = id := funext fun _ => String.toList_ofList
  rw [← String.toList_inj, String.toList_intercalate, splitString, List.map_map, hinverse,
    List.map_id]
  exact (joinWith_eq_intercalate ..).symm.trans (joinWith_split ..)

/-- Pieces without slashes that are put together are cut apart again. -/
lemma splitString_intercalate {us : List String} (hus : us ≠ [])
    (hplain : ∀ u ∈ us, '/' ∉ u.toList) : splitString '/' ("/".intercalate us) = us := by
  have hpieces : ∀ p ∈ us.map String.toList, '/' ∉ p := List.forall_mem_map.2 hplain
  have hinverse : String.ofList ∘ String.toList = id := funext fun _ => String.ofList_toList
  have hjoined : ("/".intercalate us).toList = joinWith ['/'] (us.map String.toList) := by
    rw [String.toList_intercalate]
    exact (joinWith_eq_intercalate ..).symm
  rw [splitString, hjoined, split_joinWith (mt List.map_eq_nil_iff.1 hus) hpieces, List.map_map,
    hinverse, List.map_id]

/-- No piece of a string has a separator within. -/
lemma notMem_of_mem_splitString {s u : String} (h : u ∈ splitString sep s) : sep ∉ u.toList := by
  obtain ⟨p, hp, rfl⟩ := List.mem_map.1 h
  rw [String.toList_ofList]
  exact notMem_of_mem_split hp

/-- The characters of a piece are in the string. -/
lemma mem_of_mem_splitString {s u : String} {c : Char} (hu : u ∈ splitString sep s)
    (hc : c ∈ u.toList) : c ∈ s.toList := by
  obtain ⟨p, hp, rfl⟩ := List.mem_map.1 hu
  rw [String.toList_ofList] at hc
  exact mem_of_mem_split hp hc

/-- What comes behind a text without a separator belongs to the last piece. -/
lemma exists_splitString_append {t : String} (ht : sep ∉ t.toList) (s : String) :
    ∃ us u, splitString sep s = us ++ [u] ∧ splitString sep (s ++ t) = us ++ [u ++ t] := by
  obtain ⟨qs, q, hs, happend⟩ := exists_split_append ht s.toList
  refine ⟨qs.map String.ofList, String.ofList q, ?_, ?_⟩
  · rw [splitString, hs, List.map_append, List.map_singleton]
  · rw [splitString, String.toList_append, happend, List.map_append, List.map_singleton,
      String.ofList_append, String.ofList_toList]

/-- The pieces on both sides of a slash are those of the two strings. -/
lemma splitString_slash (a b : String) :
    splitString '/' (a ++ "/" ++ b) = splitString '/' a ++ splitString '/' b := by
  rw [splitString, String.toList_append, String.toList_append, List.append_assoc]
  exact (congrArg (List.map String.ofList) (split_append_cons ..)).trans List.map_append

/-- A slash at the end has an empty piece behind it. -/
lemma splitString_slash_end (a : String) :
    splitString '/' (a ++ "/") = splitString '/' a ++ [""] := by
  rw [← String.append_empty (s := a ++ "/"), splitString_slash]
  rfl

/-! ## Trimmed pieces -/

/-- Nothing is left exactly of blanks. -/
lemma trimEnd_eq_nil_iff {cs : List Char} : trimEnd cs = [] ↔ cs.all isBlank = true := by
  rw [trimEnd, List.reverse_eq_nil_iff, List.dropWhile_eq_nil_iff, List.all_eq_true]
  exact forall_congr' fun c => by rw [List.mem_reverse]

/-- What is left is the front of the text. -/
lemma trimEnd_prefix (cs : List Char) : trimEnd cs <+: cs := by
  rw [trimEnd, ← List.reverse_suffix, List.reverse_reverse]
  exact List.dropWhile_suffix _

/-- What is left does not end with a blank. -/
lemma not_isBlank_getLast?_trimEnd (cs : List Char) :
    ∀ c ∈ (trimEnd cs).getLast?, isBlank c = false := by
  intro c hc
  rw [trimEnd, List.getLast?_reverse] at hc
  have hnot := List.head?_dropWhile_not isBlank cs.reverse
  rw [hc] at hnot
  exact hnot

end GoService.Text
