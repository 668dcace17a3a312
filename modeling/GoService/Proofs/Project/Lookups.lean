import GoService.Project.FileTree
import GoService.Proofs.Project.Components

/-!
# Paths that go on into a directory

A path that leads to a directory leads into a directory in it when it goes on with the name of that
(`lookup_join`). Links on the way do not matter: what comes behind a link is followed after it.
-/

namespace GoService.Project.FileTree

open FilePath (IsName)
open Text (splitString splitString_slash splitString_slash_end splitString_of_notMem)

variable {root : FileTree} {names rest here pieces : List String} {name : String}
  {es es' : List (String × FileTree)}

/-- A node that names lead to leads on to its entries. -/
lemma at?_concat {node child : FileTree} (h : root.at? names = some node)
    (hchild : node.entries.lookup name = some child) :
    root.at? (names ++ [name]) = some child := by
  induction names generalizing root with
  | nil =>
    obtain rfl := Option.some.inj h
    rw [List.nil_append, at?, hchild]
    rfl
  | cons first names ih =>
    rw [at?] at h
    rw [List.cons_append, at?]
    split at h
    · next hfirst => exact ih h
    · cases h

/-- Pieces that lead to a directory end with a slash or without one, and a directory in it has a
name with which they can go on. -/
structure GoesOn (rest : List String) (name : String) (es es' : List (String × FileTree)) :
    Prop where
  slash : rest = [] ∨ rest = [""]
  isName : IsName name
  entry : es.lookup name = some (.dir es')

variable {onLink : String → List String → List String → Except FileError Place}

/-- No pieces lead to where one is. -/
lemma followUpTo_nil (h : followUpTo root onLink here [] = .ok ⟨names, .dir es⟩) :
    here = names ∧ root.at? names = some (.dir es) := by
  rw [followUpTo] at h
  split at h
  · next node hnode =>
    cases h
    exact ⟨rfl, hnode⟩
  · cases h

/-- Where the rest stays in the directory, one has come to it. -/
lemma GoesOn.stays (h : GoesOn rest name es es')
    (hplace : followUpTo root onLink here rest = .ok ⟨names, .dir es⟩) :
    here = names ∧ root.at? names = some (.dir es) := by
  rcases h.slash with rfl | rfl
  · exact followUpTo_nil hplace
  · rw [followUpTo] at hplace
    split at hplace
    · rw [if_pos (.inl rfl)] at hplace
      exact followUpTo_nil hplace
    · cases hplace
    · cases hplace

/-- A path that ends in a directory goes on to an entry of it, if links do. -/
lemma GoesOn.followUpTo (h : GoesOn rest name es es')
    (hlink : ∀ target here pieces, onLink target here (pieces ++ rest) = .ok ⟨names, .dir es⟩ →
      onLink target here (pieces ++ [name]) = .ok ⟨names ++ [name], .dir es'⟩)
    (hplace : FileTree.followUpTo root onLink here (pieces ++ rest) = .ok ⟨names, .dir es⟩) :
    FileTree.followUpTo root onLink here (pieces ++ [name]) =
      .ok ⟨names ++ [name], .dir es'⟩ := by
  induction pieces generalizing here with
  | nil =>
    -- what is left of the path stays in the directory, where the name is looked up
    obtain ⟨rfl, hdir⟩ := h.stays hplace
    have hinner : root.at? (here ++ [name]) = some (.dir es') := at?_concat hdir h.entry
    rw [List.nil_append, FileTree.followUpTo, hdir]
    dsimp only
    rw [if_neg (not_or.2 ⟨h.isName.nonempty, h.isName.notCurrent⟩), if_neg h.isName.notParent,
      h.entry]
    dsimp only
    rw [FileTree.followUpTo, hinner]
  | cons piece pieces ih =>
    rw [List.cons_append, FileTree.followUpTo] at hplace ⊢
    -- both paths take the same step; only at a link does the walk go on elsewhere
    cases hat : root.at? here with
    | none =>
      rw [hat] at hplace
      cases hplace
    | some node =>
      rw [hat] at hplace
      cases node with
      | file content => cases hplace
      | link target => cases hplace
      | dir es₀ =>
        dsimp only at hplace ⊢
        split at hplace
        · next hstay =>
          rw [if_pos hstay]
          exact ih hplace
        · next hstay =>
          rw [if_neg hstay]
          split at hplace
          · next hup =>
            rw [if_pos hup]
            exact ih hplace
          · next hup =>
            rw [if_neg hup]
            split at hplace
            · cases hplace
            · next target hentry =>
              exact hlink _ _ _ hplace
            · next node hentry hnot =>
              exact ih hplace

/-- A path that ends in a directory goes on to an entry of it, whatever links it follows. -/
lemma GoesOn.follow (h : GoesOn rest name es es') {links : Nat}
    (hplace : FileTree.follow root links here (pieces ++ rest) = .ok ⟨names, .dir es⟩) :
    FileTree.follow root links here (pieces ++ [name]) = .ok ⟨names ++ [name], .dir es'⟩ := by
  induction links generalizing here pieces with
  | zero => exact h.followUpTo (fun _ _ _ hplace => by cases hplace) hplace
  | succ links ih =>
    refine h.followUpTo (fun target here pieces hplace => ?_) hplace
    split at hplace
    · cases hplace
    · next htarget =>
      rw [if_neg htarget]
      rw [← List.append_assoc] at hplace ⊢
      exact ih hplace

/-- A name is added to a path behind a slash, which may stand there already. -/
lemma exists_join_eq {p : FilePath} (hp : p.text ≠ "") (hslash : '/' ∉ name.toList) :
    ∃ a rest, (rest = [] ∨ rest = [""]) ∧ splitString '/' p.text = splitString '/' a ++ rest ∧
      splitString '/' (p.join name).text = splitString '/' a ++ [name] ∧
      (p.join name).text.toList = a.toList ++ '/' :: name.toList ∧
      (p.text.toList = a.toList ∨ p.text.toList = a.toList ++ ['/']) := by
  have hrel : name.toList.head? ≠ some '/' := fun h => hslash (List.mem_of_mem_head? h)
  obtain ⟨a, hslashed, htext⟩ := FilePath.exists_slashed_eq hp
  have hjoin : (p.join name).text = a ++ "/" ++ name := by
    rw [FilePath.join_of_relative hrel, hslashed]
  have hpieces : splitString '/' (p.join name).text = splitString '/' a ++ [name] := by
    rw [hjoin, splitString_slash, splitString_of_notMem hslash]
  have hchars : (p.join name).text.toList = a.toList ++ '/' :: name.toList := by
    rw [hjoin, String.toList_append, String.toList_append, List.append_assoc]
    rfl
  rcases htext with htext | htext
  · refine ⟨a, [], .inl rfl, ?_, hpieces, hchars, .inl (congrArg String.toList htext)⟩
    rw [htext, List.append_nil]
  · refine ⟨a, [""], .inr rfl, ?_, hpieces, hchars, .inr ?_⟩
    · rw [htext, splitString_slash_end]
    · rw [htext, String.toList_append]
      rfl

/-- When a path leads somewhere. -/
lemma lookup_eq_ok_iff {p : FilePath} {place : Place} : root.lookup p = .ok place ↔
    '\x00' ∉ p.text.toList ∧ isTooLong p = false ∧ p.text.toList.head? = some '/' ∧
      follow root maxLinks [] (splitString '/' p.text) = .ok place := by
  have hnowhere {e : FileError} {q : Prop} (hq : ¬ q) :
      (Except.error e : Except FileError Place) = .ok place ↔ q :=
    iff_of_false (fun h => by cases h) hq
  simp only [lookup, List.contains_iff_mem, FilePath.isAbsolute, beq_iff_eq]
  by_cases hnul : '\x00' ∈ p.text.toList
  · rw [if_pos hnul]
    exact hnowhere fun h => h.1 hnul
  · rw [if_neg hnul, and_iff_right hnul]
    cases hlong : isTooLong p with
    | true => exact hnowhere fun h => Bool.false_ne_true h.1.symm
    | false =>
      rw [if_neg Bool.false_ne_true, and_iff_right rfl]
      by_cases habsolute : p.text.toList.head? = some '/'
      · rw [if_pos habsolute, and_iff_right habsolute]
      · rw [if_neg habsolute]
        exact hnowhere fun h => habsolute h.1

/-- A path to a directory goes on to a directory in it. -/
theorem lookup_join {p : FilePath} (hplace : root.lookup p = .ok ⟨names, .dir es⟩)
    (hentry : es.lookup name = some (.dir es')) (hname : IsName name)
    (hslash : '/' ∉ name.toList) (hnul : '\x00' ∉ name.toList)
    (hshort : isTooLong (p.join name) = false) :
    root.lookup (p.join name) = .ok ⟨names ++ [name], .dir es'⟩ := by
  obtain ⟨hclean, -, habsolute, hfollow⟩ := lookup_eq_ok_iff.1 hplace
  have hp : p.text ≠ "" := fun hp => by
    rw [hp] at habsolute
    cases habsolute
  obtain ⟨a, rest, hrest, hpieces, hpieces', hchars, htext⟩ := exists_join_eq hp hslash
  rw [hpieces] at hfollow
  refine lookup_eq_ok_iff.2 ⟨?_, hshort, ?_, ?_⟩
  -- the characters before the name are those of the path, but for a slash at its end
  · have ha : '\x00' ∉ a.toList := by
      rcases htext with htext | htext
      · rwa [htext] at hclean
      · exact fun h => hclean (htext ▸ List.mem_append_left _ h)
    simp [hchars, ha, hnul]
  · rcases htext with htext | htext
    · rw [htext] at habsolute
      rw [hchars, List.head?_append, habsolute]
      rfl
    · rw [htext, List.head?_append] at habsolute
      rwa [hchars, List.head?_append]
  · rw [hpieces']
    exact GoesOn.follow ⟨hrest, hname, hentry⟩ hfollow

end GoService.Project.FileTree
