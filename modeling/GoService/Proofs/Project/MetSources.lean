import GoService.Proofs.Project.Ignored

/-!
# Sources that a walk meets

The source files that a walk meets are told apart by the directories in which they stand. Those in a
directory itself are shown by its entries, each of them seen alone (`sourcesUnder_below_self`), and
those below a directory that is entered are met there and nowhere else
(`sourcesUnder_below_inner`).
-/

namespace GoService.Project

/-! ## Sources by directories -/

/-- The path of a source file that is met in the directory to which names lead. -/
def sourceUnder? (under : List String) : Except WalkError WalkEntry → Option FilePath
  | .error _ => none
  | .ok entry => if entry.isSource ∧ entry.under = under then some entry.path else none

/-- The source files that are met in the directory to which names lead. -/
def sourcesUnder (under : List String) (met : List (Except WalkError WalkEntry)) : List FilePath :=
  met.filterMap (sourceUnder? under)

/-- Nothing is listed for a directory in which nothing is met. -/
lemma sourcesUnder_eq_nil {under : List String} {met : List (Except WalkError WalkEntry)}
    (h : ∀ entry, .ok entry ∈ met → entry.under ≠ under) : sourcesUnder under met = [] := by
  refine List.filterMap_eq_nil_iff.2 fun r hr => ?_
  cases r with
  | error error => rfl
  | ok entry => exact if_neg fun hentry => h entry hr hentry.2

namespace FilesByDir

variable {m : FilesByDir} {dir under : List String}

/-- The first entry has the files, if it is that of the directory. -/
lemma lookup_cons_ite (e : List String × List FilePath) (m : FilesByDir) (under : List String) :
    List.lookup under (e :: m) = if under = e.1 then some e.2 else m.lookup under := by
  obtain ⟨key, files⟩ := e
  rw [List.lookup_cons]
  by_cases h : under = key
  · rw [h, beq_self_eq_true, if_pos rfl]
  · rw [beq_false_of_ne h, if_neg h]

/-- A directory that comes before all entries has no files. -/
lemma lookup_eq_none_of_lt (h : ∀ e ∈ m, dir < e.1) : m.lookup dir = none :=
  List.lookup_eq_none_iff.2 fun e he => bne_iff_ne.2 (h e he).ne

/-- A file that is added stands behind those of its directory. -/
lemma getD_lookup_add (hm : m.IsMap) (file : FilePath) :
    ((m.add dir file).lookup under).getD [] =
      (m.lookup under).getD [] ++ if dir = under then [file] else [] := by
  have hsorted := hm.sorted
  clear hm
  induction m with
  | nil =>
    rw [add, lookup_cons_ite, List.lookup_nil]
    by_cases h : dir = under
    · rw [if_pos h.symm, if_pos h]
      rfl
    · rw [if_neg (Ne.symm h), if_neg h]
      rfl
  | cons e m ih =>
    obtain ⟨hfirst, hrest⟩ := List.pairwise_cons.1 hsorted
    rw [add]
    split
    · next heq =>
      rw [lookup_cons_ite, lookup_cons_ite, heq]
      by_cases h : under = dir
      · rw [if_pos h, if_pos h, if_pos h.symm]
        rfl
      · rw [if_neg h, if_neg h, if_neg (Ne.symm h), List.append_nil]
    · next hne =>
      split
      · next hlt =>
        rw [lookup_cons_ite (dir, [file])]
        by_cases h : under = dir
        -- all the other keys come behind the new one
        · have hnone : List.lookup under (e :: m) = none := by
            refine lookup_eq_none_of_lt (List.forall_mem_cons.2 ⟨h ▸ hlt, fun e' he' => ?_⟩)
            exact h ▸ hlt.trans (hfirst e' he')
          rw [if_pos h, if_pos h.symm, hnone]
          rfl
        · rw [if_neg h, if_neg (Ne.symm h), List.append_nil]
      · rw [lookup_cons_ite, lookup_cons_ite]
        by_cases h : under = e.1
        · rw [if_pos h, if_pos h, if_neg (fun heq => hne (heq.trans h).symm), List.append_nil]
        · rw [if_neg h, if_neg h, ih hrest]

end FilesByDir

/-- Each directory gets the source files that are met in it, in the order in which they are met. -/
lemma getD_lookup_collectSources {m m' : FilesByDir} (hm : m.IsMap)
    {met : List (Except WalkError WalkEntry)} (h : collectSources m met = .ok m')
    (under : List String) :
    (m'.lookup under).getD [] = (m.lookup under).getD [] ++ sourcesUnder under met := by
  induction met generalizing m with
  | nil =>
    cases h
    exact (List.append_nil _).symm
  | cons r met ih =>
    cases r with
    | error e =>
      rw [collectSources] at h
      split at h
      · exact ih hm h
      · cases h
    | ok e =>
      rw [collectSources] at h
      split at h
      · next hsource =>
        rw [ih (hm.add e.under e.path) h, FilesByDir.getD_lookup_add hm, List.append_assoc,
          sourcesUnder, sourcesUnder, List.filterMap_cons, sourceUnder?]
        by_cases hunder : e.under = under
        · rw [if_pos hunder, if_pos ⟨hsource, hunder⟩]
          rfl
        · rw [if_neg hunder, if_neg fun h => hunder h.2]
          rfl
      · next hsource =>
        rw [ih hm h, sourcesUnder, sourcesUnder, List.filterMap_cons, sourceUnder?,
          if_neg fun h => hsource h.1]

/-- Where sources are collected to the end, only loops went wrong. -/
lemma isLoop_of_collectSources {m m' : FilesByDir} {met : List (Except WalkError WalkEntry)}
    (h : collectSources m met = .ok m') (error : WalkError) (herror : .error error ∈ met) :
    error.isLoop = true := by
  induction met generalizing m with
  | nil => cases herror
  | cons r met ih =>
    cases r with
    | error e =>
      rw [collectSources] at h
      split at h
      · next hloop =>
        rcases List.mem_cons.1 herror with heq | herror
        · cases heq
          exact hloop
        · exact ih h herror
      · cases h
    | ok e =>
      rcases List.mem_cons.1 herror with heq | herror
      · cases heq
      · exact ih h herror

namespace OpenDir

variable {files : FileTree} {ancestors : List OpenDir} {d : OpenDir}

/-! ## Sources in a directory -/

/-- The source file that an entry of the directory at a path is or, as a link, leads to. -/
def sourceAt? (files : FileTree) (dir : FilePath) (e : String × FileTree) : Option FilePath :=
  if isSourceName e.1 && !isHiddenName e.1 then
    match e.2 with
    | .file _ => some (dir.join e.1)
    | .dir _ => none
    | .link _ =>
      match files.lookup (dir.join e.1) with
      | .error _ => none
      | .ok place => if place.node.isDirNode then none else some (dir.join e.1)
  else none

/-- What is seen of an entry shows whether it is a source file. -/
lemma sourceAt?_eq (ancestors : List OpenDir) (e : String × FileTree) : sourceAt? files d.path e =
    match visit files ancestors d e with
    | .error _ => none
    | .ok (entry, _) =>
      if entry.isSource && !isHiddenName entry.name then some entry.path else none := by
  obtain ⟨name, node⟩ := e
  rw [sourceAt?]
  cases node with
  | file content => rfl
  | dir es =>
    rw [visit]
    dsimp only
    split <;> rfl
  | link target =>
    dsimp only
    -- a link is what it leads to, and a directory whether it closes a loop or not
    cases hplace : files.lookup (d.path.join name) with
    | error error =>
      rw [visit_link_of_error hplace]
      dsimp only
      split <;> rfl
    | ok place =>
      obtain ⟨names, node⟩ := place
      cases hdir : node.isDirNode with
      | false =>
        rw [visit_link_of_not_dir hplace hdir]
        dsimp only
        rw [hdir, if_neg Bool.false_ne_true]
        rfl
      | true =>
        obtain ⟨es, rfl⟩ := FileTree.exists_of_isDirNode hdir
        cases hfind : ancestors.find? (·.names == names) with
        | some a =>
          rw [visit_link_of_loop hplace hfind]
          dsimp only
          rw [hdir, if_pos rfl, ite_self]
        | none =>
          rw [visit_link_of_dir hplace hfind]
          dsimp only
          rw [hdir, if_pos rfl, ite_self]
          rfl

/-! ## Sources below a directory -/

section

variable {fuel : Nat} {e : String × FileTree} {entry : WalkEntry} {i : OpenDir}

/-- What is met at an entry stands in the directory itself, or is met in one that is entered
there. -/
lemma under_or_mem_below_of_mem_metAt (h : .ok entry ∈ metAt files fuel ancestors d e) :
    entry.under = d.under ∨ ∃ entry' i, visit files (d :: ancestors) d e = .ok (entry', some i) ∧
      entry'.isLeftOut = false ∧
      .ok entry ∈ i.below files WalkEntry.isLeftOut fuel (d :: ancestors) := by
  rw [metAt] at h
  split at h
  · cases List.mem_singleton.1 h
  · next entry' inner hvisit =>
    obtain ⟨hentry, -⟩ := visit_eq_ok hvisit
    split at h
    · cases h
    · next hkept =>
      split at h
      · cases List.mem_singleton.1 h
        exact .inl (by rw [hentry])
      · next i =>
        rcases List.mem_cons.1 h with h | h
        · cases h
          exact .inl (by rw [hentry])
        · split at h
          · cases List.mem_singleton.1 h
          · exact .inr ⟨entry', i, hvisit, Bool.eq_false_of_not_eq_true hkept, h⟩

/-- What is met in a walk below a directory lies below it. -/
lemma prefix_of_mem_below (h : .ok entry ∈ d.below files WalkEntry.isLeftOut fuel ancestors) :
    d.under <+: entry.under := by
  induction fuel generalizing ancestors d with
  | zero => cases h
  | succ fuel ih =>
    rw [below_succ] at h
    obtain ⟨e, -, h⟩ := List.mem_flatMap.1 h
    rcases under_or_mem_below_of_mem_metAt h with hunder | ⟨entry', i, hvisit, -, h⟩
    · exact hunder ▸ List.prefix_rfl
    · have hunder := ((visit_eq_ok hvisit).2 i rfl).under
      exact (List.prefix_append ..).trans (hunder ▸ ih h)

/-- A directory is not a source file. -/
lemma isSource_eq_false_of_isDir (h : entry.isDir = true) : entry.isSource = false := by
  rw [WalkEntry.isSource, h]
  rfl

/-- Nothing of what is below a directory that is entered stands in the one around it. -/
lemma sourcesUnder_below_of_lt {under : List String} (h : under.length < i.under.length) :
    sourcesUnder under (i.below files WalkEntry.isLeftOut fuel ancestors) = [] := by
  refine sourcesUnder_eq_nil fun entry hentry heq => ?_
  have hlength := (prefix_of_mem_below hentry).length_le
  rw [heq] at hlength
  omega

/-- Nothing is met at an entry that is left out. -/
lemma metAt_of_leftOut {inner : Option OpenDir}
    (hvisit : visit files (d :: ancestors) d e = .ok (entry, inner)) (h : entry.isLeftOut = true) :
    metAt files fuel ancestors d e = [] := by
  rw [metAt, hvisit]
  exact if_pos h

/-- A file that is not left out is met as it is. -/
lemma metAt_of_file (hvisit : visit files (d :: ancestors) d e = .ok (entry, none))
    (hkept : entry.isLeftOut = false) : metAt files fuel ancestors d e = [.ok entry] := by
  rw [metAt, hvisit]
  exact if_neg (ne_true_of_eq_false hkept)

/-- At a directory that is not left out the walk goes on in it, unless its path is too long. -/
lemma metAt_of_dir (hvisit : visit files (d :: ancestors) d e = .ok (entry, some i))
    (hkept : entry.isLeftOut = false) : metAt files fuel ancestors d e =
      .ok entry :: if FileTree.isTooLong i.path then [.error (.file i.path .nameTooLong)]
        else i.below files WalkEntry.isLeftOut fuel (d :: ancestors) := by
  rw [metAt, hvisit]
  exact if_neg (ne_true_of_eq_false hkept)

/-- A directory is no source file. -/
lemma sourcesUnder_cons_dir {under : List String} {met : List (Except WalkError WalkEntry)}
    (h : entry.isDir = true) : sourcesUnder under (.ok entry :: met) = sourcesUnder under met := by
  rw [sourcesUnder, List.filterMap_cons_none]
  · rfl
  · rw [sourceUnder?, WalkEntry.isSource, h]
    exact if_neg fun hsource => Bool.false_ne_true hsource.1

/-- The directory itself gets from an entry what it shows. -/
lemma sourcesUnder_metAt_self (fuel : Nat) (e : String × FileTree) :
    sourcesUnder d.under (metAt files fuel ancestors d e) = (sourceAt? files d.path e).toList := by
  rw [sourceAt?_eq (d :: ancestors)]
  cases hvisit : visit files (d :: ancestors) d e with
  | error error =>
    rw [metAt, hvisit]
    rfl
  | ok seen =>
    obtain ⟨entry, inner⟩ := seen
    obtain ⟨hentry, hinner⟩ := visit_eq_ok hvisit
    dsimp only
    cases inner with
    | none =>
      have hleft : entry.isLeftOut = isHiddenName entry.name := by simp [hentry, WalkEntry.isLeftOut]
      cases hhidden : isHiddenName entry.name with
      | true =>
        rw [metAt_of_leftOut hvisit (hleft.trans hhidden), Bool.not_true, Bool.and_false,
          if_neg Bool.false_ne_true]
        rfl
      | false =>
        rw [metAt_of_file hvisit (hleft.trans hhidden), Bool.not_false, Bool.and_true, sourcesUnder,
          List.filterMap_cons, sourceUnder?]
        have hunder : entry.under = d.under := by rw [hentry]
        by_cases hsource : entry.isSource = true
        · rw [if_pos ⟨hsource, hunder⟩, if_pos hsource]
          rfl
        · rw [if_neg fun h => hsource h.1, if_neg hsource]
          rfl
    | some i =>
      -- what is met below a directory is not directly in the one above
      have hdir : entry.isDir = true := by rw [hentry]; rfl
      have hunder : d.under.length < i.under.length := by
        rw [(hinner i rfl).under, List.length_append, List.length_singleton]
        exact Nat.lt_succ_self _
      rw [isSource_eq_false_of_isDir hdir, Bool.false_and, if_neg Bool.false_ne_true]
      cases hleft : entry.isLeftOut with
      | true =>
        rw [metAt_of_leftOut hvisit hleft]
        rfl
      | false =>
        rw [metAt_of_dir hvisit hleft, sourcesUnder_cons_dir hdir]
        split
        · rfl
        · exact sourcesUnder_below_of_lt hunder

/-- The sources in a directory itself are those that its entries show, in their order. -/
lemma sourcesUnder_below_self (fuel : Nat) :
    sourcesUnder d.under (d.below files WalkEntry.isLeftOut (fuel + 1) ancestors) =
      d.sortedEntries.filterMap (sourceAt? files d.path) := by
  rw [below_succ, sourcesUnder, List.filterMap_flatMap, List.filterMap_eq_flatMap_toList]
  exact List.flatMap_congr fun e _ => sourcesUnder_metAt_self fuel e

/-- What is met at an entry does not stand below one of another name. -/
lemma sourcesUnder_metAt_other {name : String} (hname : e.1 ≠ name) (rest : List String) :
    sourcesUnder (d.under ++ [name] ++ rest) (metAt files fuel ancestors d e) = [] := by
  refine sourcesUnder_eq_nil fun entry hentry heq => ?_
  rcases under_or_mem_below_of_mem_metAt hentry with hunder | ⟨entry', i, hvisit, -, h⟩
  · have hlength := congrArg List.length (hunder.symm.trans heq)
    simp only [List.length_append, List.length_singleton] at hlength
    omega
  · have hpre := prefix_of_mem_below h
    rw [((visit_eq_ok hvisit).2 i rfl).under, heq] at hpre
    exact hname (FilesByDir.name_eq_of_both hpre (List.prefix_append ..))

/-- No entry is listed twice. -/
lemma nodup_sortedEntries (h : (d.entries.map Prod.fst).Nodup) : d.sortedEntries.Nodup :=
  (List.mergeSort_perm ..).nodup_iff.2 (.of_map _ h)

/-- What stands below a directory that is entered at an entry is met there and nowhere else. -/
lemma sourcesUnder_below_inner (hdistinct : (d.entries.map Prod.fst).Nodup) (he : e ∈ d.entries)
    (hvisit : visit files (d :: ancestors) d e = .ok (entry, some i))
    (hkept : entry.isLeftOut = false) (hshort : FileTree.isTooLong i.path = false)
    (rest : List String) :
    sourcesUnder (i.under ++ rest) (d.below files WalkEntry.isLeftOut (fuel + 1) ancestors) =
      sourcesUnder (i.under ++ rest) (i.below files WalkEntry.isLeftOut fuel (d :: ancestors)) := by
  obtain ⟨hentry, hinner⟩ := visit_eq_ok hvisit
  have hdir : entry.isDir = true := by rw [hentry]; rfl
  have honly : ∀ e' ∈ d.sortedEntries, e' ≠ e →
      sourcesUnder (i.under ++ rest) (metAt files fuel ancestors d e') = [] := by
    intro e' he' hne
    rw [(hinner i rfl).under]
    refine sourcesUnder_metAt_other (fun hname => hne ?_) rest
    exact List.inj_on_of_nodup_map hdistinct (mem_entries_of_mem_sortedEntries he') he hname
  rw [below_succ, sourcesUnder, List.filterMap_flatMap]
  refine (flatMap_eq_of_only (nodup_sortedEntries hdistinct) (List.mem_mergeSort.2 he)
    honly).trans ?_
  rw [metAt_of_dir hvisit hkept, hshort, if_neg Bool.false_ne_true]
  exact sourcesUnder_cons_dir hdir

/-! ## Directories that are reached -/

variable {start : OpenDir}

/-- What is met on a walk stands in a directory that is reached. -/
lemma Reached.exists_under (h : Reached files start ancestors d)
    (hentry : .ok entry ∈ d.below files WalkEntry.isLeftOut fuel ancestors) :
    ∃ ancestors d, Reached files start ancestors d ∧ d.under = entry.under := by
  induction fuel generalizing ancestors d with
  | zero => cases hentry
  | succ fuel ih =>
    rw [below_succ] at hentry
    obtain ⟨e, he, hentry⟩ := List.mem_flatMap.1 hentry
    rcases under_or_mem_below_of_mem_metAt hentry with hunder | ⟨entry', i, hvisit, hkept, hentry⟩
    · exact ⟨ancestors, d, h, hunder.symm⟩
    · exact ih (.enter h (mem_entries_of_mem_sortedEntries he) hvisit hkept) hentry

/-- The directories around one that is reached are reached. -/
lemma Reached.exists_of_prefix (h : Reached files start ancestors d) (hstart : start.under = [])
    {under : List String} (hpre : under <+: d.under) :
    ∃ ancestors d, Reached files start ancestors d ∧ d.under = under := by
  induction h with
  | start =>
    rw [hstart, List.prefix_nil] at hpre
    exact ⟨[], start, .start, hstart.trans hpre.symm⟩
  | @enter ancestors d i e entry h he hvisit hkept ih =>
    rw [((visit_eq_ok hvisit).2 i rfl).under, List.prefix_concat_iff] at hpre
    rcases hpre with rfl | hpre
    · exact ⟨_, i, .enter h he hvisit hkept, ((visit_eq_ok hvisit).2 i rfl).under⟩
    · exact ih hpre

end

end OpenDir

end GoService.Project
