import GoService.Proofs.Project.Lookups
import GoService.Proofs.Project.MetSources
import GoService.Proofs.Project.PackageTrees

/-!
# Listing a directory by itself

The source files of a directory are found on a walk of the project around it, and by a look at the
directory alone. Both look at the same entries in the same order (`Walked.sourceFiles_eq`), so they
find the same files, but for one kind of entry: a link in a directory that leads to the directory
itself. The walk of the project leaves such a loop out, and it stops the listing of the directory
(`listings_agree_or_loop`).
-/

namespace GoService.Project

open FilePath (IsName)

/-- File names as a file system has them: in a directory they are different, and each is a name and
has neither a slash nor a NUL. -/
structure FileTree.Genuine (files : FileTree) : Prop extends files.WellNamed where
  isName : ∀ name ∈ files.entryNames, IsName name
  noNul : ∀ name ∈ files.entryNames, '\x00' ∉ name.toList

/-- A directory in which a walk is, where only loops go wrong: its path leads to it, and what stands
in it and below it is met in it, with steps enough to get there. -/
structure Walked (files : FileTree) (root : FilePath) (met : List (Except WalkError WalkEntry))
    (ancestors : List OpenDir) (d : OpenDir) : Prop where
  place : files.lookup d.path = .ok ⟨d.names, .dir d.entries⟩
  path : d.path = dirBelow root d.under
  below : ∃ fuel, OpenDir.reach files ancestors d ≤ fuel ∧
    d.below files WalkEntry.isLeftOut (fuel + 1) ancestors ⊆ met ∧
    ∀ rest, sourcesUnder (d.under ++ rest) met =
      sourcesUnder (d.under ++ rest) (d.below files WalkEntry.isLeftOut (fuel + 1) ancestors)

namespace Walked

variable {files : FileTree} {root : FilePath} {met : List (Except WalkError WalkEntry)}
  {ancestors : List OpenDir} {d i : OpenDir} {e : String × FileTree}

/-- A directory that a walk is in has proper names. -/
lemma wellNamed (h : Walked files root met ancestors d) (hfiles : files.Genuine) :
    (FileTree.dir d.entries).WellNamed :=
  (FileTree.leads_of_lookup h.place).wellNamed hfiles.toWellNamed

/-- The name of an entry is a name of the tree. -/
lemma mem_entryNames (h : Walked files root met ancestors d) (he : e ∈ d.entries) :
    e.1 ∈ files.entryNames :=
  FileTree.entryNames_subset_of_lookup h.place (FileTree.entryNames_of_mem he).1

/-- An entry is found by its name. -/
lemma lookup_entries (h : Walked files root met ancestors d) (hfiles : files.Genuine)
    (he : e ∈ d.entries) : d.entries.lookup e.1 = some e.2 := by
  have hdistinct := (h.wellNamed hfiles).distinct.1
  obtain ⟨before, after, heq⟩ := List.append_of_mem he
  refine List.lookup_eq_some_iff.2 ⟨before, after, heq, fun e' he' => bne_iff_ne.2 fun hname => ?_⟩
  rw [heq, List.map_append, List.nodup_append] at hdistinct
  exact hdistinct.2.2 _ (List.mem_map_of_mem he') _ List.mem_cons_self hname.symm

/-- What is met at an entry of the directory is met on the walk. -/
lemma metAt_subset (h : Walked files root met ancestors d) (he : e ∈ d.entries) :
    ∃ fuel, d.metAt files fuel ancestors e ⊆ met := by
  obtain ⟨fuel, -, hmet, -⟩ := h.below
  refine ⟨fuel, fun r hr => hmet ?_⟩
  rw [OpenDir.below_succ]
  exact List.mem_flatMap.2 ⟨e, List.mem_mergeSort.2 he, hr⟩

section

variable (hloops : ∀ error, .error error ∈ met → error.isLoop = true)

include hloops

/-- Nothing but a loop goes wrong at an entry. -/
lemma isLoop_of_visit (h : Walked files root met ancestors d) (he : e ∈ d.entries)
    (error : WalkError) (hvisit : OpenDir.visit files (d :: ancestors) d e = .error error) :
    error.isLoop = true := by
  obtain ⟨fuel, hmet⟩ := h.metAt_subset he
  refine hloops error (hmet ?_)
  rw [OpenDir.metAt, hvisit]
  exact List.mem_singleton_self _

/-- The path to a directory that is entered is not too long. -/
lemma isTooLong_eq_false (h : Walked files root met ancestors d) (he : e ∈ d.entries)
    {entry : WalkEntry} (hvisit : OpenDir.visit files (d :: ancestors) d e = .ok (entry, some i))
    (hkept : entry.isLeftOut = false) : FileTree.isTooLong i.path = false := by
  cases hlong : FileTree.isTooLong i.path with
  | false => rfl
  | true =>
    obtain ⟨fuel, hmet⟩ := h.metAt_subset he
    have herror : .error (.file i.path .nameTooLong) ∈ met := by
      apply hmet
      rw [OpenDir.metAt_of_dir hvisit hkept, hlong, if_pos rfl]
      exact List.mem_cons_of_mem _ (List.mem_singleton_self _)
    exact absurd (hloops _ herror) Bool.false_ne_true

/-- A walk goes on into the directories that it enters. -/
lemma enter (hfiles : files.Genuine) (h : Walked files root met ancestors d) (he : e ∈ d.entries)
    {entry : WalkEntry} (hvisit : OpenDir.visit files (d :: ancestors) d e = .ok (entry, some i))
    (hkept : entry.isLeftOut = false) : Walked files root met (d :: ancestors) i := by
  have hinner := (OpenDir.visit_eq_ok hvisit).2 i rfl
  have hshort := h.isTooLong_eq_false hloops he hvisit hkept
  have hname := h.mem_entryNames he
  refine ⟨?_, ?_, ?_⟩
  · rcases hinner.entered with ⟨hdir, hnames⟩ | ⟨-, hplace, -⟩
    · rw [hinner.path, hnames]
      refine FileTree.lookup_join h.place ?_ (hfiles.isName _ hname) (hfiles.plain _ hname)
        (hfiles.noNul _ hname) (hinner.path ▸ hshort)
      rw [h.lookup_entries hfiles he, hdir]
    · rw [hinner.path, hplace]
  · rw [hinner.path, hinner.under, h.path, dirBelow, dirBelow, List.foldl_concat]
  · obtain ⟨fuel, hfuel, hmet, hunder⟩ := h.below
    have hreach := OpenDir.reach_inner_lt hinner he
    -- what is left to go down has become less, so a step for it is left as well
    cases fuel with
    | zero => omega
    | succ fuel =>
      refine ⟨fuel, by omega, fun r hr => hmet ?_, fun rest => ?_⟩
      · rw [OpenDir.below_succ]
        refine List.mem_flatMap.2 ⟨e, List.mem_mergeSort.2 he, ?_⟩
        rw [OpenDir.metAt_of_dir hvisit hkept, hshort, if_neg Bool.false_ne_true]
        exact List.mem_cons_of_mem _ hr
      · have hrest := hunder ([e.1] ++ rest)
        rw [← List.append_assoc, ← hinner.under] at hrest
        rw [hrest, OpenDir.sourcesUnder_below_inner (h.wellNamed hfiles).distinct.1 he hvisit hkept
          hshort]

/-- A walk on which only loops go wrong is in each directory that is reached. -/
lemma of_reached (hfiles : files.Genuine) {start : OpenDir}
    (hstart : Walked files root met [] start) (h : OpenDir.Reached files start ancestors d) :
    Walked files root met ancestors d := by
  induction h with
  | start => exact hstart
  | enter _ he hvisit hkept ih => exact ih.enter hloops hfiles he hvisit hkept

end

/-- The sources that are met in the directory are those that its entries show. -/
lemma sourcesUnder_eq (h : Walked files root met ancestors d) :
    sourcesUnder d.under met = d.sortedEntries.filterMap (OpenDir.sourceAt? files d.path) := by
  obtain ⟨fuel, -, -, hunder⟩ := h.below
  have hself := hunder []
  rw [List.append_nil] at hself
  rw [hself, OpenDir.sourcesUnder_below_self]

end Walked

/-! ## The directory alone -/

/-- In a directory a link stands that leads to the directory itself. -/
def LinksToItself (files : FileTree) (dir : FilePath) (name : String) : Prop :=
  ∃ names es es' target, files.lookup dir = .ok ⟨names, .dir es⟩ ∧ (name, .link target) ∈ es ∧
    files.lookup (dir.join name) = .ok ⟨names, .dir es'⟩

/-- The directory as the start of a walk. -/
def OpenDir.alone (d : OpenDir) : OpenDir :=
  ⟨d.names, d.path, [], d.entries⟩

section

variable {files : FileTree} {root : FilePath} {met : List (Except WalkError WalkEntry)}
  {ancestors : List OpenDir} {d : OpenDir} {e : String × FileTree}

/-- A link leads back to the directory it stands in exactly if it leads to the node of that
directory. -/
lemma linksToItself_iff (h : Walked files root met ancestors d) {name : String} :
    LinksToItself files d.path name ↔ ∃ es target, (name, .link target) ∈ d.entries ∧
      files.lookup (d.path.join name) = .ok ⟨d.names, .dir es⟩ := by
  rw [LinksToItself, h.place]
  constructor
  · rintro ⟨names, es, es', target, heq, hmem, hplace⟩
    cases heq
    exact ⟨es', target, hmem, hplace⟩
  · rintro ⟨es', target, hmem, hplace⟩
    exact ⟨d.names, d.entries, es', target, rfl, hmem, hplace⟩

/-- Only a link to the directory itself goes wrong when the directory is listed alone. -/
lemma Walked.visit_alone (hfiles : files.Genuine)
    (hloops : ∀ error, .error error ∈ met → error.isLoop = true)
    (h : Walked files root met ancestors d) (he : e ∈ d.entries) :
    (¬ LinksToItself files d.path e.1 ∧ ∃ seen, d.alone.visit files [d.alone] e = .ok seen) ∨
      LinksToItself files d.path e.1 ∧
        d.alone.visit files [d.alone] e = .error (.loop (d.path.join e.1) d.path) := by
  have hlink : LinksToItself files d.path e.1 ↔ (∃ target, e.2 = .link target) ∧
      ∃ es, files.lookup (d.path.join e.1) = .ok ⟨d.names, .dir es⟩ := by
    rw [linksToItself_iff h]
    constructor
    · rintro ⟨es, target, hmem, hplace⟩
      have hsame := (h.lookup_entries hfiles hmem).symm.trans (h.lookup_entries (e := e) hfiles he)
      exact ⟨⟨target, (Option.some.inj hsame).symm⟩, es, hplace⟩
    · rintro ⟨⟨target, htarget⟩, es, hplace⟩
      exact ⟨es, target, htarget ▸ he, hplace⟩
  rw [hlink]
  have hwalked := h.isLoop_of_visit hloops he
  obtain ⟨name, node⟩ := e
  cases node with
  | file content =>
    refine .inl ⟨fun h => ?_, _, rfl⟩
    obtain ⟨target, htarget⟩ := h.1
    cases htarget
  | dir es =>
    refine .inl ⟨fun h => ?_, _, rfl⟩
    obtain ⟨target, htarget⟩ := h.1
    cases htarget
  | link target =>
    cases hplace : files.lookup (d.path.join name) with
    | error error =>
      -- the walk would not have gone on
      exact absurd (hwalked _ (OpenDir.visit_link_of_error hplace)) Bool.false_ne_true
    | ok place =>
      obtain ⟨names, node⟩ := place
      cases hdir : node.isDirNode with
      | false =>
        refine .inl ⟨?_, _, OpenDir.visit_link_of_not_dir (d := d.alone) hplace hdir⟩
        rintro ⟨-, es, heq⟩
        cases heq
        cases hdir
      | true =>
        obtain ⟨es, rfl⟩ := FileTree.exists_of_isDirNode hdir
        by_cases hnames : d.names = names
        · have hfind : [d.alone].find? (·.names == names) = some d.alone :=
            List.find?_cons_of_pos (beq_iff_eq.2 hnames)
          refine .inr ⟨⟨⟨target, rfl⟩, es, by rw [hnames]⟩, ?_⟩
          exact OpenDir.visit_link_of_loop (d := d.alone) (a := d.alone) hplace hfind
        · have hfind : [d.alone].find? (·.names == names) = none :=
            (OpenDir.find?_names_eq_none _ _).2 fun h => hnames (List.mem_singleton.1 h).symm
          refine .inl ⟨?_, _, OpenDir.visit_link_of_dir (d := d.alone) hplace hfind⟩
          rintro ⟨-, es', heq⟩
          cases heq
          exact hnames rfl

/-- What is seen of entries shows the same source files as the entries themselves. -/
lemma sources_of_seen {es : List (String × FileTree)} {seen : List (WalkEntry × Option OpenDir)}
    (h : List.Forall₂ (fun e s => d.alone.visit files [d.alone] e = .ok s) es seen) :
    ((seen.map Prod.fst).filter fun e => e.isSource && !isHiddenName e.name).map (·.path) =
      es.filterMap (OpenDir.sourceAt? files d.path) := by
  induction h with
  | nil => rfl
  | @cons e s es seen hvisit _ ih =>
    obtain ⟨entry, inner⟩ := s
    have hsource : OpenDir.sourceAt? files d.path e =
        if entry.isSource && !isHiddenName entry.name then some entry.path else none := by
      rw [show d.path = d.alone.path from rfl, OpenDir.sourceAt?_eq [d.alone], hvisit]
    rw [List.map_cons, List.filter_cons, List.filterMap_cons, hsource, ← ih]
    split <;> rfl

/-- Listing a directory is looking at each entry with nothing around it. -/
lemma Walked.list_eq (h : Walked files root met ancestors d) : files.list d.path =
    (d.sortedEntries.mapM (d.alone.visit files [d.alone])).map fun seen => seen.map Prod.fst := by
  have hstart : files.walkStart d.path = .ok (some d.alone) := by
    rw [FileTree.walkStart, h.place]
    rfl
  rw [FileTree.list, hstart]
  show Except.bind (d.sortedEntries.mapM (d.alone.visit files [d.alone])) _ = _
  cases d.sortedEntries.mapM (d.alone.visit files [d.alone]) with
  | error error => rfl
  | ok seen => rfl

/-- What links to itself is an entry. -/
lemma Walked.exists_of_linksToItself (h : Walked files root met ancestors d) {name : String}
    (hname : LinksToItself files d.path name) : ∃ e ∈ d.sortedEntries, e.1 = name := by
  obtain ⟨-, target, hmem, -⟩ := (linksToItself_iff h).1 hname
  exact ⟨_, List.mem_mergeSort.2 hmem, rfl⟩

section

variable (hfiles : files.Genuine) (hloops : ∀ error, .error error ∈ met → error.isLoop = true)

include hfiles hloops

/-- An entry that can be looked at does not link to itself. -/
lemma Walked.not_linksToItself (h : Walked files root met ancestors d) (he : e ∈ d.sortedEntries)
    (hok : ∃ seen, d.alone.visit files [d.alone] e = .ok seen) :
    ¬ LinksToItself files d.path e.1 := by
  obtain ⟨seen, hok⟩ := hok
  have hentry := OpenDir.mem_entries_of_mem_sortedEntries he
  refine ((h.visit_alone hfiles hloops hentry).resolve_right fun hself => ?_).1
  rw [hok] at hself
  cases hself.2

/-- What goes wrong first in the listing of a directory is its first link to itself. -/
lemma Walked.first_loop (h : Walked files root met ancestors d)
    {before after : List (String × FileTree)} {error : WalkError}
    (hentries : d.sortedEntries = before ++ e :: after)
    (hbefore : ∀ e' ∈ before, ∃ seen, d.alone.visit files [d.alone] e' = .ok seen)
    (he : d.alone.visit files [d.alone] e = .error error) :
    LinksToItself files d.path e.1 ∧ (∀ name' < e.1, ¬ LinksToItself files d.path name') ∧
      error = .loop (d.path.join e.1) d.path := by
  have hmem : e ∈ d.entries := OpenDir.mem_entries_of_mem_sortedEntries
    (hentries ▸ List.mem_append_right _ List.mem_cons_self)
  obtain ⟨hself, hloop⟩ := (h.visit_alone hfiles hloops hmem).resolve_left fun hok => by
    obtain ⟨-, seen, hok⟩ := hok
    rw [he] at hok
    cases hok
  refine ⟨hself, fun name' hlt hname' => ?_, Except.error.inj (he.symm.trans hloop)⟩
  obtain ⟨e', he', rfl⟩ := h.exists_of_linksToItself hname'
  have hsorted : d.sortedEntries.Pairwise fun a b => a.1 ≤ b.1 :=
    pairwise_mergeSort_name Prod.fst d.entries
  rw [hentries, List.pairwise_append, List.pairwise_cons] at hsorted
  rw [hentries, List.mem_append, List.mem_cons] at he'
  -- what stands behind the link has a greater name
  rcases he' with hin | rfl | hin
  · have he' : e' ∈ d.sortedEntries := hentries ▸ List.mem_append_left _ hin
    exact h.not_linksToItself hfiles hloops he' (hbefore e' hin) hname'
  · exact lt_irrefl _ hlt
  · exact absurd (hsorted.2.1.1 e' hin) (not_le.2 hlt)

/-- The listing of a directory in which a walk is: it stops at the first link in the directory that
leads back to it, and if there is none it has the sources that are met there. -/
lemma Walked.sourceFiles_eq (h : Walked files root met ancestors d) :
    ((∀ name, ¬ LinksToItself files d.path name) ∧
      sourceFiles files d.path = .ok (sourcesUnder d.under met)) ∨
    ∃ name, LinksToItself files d.path name ∧ (∀ name' < name, ¬ LinksToItself files d.path name') ∧
      sourceFiles files d.path = .error (.walk d.path (.loop (d.path.join name) d.path)) := by
  rw [sourceFiles, h.list_eq]
  rcases mapM_ok_or_error (d.alone.visit files [d.alone]) d.sortedEntries with
    ⟨seen, hseen⟩ | ⟨before, e, after, error, hentries, hbefore, he, herror⟩
  · have hforall := forall₂_of_mapM_ok hseen
    refine .inl ⟨fun name hname => ?_, ?_⟩
    · obtain ⟨e, he, rfl⟩ := h.exists_of_linksToItself hname
      obtain ⟨s, -, hs⟩ := exists_of_forall₂ hforall.flip he
      exact h.not_linksToItself hfiles hloops he ⟨s, hs⟩ hname
    · rw [hseen, h.sourcesUnder_eq, ← sources_of_seen hforall]
      rfl
  · obtain ⟨hself, hfirst, rfl⟩ := h.first_loop hfiles hloops hentries hbefore he
    rw [herror]
    exact .inr ⟨e.1, hself, hfirst, rfl⟩

end

end

/-! ## The directories of a project -/

/-- Each directory of a tree stands where names lead and has the files that were found there. -/
lemma FilesByDir.exists_of_mem_nodes {root : FilePath} {importRoot : String} {m : FilesByDir}
    (hm : m.IsMap) {n : PackageDir} (hn : n ∈ (m.toTree root importRoot).nodes) :
    ∃ dir, m.HasDir dir ∧ n.dir = dirBelow root dir ∧ n.files = (m.lookup dir).getD [] := by
  rw [m.toTree_eq root importRoot hm, show m.toNode root importRoot m.depth [] =
    treeAt root importRoot m m.depth [] from rfl, ← map_snd_placed] at hn
  obtain ⟨⟨dir, n⟩, hplaced, rfl⟩ := List.mem_map.1 hn
  have hdir := (mem_placed m.within_depth).1 (List.mem_map_of_mem hplaced)
  obtain ⟨k, rfl, -, -⟩ := treeAt_of_mem_placed m.within_depth hplaced
  refine ⟨dir, hdir.imp_right And.right, ?_, ?_⟩
  · rw [treeAt_eq]
    rfl
  · rw [treeAt_eq]
    rfl

/-- The directories in which sources were found, and those around them, are reached. -/
lemma OpenDir.exists_reached_of_hasDir {files : FileTree} {start : OpenDir} {fuel : Nat}
    (hstart : start.under = []) {m : FilesByDir}
    (hm : collectSources [] (start.below files WalkEntry.isLeftOut fuel []) = .ok m)
    {dir : List String} (hdir : m.HasDir dir) :
    ∃ ancestors d, Reached files start ancestors d ∧ d.under = dir := by
  rcases hdir with rfl | ⟨e, he, hpre⟩
  · exact ⟨[], start, .start, hstart⟩
  · have hmap := FilesByDir.isMap_nil.collectSources hm
    have hsources : e.2 = sourcesUnder e.1 (start.below files WalkEntry.isLeftOut fuel []) := by
      have hlookup := getD_lookup_collectSources FilesByDir.isMap_nil hm e.1
      rwa [hmap.lookup_eq_some_iff.2 he] at hlookup
    obtain ⟨path, hpath⟩ := List.exists_mem_of_ne_nil _ (hsources ▸ hmap.nonempty e he)
    obtain ⟨r, hr, hsource⟩ := List.mem_filterMap.1 hpath
    cases r with
    | error error => cases hsource
    | ok entry =>
      rw [sourceUnder?] at hsource
      split at hsource
      · next hentry =>
        obtain ⟨ancestors, d, hd, hunder⟩ := Reached.start.exists_under hr
        refine hd.exists_of_prefix hstart ?_
        rwa [hunder, hentry.2]
      · cases hsource

/-- Where the packages of a project are found, each directory of the project lists the same source
files by itself, in the same order. The only exception is a directory with a link to itself, which
is a loop: it stops the listing, at the first such link. -/
theorem listings_agree_or_loop {files : FileTree} (hfiles : files.Genuine) {root : FilePath}
    {importRoot : String} {tree : PackageDir}
    (h : packageTree files root importRoot = .ok tree) : ∀ n ∈ tree.nodes,
      ((∀ name, ¬ LinksToItself files n.dir name) ∧ sourceFiles files n.dir = .ok n.files) ∨
      ∃ name, LinksToItself files n.dir name ∧ (∀ name' < name, ¬ LinksToItself files n.dir name') ∧
        sourceFiles files n.dir = .error (.walk n.dir (.loop (n.dir.join name) n.dir)) := by
  intro n hn
  rw [packageTree] at h
  split at h
  · next hisDir =>
    obtain ⟨names, es, hplace, hstart⟩ := exists_start_of_isDir hisDir
    have hleads := FileTree.leads_of_lookup hplace
    rw [walk_eq_below hstart hleads (Nat.le_succ _)] at h
    cases hm : collectSources [] (OpenDir.below files WalkEntry.isLeftOut
        ((files.weight + 1) * (files.weight + 1) + 1) [] ⟨names, root, [], es⟩) with
    | error error =>
      rw [hm] at h
      cases h
    | ok m =>
      rw [hm] at h
      cases h
      have hmap := FilesByDir.isMap_nil.collectSources hm
      obtain ⟨dir, hdir, hnDir, hnFiles⟩ := FilesByDir.exists_of_mem_nodes hmap hn
      obtain ⟨ancestors, d, hreached, rfl⟩ := OpenDir.exists_reached_of_hasDir rfl hm hdir
      have hloops := isLoop_of_collectSources hm
      have hwalked := Walked.of_reached hloops hfiles
        ⟨hplace, rfl, _, (OpenDir.reach_lt hleads).le, fun _ h => h, fun _ => rfl⟩ hreached
      have hfound : n.files = sourcesUnder d.under _ :=
        hnFiles.trans (getD_lookup_collectSources FilesByDir.isMap_nil hm d.under)
      rw [hnDir, ← hwalked.path, hfound]
      exact hwalked.sourceFiles_eq hfiles hloops
  · cases h

/-! ## Links that lead back -/

namespace LoopsBack

/-- A project with a link to the directory around the one in which it stands. -/
def upward : FileTree :=
  .dir [("app", .dir [("a.go", .file .empty),
    ("sub", .dir [("b.go", .file .empty), ("up", .link "..")])])]

/-- A project with a link to the directory in which it stands. -/
def inward : FileTree :=
  .dir [("app", .dir [("a.go", .file .empty), ("self", .link ".")])]

/-- The names in the project are proper. -/
lemma genuine_upward : upward.Genuine :=
  ⟨⟨by decide, by simp [upward, FileTree.DistinctNames, FileTree.DistinctNamesIn]⟩, by decide,
    by decide⟩

/-- The root of a project as a walk opens it. -/
def openApp (files : FileTree) : OpenDir :=
  ⟨["app"], ⟨"/app"⟩, [], ((files.at? ["app"]).map FileTree.entries).getD []⟩

/-- The directory below the root as a walk opens it. -/
def openSub : OpenDir :=
  ⟨["app", "sub"], ⟨"/app/sub"⟩, ["sub"], [("b.go", .file .empty), ("up", .link "..")]⟩

/-- The entries of the root are in order. -/
lemma sortedEntries_upward : (openApp upward).sortedEntries = (openApp upward).entries :=
  List.mergeSort_of_pairwise (by decide +kernel)

/-- The entries of the directory below are in order. -/
lemma sortedEntries_sub : openSub.sortedEntries = openSub.entries :=
  List.mergeSort_of_pairwise (by decide +kernel)

/-- The entries of the root are in order. -/
lemma sortedEntries_inward : (openApp inward).sortedEntries = (openApp inward).entries :=
  List.mergeSort_of_pairwise (by decide +kernel)

/-- A walk in the directory below meets its file and the link back up. -/
lemma below_sub (n : Nat) :
    openSub.below upward WalkEntry.isLeftOut (n + 1) [openApp upward] =
      [.ok ⟨⟨"/app/sub/b.go"⟩, "b.go", ["sub"], false⟩,
        .error (.loop ⟨"/app/sub/up"⟩ ⟨"/app"⟩)] := by
  rw [OpenDir.below, sortedEntries_sub]
  rfl

/-- A walk of the project meets the link back up as a loop. -/
lemma walk_upward : upward.walk WalkEntry.isLeftOut ⟨"/app"⟩ =
    [.ok ⟨⟨"/app/a.go"⟩, "a.go", [], false⟩, .ok ⟨⟨"/app/sub"⟩, "sub", [], true⟩,
      .ok ⟨⟨"/app/sub/b.go"⟩, "b.go", ["sub"], false⟩,
      .error (.loop ⟨"/app/sub/up"⟩ ⟨"/app"⟩)] := by
  have hstart : upward.walkStart ⟨"/app"⟩ = .ok (some (openApp upward)) := rfl
  rw [FileTree.walk, hstart]
  dsimp only
  rw [show (upward.weight + 1) * (upward.weight + 1) = 47 + 2 from rfl, OpenDir.below,
    sortedEntries_upward]
  exact congrArg (fun r => .ok ⟨⟨"/app/a.go"⟩, "a.go", [], false⟩ ::
    .ok ⟨⟨"/app/sub"⟩, "sub", [], true⟩ :: (r ++ [])) (below_sub 47)

/-- The directory below has no further ones. -/
lemma toNode_sub (own : List FilePath) :
    FilesByDir.toNode ⟨"/app"⟩ "m" 0 ["sub"] [([], own)] =
      .node "m/sub" "sub" ⟨"/app/sub"⟩ own [] := by
  have hname : suggestedName "m/sub" = "sub" := by decide +kernel
  show PackageDir.node "m/sub" (suggestedName "m/sub") _ own ([].mergeSort _) = _
  rw [hname, List.mergeSort_nil]
  rfl

/-- The tree of the project has both directories; the loop is passed over. -/
lemma packageTree_upward : packageTree upward ⟨"/app"⟩ "m" =
    .ok (.node "m" "m" ⟨"/app"⟩ [⟨"/app/a.go"⟩]
      [.node "m/sub" "sub" ⟨"/app/sub"⟩ [⟨"/app/sub/b.go"⟩] []]) := by
  have hdir : upward.isDir ⟨"/app"⟩ = true := by decide +kernel
  have hname : suggestedName "m" = "m" := by decide +kernel
  have hcollect : collectSources [] (upward.walk WalkEntry.isLeftOut ⟨"/app"⟩) =
      .ok [([], [⟨"/app/a.go"⟩]), (["sub"], [⟨"/app/sub/b.go"⟩])] := by
    rw [walk_upward]
    decide +kernel
  rw [packageTree, if_pos hdir, hcollect]
  show Except.ok (PackageDir.node "m" (suggestedName "m") _ [⟨"/app/a.go"⟩]
    ([FilesByDir.toNode ⟨"/app"⟩ "m" 0 ["sub"] [([], [⟨"/app/sub/b.go"⟩])]].mergeSort _)) = _
  rw [hname, List.mergeSort_singleton, toNode_sub]
  rfl

/-- The link back up does not lead to the directory it stands in. -/
lemma not_linksToItself_sub (name : String) : ¬ LinksToItself upward ⟨"/app/sub"⟩ name := by
  rintro ⟨names, es, es', target, hplace, hmem, hself⟩
  have hsub : upward.lookup ⟨"/app/sub"⟩ = .ok ⟨["app", "sub"], .dir openSub.entries⟩ := rfl
  cases hsub.symm.trans hplace
  have hup : upward.lookup ⟨"/app/sub/up"⟩ = .ok ⟨["app"], .dir (openApp upward).entries⟩ := rfl
  obtain ⟨rfl, -⟩ : name = "up" ∧ target = ".." := by simpa [openSub] using hmem
  cases hup.symm.trans hself

/-- A link to a directory further up does not get in the way of a listing. -/
theorem upward_listed : upward.Genuine ∧ packageTree upward ⟨"/app"⟩ "m" =
      .ok (.node "m" "m" ⟨"/app"⟩ [⟨"/app/a.go"⟩]
        [.node "m/sub" "sub" ⟨"/app/sub"⟩ [⟨"/app/sub/b.go"⟩] []]) ∧
    sourceFiles upward ⟨"/app/sub"⟩ = .ok [⟨"/app/sub/b.go"⟩] := by
  refine ⟨genuine_upward, packageTree_upward, ?_⟩
  rcases listings_agree_or_loop genuine_upward packageTree_upward
    (.node "m/sub" "sub" ⟨"/app/sub"⟩ [⟨"/app/sub/b.go"⟩] [])
    (List.mem_cons_of_mem _ List.mem_cons_self) with h | ⟨name, hname, -⟩
  · exact h.2
  · exact absurd hname (not_linksToItself_sub name)

/-- A walk of the project meets the link to itself as a loop. -/
lemma walk_inward : inward.walk WalkEntry.isLeftOut ⟨"/app"⟩ =
    [.ok ⟨⟨"/app/a.go"⟩, "a.go", [], false⟩, .error (.loop ⟨"/app/self"⟩ ⟨"/app"⟩)] := by
  have hstart : inward.walkStart ⟨"/app"⟩ = .ok (some (openApp inward)) := rfl
  rw [FileTree.walk, hstart]
  dsimp only
  rw [show (inward.weight + 1) * (inward.weight + 1) = 24 + 1 from rfl, OpenDir.below,
    sortedEntries_inward]
  rfl

/-- The project has a package, but its directory cannot be listed by itself. -/
theorem inward_not_listed :
    packageTree inward ⟨"/app"⟩ "m" = .ok (.node "m" "m" ⟨"/app"⟩ [⟨"/app/a.go"⟩] []) ∧
      sourceFiles inward ⟨"/app"⟩ =
        .error (.walk ⟨"/app"⟩ (.loop ⟨"/app/self"⟩ ⟨"/app"⟩)) := by
  constructor
  · have hdir : inward.isDir ⟨"/app"⟩ = true := by decide +kernel
    have hname : suggestedName "m" = "m" := by decide +kernel
    have hsources : collectSources [] (inward.walk WalkEntry.isLeftOut ⟨"/app"⟩) =
        .ok [([], [⟨"/app/a.go"⟩])] := by
      rw [walk_inward]
      decide +kernel
    rw [packageTree_of_own hdir hsources, hname]
  · have hstart : inward.walkStart ⟨"/app"⟩ = .ok (some (openApp inward)) := rfl
    have hlist : inward.list ⟨"/app"⟩ = .error (.loop ⟨"/app/self"⟩ ⟨"/app"⟩) := by
      rw [FileTree.list, hstart]
      show Except.bind ((openApp inward).sortedEntries.mapM _) _ = _
      rw [sortedEntries_inward]
      rfl
    rw [sourceFiles, hlist]

end LoopsBack

end GoService.Project
