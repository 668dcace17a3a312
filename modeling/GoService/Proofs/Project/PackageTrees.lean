import GoService.Proofs.Project.Location
import Mathlib.Data.List.Forall2

/-!
# Each file at one place of the tree

The tree that is made from files in directories has each of these directories, and each one above
them, just once. The directories stand in it by the names that lead to them: each has the files that
are in it and, in order, the directories directly in it. The packages are the directories with
files, each one before those below it (`toTree_places`).
-/

namespace GoService.Project

/-! ## The order of directories beside each other -/

namespace PackageDir

/-- The components of the directory, as they are compared. -/
def pieces (n : PackageDir) : List String :=
  n.dir.components.map Component.text

/-- The directory stands before another one, or both can change places. -/
def NotAfter (a b : PackageDir) : Prop :=
  a.shortName < b.shortName ∨ a.shortName = b.shortName ∧ a.pieces ≤ b.pieces

/-- The order in which directories are sorted is that of names and then paths. -/
lemma before_iff {a b : PackageDir} : a.before b = true ↔ a.NotAfter b := by
  have hlex : (b.pieces.lex a.pieces fun x y => decide (x < y)) = false ↔ a.pieces ≤ b.pieces := by
    rw [← Bool.not_eq_true, List.lex_eq_true_iff_lt, not_lt]
  rw [before, Bool.or_eq_true, decide_eq_true_iff, Bool.and_eq_true, beq_iff_eq, Bool.not_eq_true',
    NotAfter, ← hlex]
  rfl

/-- The order of directories is transitive. -/
lemma NotAfter.trans {a b c : PackageDir} (hab : a.NotAfter b) (hbc : b.NotAfter c) :
    a.NotAfter c := by
  rcases hab with hab | ⟨hab, hpieces⟩
  · rcases hbc with hbc | ⟨hbc, -⟩
    · exact .inl (hab.trans hbc)
    · exact .inl (hbc ▸ hab)
  · rcases hbc with hbc | ⟨hbc, hpieces'⟩
    · exact .inl (hab ▸ hbc)
    · exact .inr ⟨hab.trans hbc, hpieces.trans hpieces'⟩

/-- Any two directories can be ordered. -/
lemma notAfter_total (a b : PackageDir) : a.NotAfter b ∨ b.NotAfter a := by
  rcases lt_trichotomy a.shortName b.shortName with h | h | h
  · exact .inl (.inl h)
  · exact (le_total a.pieces b.pieces).imp (.inr ⟨h, ·⟩) (.inr ⟨h.symm, ·⟩)
  · exact .inr (.inl h)

/-- Sorted directories are in order. -/
lemma pairwise_mergeSort_before (ns : List PackageDir) :
    (ns.mergeSort before).Pairwise NotAfter := by
  refine (List.pairwise_mergeSort (fun a b c hab hbc => ?_) (fun a b => ?_) ns).imp before_iff.1
  · exact before_iff.2 ((before_iff.1 hab).trans (before_iff.1 hbc))
  · rw [Bool.or_eq_true, before_iff, before_iff]
    exact notAfter_total a b

/-- A directory has sources exactly if it lists some. -/
lemma hasSources_iff {n : PackageDir} : n.hasSources = true ↔ n.files ≠ [] := by
  rw [hasSources, Bool.not_eq_true', ← Bool.not_eq_true, List.isEmpty_iff]

/-- The nodes of a tree are its root and those of its children. -/
lemma nodes_eq (n : PackageDir) : n.nodes = n :: n.children.flatMap nodes := by
  obtain ⟨p, s, d, fs, cs⟩ := n
  rw [nodes, nodesAll_eq]
  rfl

/-- The packages of a tree are those of a directory itself, if it is one, and then those of the
directories in it, one after another. -/
lemma packages_eq_append (n : PackageDir) : n.packages =
    (if n.hasSources then [n] else []) ++ n.children.flatMap packages := by
  have hchildren : (n.children.flatMap nodes).filter hasSources = n.children.flatMap packages := by
    rw [List.filter_flatMap]
    exact List.flatMap_congr fun c _ => (packages_eq c).symm
  rw [packages_eq, nodes_eq, List.filter_cons, hchildren]
  split <;> rfl

end PackageDir

/-! ## Directories by their names -/

namespace FilesByDir

/-- The root, the directory of a file, or one above it. -/
def HasDir (m : FilesByDir) (dir : List String) : Prop :=
  dir = [] ∨ ∃ e ∈ m, dir <+: e.1

section

variable (root : FilePath) (importRoot : String) (m : FilesByDir)

/-- The tree at a directory, at most `fuel` directories deep. -/
def treeAt (fuel : Nat) (dir : List String) : PackageDir :=
  toNode root importRoot fuel dir (m.below dir)

/-- The names of the directories in a directory, in the order in which their trees stand there. -/
def sortedNames (fuel : Nat) (dir : List String) : List String :=
  (m.below dir).childNames.mergeSort fun a b =>
    (treeAt root importRoot m fuel (dir ++ [a])).before
      (treeAt root importRoot m fuel (dir ++ [b]))

/-- The directories of the tree at a directory, each with the names that lead to it. -/
def placed : Nat → List String → List (List String × PackageDir)
  | 0, dir => [(dir, treeAt root importRoot m 0 dir)]
  | fuel + 1, dir => (dir, treeAt root importRoot m (fuel + 1) dir) ::
    (sortedNames root importRoot m fuel dir).flatMap fun name => placed fuel (dir ++ [name])

/-- A tree has its place, its files and its children. -/
lemma treeAt_eq (fuel : Nat) (dir : List String) : treeAt root importRoot m fuel dir =
    .node (importPathBelow importRoot dir) (suggestedName (importPathBelow importRoot dir))
      (dirBelow root dir) ((m.lookup dir).getD []) (treeAt root importRoot m fuel dir).children := by
  rw [← own_below]
  cases fuel <;> rfl

/-- The directories in a directory are sorted. -/
lemma pairwise_children_treeAt (fuel : Nat) (dir : List String) :
    (treeAt root importRoot m fuel dir).children.Pairwise PackageDir.NotAfter := by
  cases fuel <;> exact PackageDir.pairwise_mergeSort_before _

/-- Without steps left a tree has no children. -/
lemma children_treeAt_zero (dir : List String) : (treeAt root importRoot m 0 dir).children = [] :=
  List.mergeSort_nil

/-- The children of a tree are the trees at the sorted names below it. -/
lemma children_treeAt_succ (fuel : Nat) (dir : List String) :
    (treeAt root importRoot m (fuel + 1) dir).children =
      (sortedNames root importRoot m fuel dir).map fun name =>
        treeAt root importRoot m fuel (dir ++ [name]) := by
  rw [sortedNames, List.map_mergeSort (s := PackageDir.before) fun _ _ _ _ => rfl]
  simp only [treeAt, below_concat]
  rfl

end

variable {root : FilePath} {importRoot : String} {m : FilesByDir} {fuel : Nat}
  {dir dir' : List String} {name : String} {n : PackageDir}

/-- The nodes of a tree are those that are placed. -/
lemma map_snd_placed (fuel : Nat) (dir : List String) :
    (placed root importRoot m fuel dir).map Prod.snd =
      (treeAt root importRoot m fuel dir).nodes := by
  induction fuel generalizing dir with
  | zero =>
    rw [PackageDir.nodes_eq, children_treeAt_zero]
    rfl
  | succ fuel ih =>
    rw [PackageDir.nodes_eq, children_treeAt_succ, placed, List.map_cons, List.map_flatMap,
      List.flatMap_map]
    exact congrArg (_ :: ·) (List.flatMap_congr fun name _ => ih (dir ++ [name]))

/-- A name is listed below a directory exactly if something lies below it. -/
lemma mem_sortedNames : name ∈ sortedNames root importRoot m fuel dir ↔
    ∃ e ∈ m, dir ++ [name] <+: e.1 := by
  rw [sortedNames, List.mem_mergeSort, mem_childNames_below]

/-- No name is listed twice below a directory. -/
lemma nodup_sortedNames (fuel : Nat) (dir : List String) :
    (sortedNames root importRoot m fuel dir).Nodup :=
  (List.mergeSort_perm ..).nodup_iff.2 (m.below dir).nodup_childNames

/-- The directories of the tree at a directory lie at it or below it. -/
lemma prefix_of_mem_placed {p : List String × PackageDir}
    (hp : p ∈ placed root importRoot m fuel dir) : dir <+: p.1 := by
  induction fuel generalizing dir with
  | zero =>
    cases List.mem_singleton.1 hp
    exact List.prefix_rfl
  | succ fuel ih =>
    rcases List.mem_cons.1 hp with rfl | hp
    · exact List.prefix_rfl
    · obtain ⟨name, -, hp⟩ := List.mem_flatMap.1 hp
      exact (List.prefix_append ..).trans (ih hp)

/-- No directory is placed twice. -/
lemma nodup_placed (fuel : Nat) (dir : List String) :
    ((placed root importRoot m fuel dir).map Prod.fst).Nodup := by
  induction fuel generalizing dir with
  | zero => exact List.nodup_singleton _
  | succ fuel ih =>
    rw [placed, List.map_cons, List.map_flatMap, List.nodup_cons, List.nodup_flatMap]
    refine ⟨?_, fun name _ => ih (dir ++ [name]), ?_⟩
    · intro hmem
      obtain ⟨name, -, hmem⟩ := List.mem_flatMap.1 hmem
      obtain ⟨p, hp, rfl⟩ := List.mem_map.1 hmem
      have hlength := (prefix_of_mem_placed hp).length_le
      rw [List.length_append, List.length_singleton] at hlength
      omega
    · refine (nodup_sortedNames fuel dir).imp fun {name name'} hne dir' hmem hmem' => hne ?_
      obtain ⟨p, hp, rfl⟩ := List.mem_map.1 hmem
      obtain ⟨p', hp', heq⟩ := List.mem_map.1 hmem'
      exact name_eq_of_both (prefix_of_mem_placed hp) (heq ▸ prefix_of_mem_placed hp')

/-- The tree at a directory has the directory, and all those below it that are on the way to a
file. -/
lemma mem_placed (hdepth : m.Within dir fuel) :
    dir' ∈ (placed root importRoot m fuel dir).map Prod.fst ↔
      dir' = dir ∨ dir <+: dir' ∧ ∃ e ∈ m, dir' <+: e.1 := by
  induction fuel generalizing dir with
  | zero =>
    rw [placed, List.map_singleton, List.mem_singleton]
    refine ⟨.inl, fun h => h.elim id ?_⟩
    rintro ⟨hpre, e, he, hpre'⟩
    have hlength := hdepth e he (hpre.trans hpre')
    exact (hpre.eq_of_length_le (hpre'.length_le.trans hlength)).symm
  | succ fuel ih =>
    rw [placed, List.map_cons, List.mem_cons, List.map_flatMap, List.mem_flatMap]
    constructor
    · rintro (rfl | ⟨name, hname, hmem⟩)
      · exact .inl rfl
      · rcases (ih (hdepth.child name)).1 hmem with rfl | ⟨hpre, hfile⟩
        · exact .inr ⟨List.prefix_append .., mem_sortedNames.1 hname⟩
        · exact .inr ⟨(List.prefix_append ..).trans hpre, hfile⟩
    · rintro (rfl | ⟨⟨rest, rfl⟩, e, he, hpre⟩)
      · exact .inl rfl
      · cases rest with
        | nil => exact .inl (List.append_nil dir)
        | cons name rest =>
          have hchild : dir ++ [name] <+: dir ++ name :: rest := ⟨rest, List.append_assoc ..⟩
          refine .inr ⟨name, mem_sortedNames.2 ⟨e, he, hchild.trans hpre⟩, ?_⟩
          exact (ih (hdepth.child name)).2 (.inr ⟨hchild, e, he, hpre⟩)

/-- A tree is placed at its own directory. -/
lemma self_mem_placed (fuel : Nat) (dir : List String) :
    (dir, treeAt root importRoot m fuel dir) ∈ placed root importRoot m fuel dir := by
  cases fuel <;> exact List.mem_cons_self

/-- Each directory of a tree stands there with the tree at it. -/
lemma treeAt_of_mem_placed (hdepth : m.Within dir fuel)
    (hn : (dir', n) ∈ placed root importRoot m fuel dir) :
    ∃ k, n = treeAt root importRoot m k dir' ∧ m.Within dir' k ∧
      placed root importRoot m k dir' ⊆ placed root importRoot m fuel dir := by
  induction fuel generalizing dir with
  | zero =>
    cases List.mem_singleton.1 hn
    exact ⟨0, rfl, hdepth, fun _ h => h⟩
  | succ fuel ih =>
    rcases List.mem_cons.1 hn with heq | hn
    · cases heq
      exact ⟨fuel + 1, rfl, hdepth, fun _ h => h⟩
    · obtain ⟨name, hname, hn⟩ := List.mem_flatMap.1 hn
      obtain ⟨k, htree, hk, hsub⟩ := ih (hdepth.child name) hn
      refine ⟨k, htree, hk, fun p hp => List.mem_cons_of_mem _ ?_⟩
      exact List.mem_flatMap.2 ⟨name, hname, hsub hp⟩

/-- What a directory of a tree has to be by the files from which the tree is made, where the
directories of the tree are placed with the names that lead to them. -/
structure Fits (root : FilePath) (importRoot : String) (m : FilesByDir)
    (placed : List (List String × PackageDir)) (dir : List String) (n : PackageDir) : Prop where
  stands : n.StandsAt root importRoot dir
  shortName : n.shortName = suggestedName n.importPath
  files : n.files = (m.lookup dir).getD []
  children : ∃ names : List String, names.Nodup ∧
    (∀ name, name ∈ names ↔ m.HasDir (dir ++ [name])) ∧
    List.Forall₂ (fun name child => (dir ++ [name], child) ∈ placed) names n.children
  ordered : n.children.Pairwise PackageDir.NotAfter

/-- A directory is there exactly if something lies in or below it. -/
lemma hasDir_concat : m.HasDir (dir ++ [name]) ↔ ∃ e ∈ m, dir ++ [name] <+: e.1 :=
  or_iff_right (List.concat_ne_nil name dir)

/-- A tree that is deep enough fits the map at its directory. -/
lemma fits_treeAt (hdepth : m.Within dir fuel) :
    Fits root importRoot m (placed root importRoot m fuel dir) dir
      (treeAt root importRoot m fuel dir) := by
  have htree := treeAt_eq root importRoot m fuel dir
  refine ⟨?_, ?_, ?_, ?_, pairwise_children_treeAt root importRoot m fuel dir⟩
  · rw [htree]
    exact ⟨rfl, rfl⟩
  · rw [htree]
    rfl
  · rw [htree]
    rfl
  · cases fuel with
    | zero =>
      rw [children_treeAt_zero]
      refine ⟨[], List.nodup_nil, fun name => ?_, .nil⟩
      rw [hasDir_concat]
      -- nothing lies deeper than the tree goes
      refine iff_of_false List.not_mem_nil ?_
      rintro ⟨e, he, hpre⟩
      have hlength := hpre.length_le.trans (hdepth e he ((List.prefix_append ..).trans hpre))
      rw [List.length_append, List.length_singleton] at hlength
      omega
    | succ fuel =>
      rw [children_treeAt_succ]
      refine ⟨sortedNames root importRoot m fuel dir, nodup_sortedNames fuel dir,
        fun name => ?_, ?_⟩
      · rw [hasDir_concat, mem_sortedNames]
      · rw [List.forall₂_map_right_iff, List.forall₂_same]
        intro name hname
        exact List.mem_cons_of_mem _ (List.mem_flatMap.2 ⟨name, hname, self_mem_placed fuel _⟩)

/-- What fits among some rows fits among more of them. -/
lemma Fits.mono {rows rows' : List (List String × PackageDir)} (hsub : rows ⊆ rows')
    (h : Fits root importRoot m rows dir n) : Fits root importRoot m rows' dir n := by
  obtain ⟨names, hnodup, hnames, hchildren⟩ := h.children
  exact { h with children := ⟨names, hnodup, hnames, hchildren.imp fun _ _ hmem => hsub hmem⟩ }

/-- The directories with files are those of the files. -/
lemma packages_perm (hm : m.IsMap) {rows : List (List String × PackageDir)}
    (hdistinct : (rows.map Prod.fst).Nodup) (hdirs : ∀ dir, dir ∈ rows.map Prod.fst ↔ m.HasDir dir)
    (hfiles : ∀ p ∈ rows, p.2.files = (m.lookup p.1).getD []) :
    ((rows.filter (·.2.hasSources)).map fun p => (p.1, p.2.files)).Perm m := by
  have hnodup : ((rows.filter (·.2.hasSources)).map fun p => (p.1, p.2.files)).Nodup := by
    refine List.Nodup.of_map Prod.fst ?_
    rw [List.map_map]
    exact hdistinct.sublist (List.filter_sublist.map Prod.fst)
  -- neither side repeats anything, so it is enough to compare what is in them
  rw [List.perm_ext_iff_of_nodup hnodup hm.nodup]
  rintro ⟨dir, files⟩
  rw [List.mem_map]
  constructor
  · rintro ⟨p, hp, heq⟩
    cases heq
    obtain ⟨hp, hsources⟩ := List.mem_filter.1 hp
    have hne := PackageDir.hasSources_iff.1 hsources
    rw [hfiles p hp] at hne ⊢
    cases hlookup : m.lookup p.1 with
    | none => exact absurd (by rw [hlookup, Option.getD_none]) hne
    | some files => exact hm.lookup_eq_some_iff.1 hlookup
  · intro hmem
    obtain ⟨p, hp, rfl⟩ := List.mem_map.1 ((hdirs dir).2 (.inr ⟨_, hmem, List.prefix_rfl⟩))
    have hfiles : p.2.files = files := by
      rw [hfiles p hp, hm.lookup_eq_some_iff.2 hmem, Option.getD_some]
    have hsources := PackageDir.hasSources_iff.2 (hfiles ▸ hm.nonempty _ hmem)
    exact ⟨p, List.mem_filter.2 ⟨hp, hsources⟩, Prod.ext rfl hfiles⟩

/-- The tree that is made from files has a directory for the root, for each directory of a file and
for each one above it, just one for each, and no others. It stands where the names lead and has the
files that are in it, in their order, and the trees of the directories directly in it, sorted by
name and place. The packages are the directories with files, so that each file is in one of them
just once; those of a tree are its own directory, if it is one, and then those of the trees in it,
one tree after another. -/
theorem toTree_places (root : FilePath) (importRoot : String) (hm : m.IsMap) :
    ∃ rows : List (List String × PackageDir),
      rows.map Prod.snd = (m.toTree root importRoot).nodes ∧ (rows.map Prod.fst).Nodup ∧
      (∀ dir, dir ∈ rows.map Prod.fst ↔ m.HasDir dir) ∧
      (∀ p ∈ rows, Fits root importRoot m rows p.1 p.2) ∧
      (m.toTree root importRoot).packages = (rows.filter (·.2.hasSources)).map Prod.snd ∧
      ((rows.filter (·.2.hasSources)).map fun p => (p.1, p.2.files)).Perm m ∧
      ∀ n : PackageDir, n.packages =
        (if n.hasSources then [n] else []) ++ n.children.flatMap PackageDir.packages := by
  have htree : m.toTree root importRoot = treeAt root importRoot m m.depth [] :=
    m.toTree_eq root importRoot hm
  have hnodes : (placed root importRoot m m.depth []).map Prod.snd =
      (treeAt root importRoot m m.depth []).nodes := map_snd_placed m.depth []
  have hdirs (dir : List String) :
      dir ∈ (placed root importRoot m m.depth []).map Prod.fst ↔ m.HasDir dir := by
    rw [mem_placed m.within_depth, and_iff_right List.nil_prefix, HasDir]
  have hfits : ∀ p ∈ placed root importRoot m m.depth [],
      Fits root importRoot m (placed root importRoot m m.depth []) p.1 p.2 := by
    rintro ⟨dir, n⟩ hp
    obtain ⟨k, rfl, hdepth, hsub⟩ := treeAt_of_mem_placed m.within_depth hp
    exact (fits_treeAt hdepth).mono hsub
  rw [htree]
  refine ⟨_, hnodes, nodup_placed m.depth [], hdirs, hfits, ?_, ?_, PackageDir.packages_eq_append⟩
  · rw [PackageDir.packages_eq, ← hnodes, List.filter_map]
    rfl
  · exact packages_perm hm (nodup_placed m.depth []) hdirs fun p hp => (hfits p hp).files

namespace Neighbours

/-- Directories whose names begin alike, one of them above another one. -/
def files : FilesByDir :=
  [([], [⟨"/p/m.go"⟩]), (["a"], [⟨"/p/a/a.go"⟩]), (["a", "x"], [⟨"/p/a/x/x.go"⟩, ⟨"/p/a/x/y.go"⟩]),
    (["a-b"], [⟨"/p/a-b/b.go"⟩]), (["a.b", "z"], [⟨"/p/a.b/z/z.go"⟩])]

/-- Each file is in one package, and the directory without files is there too. -/
theorem neighbours_placed : files.IsMap ∧
    ((files.toTree ⟨"/p"⟩ "m").packages.flatMap PackageDir.files).Perm (files.flatMap Prod.snd) ∧
    ∃ n ∈ (files.toTree ⟨"/p"⟩ "m").nodes, n.importPath = "m/a.b" ∧ n.files = [] := by
  have hmap : files.IsMap := ⟨by decide +kernel, by decide +kernel⟩
  obtain ⟨rows, hnodes, -, hdirs, hfits, hpackages, hperm, -⟩ := toTree_places ⟨"/p"⟩ "m" hmap
  have hdir : files.HasDir ["a.b"] :=
    .inr ⟨(["a.b", "z"], [⟨"/p/a.b/z/z.go"⟩]), by decide, by decide⟩
  obtain ⟨⟨dir, n⟩, hn, rfl⟩ := List.mem_map.1 ((hdirs _).2 hdir)
  refine ⟨hmap, ?_, n, ?_, ?_, ?_⟩
  · have hflat := hperm.flatMap_right Prod.snd
    rwa [List.flatMap_map, ← List.flatMap_map (f := Prod.snd), ← hpackages] at hflat
  · exact hnodes ▸ List.mem_map_of_mem hn
  · exact (hfits _ hn).stands.1
  · exact (hfits _ hn).files

end Neighbours

end FilesByDir

end GoService.Project
