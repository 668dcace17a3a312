import GoService.Proofs.Project.FilesByDir
import Mathlib.Data.List.Nodup

/-!
# The directories of a project

Where the names in a file tree have no slashes, the directories of a project have different import
paths (`importPaths_nodup`): the names that lead from the root of the project to a directory can be
read off its import path (`importPathBelow_injective`), and they come from the tree
(`under_subset_of_walk`).
-/

namespace GoService.Project

/-! ## Names in a tree -/

namespace FileTree

mutual

/-- The names of the entries at any depth. -/
def entryNames : FileTree → List String
  | dir es => entryNamesOf es
  | file _ | link _ => []

/-- The names of the entries of a directory and of those below them. -/
def entryNamesOf : List (String × FileTree) → List String
  | [] => []
  | (name, t) :: es => name :: entryNames t ++ entryNamesOf es

end

/-- No name has a slash, as names in a file system are. -/
def PlainNames (files : FileTree) : Prop :=
  ∀ name ∈ files.entryNames, '/' ∉ name.toList

instance (files : FileTree) : Decidable files.PlainNames :=
  inferInstanceAs (Decidable (∀ name ∈ files.entryNames, '/' ∉ name.toList))

variable {files node : FileTree} {es : List (String × FileTree)}

/-- The names in an entry, its own included, are among those of its directory. -/
lemma entryNames_of_mem {e : String × FileTree} (h : e ∈ es) :
    e.1 ∈ entryNamesOf es ∧ e.2.entryNames ⊆ entryNamesOf es := by
  induction es with
  | nil => cases h
  | cons e' es ih =>
    obtain ⟨name, t⟩ := e'
    rw [entryNamesOf]
    rcases List.mem_cons.1 h with rfl | h
    · exact ⟨List.mem_cons_self .., fun n hn =>
        List.mem_append_left _ (List.mem_cons_of_mem _ hn)⟩
    · exact ⟨List.mem_append_right _ (ih h).1, fun n hn => List.mem_append_right _ ((ih h).2 hn)⟩

/-- The names below a node are among those of the tree. -/
lemma entryNames_subset_of_at? {names : List String} (h : files.at? names = some node) :
    node.entryNames ⊆ files.entryNames := by
  induction names generalizing files with
  | nil =>
    obtain rfl := Option.some.inj h
    exact List.Subset.refl _
  | cons name names ih =>
    rw [at?] at h
    split at h
    · next child hchild =>
      cases files with
      | dir es =>
        obtain ⟨before, after, heq, -⟩ := List.lookup_eq_some_iff.1 hchild
        have hmem : (name, child) ∈ (dir es).entries :=
          heq ▸ List.mem_append_right _ (List.mem_cons_self ..)
        exact List.Subset.trans (ih h) (entryNames_of_mem hmem).2
      | file _ => cases hchild
      | link _ => cases hchild
    · cases h

/-- The names below the node that a path leads to are among those of the tree. -/
lemma entryNames_subset_of_lookup {p : FilePath} {place : Place} (h : files.lookup p = .ok place) :
    place.node.entryNames ⊆ files.entryNames :=
  entryNames_subset_of_at? (at?_of_lookup h)

end FileTree

/-! ## Names on a walk -/

/-- What is below an open directory, and the names that lead to it, are those of a tree. -/
structure OpenDir.Within (files : FileTree) (d : OpenDir) : Prop where
  entries : FileTree.entryNamesOf d.entries ⊆ files.entryNames
  under : d.under ⊆ files.entryNames

namespace OpenDir

variable {files : FileTree} {ancestors : List OpenDir} {d : OpenDir} {e : String × FileTree}

/-- The sorted entries are entries. -/
lemma mem_entries_of_mem_sortedEntries (h : e ∈ d.sortedEntries) : e ∈ d.entries :=
  List.mem_mergeSort.1 h

/-- The directory that stands at an entry or to which the entry leads. -/
structure Inner (files : FileTree) (ancestors : List OpenDir) (d : OpenDir)
    (e : String × FileTree) (i : OpenDir) : Prop where
  path : i.path = d.path.join e.1
  under : i.under = d.under ++ [e.1]
  entered : (e.2 = .dir i.entries ∧ i.names = d.names ++ [e.1]) ∨
    ((∃ target, e.2 = .link target) ∧
      files.lookup (d.path.join e.1) = .ok ⟨i.names, .dir i.entries⟩ ∧
      ∀ a ∈ ancestors, a.names ≠ i.names)

/-- What is seen of an entry when nothing goes wrong. -/
lemma visit_eq_ok {entry : WalkEntry} {inner : Option OpenDir}
    (h : visit files ancestors d e = .ok (entry, inner)) :
    entry = ⟨d.path.join e.1, e.1, d.under, inner.isSome⟩ ∧
      ∀ i ∈ inner, Inner files ancestors d e i := by
  obtain ⟨name, node⟩ := e
  rw [visit] at h
  cases node with
  | file _ =>
    cases h
    exact ⟨rfl, fun i hi => nomatch hi⟩
  | dir es =>
    cases h
    refine ⟨rfl, ?_⟩
    rintro _ ⟨⟩
    exact ⟨rfl, rfl, .inl ⟨rfl, rfl⟩⟩
  | link target =>
    dsimp only at h
    split at h
    · cases h
    · next names es hplace =>
      split at h
      · cases h
      · next hfind =>
        cases h
        refine ⟨rfl, ?_⟩
        rintro _ ⟨⟩
        refine ⟨rfl, rfl, .inr ⟨⟨target, rfl⟩, hplace, fun a ha => ?_⟩⟩
        simpa using List.find?_eq_none.1 hfind a ha
    · cases h
      exact ⟨rfl, fun i hi => nomatch hi⟩

/-- An entry of a directory stands under the same names, and names only one more lead to a directory
in it. -/
lemma Within.visit (hd : d.Within files) (he : e ∈ d.entries) {entry : WalkEntry}
    {inner : Option OpenDir} (h : OpenDir.visit files ancestors d e = .ok (entry, inner)) :
    entry.under = d.under ∧ ∀ i ∈ inner, i.Within files := by
  obtain ⟨hname, hbelow⟩ := FileTree.entryNames_of_mem he
  have hunder : d.under ++ [e.1] ⊆ files.entryNames :=
    List.append_subset.2 ⟨hd.under, List.cons_subset.2 ⟨hd.entries hname, List.nil_subset _⟩⟩
  obtain ⟨rfl, hinner⟩ := visit_eq_ok h
  refine ⟨rfl, fun i hi => ?_⟩
  obtain ⟨-, hnames, hentered⟩ := hinner i hi
  refine ⟨?_, hnames ▸ hunder⟩
  rcases hentered with ⟨hdir, -⟩ | ⟨-, hplace, -⟩
  · rw [hdir] at hbelow
    exact List.Subset.trans hbelow hd.entries
  · exact FileTree.entryNames_subset_of_lookup hplace

/-- The names on the way to what a walk meets are names of the tree. -/
lemma Within.under_of_below (hd : d.Within files) {skip : WalkEntry → Bool} {fuel : Nat}
    {ancestors : List OpenDir} {entry : WalkEntry}
    (h : .ok entry ∈ d.below files skip fuel ancestors) : entry.under ⊆ files.entryNames := by
  induction fuel generalizing d ancestors with
  | zero => cases h
  | succ fuel ih =>
    rw [below] at h
    obtain ⟨e, he, h⟩ := List.mem_flatMap.1 h
    split at h
    · cases List.mem_singleton.1 h
    · next entry' inner hvisit =>
      obtain ⟨hunder, hinner⟩ := hd.visit (mem_entries_of_mem_sortedEntries he) hvisit
      have hentry : entry'.under ⊆ files.entryNames := hunder ▸ hd.under
      split at h
      · cases h
      · split at h
        · cases List.mem_singleton.1 h
          exact hentry
        · next i =>
          rcases List.mem_cons.1 h with h | h
          · cases h
            exact hentry
          · split at h
            · cases List.mem_singleton.1 h
            · exact ih (hinner i rfl) h

end OpenDir

/-- The names that lead from the start of a walk to an entry are names in the tree. -/
theorem under_subset_of_walk {files : FileTree} {skip : WalkEntry → Bool} {start : FilePath}
    {entry : WalkEntry} (h : .ok entry ∈ files.walk skip start) :
    entry.under ⊆ files.entryNames := by
  rw [FileTree.walk, FileTree.walkStart] at h
  cases hplace : files.lookup start with
  | error e =>
    rw [hplace] at h
    cases List.mem_singleton.1 h
  | ok place =>
    obtain ⟨names, node⟩ := place
    rw [hplace] at h
    have hnode := FileTree.entryNames_subset_of_lookup hplace
    cases node with
    | dir es =>
      have hd : OpenDir.Within files ⟨names, start, [], es⟩ := ⟨hnode, List.nil_subset _⟩
      exact hd.under_of_below h
    | file _ => cases h
    | link _ => cases h

namespace FilesByDir

variable {m m' : FilesByDir} {names : List String}

/-- The files are in directories to which names from a list lead. -/
def Named (names : List String) (m : FilesByDir) : Prop :=
  ∀ e ∈ m, e.1 ⊆ names

/-- A file comes into a directory with names that are known. -/
lemma Named.add (h : m.Named names) {dir : List String} (hdir : dir ⊆ names) (file : FilePath) :
    (m.add dir file).Named names := by
  intro e he
  rcases mem_add he with ⟨rfl, -⟩ | he
  · exact hdir
  · exact h e he

/-- The directories below one have known names. -/
lemma Named.child (h : m.Named names) (name : String) : (m.child name).Named names := by
  intro e he
  obtain ⟨⟨under, files⟩, hmem, he⟩ := List.mem_filterMap.1 he
  cases under with
  | nil => cases he
  | cons head rest =>
    dsimp only at he
    split at he
    · cases he
      exact fun n hn => h _ hmem (List.mem_cons_of_mem _ hn)
    · cases he

/-- The names of the directories directly below are known. -/
lemma Named.childNames (h : m.Named names) : m.childNames ⊆ names := by
  intro name hname
  obtain ⟨e, he, hhead⟩ := List.mem_filterMap.1 (List.mem_eraseDups.1 hname)
  exact h e he (List.mem_of_mem_head? hhead)

end FilesByDir

/-- Files that are collected from a walk are in directories with names of the tree. -/
lemma named_of_collectSources {names : List String} {m m' : FilesByDir}
    {met : List (Except WalkError WalkEntry)} (hm : m.Named names)
    (hmet : ∀ e, .ok e ∈ met → e.under ⊆ names) (h : collectSources m met = .ok m') :
    m'.Named names := by
  induction met generalizing m with
  | nil =>
    cases h
    exact hm
  | cons r met ih =>
    have hrest : ∀ e, .ok e ∈ met → e.under ⊆ names :=
      fun e he => hmet e (List.mem_cons_of_mem _ he)
    cases r with
    | error e =>
      rw [collectSources] at h
      split at h
      · exact ih hm hrest h
      · cases h
    | ok e =>
      rw [collectSources] at h
      refine ih ?_ hrest h
      split
      · exact hm.add (hmet e (List.mem_cons_self ..)) e.path
      · exact hm

/-! ## Import paths -/

/-- The import path of the directory to which names lead from the root of a project. -/
def importPathBelow (importRoot : String) (under : List String) : String :=
  under.foldl (fun p name => p ++ "/" ++ name) importRoot

/-- An import path is the root's with the names of the directories behind slashes. -/
lemma toList_importPathBelow (importRoot : String) (under : List String) :
    (importPathBelow importRoot under).toList =
      importRoot.toList ++ under.flatMap fun name => '/' :: name.toList := by
  induction under generalizing importRoot with
  | nil => simp [importPathBelow]
  | cons name under ih =>
    have hstep : importPathBelow importRoot (name :: under) =
        importPathBelow (importRoot ++ "/" ++ name) under := rfl
    rw [hstep, ih]
    simp

/-- Names behind separators do not begin with a text without the separator. -/
lemma eq_nil_of_flatMap_separated {sep : Char} {us : List String} {cs rest : List Char}
    (hcs : sep ∉ cs) (h : (us.flatMap fun u => sep :: u.toList) = cs ++ rest) : cs = [] := by
  cases cs with
  | nil => rfl
  | cons c cs =>
    cases us with
    | nil => cases h
    | cons u us =>
      obtain ⟨rfl, -⟩ := List.cons.inj h
      exact absurd (List.mem_cons_self ..) hcs

/-- Pieces without a separator can be read off the text in which each of them follows one. -/
lemma flatMap_separated_injective {sep : Char} {us vs : List String}
    (hus : ∀ u ∈ us, sep ∉ u.toList) (hvs : ∀ v ∈ vs, sep ∉ v.toList)
    (h : (us.flatMap fun u => sep :: u.toList) = vs.flatMap fun v => sep :: v.toList) :
    us = vs := by
  induction us generalizing vs with
  | nil =>
    cases vs with
    | nil => rfl
    | cons v vs => cases h
  | cons u us ih =>
    cases vs with
    | nil => cases h
    | cons v vs =>
      obtain ⟨hu, hus⟩ := List.forall_mem_cons.1 hus
      obtain ⟨hv, hvs⟩ := List.forall_mem_cons.1 hvs
      obtain ⟨-, htail⟩ := List.cons.inj h
      -- one of the first pieces begins with the other, and what it has more begins the rest
      rcases List.append_eq_append_iff.1 htail with ⟨more, hmore, hrest⟩ | ⟨more, hmore, hrest⟩
      · have hnil : more = [] :=
          eq_nil_of_flatMap_separated (fun hsep => hv (hmore ▸ List.mem_append_right _ hsep)) hrest
        subst hnil
        rw [List.append_nil] at hmore
        rw [String.toList_inj.1 hmore, ih hus hvs hrest]
      · have hnil : more = [] :=
          eq_nil_of_flatMap_separated (fun hsep => hu (hmore ▸ List.mem_append_right _ hsep)) hrest
        subst hnil
        rw [List.append_nil] at hmore
        rw [String.toList_inj.1 hmore, ih hus hvs hrest.symm]

/-- The names that lead to a directory can be read off its import path. -/
theorem importPathBelow_injective {importRoot : String} {us vs : List String}
    (hus : ∀ u ∈ us, '/' ∉ u.toList) (hvs : ∀ v ∈ vs, '/' ∉ v.toList)
    (h : importPathBelow importRoot us = importPathBelow importRoot vs) : us = vs := by
  have htext := congrArg String.toList h
  rw [toList_importPathBelow, toList_importPathBelow] at htext
  exact flatMap_separated_injective hus hvs (List.append_cancel_left htext)

/-- The import path is that of a directory at the given names or below it. -/
def LiesBelow (importRoot : String) (under : List String) (importPath : String) : Prop :=
  ∃ us, under <+: us ∧ (∀ u ∈ us, '/' ∉ u.toList) ∧ importPath = importPathBelow importRoot us

namespace LiesBelow

variable {importRoot importPath name name' : String} {under : List String}

/-- A directory lies below itself. -/
lemma self (hunder : ∀ u ∈ under, '/' ∉ u.toList) :
    LiesBelow importRoot under (importPathBelow importRoot under) :=
  ⟨under, List.prefix_rfl, hunder, rfl⟩

/-- What lies below a directory lies below the one above it. -/
lemma parent (h : LiesBelow importRoot (under ++ [name]) importPath) :
    LiesBelow importRoot under importPath := by
  obtain ⟨us, hus, hplain, rfl⟩ := h
  exact ⟨us, (List.prefix_append ..).trans hus, hplain, rfl⟩

/-- Nothing lies below two directories that stand beside each other. -/
lemma name_unique (h : LiesBelow importRoot (under ++ [name]) importPath)
    (h' : LiesBelow importRoot (under ++ [name']) importPath) : name = name' := by
  obtain ⟨us, hus, hplain, rfl⟩ := h
  obtain ⟨us', hus', hplain', heq⟩ := h'
  obtain rfl := importPathBelow_injective hplain hplain' heq
  have hsame : under ++ [name] = under ++ [name'] :=
    (List.prefix_of_prefix_length_le hus hus' (by simp)).eq_of_length (by simp)
  exact List.singleton_inj.1 (List.append_cancel_left hsame)

/-- A directory does not lie below one of those in it. -/
lemma ne_self (h : LiesBelow importRoot (under ++ [name]) importPath)
    (hunder : ∀ u ∈ under, '/' ∉ u.toList) : importPath ≠ importPathBelow importRoot under := by
  obtain ⟨us, hus, hplain, rfl⟩ := h
  intro heq
  obtain rfl := importPathBelow_injective hplain hunder heq
  have hlength := hus.length_le
  simp only [List.length_append, List.length_singleton] at hlength
  omega

end LiesBelow

/-! ## Trees of packages -/

namespace PackageDir

mutual

/-- The directories of a tree, each before those below it. -/
def nodes : PackageDir → List PackageDir
  | node p s d fs cs => node p s d fs cs :: nodesAll cs

/-- The directories of several trees. -/
def nodesAll : List PackageDir → List PackageDir
  | [] => []
  | n :: ns => nodes n ++ nodesAll ns

end

/-- The nodes of several directories are those of each. -/
lemma nodesAll_eq (ns : List PackageDir) : nodesAll ns = ns.flatMap nodes := by
  induction ns with
  | nil => rfl
  | cons n ns ih => rw [nodesAll, ih, List.flatMap_cons]

/-- What is taken off the stack are the directories with source files, in the order of the trees. -/
lemma packagesOn_eq (stack : List PackageDir) :
    packagesOn stack = (nodesAll stack).filter hasSources := by
  have happend (ns ms : List PackageDir) : nodesAll (ns ++ ms) = nodesAll ns ++ nodesAll ms := by
    simp only [nodesAll_eq, List.flatMap_append]
  induction stack using packagesOn.induct with
  | case1 => rw [packagesOn, nodesAll, List.filter_nil]
  | case2 p s d fs cs stack hfs ih =>
    rw [packagesOn, if_pos hfs, ih, happend, nodesAll, nodes, List.cons_append,
      List.filter_cons_of_neg]
    simpa [hasSources, files] using hfs
  | case3 p s d fs cs stack hfs ih =>
    rw [packagesOn, if_neg hfs, ih, happend, nodesAll, nodes, List.cons_append,
      List.filter_cons_of_pos]
    simpa [hasSources, files] using hfs

/-- The packages are the directories with source files. -/
lemma packages_eq (n : PackageDir) : n.packages = n.nodes.filter hasSources := by
  rw [packages, packagesOn_eq, nodesAll, nodesAll, List.append_nil]

end PackageDir

/-- Directories with different import paths that lie at a directory or below it. -/
structure Spread (importRoot : String) (under : List String) (ns : List PackageDir) : Prop where
  below : ∀ n ∈ ns, LiesBelow importRoot under n.importPath
  distinct : (ns.map PackageDir.importPath).Nodup

/-- What lies below directories that stand beside each other has different import paths. -/
lemma nodup_beside {importRoot : String} {under names : List String} (hnames : names.Nodup)
    {child : String → PackageDir}
    (h : ∀ name ∈ names, Spread importRoot (under ++ [name]) (child name).nodes) :
    ((names.flatMap fun name => (child name).nodes).map PackageDir.importPath).Nodup := by
  rw [List.map_flatMap, List.nodup_flatMap]
  refine ⟨fun name hname => (h name hname).distinct, ?_⟩
  refine hnames.imp_of_mem fun {name name'} hname hname' hne => ?_
  intro path hpath hpath'
  obtain ⟨n, hn, rfl⟩ := List.mem_map.1 hpath
  obtain ⟨n', hn', heq⟩ := List.mem_map.1 hpath'
  have hbelow := (h name' hname').below n' hn'
  rw [heq] at hbelow
  exact hne (((h name hname).below n hn).name_unique hbelow)

/-- A directory with those in it, in whatever order these are. -/
lemma Spread.node {importRoot : String} {under names : List String}
    (hunder : ∀ u ∈ under, '/' ∉ u.toList) (hnames : names.Nodup) {child : String → PackageDir}
    (h : ∀ name ∈ names, Spread importRoot (under ++ [name]) (child name).nodes)
    {children : List PackageDir} (hchildren : children.Perm (names.map child))
    (shortName : String) (dir : FilePath) (files : List FilePath) :
    Spread importRoot under (PackageDir.node (importPathBelow importRoot under) shortName dir files
      children).nodes := by
  have hperm : (PackageDir.nodesAll children).Perm
      (names.flatMap fun name => (child name).nodes) := by
    have hsame := hchildren.flatMap_right PackageDir.nodes
    rwa [List.flatMap_map, ← PackageDir.nodesAll_eq] at hsame
  have hlies : ∀ n ∈ PackageDir.nodesAll children,
      ∃ name, LiesBelow importRoot (under ++ [name]) n.importPath := by
    intro n hn
    obtain ⟨name, hname, hn⟩ := List.mem_flatMap.1 (hperm.mem_iff.1 hn)
    exact ⟨name, (h name hname).below n hn⟩
  have hbelow : ∀ n ∈ PackageDir.nodesAll children, LiesBelow importRoot under n.importPath := by
    intro n hn
    obtain ⟨name, hn⟩ := hlies n hn
    exact hn.parent
  have hdistinct := (hperm.map PackageDir.importPath).nodup_iff.2 (nodup_beside hnames h)
  rw [PackageDir.nodes]
  refine ⟨List.forall_mem_cons.2 ⟨.self hunder, hbelow⟩, List.nodup_cons.2 ⟨?_, hdistinct⟩⟩
  intro hmem
  obtain ⟨n, hn, heq⟩ := List.mem_map.1 hmem
  obtain ⟨name, hn⟩ := hlies n hn
  exact hn.ne_self hunder heq

/-- The nodes of a tree of directories have import paths that tell where they lie. -/
lemma FilesByDir.spread_toNode (root : FilePath) (importRoot : String) {names : List String}
    (hnames : ∀ n ∈ names, '/' ∉ n.toList) (fuel : Nat) {under : List String}
    (hunder : under ⊆ names) {m : FilesByDir} (hm : m.Named names) :
    Spread importRoot under (toNode root importRoot fuel under m).nodes := by
  have hplain : ∀ u ∈ under, '/' ∉ u.toList := fun u hu => hnames u (hunder hu)
  induction fuel generalizing under m with
  | zero =>
    have hnone : ∀ name ∈ [], Spread importRoot (under ++ [name]) (default : PackageDir).nodes :=
      fun _ h => absurd h List.not_mem_nil
    exact Spread.node hplain List.nodup_nil hnone (List.mergeSort_perm ..) _ _ _
  | succ fuel ih =>
    refine Spread.node hplain m.nodup_childNames (fun name hname => ?_)
      (List.mergeSort_perm ..) _ _ _
    have hinner : under ++ [name] ⊆ names :=
      List.append_subset.2 ⟨hunder, List.cons_subset.2 ⟨hm.childNames hname, List.nil_subset _⟩⟩
    exact ih hinner (hm.child name) fun u hu => hnames u (hinner hu)

/-- A tree of packages is made from files in directories to which names in the file tree lead. -/
lemma named_of_packageTree {files : FileTree} {dir : FilePath} {importRoot : String}
    {tree : PackageDir} (h : packageTree files dir importRoot = .ok tree) :
    ∃ m : FilesByDir, m.Named files.entryNames ∧
      tree = m.toNode dir importRoot m.depth [] := by
  rw [packageTree] at h
  split at h
  · cases hm : collectSources [] (files.walk WalkEntry.isLeftOut dir) with
    | error e =>
      rw [hm] at h
      cases h
    | ok m =>
      rw [hm] at h
      cases h
      exact ⟨m, named_of_collectSources (fun _ h => absurd h List.not_mem_nil)
        (fun e he => under_subset_of_walk he) hm,
        m.toTree_eq dir importRoot (FilesByDir.isMap_nil.collectSources hm)⟩
  · cases h

/-- No two directories of a project have the same import path. -/
theorem nodup_importPaths_nodes {files : FileTree} (hfiles : files.PlainNames) {dir : FilePath}
    {importRoot : String} {tree : PackageDir} (h : packageTree files dir importRoot = .ok tree) :
    (tree.nodes.map PackageDir.importPath).Nodup := by
  obtain ⟨m, hnamed, rfl⟩ := named_of_packageTree h
  exact (m.spread_toNode dir importRoot hfiles m.depth (List.nil_subset _) hnamed).distinct

/-- No two packages of a project have the same import path. -/
theorem importPaths_nodup {files : FileTree} (hfiles : files.PlainNames) {dir : FilePath}
    {importRoot : String} {tree : PackageDir} (h : packageTree files dir importRoot = .ok tree) :
    (tree.packages.map PackageDir.importPath).Nodup := by
  rw [PackageDir.packages_eq]
  exact (nodup_importPaths_nodes hfiles h).sublist (List.filter_sublist.map _)

/-- A project whose source files all lie in its own directory has one package. -/
lemma packageTree_of_own {files : FileTree} {dir : FilePath} {importRoot : String}
    {own : List FilePath} (hdir : files.isDir dir)
    (h : collectSources [] (files.walk WalkEntry.isLeftOut dir) = .ok [([], own)]) :
    packageTree files dir importRoot =
      .ok (.node importRoot (suggestedName importRoot) dir own []) := by
  rw [packageTree, if_pos hdir, h]
  show Except.ok (FilesByDir.takeTree dir importRoot 0 [] [([], own)]).1 = _
  rw [FilesByDir.takeTree_zero, List.mergeSort_nil]
  rfl

end GoService.Project
