import GoService.Project.Layout
import GoService.Proofs.Project.Directories
import GoService.Proofs.Text.Pieces

/-!
# Import paths and directories

The import path of a directory of a project is made from the names that lead to it; the layout cuts
an import path into such names again and follows them from the root. Each way undoes the other, so
the layout expects each package of the project in the directory from which it was read, and that
directory is found again under its import path (`located_where_read`).
-/

namespace GoService.Text

/-! ## Pieces -/

/-- Pieces that each follow a separator are cut apart again, after an empty piece in front. -/
lemma splitString_separated {sep : Char} {us : List String} (h : ∀ u ∈ us, sep ∉ u.toList) :
    splitString sep (String.ofList (us.flatMap fun u => sep :: u.toList)) = "" :: us := by
  rw [splitString, String.toList_ofList]
  induction us with
  | nil => rfl
  | cons u us ih =>
    obtain ⟨hu, hus⟩ := List.forall_mem_cons.1 h
    have htail := ih hus
    rw [List.flatMap_cons, List.cons_append, split, if_pos rfl, List.map_cons]
    congr 1
    cases us with
    | nil =>
      rw [List.flatMap_nil, List.append_nil, split_of_notMem hu]
      exact congrArg (· :: []) String.ofList_toList
    | cons v us =>
      rw [List.flatMap_cons, List.cons_append, split, if_pos rfl, List.map_cons] at htail
      rw [List.flatMap_cons, List.cons_append, split_append_of_notMem hu, List.map_cons,
        String.ofList_toList, (List.cons.inj htail).2]

end GoService.Text

namespace GoService.Project

/-! ## Finding directories -/

namespace PackageDir

mutual

/-- Looking for an import path goes through the nodes in preorder. -/
lemma find?_eq (path : String) :
    (n : PackageDir) → n.find? path = n.nodes.find? fun n => n.importPath = path
  | node p s d fs cs => by
    rw [find?, nodes, List.find?_cons]
    by_cases hp : p = path
    · rw [if_pos hp, decide_eq_true (show (node p s d fs cs).importPath = path from hp)]
    · rw [if_neg hp, decide_eq_false (show ¬ (node p s d fs cs).importPath = path from hp)]
      exact findAny?_eq path cs

/-- Looking through several trees goes through their nodes one after another. -/
lemma findAny?_eq (path : String) : (ns : List PackageDir) →
    findAny? path ns = (nodesAll ns).find? fun n => n.importPath = path
  | [] => rfl
  | n :: ns => by
    rw [findAny?, nodesAll, List.find?_append, find?_eq path n, findAny?_eq path ns]

end

/-- A directory is found under its import path if no other one has it. -/
lemma find?_of_mem_nodes {tree n : PackageDir} (hdistinct : (tree.nodes.map importPath).Nodup)
    (hn : n ∈ tree.nodes) : tree.find? n.importPath = some n := by
  rw [find?_eq]
  obtain ⟨before, after, hnodes⟩ := List.append_of_mem hn
  rw [hnodes] at hdistinct ⊢
  rw [List.map_append, List.map_cons, List.nodup_append] at hdistinct
  have hbefore : ∀ m ∈ before, ¬ decide (m.importPath = n.importPath) = true := by
    intro m hm heq
    exact hdistinct.2.2 _ (List.mem_map_of_mem hm) _ (List.mem_cons_self ..) (of_decide_eq_true heq)
  rw [List.find?_append, List.find?_eq_none.2 hbefore, Option.none_or, List.find?_cons_of_pos]
  exact decide_eq_true rfl

end PackageDir

/-! ## Directories by the names that lead to them -/

/-- The directory that is reached from another one by following names. -/
def dirBelow (root : FilePath) (under : List String) : FilePath :=
  under.foldl FilePath.join root

/-- The directory stands where certain names lead, both by its place and by its import path. -/
def PackageDir.StandsAt (root : FilePath) (importRoot : String) (under : List String)
    (n : PackageDir) : Prop :=
  n.importPath = importPathBelow importRoot under ∧ n.dir = dirBelow root under

/-- Each directory of a tree stands where names lead that are among those of the files. -/
lemma FilesByDir.exists_standsAt (root : FilePath) (importRoot : String) {names : List String}
    (fuel : Nat) {under : List String} (hunder : under ⊆ names) {m : FilesByDir}
    (hm : m.Named names) : ∀ n ∈ (toNode root importRoot fuel under m).nodes,
      ∃ us ⊆ names, n.StandsAt root importRoot us := by
  induction fuel generalizing under m with
  | zero =>
    rw [toNode, PackageDir.nodes, List.mergeSort_nil]
    intro n hn
    cases List.mem_singleton.1 hn
    exact ⟨under, hunder, rfl, rfl⟩
  | succ fuel ih =>
    rw [toNode, PackageDir.nodes, PackageDir.nodesAll_eq]
    intro n hn
    rcases List.mem_cons.1 hn with rfl | hn
    · exact ⟨under, hunder, rfl, rfl⟩
    · obtain ⟨child, hchild, hn⟩ := List.mem_flatMap.1 hn
      obtain ⟨name, hname, rfl⟩ := List.mem_map.1 (List.mem_mergeSort.1 hchild)
      have hinner : under ++ [name] ⊆ names :=
        List.append_subset.2 ⟨hunder, List.cons_subset.2 ⟨hm.childNames hname, List.nil_subset _⟩⟩
      exact ih hinner (hm.child name) n hn

/-! ## From an import path to the directory -/

/-- No name is empty and none has a slash, as names in a file system are. -/
structure FileTree.ProperNames (files : FileTree) : Prop where
  plain : files.PlainNames
  nonempty : ∀ name ∈ files.entryNames, name ≠ ""

/-- The names after the module's own path are those that lead to the directory. -/
lemma drop_importPathBelow (importRoot : String) (under : List String) :
    String.ofList ((importPathBelow importRoot under).toList.drop importRoot.length) =
      String.ofList (under.flatMap fun name => '/' :: name.toList) := by
  rw [toList_importPathBelow, ← String.length_toList, List.drop_left]

/-- The import path of a directory of the project is covered by its module. -/
lemma covers_importPathBelow (m : Manifest) (under : List String) :
    m.covers (importPathBelow m.name under) = true := by
  rw [Manifest.covers, Manifest.hasPathPrefix, toList_importPathBelow, ← String.length_toList,
    List.drop_left, Bool.and_eq_true]
  refine ⟨List.isPrefixOf_iff_prefix.2 (List.prefix_append ..), ?_⟩
  cases under with
  | nil => rfl
  | cons name under => rfl

/-- The names behind the module's name lead from the root to the directory. -/
lemma joinPieces_separated {root : FilePath} {under : List String}
    (hplain : ∀ u ∈ under, '/' ∉ u.toList) (hnonempty : ∀ u ∈ under, u ≠ "") :
    root.joinPieces (String.ofList (under.flatMap fun name => '/' :: name.toList)) =
      dirBelow root under := by
  have hkept : under.filter (fun u => !u.isEmpty) = under :=
    List.filter_eq_self.2 fun u hu => by simpa using hnonempty u hu
  rw [FilePath.joinPieces, Text.splitString_separated hplain, List.filter_cons_of_neg (by simp),
    hkept, dirBelow]

/-- The layout expects a directory of the own module where the names in its import path lead. -/
lemma Layout.expected?_importPathBelow (l : Layout) {under : List String}
    (hplain : ∀ u ∈ under, '/' ∉ u.toList) (hnonempty : ∀ u ∈ under, u ≠ "") :
    l.expected? (importPathBelow l.manifest.name under) =
      some ⟨dirBelow l.root under, l.manifest.name⟩ := by
  rw [expected?, if_pos (covers_importPathBelow l.manifest under)]
  dsimp only
  rw [drop_importPathBelow, joinPieces_separated hplain hnonempty]

/-- The directories of a project have different import paths, each of them is found under its own,
and the layout of the project expects it where it was read, as a part of the project's module. -/
theorem located_where_read {files : FileTree} (hfiles : files.ProperNames) {l : Layout}
    {tree : PackageDir} (h : packageTree files l.root l.manifest.name = .ok tree) :
    (tree.nodes.map PackageDir.importPath).Nodup ∧ ∀ n ∈ tree.nodes,
      l.expected? n.importPath = some ⟨n.dir, l.manifest.name⟩ ∧
      tree.find? n.importPath = some n := by
  have hdistinct := nodup_importPaths_nodes hfiles.plain h
  refine ⟨hdistinct, fun n hn => ⟨?_, PackageDir.find?_of_mem_nodes hdistinct hn⟩⟩
  obtain ⟨m, hnamed, rfl⟩ := named_of_packageTree h
  obtain ⟨us, hus, hpath, hdir⟩ :=
    m.exists_standsAt l.root l.manifest.name m.depth (List.nil_subset _) hnamed n hn
  rw [hpath, hdir]
  exact l.expected?_importPathBelow (fun u hu => hfiles.plain u (hus hu))
    fun u hu => hfiles.nonempty u (hus hu)

/-! ## A directory with the name of the module -/

namespace Namesake

/-- A module with the name of two of its directories, one in the other. -/
def files : FileTree :=
  .dir [("app", .dir [("a.go", .file .empty), ("m", .dir [("m", .dir [("b.go", .file .empty)])])])]

/-- The layout of the project. -/
def layout : Layout :=
  ⟨⟨"/app"⟩, ⟨"m", none, none, [], []⟩, none, none, false⟩

/-- A directory of the project as a walk opens it. -/
def openDir (names : List String) (path : String) (under : List String) : OpenDir :=
  ⟨names, ⟨path⟩, under, ((files.at? names).map FileTree.entries).getD []⟩

/-- The entries of the root are in order. -/
lemma sortedEntries_app : (openDir ["app"] "/app" []).sortedEntries =
    (openDir ["app"] "/app" []).entries :=
  List.mergeSort_of_pairwise (by decide +kernel)

/-- The entries of the outer directory are in order. -/
lemma sortedEntries_m : (openDir ["app", "m"] "/app/m" ["m"]).sortedEntries =
    (openDir ["app", "m"] "/app/m" ["m"]).entries :=
  List.mergeSort_singleton ..

/-- The entries of the inner directory are in order. -/
lemma sortedEntries_inner : (openDir ["app", "m", "m"] "/app/m/m" ["m", "m"]).sortedEntries =
    (openDir ["app", "m", "m"] "/app/m/m" ["m", "m"]).entries :=
  List.mergeSort_singleton ..

/-- A walk in the inner directory meets its file. -/
lemma below_inner (n : Nat) (ancestors : List OpenDir) :
    (openDir ["app", "m", "m"] "/app/m/m" ["m", "m"]).below files WalkEntry.isLeftOut (n + 1)
      ancestors = [.ok ⟨⟨"/app/m/m/b.go"⟩, "b.go", ["m", "m"], false⟩] := by
  rw [OpenDir.below, sortedEntries_inner]
  rfl

/-- A walk in the outer directory meets the inner one and what is in it. -/
lemma below_m (n : Nat) (ancestors : List OpenDir) :
    (openDir ["app", "m"] "/app/m" ["m"]).below files WalkEntry.isLeftOut (n + 2) ancestors =
      [.ok ⟨⟨"/app/m/m"⟩, "m", ["m"], true⟩, .ok ⟨⟨"/app/m/m/b.go"⟩, "b.go", ["m", "m"], false⟩] := by
  rw [OpenDir.below, sortedEntries_m]
  exact congrArg (fun r => .ok ⟨⟨"/app/m/m"⟩, "m", ["m"], true⟩ :: (r ++ [])) (below_inner n _)

/-- A walk of the project meets both files and both directories. -/
lemma walk_app : files.walk WalkEntry.isLeftOut ⟨"/app"⟩ =
    [.ok ⟨⟨"/app/a.go"⟩, "a.go", [], false⟩, .ok ⟨⟨"/app/m"⟩, "m", [], true⟩,
      .ok ⟨⟨"/app/m/m"⟩, "m", ["m"], true⟩, .ok ⟨⟨"/app/m/m/b.go"⟩, "b.go", ["m", "m"], false⟩] := by
  have hstart : files.walkStart ⟨"/app"⟩ = .ok (some (openDir ["app"] "/app" [])) := rfl
  rw [FileTree.walk, hstart]
  dsimp only
  rw [show (files.weight + 1) * (files.weight + 1) = 46 + 3 from rfl, OpenDir.below,
    sortedEntries_app]
  exact congrArg (fun r => .ok ⟨⟨"/app/a.go"⟩, "a.go", [], false⟩ ::
    .ok ⟨⟨"/app/m"⟩, "m", [], true⟩ :: (r ++ [])) (below_m 46 _)

/-- The packages of the project. -/
def tree : PackageDir :=
  .node "m" "m" ⟨"/app"⟩ [⟨"/app/a.go"⟩]
    [.node "m/m" "m" ⟨"/app/m"⟩ [] [.node "m/m/m" "m" ⟨"/app/m/m"⟩ [⟨"/app/m/m/b.go"⟩] []]]

/-- The inner directory has no further ones. -/
lemma toNode_inner (own : List FilePath) :
    FilesByDir.toNode ⟨"/app"⟩ "m" 0 ["m", "m"] [([], own)] =
      .node "m/m/m" "m" ⟨"/app/m/m"⟩ own [] := by
  have hname : suggestedName "m/m/m" = "m" := by decide +kernel
  show PackageDir.node "m/m/m" (suggestedName "m/m/m") _ own ([].mergeSort _) = _
  rw [hname, List.mergeSort_nil]
  rfl

/-- The outer directory has the inner one. -/
lemma toNode_m (own : List FilePath) :
    FilesByDir.toNode ⟨"/app"⟩ "m" 1 ["m"] [(["m"], own)] =
      .node "m/m" "m" ⟨"/app/m"⟩ [] [.node "m/m/m" "m" ⟨"/app/m/m"⟩ own []] := by
  have hname : suggestedName "m/m" = "m" := by decide +kernel
  show PackageDir.node "m/m" (suggestedName "m/m") _ []
    ([FilesByDir.toNode ⟨"/app"⟩ "m" 0 ["m", "m"] [([], own)]].mergeSort _) = _
  rw [hname, List.mergeSort_singleton, toNode_inner]
  rfl

/-- The tree of packages is that of the walk. -/
lemma packageTree_app : packageTree files ⟨"/app"⟩ "m" = .ok tree := by
  have hdir : files.isDir ⟨"/app"⟩ = true := by decide +kernel
  have hname : suggestedName "m" = "m" := by decide +kernel
  have hcollect : collectSources [] (files.walk WalkEntry.isLeftOut ⟨"/app"⟩) =
      .ok [([], [⟨"/app/a.go"⟩]), (["m", "m"], [⟨"/app/m/m/b.go"⟩])] := by
    rw [walk_app]
    decide +kernel
  rw [packageTree, if_pos hdir, hcollect]
  show Except.ok (PackageDir.node "m" (suggestedName "m") _ [⟨"/app/a.go"⟩]
    ([FilesByDir.toNode ⟨"/app"⟩ "m" 1 ["m"] [(["m"], [⟨"/app/m/m/b.go"⟩])]].mergeSort _)) = _
  rw [hname, List.mergeSort_singleton, toNode_m]
  rfl

/-- The directories of the project have import paths that are different, and are expected and found
under these, as those of any project. -/
theorem namesake_located : files.ProperNames ∧ packageTree files layout.root "m" = .ok tree ∧
    tree.nodes.map PackageDir.importPath = ["m", "m/m", "m/m/m"] ∧
    (tree.nodes.map PackageDir.importPath).Nodup ∧ ∀ n ∈ tree.nodes,
      layout.expected? n.importPath = some ⟨n.dir, "m"⟩ ∧ tree.find? n.importPath = some n := by
  have hproper : files.ProperNames := ⟨by decide, by decide⟩
  exact ⟨hproper, packageTree_app, rfl, located_where_read (l := layout) hproper packageTree_app⟩

end Namesake

end GoService.Project
