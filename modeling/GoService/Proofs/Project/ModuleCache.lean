import GoService.Project.Layout
import GoService.Proofs.Project.Components
import Mathlib

/-!
# Directories of a module cache

The copy of a module in a version lies below the cache where the escaped name and version lead, with
an `@` between them; a major version at the end of the name makes no difference. No two modules or
versions share a directory, not even where the case of letters does not count
(`cachedDir_distinct`).
-/

namespace GoService.Project

open Text FilePath

/-! ## Escaped capitals -/

/-- What a character is written as in an escaped text. -/
def escapedChar (c : Char) : List Char :=
  if c.isUpper then ['!', c.toLower] else [c]

/-- Escaping goes from character to character. -/
lemma toList_escapeCapitals (s : String) :
    (escapeCapitals s).toList = s.toList.flatMap escapedChar :=
  String.toList_ofList

/-- Escaping goes from text to text. -/
lemma escapeCapitals_append (s t : String) :
    escapeCapitals (s ++ t) = escapeCapitals s ++ escapeCapitals t := by
  rw [← String.toList_inj, String.toList_append, toList_escapeCapitals, toList_escapeCapitals,
    toList_escapeCapitals, String.toList_append, List.flatMap_append]

/-- A text without capitals is written as it is. -/
lemma escapeCapitals_of_not_isUpper {s : String} (h : ∀ c ∈ s.toList, ¬ c.isUpper = true) :
    escapeCapitals s = s := by
  rw [← String.toList_inj, toList_escapeCapitals]
  exact (List.flatMap_congr fun c hc => if_neg (h c hc)).trans (List.flatMap_singleton' _)

/-- No capitals are left in an escaped text. -/
lemma toLower_escapeCapitals (s : String) : (escapeCapitals s).toLower = escapeCapitals s := by
  have hchar : ∀ c ∈ (escapeCapitals s).toList, c.toLower = c := by
    intro c hc
    rw [toList_escapeCapitals] at hc
    obtain ⟨c', -, hc⟩ := List.mem_flatMap.1 hc
    rw [escapedChar] at hc
    split at hc
    · rcases List.mem_cons.1 hc with rfl | hc
      · rfl
      · rw [List.mem_singleton.1 hc]
        exact Char.toLower_toLower_eq_toLower _
    · next hupper =>
      rw [List.mem_singleton.1 hc]
      exact Char.toLower_eq_of_not_isUpper hupper
  rw [← String.toList_inj, String.toLower, String.toList_map, List.map_congr_left hchar,
    List.map_id']

/-- What is no letter is no capital letter. -/
lemma not_isUpper_of_not_isAlpha {c : Char} (h : c.isAlpha = false) : ¬ c.isUpper = true := by
  rw [Char.isAlpha, Bool.or_eq_false_iff] at h
  rw [h.1]
  exact Bool.false_ne_true

/-- Nothing but the character itself is made small to a character that is no letter. -/
lemma toLower_eq_iff {sep c : Char} (hletter : sep.isAlpha = false) :
    c.toLower = sep ↔ c = sep := by
  constructor
  · rintro rfl
    rw [Char.isAlpha_toLower_eq_isAlpha] at hletter
    exact (Char.toLower_eq_of_not_isUpper (not_isUpper_of_not_isAlpha hletter)).symm
  · rintro rfl
    exact Char.toLower_eq_of_not_isUpper (not_isUpper_of_not_isAlpha hletter)

/-- A character that is no letter, and no exclamation mark, is written for itself only. -/
lemma notMem_escapedChar {sep c : Char} (hmark : sep ≠ '!') (hletter : sep.isAlpha = false)
    (hc : sep ≠ c) : sep ∉ escapedChar c := by
  rw [escapedChar]
  split
  · refine List.not_mem_cons_of_ne_of_not_mem hmark (mt List.mem_singleton.1 fun h => hc ?_)
    exact ((toLower_eq_iff hletter).1 h.symm).symm
  · exact mt List.mem_singleton.1 hc

/-- Escaping adds nothing but marks and letters. -/
lemma notMem_escapeCapitals {sep : Char} {s : String} (hmark : sep ≠ '!')
    (hletter : sep.isAlpha = false) (h : sep ∉ s.toList) : sep ∉ (escapeCapitals s).toList := by
  rw [toList_escapeCapitals, List.mem_flatMap]
  rintro ⟨c, hc, hmem⟩
  exact notMem_escapedChar hmark hletter (fun heq => h (heq ▸ hc)) hmem

/-- Capital letters are different as small letters too. -/
lemma toLower_inj {c d : Char} (hc : c.isUpper = true) (hd : d.isUpper = true)
    (h : c.toLower = d.toLower) : c = d := by
  rw [← Char.toUpper_eq_of_not_isLower (Char.not_isLower_of_isUpper hc),
    ← Char.toUpper_eq_of_not_isLower (Char.not_isLower_of_isUpper hd),
    ← Char.toUpper_toLower_eq_toUpper, h, Char.toUpper_toLower_eq_toUpper]

/-- An exclamation mark is only written for a capital, so the first character can be read back. -/
lemma escapedChar_append_inj {c d : Char} {cs ds : List Char} (hc : c ≠ '!') (hd : d ≠ '!')
    (h : escapedChar c ++ cs = escapedChar d ++ ds) : c = d ∧ cs = ds := by
  rw [escapedChar, escapedChar] at h
  split at h
  · next hupper =>
    split at h
    · next hupper' =>
      obtain ⟨hlower, h⟩ := List.cons.inj (List.cons.inj h).2
      exact ⟨toLower_inj hupper hupper' hlower, h⟩
    · exact absurd (List.cons.inj h).1.symm hd
  · split at h
    · exact absurd (List.cons.inj h).1 hc
    · exact List.cons.inj h

/-- Names without marks are different when they are escaped. -/
lemma flatMap_escapedChar_inj {cs ds : List Char} (hcs : '!' ∉ cs) (hds : '!' ∉ ds)
    (h : cs.flatMap escapedChar = ds.flatMap escapedChar) : cs = ds := by
  have hne (c : Char) (rest : List Char) : escapedChar c ++ rest ≠ [] := by
    rw [escapedChar]
    split <;> exact List.cons_ne_nil _ _
  induction cs generalizing ds with
  | nil =>
    cases ds with
    | nil => rfl
    | cons d ds => exact absurd h.symm (hne d _)
  | cons c cs ih =>
    cases ds with
    | nil => exact absurd h (hne c _)
    | cons d ds =>
      obtain ⟨hc, hcs⟩ := not_or.1 (List.mem_cons.not.1 hcs)
      obtain ⟨hd, hds⟩ := not_or.1 (List.mem_cons.not.1 hds)
      obtain ⟨heq, h⟩ := escapedChar_append_inj (Ne.symm hc) (Ne.symm hd) h
      rw [heq, ih hcs hds h]

/-- Different texts are escaped differently. -/
lemma escapeCapitals_inj {s t : String} (hs : '!' ∉ s.toList) (ht : '!' ∉ t.toList)
    (h : escapeCapitals s = escapeCapitals t) : s = t := by
  rw [← String.toList_inj, toList_escapeCapitals, toList_escapeCapitals] at h
  exact String.toList_inj.1 (flatMap_escapedChar_inj hs ht h)

/-- Escaping leaves the slashes where they are. -/
lemma splitString_escapeCapitals (s : String) :
    splitString '/' (escapeCapitals s) = (splitString '/' s).map escapeCapitals := by
  have hslash : escapedChar '/' = ['/'] := rfl
  have hpieces := split_flatMap hslash
    (fun c hc => notMem_escapedChar (by decide) (by decide) (Ne.symm hc)) s.toList
  rw [splitString, toList_escapeCapitals, hpieces, splitString, List.map_map, List.map_map]
  refine List.map_congr_left fun p _ => ?_
  rw [Function.comp_apply, Function.comp_apply, escapeCapitals, String.toList_ofList]
  rfl

/-! ## Major versions -/

/-- A major version is split off only where there is one, behind the last slash. -/
lemma splitMajor_cases (name : String) : splitMajor name = (name, none) ∨
    ∃ base major, splitMajor name = (base, some major) ∧ name = base ++ "/" ++ major ∧
      isMajorSuffix major.toList = true := by
  rw [splitMajor]
  split
  · next c base hrest =>
    split
    · next hmajor =>
      refine .inr ⟨_, _, rfl, ?_, by rwa [String.toList_ofList]⟩
      obtain rfl : c = '/' := by
        have hhead := List.head?_dropWhile_not (· != '/') name.toList.reverse
        simpa [hrest] using hhead
      have hname := List.takeWhile_append_dropWhile (p := (· != '/')) (l := name.toList.reverse)
      rw [hrest] at hname
      have hreverse := congrArg List.reverse hname
      rw [List.reverse_append, List.reverse_cons, List.reverse_reverse] at hreverse
      rw [← String.toList_inj, String.toList_append, String.toList_append, String.toList_ofList,
        String.toList_ofList, String.toList_ofList, hreverse]
    · exact .inl rfl
  · exact .inl rfl

/-- A digit is no capital letter. -/
lemma not_isUpper_of_isDigit {c : Char} (h : c.isDigit = true) : ¬ c.isUpper = true := by
  simp only [Char.isDigit, Char.isUpper, Bool.and_eq_true, decide_eq_true_eq] at h ⊢
  exact fun hupper => absurd (UInt32.le_trans hupper.1 h.2) (by decide)

/-- A suffix with a major version has no characters but `v` and digits. -/
lemma eq_or_isDigit_of_isMajorSuffix {last : List Char} (h : isMajorSuffix last = true) :
    ∀ c ∈ last, c = 'v' ∨ c.isDigit = true := by
  rw [isMajorSuffix.eq_def] at h
  split at h
  · simp only [Bool.and_eq_true, List.all_eq_true] at h
    exact List.forall_mem_cons.2 ⟨.inl rfl, fun c hc => .inr (h.1.1.2 c hc)⟩
  · cases h

/-! ## Directories -/

/-- Whether or not its name ends in a major version, a module in a version is found below the cache
by the escaped name and version. -/
lemma cachedDir_eq_joinPieces (cache : FilePath) (name : String) {version : String}
    (hplain : '/' ∉ version.toList) : cachedDir cache name version =
      cache.joinPieces (escapeCapitals name ++ "@" ++ escapeCapitals version) := by
  rw [cachedDir]
  obtain hsplit | ⟨base, major, hsplit, rfl, hmajor⟩ := splitMajor_cases name
  · rw [hsplit]
    rfl
  · have hchars := eq_or_isDigit_of_isMajorSuffix hmajor
    have hupper : ∀ c ∈ major.toList, ¬ c.isUpper = true := fun c hc =>
      (hchars c hc).elim (fun h => by rw [h]; decide) not_isUpper_of_isDigit
    have hslash : '/' ∉ major.toList := fun hc => absurd (hchars '/' hc) (by decide)
    have hname : escapeCapitals (base ++ "/" ++ major) = escapeCapitals base ++ "/" ++ major := by
      rw [escapeCapitals_append, escapeCapitals_append, escapeCapitals_of_not_isUpper hupper]
      rfl
    have hlast : '/' ∉ (major ++ "@" ++ escapeCapitals version).toList := by
      simp only [String.toList_append, List.mem_append, not_or]
      exact ⟨⟨hslash, by decide⟩, notMem_escapeCapitals (by decide) (by decide) hplain⟩
    have hassoc : escapeCapitals base ++ "/" ++ major ++ "@" ++ escapeCapitals version =
        escapeCapitals base ++ "/" ++ (major ++ "@" ++ escapeCapitals version) := by
      simp only [String.append_assoc]
    rw [hsplit, hname, hassoc, joinPieces_slash (by simp) hlast]
    rfl

/-- Names and versions that a module in a cache can have. -/
structure Cacheable (name version : String) : Prop where
  elements : ∀ u ∈ splitString '/' name, IsName u
  nameUnmarked : '!' ∉ name.toList
  nameWhole : '@' ∉ name.toList
  versionPlain : '/' ∉ version.toList
  versionUnmarked : '!' ∉ version.toList
  versionWhole : '@' ∉ version.toList

/-- The path below a cache that belongs to a module in a version. -/
def cacheEntry (name version : String) : String :=
  escapeCapitals name ++ "@" ++ escapeCapitals version

section

variable {name version name' version' : String}

/-- The element with the version has an `@`, and the others are names as they are in the name. -/
lemma Cacheable.isName (h : Cacheable name version) :
    ∀ u ∈ splitString '/' (cacheEntry name version), IsName u := by
  have hplain : '/' ∉ ("@" ++ escapeCapitals version).toList := by
    rw [String.toList_append, List.mem_append, not_or]
    exact ⟨by decide, notMem_escapeCapitals (by decide) (by decide) h.versionPlain⟩
  obtain ⟨us, u, hname, hentry⟩ := exists_splitString_append hplain (escapeCapitals name)
  rw [splitString_escapeCapitals] at hname
  rw [cacheEntry, String.append_assoc, hentry]
  refine List.forall_mem_append.2 ⟨fun v hv => ?_, fun v hv => ?_⟩
  · obtain ⟨w, hw, rfl⟩ := List.mem_map.1 (hname ▸ List.mem_append_left [u] hv)
    have hunmarked : '!' ∉ w.toList := fun hc => h.nameUnmarked (mem_of_mem_splitString hw hc)
    have helement := h.elements w hw
    constructor
    · exact fun heq => helement.nonempty (escapeCapitals_inj (t := "") hunmarked (by decide) heq)
    · exact fun heq => helement.notCurrent (escapeCapitals_inj (t := ".") hunmarked (by decide) heq)
    · exact fun heq => helement.notParent (escapeCapitals_inj (t := "..") hunmarked (by decide) heq)
  -- no place is written with an `@`
  · rw [List.mem_singleton.1 hv]
    exact isName_of_mem (c := '@') (by simp) (by decide)

/-- The only `@` stands between the name and the version. -/
lemma Cacheable.cacheEntry_inj (h : Cacheable name version) (h' : Cacheable name' version')
    (heq : cacheEntry name version = cacheEntry name' version') :
    name = name' ∧ version = version' := by
  have hsplit {n v : String} : (cacheEntry n v).toList =
      (escapeCapitals n).toList ++ '@' :: (escapeCapitals v).toList := by
    simp [cacheEntry]
  have hat {s : String} (hs : '@' ∉ s.toList) : '@' ∉ (escapeCapitals s).toList :=
    notMem_escapeCapitals (by decide) (by decide) hs
  rw [← String.toList_inj, hsplit, hsplit, List.append_cons_inj_of_notMem (hat h.nameWhole)
    (hat h.versionWhole), String.toList_inj, String.toList_inj] at heq
  exact ⟨escapeCapitals_inj h.nameUnmarked h'.nameUnmarked heq.1,
    escapeCapitals_inj h.versionUnmarked h'.versionUnmarked heq.2.2⟩

end

/-! ## Where the case of letters does not count -/

/-- A text in small letters has the small letters of its characters. -/
lemma toList_toLower (s : String) : s.toLower.toList = s.toList.map Char.toLower :=
  String.toList_map

/-- Small letters go from text to text. -/
lemma toLower_append (s t : String) : (s ++ t).toLower = s.toLower ++ t.toLower := by
  simp only [← String.toList_inj, String.toList_append, toList_toLower, List.map_append]

namespace FilePath

/-- The path as it is compared where the case of ASCII letters does not count. -/
def ignoreCase (p : FilePath) : FilePath :=
  ⟨p.text.toLower⟩

/-- A path in small letters has its slash behind it. -/
lemma ignoreCase_slashed (p : FilePath) : p.ignoreCase.slashed = p.slashed.toLower := by
  have hempty : p.text.toLower.isEmpty = p.text.isEmpty := by
    rw [Bool.eq_iff_iff, String.isEmpty_iff, String.isEmpty_iff, ← String.toList_eq_nil_iff,
      toList_toLower, List.map_eq_nil_iff, String.toList_eq_nil_iff]
  have hslash (c : Char) : c.toLower = '/' ↔ c = '/' := toLower_eq_iff rfl
  have hlast : (p.text.toLower.toList.getLast? == some '/') =
      (p.text.toList.getLast? == some '/') := by
    rw [Bool.eq_iff_iff, beq_iff_eq, beq_iff_eq, toList_toLower, List.getLast?_map,
      Option.map_eq_some_iff]
    simp only [hslash, exists_eq_right]
  rw [slashed, slashed, ignoreCase, hempty, hlast]
  split
  · rfl
  · have hslash : "/".toLower = "/" := by decide +kernel
    rw [toLower_append, hslash]

/-- A path without capitals is followed in the same way. -/
lemma ignoreCase_join {p : FilePath} {rel : String} (hrel : rel.toList.head? ≠ some '/')
    (hsmall : rel.toLower = rel) : (p.join rel).ignoreCase = p.ignoreCase.join rel := by
  rw [join_of_relative hrel, join_of_relative hrel, ignoreCase_slashed, ignoreCase, toLower_append,
    hsmall]

end FilePath

/-- A name in the cache has no capital letters. -/
lemma toLower_cacheEntry (name version : String) :
    (cacheEntry name version).toLower = cacheEntry name version := by
  have hat : "@".toLower = "@" := by decide +kernel
  rw [cacheEntry, toLower_append, toLower_append, toLower_escapeCapitals, toLower_escapeCapitals,
    hat]

/-- A module in a version stands below the cache where its escaped name and version lead. Two of
them that differ have different directories, also where the case of letters does not count. -/
theorem cachedDir_distinct (cache : FilePath) {name version : String}
    (h : Cacheable name version) : cachedDir cache name version =
        cache.join (escapeCapitals name ++ "@" ++ escapeCapitals version) ∧
      ∀ name' version', Cacheable name' version' → (name, version) ≠ (name', version') →
        (cachedDir cache name version).ignoreCase.components ≠
          (cachedDir cache name' version').ignoreCase.components := by
  have hdir {n v : String} (h : Cacheable n v) :
      cachedDir cache n v = cache.join (cacheEntry n v) := by
    rw [cachedDir_eq_joinPieces cache n h.versionPlain, ← cacheEntry]
    exact joinPieces_eq_join fun u hu => (h.isName u hu).nonempty
  have hcomponents {n v : String} (h : Cacheable n v) :
      (cachedDir cache n v).ignoreCase.components =
        cache.ignoreCase.components ++ (splitString '/' (cacheEntry n v)).map .name := by
    rw [hdir h, ignoreCase_join (head?_ne_of_isName h.isName) (toLower_cacheEntry n v),
      components_join_of_isName h.isName]
  refine ⟨hdir h, fun name' version' h' hne heq => hne ?_⟩
  rw [hcomponents h, hcomponents h', List.append_cancel_left_eq] at heq
  have hpieces := List.map_injective_iff.2 (fun _ _ => Component.name.inj) heq
  have hentry : cacheEntry name version = cacheEntry name' version' := by
    rw [← intercalate_splitString (cacheEntry name version), hpieces, intercalate_splitString]
  obtain ⟨rfl, rfl⟩ := h.cacheEntry_inj h' hentry
  rfl

/-- Two versions of a module whose name ends in a major version, with capitals and without. -/
theorem capitals_distinct :
    cachedDir ⟨"/C"⟩ "x.io/Toml/v2" "v2.0.0-RC" = ⟨"/C/x.io/!toml/v2@v2.0.0-!r!c"⟩ ∧
      (cachedDir ⟨"/C"⟩ "x.io/Toml/v2" "v2.0.0-RC").ignoreCase.components ≠
        (cachedDir ⟨"/C"⟩ "x.io/toml/v2" "v2.0.0-rc").ignoreCase.components := by
  have hlarge : Cacheable "x.io/Toml/v2" "v2.0.0-RC" := by
    constructor <;> decide
  have hsmall : Cacheable "x.io/toml/v2" "v2.0.0-rc" := by
    constructor <;> decide
  obtain ⟨hdir, hdistinct⟩ := cachedDir_distinct ⟨"/C"⟩ hlarge
  exact ⟨hdir.trans (by decide +kernel), hdistinct _ _ hsmall (by decide)⟩

end GoService.Project
