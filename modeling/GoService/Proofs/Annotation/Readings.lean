import GoService.Package.Load
import GoService.Proofs.Annotation.Lines
import GoService.Proofs.Dictionaries

/-!
# Reading annotations line by line

What a reader of lines has found after some lines is its `Progress`, and one line takes it one step
further. The annotations of a text are those found on its lines, written one after another
(`ofText_eq`). A text in which every fence is closed leaves the reader where it began, so what comes
after it is read as a text of its own (`found_lines_append`). Hence the annotations of two texts,
one above the other, are those of the second written over those of the first, and the annotations of
a package are those of its documentation as one text (`annotations_of_stacked_texts`).
-/

namespace GoService.Annotations

/-- What is found after some lines, in order, and what the reader is doing. -/
structure Progress where
  found : List (String × String)
  reading : Reading

namespace Progress

/-- The start of a text. -/
def start : Progress := ⟨[], .prose⟩

/-- What a line adds. -/
def line (p : Progress) (l : List Char) : Progress :=
  match p.reading with
  | .prose =>
    match ofLine? l with
    | none => p
    | some (name, value) =>
      if value = fenceStart then { p with reading := .fenced name [] }
      else { p with found := p.found ++ [(String.ofList name, String.ofList value)] }
  | .fenced name body =>
    if Text.trim l = fenceEnd then ⟨p.found ++ [(String.ofList name, fenceValue body)], .prose⟩
    else { p with reading := .fenced name (l :: body) }

/-- What is found once the text is over: an open fence ends with it. -/
def finish (p : Progress) : List (String × String) :=
  match p.reading with
  | .prose => p.found
  | .fenced name body => p.found ++ [(String.ofList name, fenceValue body)]

/-! ## One line -/

section

variable {p : Progress} {es : List (String × String)} {l name value : List Char}
  {body : List (List Char)}

/-- Outside a fence a line that begins no annotation changes nothing. -/
lemma line_prose (h : ¬ Begins l) : line ⟨es, .prose⟩ l = ⟨es, .prose⟩ := by
  rw [line, ofLine?_eq_none_iff.2 h]

/-- A line whose value opens a fence begins an empty body. -/
lemma line_opening (h : Annotates l name fenceStart) :
    line ⟨es, .prose⟩ l = ⟨es, .fenced name []⟩ := by
  rw [line, ofLine?_of_annotates h]
  exact if_pos rfl

/-- A line with any other value is an annotation of its own. -/
lemma line_valued (h : Annotates l name value) (hvalue : value ≠ fenceStart) :
    line ⟨es, .prose⟩ l = ⟨es ++ [(String.ofList name, String.ofList value)], .prose⟩ := by
  rw [line, ofLine?_of_annotates h]
  exact if_neg hvalue

/-- The end of a fence gives the annotation its body. -/
lemma line_closing (h : Text.trim l = fenceEnd) :
    line ⟨es, .fenced name body⟩ l =
      ⟨es ++ [(String.ofList name, fenceValue body)], .prose⟩ := by
  rw [line]
  exact if_pos h

/-- Any other line inside a fence belongs to the body. -/
lemma line_body (h : Text.trim l ≠ fenceEnd) :
    line ⟨es, .fenced name body⟩ l = ⟨es, .fenced name (l :: body)⟩ := by
  rw [line]
  exact if_neg h

/-- A line that does not open a fence leaves the reader in prose. -/
lemma exists_line_prose (h : ¬ Opens l) (es : List (String × String)) :
    ∃ es', line ⟨es, .prose⟩ l = ⟨es', .prose⟩ := by
  by_cases hbegins : Begins l
  · obtain ⟨name, value, hannotates⟩ := hbegins
    exact ⟨_, line_valued hannotates fun hvalue => h ⟨name, hvalue ▸ hannotates⟩⟩
  · exact ⟨es, line_prose hbegins⟩

/-- What is found is added to what was found before. -/
lemma line_append (es : List (String × String)) (p : Progress) (l : List Char) :
    line ⟨es ++ p.found, p.reading⟩ l = ⟨es ++ (p.line l).found, (p.line l).reading⟩ := by
  obtain ⟨found, reading⟩ := p
  rw [line, line]
  cases reading with
  | prose =>
    cases ofLine? l with
    | none => rfl
    | some annotation =>
      dsimp only
      split <;> simp
  | fenced name body =>
    dsimp only
    split <;> simp

/-- Lines that are alike but for white space at their ends say the same outside fences, and end a
fence alike. -/
lemma line_congr {l' : List Char} (h : Text.trim l = Text.trim l')
    (hprose : (p.line l).reading = .prose) : p.line l' = p.line l := by
  obtain ⟨found, reading⟩ := p
  rw [line] at hprose
  rw [line, line, ofLine?_congr h, h]
  cases reading with
  | prose => rfl
  | fenced name body =>
    dsimp only at hprose ⊢
    rw [h] at hprose
    split at hprose
    · next hend => rw [if_pos hend, if_pos hend]
    · cases hprose

end

/-! ## Several lines -/

/-- Lines inside a fence come into the body, the last one first. -/
lemma foldl_line_body {es : List (String × String)} {name : List Char}
    {body ls : List (List Char)} (h : ∀ l ∈ ls, Text.trim l ≠ fenceEnd) :
    ls.foldl line ⟨es, .fenced name body⟩ = ⟨es, .fenced name (ls.reverse ++ body)⟩ := by
  induction ls generalizing body with
  | nil => rfl
  | cons l ls ih =>
    obtain ⟨hl, hls⟩ := List.forall_mem_cons.1 h
    rw [List.foldl_cons, line_body hl, ih hls, List.reverse_cons, List.append_assoc]
    rfl

/-- A fence from its opening line to its closing line. -/
lemma foldl_line_fence {es : List (String × String)} {open_ close name : List Char}
    {body : List (List Char)} (hopen : Annotates open_ name fenceStart)
    (hbody : ∀ l ∈ body, Text.trim l ≠ fenceEnd) (hclose : Text.trim close = fenceEnd) :
    (open_ :: (body ++ [close])).foldl line ⟨es, .prose⟩ =
      ⟨es ++ [(String.ofList name, String.ofList (Text.joinWith ['\n'] body))], .prose⟩ := by
  rw [List.foldl_cons, line_opening hopen, List.foldl_append, foldl_line_body hbody,
    List.foldl_cons, List.foldl_nil, line_closing hclose, List.append_nil, fenceValue,
    List.reverse_reverse]

/-- What was found before stays in front of what lines add. -/
lemma foldl_line_append (es : List (String × String)) (p : Progress) (ls : List (List Char)) :
    ls.foldl line ⟨es ++ p.found, p.reading⟩ =
      ⟨es ++ (ls.foldl line p).found, (ls.foldl line p).reading⟩ := by
  induction ls generalizing p with
  | nil => rfl
  | cons l ls ih => rw [List.foldl_cons, line_append, ih, List.foldl_cons]

/-- What was found before stays in front at the end as well. -/
lemma finish_append (es : List (String × String)) (p : Progress) :
    finish ⟨es ++ p.found, p.reading⟩ = es ++ p.finish := by
  obtain ⟨found, reading⟩ := p
  cases reading with
  | prose => rfl
  | fenced => exact List.append_assoc ..

end Progress

open Progress

/-- The annotations on lines, in the order in which they end. -/
def found (ls : List (List Char)) : List (String × String) :=
  (ls.foldl line start).finish

/-- The reader of lines writes what it finds, one after another. -/
lemma readLines_eq (p : Progress) (ls : List (List Char)) :
    readLines (.ofEntries p.found) p.reading ls = .ofEntries (ls.foldl line p).finish := by
  induction ls generalizing p with
  | nil =>
    obtain ⟨es, reading⟩ := p
    cases reading with
    | prose => rfl
    | fenced name body =>
      exact (Dict.ofEntries_append es (String.ofList name, fenceValue body)).symm
  | cons l ls ih =>
    obtain ⟨es, reading⟩ := p
    rw [List.foldl_cons, ← ih]
    cases reading with
    | prose =>
      rw [readLines, line]
      dsimp only
      cases ofLine? l with
      | none => rfl
      | some annotation =>
        obtain ⟨name, value⟩ := annotation
        dsimp only
        split
        · rfl
        · rw [Dict.ofEntries_append]
    | fenced name body =>
      rw [readLines, line]
      dsimp only
      split
      · rw [Dict.ofEntries_append]
      · rfl

/-- The annotations of a text are those on its lines. -/
lemma ofText_eq (text : String) : ofText text = .ofEntries (found (Text.lines text.toList)) :=
  readLines_eq start _

/-! ## Closed fences -/

/-- Every fence that is opened on the lines is closed. -/
inductive FencesClosed : List (List Char) → Prop
  | nil : FencesClosed []
  | plain (hl : ¬ Opens l) (h : FencesClosed ls) : FencesClosed (l :: ls)
  | fenced (hopen : Opens l) (hbody : ∀ b ∈ body, Text.trim b ≠ fenceEnd)
      (hclose : Text.trim close = fenceEnd) (h : FencesClosed ls) :
      FencesClosed (l :: (body ++ close :: ls))

/-- Lines with closed fences leave the reader outside a fence. -/
lemma FencesClosed.exists_foldl_line {ls : List (List Char)} (h : FencesClosed ls)
    (es : List (String × String)) : ∃ es', ls.foldl line ⟨es, .prose⟩ = ⟨es', .prose⟩ := by
  induction h generalizing es with
  | nil => exact ⟨es, rfl⟩
  | @plain l ls hl h ih =>
    obtain ⟨es', hline⟩ := exists_line_prose hl es
    rw [List.foldl_cons, hline]
    exact ih es'
  | @fenced l body close ls hopen hbody hclose h ih =>
    obtain ⟨name, hannotates⟩ := hopen
    rw [List.append_cons, ← List.cons_append, List.foldl_append,
      foldl_line_fence hannotates hbody hclose]
    exact ih _

/-- Lines with closed fences are found as they are, without what a fence at the end would add. -/
lemma FencesClosed.foldl_line {ls : List (List Char)} (h : FencesClosed ls) :
    ls.foldl line start = ⟨found ls, .prose⟩ := by
  obtain ⟨es, hes⟩ := h.exists_foldl_line []
  rw [found, start, hes]
  rfl

/-- From prose to prose every fence is closed; from inside a fence the lines begin with its rest. -/
lemma fencesClosed_of_foldl_line (ls : List (List Char)) :
    (∀ es, (ls.foldl line ⟨es, .prose⟩).reading = .prose → FencesClosed ls) ∧
    ∀ es name before, (ls.foldl line ⟨es, .fenced name before⟩).reading = .prose →
      ∃ body close rest, ls = body ++ close :: rest ∧ (∀ b ∈ body, Text.trim b ≠ fenceEnd) ∧
        Text.trim close = fenceEnd ∧ FencesClosed rest := by
  induction ls with
  | nil => exact ⟨fun _ _ => .nil, nofun⟩
  | cons l ls ih =>
    obtain ⟨hprose, hfenced⟩ := ih
    constructor
    · intro es h
      rw [List.foldl_cons] at h
      by_cases hopen : Opens l
      · obtain ⟨name, hannotates⟩ := hopen
        rw [line_opening hannotates] at h
        obtain ⟨body, close, rest, rfl, hbody, hclose, hrest⟩ := hfenced _ _ _ h
        exact .fenced ⟨name, hannotates⟩ hbody hclose hrest
      · obtain ⟨es', hline⟩ := exists_line_prose hopen es
        rw [hline] at h
        exact .plain hopen (hprose _ h)
    · intro es name before h
      rw [List.foldl_cons] at h
      by_cases hclose : Text.trim l = fenceEnd
      · rw [line_closing hclose] at h
        exact ⟨[], l, ls, rfl, List.forall_mem_nil _, hclose, hprose _ h⟩
      · rw [line_body hclose] at h
        obtain ⟨body, close, rest, rfl, hbody, hend, hrest⟩ := hfenced _ _ _ h
        exact ⟨l :: body, close, rest, rfl, List.forall_mem_cons.2 ⟨hclose, hbody⟩, hend, hrest⟩

/-- Whether the reader is outside fences. -/
def Progress.isOutside (p : Progress) : Bool :=
  match p.reading with
  | .prose => true
  | .fenced .. => false

/-- Fences are closed exactly if the reader ends outside a fence. -/
lemma fencesClosed_iff {ls : List (List Char)} :
    FencesClosed ls ↔ (ls.foldl line start).isOutside = true := by
  constructor
  · intro h
    rw [h.foldl_line]
    rfl
  · intro h
    refine (fencesClosed_of_foldl_line ls).1 [] ?_
    rw [Progress.isOutside] at h
    split at h
    · next hreading => exact hreading
    · cases h

instance (ls : List (List Char)) : Decidable (FencesClosed ls) :=
  decidable_of_iff _ fencesClosed_iff.symm

/-- White space at the end of the last line does not matter where every fence is closed. -/
lemma foldl_line_concat_congr {before : List (List Char)} {l l' : List Char}
    (h : Text.trim l = Text.trim l') (hclosed : FencesClosed (before ++ [l])) :
    (before ++ [l']).foldl line start = ⟨found (before ++ [l]), .prose⟩ := by
  have hread := hclosed.foldl_line
  rw [List.foldl_append] at hread
  rw [List.foldl_append, ← hread]
  exact line_congr h (congrArg Progress.reading hread)

/-- What is found on two texts, one above the other. -/
lemma found_lines_append {a : List Char} (h : FencesClosed (Text.lines a)) (b : List Char) :
    found (Text.lines (a ++ '\n' :: b)) = found (Text.lines a) ++ found (Text.lines b) := by
  obtain ⟨before, l, hlines, happend⟩ := Text.lines_append_lineFeed a b
  have hread : (before ++ [Text.dropReturn l]).foldl line start =
      ⟨found (Text.lines a), .prose⟩ := by
    rcases hlines with ⟨hlines, rfl⟩ | hlines
    · -- the line feed stands on a line of its own, which says nothing
      rw [hlines] at h ⊢
      rw [List.foldl_append, h.foldl_line]
      have hempty : ¬ Begins (Text.dropReturn []) := ofLine?_eq_none_iff.1 rfl
      exact line_prose hempty
    · rw [hlines] at h ⊢
      exact foldl_line_concat_congr (Text.trim_dropReturn l).symm h
  have hrest := foldl_line_append (found (Text.lines a)) start (Text.lines b)
  rw [start, List.append_nil] at hrest
  rw [happend, List.append_cons, found, List.foldl_append, hread, hrest, finish_append]
  rfl

/-! ## Texts one above the other -/

/-- The texts, each on lines of its own. -/
def stacked (texts : List String) : String :=
  String.ofList (Text.joinWith ['\n'] (texts.map String.toList))

/-- The annotations of stacked texts are those of each text, one after the other. -/
lemma ofText_stacked {texts : List String} (h : ∀ t ∈ texts, FencesClosed (Text.lines t.toList)) :
    ofText (stacked texts) =
      .ofEntries (texts.flatMap fun t => found (Text.lines t.toList)) := by
  rw [ofText_eq, stacked, String.toList_ofList]
  congr 1
  induction texts with
  | nil => rfl
  | cons t ts ih =>
    obtain ⟨ht, hts⟩ := List.forall_mem_cons.1 h
    cases ts with
    | nil => simp [Text.joinWith]
    | cons u us =>
      rw [List.map_cons, List.map_cons, Text.joinWith, List.append_assoc, List.singleton_append,
        found_lines_append ht, ← List.map_cons, ih hts, List.flatMap_cons (x := t)]

/-- Annotations that are merged text by text are all of them, one after the other. -/
lemma foldl_merge_ofText (es : List (String × String)) (texts : List String) :
    texts.foldl (fun (a : Annotations) t => a.merge (ofText t)) (.ofEntries es) =
      .ofEntries (es ++ texts.flatMap fun t => found (Text.lines t.toList)) := by
  induction texts generalizing es with
  | nil => rw [List.flatMap_nil, List.append_nil]; rfl
  | cons t ts ih =>
    rw [List.foldl_cons, ofText_eq, Dict.merge_ofEntries, ih, List.flatMap_cons, List.append_assoc]

/-- The documentation of the package in its files. -/
def packageDocs (p : Package) : List String :=
  p.files.map fun f => Source.docContent f.parsed.file.doc

/-- Where every fence of a text is closed, the annotations of a text below it are written over its
own: the later value of a name holds, and names come in the order in which they are first seen. So
the annotations of a package are those of its documentation as one text. -/
theorem annotations_of_stacked_texts :
    (∀ a b : String, FencesClosed (Text.lines a.toList) →
      ofText (a ++ "\n" ++ b) = (ofText a).merge (ofText b) ∧
      (∀ name, (ofText (a ++ "\n" ++ b)).get? name =
        ((ofText b).get? name).or ((ofText a).get? name)) ∧
      (ofText (a ++ "\n" ++ b)).keys = ((ofText a).keys ++ (ofText b).keys).eraseDups) ∧
    ∀ p : Package, (∀ doc ∈ packageDocs p, FencesClosed (Text.lines doc.toList)) →
      p.annotations = ofText (stacked (packageDocs p)) := by
  constructor
  · intro a b h
    have hboth : ofText (a ++ "\n" ++ b) = .ofEntries (found (Text.lines a.toList) ++
        found (Text.lines b.toList)) := by
      rw [ofText_eq, ← found_lines_append h, String.toList_append, String.toList_append,
        List.append_assoc]
      rfl
    rw [hboth, ofText_eq a, ofText_eq b]
    exact ⟨(Dict.merge_ofEntries _ _).symm, Dict.get?_ofEntries_append _ _,
      Dict.keys_ofEntries_append _ _⟩
  · intro p h
    rw [ofText_stacked h, Package.annotations]
    have hfold := foldl_merge_ofText [] (packageDocs p)
    rw [packageDocs, List.foldl_map] at hfold
    exact hfold

namespace Stack

/-- A title, and a fence that mentions another one and has a return behind its end. -/
def above : String := "@title one\n@openapi >>>\n@title in\n <<<\r"

/-- The title again, and a fence that is not closed. -/
def below : String := "\n@title two\n@description >>>\nto the end"

/-- A package with documentation in two of its files. -/
def package : Package :=
  .ofFiles "m/p" "p" ⟨"p"⟩ "m" <|
    ["// @service a\n// @openapi >>>\n// tags: []\n// <<<\npackage p\n", "package p\n",
      "// @service b\npackage p\n"].map fun text => ⟨⟨"p.go"⟩, (Source.parse text).file, ⟨[]⟩⟩

/-- A stack of two texts, and the documentation of a package in two files. -/
theorem stack_annotated :
    FencesClosed (Text.lines above.toList) ∧
    ofText (above ++ "\n" ++ below) = (ofText above).merge (ofText below) ∧
    (∀ doc ∈ packageDocs package, FencesClosed (Text.lines doc.toList)) ∧
    package.annotations = ofText (stacked (packageDocs package)) := by
  have habove : FencesClosed (Text.lines above.toList) := by decide +kernel
  have hdocs : ∀ doc ∈ packageDocs package, FencesClosed (Text.lines doc.toList) := by
    decide +kernel
  exact ⟨habove, (annotations_of_stacked_texts.1 above below habove).1, hdocs,
    annotations_of_stacked_texts.2 package hdocs⟩

end Stack

end GoService.Annotations
