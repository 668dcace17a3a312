import GoService.Package.Load
import GoService.Proofs.Annotation.Writing
import GoService.Proofs.Source.CommentRows
import GoService.Proofs.Source.FileSpans

/-!
# Fences in the documentation of functions

A fence that is written line by line in the documentation of a function comes out of the reader of
files, of the text of its comments and of the reader of annotations as it was written, but that
empty lines next to each other come out as one (`openapi_of_fencedDoc`): that is what the text of a
group of comments does with them.
-/

namespace GoService.Annotations

open Source

/-- The lines, but of empty lines next to each other only one. -/
def singleGaps : List (List Char) → List (List Char)
  | [] => []
  | l :: ls => if l = [] ∧ ls.head? = some [] then singleGaps ls else l :: singleGaps ls

/-- A line that can stand in a fence: it has no white space at its end and does not close the
fence. -/
structure IsBodyLine (l : List Char) : Prop where
  oneLine : '\n' ∉ l ∧ '\r' ∉ l
  trimmed : Text.trimEnd l = l
  stays : Text.trim l ≠ fenceEnd

/-- A line of a body is one without line breaks, without white space at its end, and not the end of
the fence. -/
lemma isBodyLine_iff {l : List Char} : IsBodyLine l ↔
    ('\n' ∉ l ∧ '\r' ∉ l) ∧ Text.trimEnd l = l ∧ Text.trim l ≠ fenceEnd :=
  ⟨fun h => ⟨h.oneLine, h.trimmed, h.stays⟩, fun ⟨hline, htrim, hstays⟩ => ⟨hline, htrim, hstays⟩⟩

instance : DecidablePred IsBodyLine :=
  fun _ => decidable_of_iff _ isBodyLine_iff.symm

/-- The lines of a documentation: the lines of a body in a fence, and the mark of a service
function. -/
def fencedLines (body : List (List Char)) : List (List Char) :=
  "@openapi >>>".toList :: (body ++ fenceEnd :: ["@fn x".toList])

/-- The documentation as it stands above a function, one comment a line. -/
def fencedDoc (body : List (List Char)) : List (List Char) :=
  (fencedLines body).map commentRow

/-- A source declares the function, and its documentation is written in this form. -/
structure DeclaresFenced (source : String) (body : List (List Char)) (d : FuncDecl) : Prop where
  declared : .func d ∈ (parse source).file.file.decls
  written : ∃ g text, d.doc = some g ∧ g.span.Cuts source.toList text ∧
    Text.HasLines (fencedDoc body) text

/-! ## Empty lines -/

section

variable {l : List Char} {ls body : List (List Char)}

/-- A line that is not empty stays, whatever follows. -/
lemma singleGaps_cons (h : l ≠ []) : singleGaps (l :: ls) = l :: singleGaps ls := by
  rw [singleGaps, if_neg fun hgap => h hgap.1]

/-- An empty line before one that is not empty stays. -/
lemma singleGaps_gap_cons (h : l ≠ []) : singleGaps ([] :: l :: ls) = [] :: l :: singleGaps ls := by
  rw [singleGaps, if_neg (by simpa using h), singleGaps_cons h]

/-- Of two empty lines one is left. -/
lemma singleGaps_gap_gap : singleGaps ([] :: [] :: ls) = singleGaps ([] :: ls) := by
  rw [singleGaps, if_pos ⟨rfl, rfl⟩]

/-- Nothing comes in that was not there. -/
lemma mem_of_mem_singleGaps (h : l ∈ singleGaps ls) : l ∈ ls := by
  induction ls with
  | nil => cases h
  | cons m ls ih =>
    rw [singleGaps] at h
    split at h
    · exact List.mem_cons_of_mem _ (ih h)
    · rcases List.mem_cons.1 h with rfl | h
      · exact List.mem_cons_self
      · exact List.mem_cons_of_mem _ (ih h)

/-- Without empty lines next to each other nothing is left out. -/
lemma singleGaps_of_isChain (h : ls.IsChain fun l m => l = [] → m ≠ []) : singleGaps ls = ls := by
  induction ls with
  | nil => rfl
  | cons l ls ih =>
    obtain ⟨hl, hls⟩ := List.isChain_cons.1 h
    rw [singleGaps, if_neg fun hgap => hl _ hgap.2 hgap.1 rfl, ih hls]

/-- Between two lines the paragraphs of a text have single gaps. A gap that is due counts as an
empty line in front. -/
lemma paragraphRows_between {gap : Bool} (body : List (List Char)) (h : l ≠ []) :
    paragraphRows true gap (body ++ l :: ls) =
      singleGaps ((if gap then [[]] else []) ++ body) ++ l :: paragraphRows true false ls := by
  induction body generalizing gap with
  | nil =>
    rw [List.nil_append, paragraphRows_cons h]
    cases gap <;> rfl
  | cons m body ih =>
    rw [List.cons_append]
    by_cases hm : m = []
    · rw [hm, paragraphRows_blank, ih]
      cases gap with
      | false => rfl
      | true => exact congrArg (· ++ _) singleGaps_gap_gap.symm
    · rw [paragraphRows_cons hm, ih]
      cases gap with
      | false => exact congrArg (· ++ _) (singleGaps_cons hm).symm
      | true => exact congrArg (· ++ _) (singleGaps_gap_cons hm).symm

end

/-! ## What the reader of annotations sees -/

/-- The documentation as the text of its comments has it. -/
def fencedPieces (body : List (List Char)) : List Written :=
  [.fenced [] "openapi".toList [' '] (singleGaps body), .valued [] "fn".toList [' '] ['x']]

section

variable {body : List (List Char)}

/-- A line of a body has no line break and no white space at its end. -/
lemma IsBodyLine.isRow {l : List Char} (h : IsBodyLine l) : IsRow l :=
  ⟨h.oneLine.1, fun hlast => h.oneLine.2 (List.mem_of_getLast? hlast)⟩

/-- What is written for a body is legible. -/
lemma legible_fencedPieces (h : ∀ l ∈ body, IsBodyLine l) : ∀ w ∈ fencedPieces body, w.Legible := by
  have hnone : IsGap [] := List.forall_mem_nil _
  have hspace : IsGap [' '] := by decide
  refine List.forall_mem_cons.2 ⟨?_, List.forall_mem_singleton.2 ?_⟩
  · exact .fenced hnone (by decide +kernel) hspace (by decide)
      (fun l hl => (h l (mem_of_mem_singleGaps hl)).isRow)
      (fun l hl => (h l (mem_of_mem_singleGaps hl)).stays)
  · exact .valued hnone (by decide +kernel) hspace (by decide)
      (by decide) (by decide) (by decide)

/-- The lines of a fenced annotation have no line breaks. -/
lemma oneLine_fencedLines (h : ∀ l ∈ body, IsBodyLine l) :
    ∀ l ∈ fencedLines body, '\n' ∉ l ∧ '\r' ∉ l := by
  simp only [fencedLines, List.forall_mem_cons, List.forall_mem_append]
  exact ⟨by decide, fun l hl => (h l hl).oneLine, by decide, by decide⟩

/-- The lines of a fenced annotation have no white space at their ends. -/
lemma trimEnd_fencedLines (h : ∀ l ∈ body, IsBodyLine l) :
    (fencedLines body).map Text.trimEnd = fencedLines body := by
  have hsame : ∀ l ∈ fencedLines body, Text.trimEnd l = id l := by
    simp only [fencedLines, List.forall_mem_cons, List.forall_mem_append]
    exact ⟨by decide, fun l hl => (h l hl).trimmed, by decide, by decide⟩
  rw [List.map_congr_left hsame, List.map_id]

/-- The lines of a fenced annotation are those that the documentation has of it. -/
lemma paragraphRows_fencedLines :
    paragraphRows false false (fencedLines body) = writtenRows (fencedPieces body) := by
  have hopen : "@openapi >>>".toList ≠ [] := by decide
  have hmark : "@fn x".toList ≠ [] := by decide
  have hclose : fenceEnd ≠ [] := by decide
  rw [fencedLines, paragraphRows_cons hopen, paragraphRows_between body hclose,
    paragraphRows_cons hmark]
  show _ = "@openapi >>>".toList :: (singleGaps body ++ [fenceEnd] ++ ["@fn x".toList])
  rw [List.append_assoc]
  rfl

end

/-- The value of an annotation that a function declares between fences is its body, with single
gaps. -/
lemma value?_of_declaresFenced {source : String} {body : List (List Char)} {d : FuncDecl}
    (h : DeclaresFenced source body d) (hbody : ∀ l ∈ body, IsBodyLine l) :
    (ofText (docContent d.doc)).value? .openapi =
      some (String.ofList (Text.joinWith ['\n'] (singleGaps body))) := by
  obtain ⟨g, text, hdoc, hcuts, htext⟩ := h.written
  have hmem : g ∈ (parse source).file.file.comments := by
    refine attached_parse source g ?_
    have hattached : g ∈ (Decl.func d).attached := by simp [Decl.attached, hdoc]
    exact List.mem_append_right _ (List.mem_flatMap_of_mem h.declared hattached)
  have hlegible := legible_fencedPieces hbody
  have hcontent : docContent d.doc =
      String.ofList ((writtenRows (fencedPieces body)).flatMap (· ++ ['\n'])) := by
    rw [hdoc, ← paragraphRows_fencedLines, ← joinParagraphs_eq, ← trimEnd_fencedLines hbody]
    exact content_of_rows hmem hcuts htext (oneLine_fencedLines hbody)
  have hlines : Text.HasLines (writtenRows (fencedPieces body)) (docContent d.doc).toList := by
    rw [hcontent, String.toList_ofList]
    refine Text.hasLines_flatMap fun l hl => ?_
    obtain ⟨w, hw, hl⟩ := List.mem_flatMap.1 hl
    exact (hlegible w hw).isRow l hl
  rw [ofText_of_hasLines hlegible hlines]
  rfl

/-- The fence in a documentation of this form is an annotation of the function. Its value is the
lines of the body, but of empty lines next to each other only one; where no empty lines are next to
each other it is the body as it was written. -/
theorem openapi_of_fencedDoc {source : String} {body : List (List Char)} {d : FuncDecl}
    (h : DeclaresFenced source body d) (hbody : ∀ l ∈ body, IsBodyLine l) :
    (ofText (docContent d.doc)).value? .openapi =
      some (String.ofList (Text.joinWith ['\n'] (singleGaps body))) ∧
    (body.IsChain (fun l m => l = [] → m ≠ []) →
      (ofText (docContent d.doc)).value? .openapi =
        some (String.ofList (Text.joinWith ['\n'] body))) := by
  have hvalue := value?_of_declaresFenced h hbody
  refine ⟨hvalue, fun hchain => ?_⟩
  rw [hvalue, singleGaps_of_isChain hchain]

namespace Endpoint

/-- What stands before the documentation. -/
def header : String := "package p\n\nimport \"github.com/svcgen/rt\"\n\n"

/-- What stands below the documentation. -/
def footer : String := "\nfunc F(rt.Context) error \x7b\n\treturn nil\n\x7d\n"

/-- The documentation above the function. -/
def doc (body : List (List Char)) : List Char :=
  Text.joinWith ['\n'] (fencedDoc body)

/-- A file with one function, documented in this form. -/
def source (body : List (List Char)) : String :=
  String.ofList (header.toList ++ doc body ++ footer.toList)

/-- Single empty lines, indentation, and lines that look like a directive or an annotation. -/
def body : List (List Char) :=
  [[], "paths:".toList, "  /ping:".toList, [], "go:build linux".toList, "@title in".toList]

/-- Two empty lines next to each other. -/
def wideBody : List (List Char) :=
  ["a:".toList, [], [], "b:".toList]

/-- The function below a fenced documentation declares it. -/
lemma exists_declaresFenced {body : List (List Char)}
    (hfunc : ∃ d ∈ Package.declaredFuncs (parse (source body)).file, ∃ g ∈ d.doc,
      g.span = .ofText (byteSize header.toList) (doc body))
    (hlines : Text.HasLines (fencedDoc body) (doc body)) (hne : doc body ≠ []) :
    ∃ d, DeclaresFenced (source body) body d := by
  obtain ⟨d, hd, g, hg, hspan⟩ := hfunc
  refine ⟨d, ?_, g, doc body, hg, ?_, hlines⟩
  · obtain ⟨decl, hdecl, heq⟩ := List.mem_filterMap.1 hd
    cases decl with
    | func => exact Option.some.inj heq ▸ hdecl
    | gen | bad => cases heq
  · exact ⟨header.toList, footer.toList, String.toList_ofList, hne, hspan⟩

/-- An annotation of several lines with single empty ones among them is read as it is written. -/
theorem endpoint_openapi : ∃ d, DeclaresFenced (source body) body d ∧
    (∀ l ∈ body, IsBodyLine l) ∧ body.IsChain (fun l m => l = [] → m ≠ []) ∧
    (ofText (docContent d.doc)).value? .openapi =
      some (String.ofList (Text.joinWith ['\n'] body)) := by
  have hbody : ∀ l ∈ body, IsBodyLine l := by decide
  have hchain : body.IsChain fun l m => l = [] → m ≠ [] := by decide
  obtain ⟨d, hd⟩ := @exists_declaresFenced body (by decide +kernel) (by decide +kernel)
    (by decide +kernel)
  exact ⟨d, hd, hbody, hchain, (openapi_of_fencedDoc hd hbody).2 hchain⟩

/-- Two empty lines next to each other do not come out as they are written. -/
theorem wide_gap_narrowed :
    ¬ ∀ (source : String) (body : List (List Char)) (d : FuncDecl), DeclaresFenced source body d →
      body ≠ [] → (∀ l ∈ body, IsBodyLine l) →
      (ofText (docContent d.doc)).value? .openapi =
        some (String.ofList (Text.joinWith ['\n'] body)) := by
  intro h
  have hbody : ∀ l ∈ wideBody, IsBodyLine l := by decide
  obtain ⟨d, hd⟩ := @exists_declaresFenced wideBody (by decide +kernel)
    (by decide +kernel) (by decide +kernel)
  have hvalue := h _ _ d hd (by decide) hbody
  rw [value?_of_declaresFenced hd hbody, Option.some.injEq, String.ofList_inj] at hvalue
  exact absurd hvalue (by decide)

end Endpoint

end GoService.Annotations
