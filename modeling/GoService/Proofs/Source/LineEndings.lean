import GoService.Proofs.Source.Distant
import GoService.Proofs.Source.FileMoves
import GoService.Proofs.Source.ReturnedTexts

/-!
# Line endings

A source text reads alike whether its lines end with a line feed alone or with a carriage return and
a line feed (`line_endings_agree`): the tree is the same but for where its parts stand in bytes and
for the raw text of block comments and raw strings. Lines and columns, the text of comment groups
and the values of string literals are the same.
-/

namespace GoService.Source

/-! ## What a parser knows -/

/-- The line on which a token ends stays the same. -/
lemma stopLine_moved {f : Nat → Nat} (hf : StrictMono f) (hzero : f 0 = 0) (ix : LineTable)
    (p : Placed) : (ix.moved f).line ((p.moved f).span.stop - 1) = ix.line (p.span.stop - 1) := by
  show (ix.moved f).line (f p.span.stop - 1) = ix.line (p.span.stop - 1)
  rcases Nat.eq_zero_or_pos p.span.stop with h | h
  · have hline := LineTable.line_moved hf ix 0
    rw [hzero] at hline
    rw [h, hzero]
    exact hline
  · exact LineTable.line_moved_pred hf ix h

section

variable {src : List Char}

/-- What is known of the source with carriage returns is what is known of the source, moved. -/
lemma ofLexed_withReturns (hsrc : '\r' ∉ src)
    (hsize : byteSize (withReturns src) ≤ Span.maxOffset) :
    Context.ofLexed (withReturns src) (lex (withReturns src)) =
      (Context.ofLexed src (lex src)).moved (returnedOffset src) := by
  have hf := strictMono_returnedOffset src
  have hnumbered := numbered_of_withReturns hsize
  have hend : min (byteSize (withReturns src)) Span.maxOffset =
      returnedOffset src (min (byteSize src) Span.maxOffset) := by
    rw [Nat.min_eq_left hsize, Nat.min_eq_left hnumbered.size, returnedOffset_end]
  have hlast (i : Nat) : ((lex (withReturns src)).tokens.toArray[i]?.map fun t =>
      (LineTable.ofChars (withReturns src)).line (wrapped (t.span.stop - 1))) =
        (lex src).tokens.toArray[i]?.map fun t =>
          (LineTable.ofChars src).line (wrapped (t.span.stop - 1)) := by
    rw [tokenEndLine_eq hsize, tokenEndLine_eq hnumbered.size, ofChars_withReturns hsize,
      lex_withReturns hsrc hsize, Lexed.moved, List.getElem?_map, Option.map_map]
    exact congrArg (Option.map · _) (funext (stopLine_moved hf (returnedOffset_zero src) _))
  rw [Context.ofLexed, hend]
  simp only [hlast]
  rw [ofChars_withReturns hsize, lex_withReturns hsrc hsize, Lexed.moved]
  dsimp only
  rw [CommentGroup.ofComments_moved hf]
  rfl

/-- The start of moved tokens is the moved start. -/
lemma start_moved {f : Nat → Nat} (hzero : f 0 = 0) (tokens : List Placed) :
    (Cursor.start tokens).moved f = .start (tokens.map (Placed.moved f)) := by
  rw [Cursor.start, Cursor.moved, hzero]
  rfl

/-- The tokens of the source with carriage returns are read as those of the source, moved. -/
lemma readTokens_withReturns (hsrc : '\r' ∉ src)
    (hsize : byteSize (withReturns src) ≤ Span.maxOffset) :
    readTokens (withReturns src) (lex (withReturns src)) =
      ((readTokens src (lex src)).1.moved (returnedOffset src),
        (readTokens src (lex src)).2.moved (returnedOffset src)) := by
  have htokens : (lex (withReturns src)).clampedTokens =
      (lex src).clampedTokens.map (Placed.moved (returnedOffset src)) := by
    rw [clampedTokens_eq hsize, clampedTokens_eq (numbered_of_withReturns hsize).size,
      lex_withReturns hsrc hsize]
    rfl
  have hmoves := Parser.moves_sourceFile (strictMono_returnedOffset src)
    (Context.ofLexed src (lex src)) (.start (lex src).clampedTokens)
  rw [← ofLexed_withReturns hsrc hsize, start_moved (returnedOffset_zero src), ← htokens] at hmoves
  exact hmoves

end

/-! ## What is read -/

/-- The source with a carriage return before every line feed. -/
def returnedText (source : String) : String :=
  String.ofList (withReturns source.toList)

/-- What is read from the moved source, whose text is given. -/
def Parsed.moved (f : Nat → Nat) (source : String) (p : Parsed) : Parsed :=
  ⟨⟨source, p.file.lines.moved f, p.file.file.moved f, p.file.built.map (NodeLabel.moved f)⟩,
    p.diagnostics.map (Diagnostic.moved f)⟩

/-- Reports are put in the same order when they are moved. -/
lemma sorted_moved {f : Nat → Nat} (hf : StrictMono f) (ds : List Diagnostic) :
    Diagnostic.sorted (ds.map (Diagnostic.moved f)) =
      (Diagnostic.sorted ds).map (Diagnostic.moved f) := by
  refine (List.map_mergeSort fun a _ b _ => ?_).symm
  exact decide_eq_decide.2 hf.le_iff_le.symm

/-- The nodes of comment groups are moved with the groups. -/
lemma groupLabels_moved {f : Nat → Nat} (hf : StrictMono f) (groups : List CommentGroup) :
    (groups.map (CommentGroup.moved f)).map (fun g => NodeLabel.mk .commentGroup g.span) =
      (groups.map fun g => NodeLabel.mk .commentGroup g.span).map (NodeLabel.moved f) := by
  rw [List.map_map, List.map_map]
  exact List.map_congr_left fun g _ => congrArg (NodeLabel.mk _) (g.span_moved hf)

/-- The source with carriage returns is read as the source, moved. -/
lemma parse_returnedText {source : String} (h : '\r' ∉ source.toList)
    (hsize : byteSize (withReturns source.toList) ≤ Span.maxOffset) :
    parse (returnedText source) =
      (parse source).moved (returnedOffset source.toList) (returnedText source) := by
  have hf := strictMono_returnedOffset source.toList
  have hsource : (returnedText source).toList = withReturns source.toList :=
    String.toList_ofList ..
  have hbuilt (ctx : Context) (c : Cursor) :
      (ctx.moved (returnedOffset source.toList)).groups.map
          (fun g => NodeLabel.mk .commentGroup g.span) ++
        (c.moved (returnedOffset source.toList)).built.reverse =
      (ctx.groups.map (fun g => NodeLabel.mk .commentGroup g.span) ++ c.built.reverse).map
        (NodeLabel.moved (returnedOffset source.toList)) := by
    rw [Context.moved, groupLabels_moved hf, List.map_append, List.map_reverse]
    rfl
  have hdiagnostics (lexed : Lexed) (c : Cursor) :
      Diagnostic.sorted ((lexed.moved (returnedOffset source.toList)).diagnostics ++
        (c.moved (returnedOffset source.toList)).diagnostics.reverse) =
      (Diagnostic.sorted (lexed.diagnostics ++ c.diagnostics.reverse)).map
        (Diagnostic.moved (returnedOffset source.toList)) := by
    rw [← sorted_moved hf, List.map_append, List.map_reverse]
    rfl
  rw [parse, hsource, ofLexed_withReturns h hsize, readTokens_withReturns h hsize,
    lex_withReturns h hsize]
  dsimp only
  rw [hdiagnostics, hbuilt, Parsed.moved, parse]
  rfl

/-- What is read from a text, and from the text with carriage returns: the same but for offsets and
raw text. All that the tree has is in the moved tree, each span, comment group and string literal
moved. -/
structure SameButReturns (src : List Char) (p p' : Parsed) : Prop where
  clean : p'.isClean = p.isClean
  diagnostics : p'.diagnostics = p.diagnostics.map (Diagnostic.moved (returnedOffset src))
  tree : p'.file.file = p.file.file.moved (returnedOffset src)
  built : p'.file.built = p.file.built.map (NodeLabel.moved (returnedOffset src))
  position : ∀ offset, p'.file.lines.positionOf (returnedOffset src offset) =
    p.file.lines.positionOf offset
  starts : p'.file.built.map (fun n => (n.kind, p'.file.lines.positionOf n.span.start)) =
    p.file.built.map fun n => (n.kind, p.file.lines.positionOf n.span.start)
  content : ∀ g : CommentGroup, (g.moved (returnedOffset src)).content = g.content
  docs : ∀ doc, docContent (doc.map (CommentGroup.moved (returnedOffset src))) = docContent doc
  value : ∀ l : StringLiteral, (l.moved (returnedOffset src)).value = l.value

/-- A text without carriage returns reads alike when one is put before every line feed, whether or
not anything is wrong with it, as long as it has less than 4 GiB then. -/
theorem line_endings_agree (source : String) (h : '\r' ∉ source.toList)
    (hsize : byteSize (withReturns source.toList) ≤ Span.maxOffset) :
    SameButReturns source.toList (parse source) (parse (returnedText source)) := by
  have hposition (offset : Nat) :
      ((parse source).file.lines.moved (returnedOffset source.toList)).positionOf
        (returnedOffset source.toList offset) = (parse source).file.lines.positionOf offset := by
    have hlines : (parse source).file.lines = LineTable.ofChars source.toList := rfl
    rw [hlines, ← ofChars_withReturns hsize, positionOf_returned hsize]
  have hcontent (g : CommentGroup) :
      (g.moved (returnedOffset source.toList)).content = g.content :=
    g.content_moved
  rw [parse_returnedText h hsize]
  constructor
  case clean => exact List.isEmpty_map ..
  case diagnostics => rfl
  case tree => rfl
  case built => rfl
  case position => exact hposition
  case starts =>
    rw [Parsed.moved, List.map_map]
    exact List.map_congr_left fun n _ => congrArg (n.kind, ·) (hposition n.span.start)
  case content => exact hcontent
  case docs =>
    intro doc
    rw [docContent, Option.map_map]
    exact congrArg (Option.getD · "") (congrArg (Option.map · doc) (funext hcontent))
  case value => exact fun l => l.value_moved

namespace Paragraphs

/-- A file with a line end in a comment, in a raw string and after everything that a line end can
end. -/
def source : String :=
  "// Package p\n// has a type.\npackage p\n\n/* T is\n   raw. */\ntype T struct \x7b\n" ++
    "\tA int \x60a:\"b\n\"\x60\n\x7d\n"

/-- The paragraphs of a comment are the same with carriage returns. -/
theorem paragraphs_agree : (parse source).isClean = true ∧ '\r' ∉ source.toList ∧
    byteSize (withReturns source.toList) ≤ Span.maxOffset ∧
    SameButReturns source.toList (parse source) (parse (returnedText source)) :=
  have hreturn : '\r' ∉ source.toList := by decide +kernel
  have hsize : byteSize (withReturns source.toList) ≤ Span.maxOffset := by decide +kernel
  ⟨by decide +kernel, hreturn, hsize, line_endings_agree source hreturn hsize⟩

end Paragraphs

namespace LineFeeds

/-- The number of lines above the package: 2^31, and one more. -/
def count : Nat := 2147483649

/-- A package below so many lines that with carriage returns it stands behind the largest offset.
Nothing may compute with it. -/
@[irreducible]
def chars : List Char :=
  List.replicate count '\n' ++ "package p\n".toList

/-- The source with these characters. -/
def source : String :=
  String.ofList chars

/-- The characters of the source. -/
lemma toList_source : source.toList = chars :=
  String.toList_ofList

/-- Line feeds at the front are passed over. -/
lemma itemsFrom_replicate (n offset : Nat) (cs : List Char) :
    itemsFrom false offset (List.replicate n '\n' ++ cs) = itemsFrom false (offset + n) cs := by
  induction n generalizing offset with
  | zero => rfl
  | succ n ih =>
    rw [List.replicate_succ, List.cons_append, itemsFrom_lineFeed, ih, Nat.add_right_comm]
    rfl

/-- What is found in the source: the package line after the line feeds. -/
lemma findings_chars : findings chars =
    ⟨[⟨⟨count, count + 7⟩, .keyword .packageKw⟩, ⟨⟨count + 8, count + 9⟩, .ident Distant.name⟩,
      ⟨.emptyAt (count + 9), .mark .semi⟩], [], []⟩ := by
  rw [findings, chars, itemsFrom_replicate]
  decide +kernel

/-- No carriage return is in the source. -/
lemma return_notMem : '\r' ∉ chars := by
  rw [chars, List.mem_append]
  rintro (h | h)
  · exact absurd (List.eq_of_mem_replicate h) (by decide)
  · exact absurd h (by decide)

/-- How long the source is, and how many line feeds it has. -/
lemma counts_chars : byteSize chars = count + 10 ∧ chars.count '\n' = count + 1 := by
  have hsize : byteSize (List.replicate count '\n') = count := byteSize_replicate _ rfl
  have hcount : (List.replicate count '\n').count '\n' = count := List.count_replicate_self
  rw [chars]
  generalize List.replicate count '\n' = feeds at hsize hcount
  rw [byteSize_append, hsize, List.count_append, hcount]
  exact ⟨rfl, rfl⟩

/-- The lines of the source are numbered without a wrap. -/
lemma numbered_chars : Numbered chars := by
  refine ⟨?_, ?_⟩
  · rw [counts_chars.1]
    decide
  · rw [LineTable.size_ofChars, counts_chars.2]
    decide

/-- The package is on the line below all the others. -/
lemma line_chars : (LineTable.ofChars chars).line count = count + 1 := by
  have hsize : byteSize (List.replicate count '\n') = count := byteSize_replicate _ rfl
  have hcount : (List.replicate count '\n').count '\n' = count := List.count_replicate_self
  rw [numbered_chars.line_eq, chars]
  generalize List.replicate count '\n' = feeds at hsize hcount
  have hline := LineTable.lineCount_byteSize feeds "package p\n".toList
  rwa [hsize, hcount] at hline

/-- Every line starts before the largest offset, or where its start is wrapped to. -/
lemma line_maxOffset (cs : List Char) :
    (LineTable.ofChars cs).line Span.maxOffset = wrapped (cs.count '\n' + 1) := by
  have hall : ∀ n ∈ (LineTable.ofChars cs).starts, decide (n ≤ Span.maxOffset) = true := by
    refine List.forall_mem_cons.2 ⟨rfl, List.forall_mem_map.2 fun n _ => ?_⟩
    exact decide_eq_true (wrapped_le n)
  rw [LineTable.line, List.takeWhile_eq_self_iff.2 hall, ← LineTable.size_ofChars, LineTable.size]

/-- The source is read cleanly, and its one node is that of the file. -/
lemma parse_source : (parse source).isClean = true ∧
    (parse source).file.built = [⟨.sourceFile, ⟨count, count + 7⟩⟩] := by
  have hlex := lex_eq_findings numbered_chars.size
  have htokens : (lex source.toList).clampedTokens =
      [⟨⟨count, count + 7⟩, .keyword .packageKw⟩, ⟨⟨count + 8, count + 9⟩, .ident Distant.name⟩,
        ⟨.emptyAt (count + 9), .mark .semi⟩] := by
    rw [toList_source, clampedTokens_eq numbered_chars.size, hlex, findings_chars]
  refine parse_clause_alone htokens ?_ ?_
  · rw [toList_source, hlex, findings_chars]
  · rw [toList_source, hlex, findings_chars]

/-- With carriage returns all that is behind the line feeds is behind the largest offset. -/
lemma maxOffset_le_returnedOffset {n : Nat} (h : count ≤ n) :
    Span.maxOffset ≤ returnedOffset chars n := by
  refine Nat.le_trans ?_ ((strictMono_returnedOffset chars).monotone h)
  rw [returnedOffset, ← numbered_chars.line_eq, line_chars]
  decide

/-- With carriage returns all places behind the line feeds are kept as the same one. -/
lemma clamp_moved {s : Span} (hstart : count ≤ s.start) (hstop : count ≤ s.stop) :
    (s.moved (returnedOffset chars)).clamp = Distant.place := by
  rw [Span.moved, Span.clamp, Span.clamped, Nat.min_eq_right (maxOffset_le_returnedOffset hstart),
    Nat.min_eq_right (maxOffset_le_returnedOffset hstop)]
  rfl

/-- With carriage returns the package is behind the largest offset. -/
lemma parse_returned : (parse (returnedText source)).isClean = true ∧
    (parse (returnedText source)).file.built = [⟨.sourceFile, Distant.place⟩] := by
  have hsource : (returnedText source).toList = withReturns chars := by
    rw [returnedText, String.toList_ofList, toList_source]
  have hfound := findings_withReturns return_notMem
  have htokens : (lex (returnedText source).toList).clampedTokens =
      [⟨Distant.place, .keyword .packageKw⟩, ⟨Distant.place, .ident Distant.name⟩,
        ⟨Distant.place, .mark .semi⟩] := by
    rw [hsource, Lexed.clampedTokens, lex, hfound, findings_chars]
    simp only [Lexed.moved, List.map_cons, List.map_nil, Placed.moved, Placed.clamp, Token.returned,
      Span.emptyAt, clamp_moved, Nat.le_refl, Nat.le_add_right]
  refine parse_clause_alone htokens ?_ ?_
  · rw [hsource, lex, hfound, findings_chars]
    rfl
  · rw [hsource, lex, hfound, findings_chars]
    rfl

/-- With a carriage return before every line feed the package has 4 GiB before it, and is found on
the line below its own. -/
theorem package_on_other_line : '\r' ∉ source.toList ∧ (parse source).isClean = true ∧
    (parse (returnedText source)).isClean = true ∧
    ((parse source).file.built.map fun n => (parse source).file.lineOf n.span) = [count + 1] ∧
    ((parse (returnedText source)).file.built.map fun n =>
      (parse (returnedText source)).file.lineOf n.span) = [count + 2] ∧
    ¬ SameButReturns source.toList (parse source) (parse (returnedText source)) := by
  obtain ⟨hclean, hbuilt⟩ := parse_source
  obtain ⟨hclean', hbuilt'⟩ := parse_returned
  have hline : (parse source).file.lines.line count = count + 1 := by
    rw [lines_parse, toList_source, line_chars]
  have hline' : (parse (returnedText source)).file.lines.line Span.maxOffset = count + 2 := by
    rw [lines_parse, line_maxOffset, returnedText, String.toList_ofList, toList_source,
      count_withReturns, counts_chars.2]
    decide
  refine ⟨toList_source ▸ return_notMem, hclean, hclean', ?_, ?_, fun h => ?_⟩
  · rw [hbuilt]
    exact congrArg ([·]) hline
  · rw [hbuilt']
    exact congrArg ([·]) hline'
  · have hstarts := h.starts
    rw [hbuilt, hbuilt', List.map_singleton, List.map_singleton] at hstarts
    have hposition := congrArg (·.line) (congrArg Prod.snd (List.cons.inj hstarts).1)
    have hsame : (parse (returnedText source)).file.lines.line Span.maxOffset =
        (parse source).file.lines.line count := hposition
    rw [hline, hline'] at hsame
    exact absurd hsame (by decide)

end LineFeeds

end GoService.Source
