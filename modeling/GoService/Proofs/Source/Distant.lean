import GoService.Proofs.Source.CommentGroups
import GoService.Proofs.Source.Placement

/-!
# Sources of 4 GiB and more

A file that is no more than a package clause is read alike whatever is known of its lines
(`parse_clause`). So it can be told what is read of a package behind 4 GiB of blanks: nothing is
wrong with it (`Distant.isClean_source`), but all that it has is at one place, without a byte.
-/

namespace GoService.Source

/-- Reading no more than a package clause. -/
lemma sourceFile_clause (ctx : Context) (package name semi : Span) (w : Word) :
    (Parser.sourceFile.run ctx |>.run <| .start [⟨package, .keyword .packageKw⟩, ⟨name, .ident w⟩,
      ⟨semi, .mark .semi⟩]) =
    (⟨package, ⟨w, name⟩, [], ctx.groups,
        CommentGroup.lead? ctx.groups 0 (ctx.lines.line package.start)⟩,
      ⟨[], 3, semi.stop, [], [⟨.sourceFile, package⟩], false⟩) :=
  rfl

section

variable {source : String} {package name semi : Span} {w : Word}

/-- A source that is no more than a package clause is read without a report. -/
lemma parse_clause (htokens : (lex source.toList).clampedTokens =
      [⟨package, .keyword .packageKw⟩, ⟨name, .ident w⟩, ⟨semi, .mark .semi⟩])
    (hdiagnostics : (lex source.toList).diagnostics = []) :
    (parse source).isClean = true ∧
    (parse source).file.file = ⟨package, ⟨w, name⟩, [], (parse source).file.file.comments,
      CommentGroup.lead? (parse source).file.file.comments 0
        ((parse source).file.lines.line package.start)⟩ ∧
    (parse source).file.built =
      (parse source).file.file.comments.map (fun g => ⟨.commentGroup, g.span⟩) ++
        [⟨.sourceFile, package⟩] := by
  have hread := sourceFile_clause (.ofLexed source.toList (lex source.toList)) package name semi w
  rw [← htokens] at hread
  have hread : readTokens source.toList (lex source.toList) = _ := hread
  rw [parse, hread, hdiagnostics]
  refine ⟨?_, rfl, rfl⟩
  show (Diagnostic.sorted []).isEmpty = true
  rw [Diagnostic.sorted, List.mergeSort_nil, List.isEmpty_nil]

/-- Without comments the file is the only node in such a source. -/
lemma parse_clause_alone (htokens : (lex source.toList).clampedTokens =
      [⟨package, .keyword .packageKw⟩, ⟨name, .ident w⟩, ⟨semi, .mark .semi⟩])
    (hdiagnostics : (lex source.toList).diagnostics = [])
    (hcomments : (lex source.toList).comments = []) :
    (parse source).isClean = true ∧ (parse source).file.built = [⟨.sourceFile, package⟩] := by
  obtain ⟨hclean, -, hbuilt⟩ := parse_clause htokens hdiagnostics
  rw [comments_eq_nil hcomments] at hbuilt
  exact ⟨hclean, hbuilt⟩

end

/-- An empty place is on the line of its offset. -/
lemma LineTable.linesOf_emptyAt (ix : LineTable) (offset : Nat) :
    ix.linesOf (.emptyAt offset) = (ix.line offset, ix.line offset) := by
  rw [linesOf, Span.emptyAt, if_neg (Nat.lt_irrefl offset)]

namespace CommentGroup

/-- A comment alone that comes before all tokens is a group above the first of them. -/
lemma ofComments_first (ix : LineTable) (tokenEndLine : Nat → Option Nat) {c : Comment}
    (h : c.next = 0) :
    ofComments ix tokenEndLine [c] = [⟨c, [], false, (ix.linesOf c.span).2⟩] := by
  rw [ofComments, extend, ofComments, h]
  rfl

/-- No line is the one below itself, so a group that ends on the line of what comes next does not
document it. -/
lemma lead?_of_sameLine {g : CommentGroup} {next : Nat} (h : g.endLine ≤ Span.maxOffset) :
    lead? [g] next g.endLine = none := by
  have hbelow : LineTable.lineBelow g.endLine ≠ g.endLine := by
    intro heq
    rw [LineTable.lineBelow, wrapped] at heq
    simp only [Span.maxOffset] at *
    omega
  rw [lead?]
  split
  · next g' hfound =>
    obtain rfl := List.mem_singleton.1 (List.mem_of_find?_eq_some hfound)
    exact if_neg hbelow
  · rfl

end CommentGroup

namespace Distant

/-- The package as a source. -/
def source : String :=
  String.ofList chars

/-- The place of everything in it. -/
def place : Span :=
  .emptyAt Span.maxOffset

/-- The comment as it is kept, in its group. -/
def group : CommentGroup :=
  ⟨⟨.line, place, "", 0⟩, [], false, (LineTable.ofChars chars).line Span.maxOffset⟩

/-- The characters of the source. -/
lemma toList_source : source.toList = chars :=
  String.toList_ofList

/-- The line of what stands behind the blanks. -/
lemma lineCount_chars {before after : List Char}
    (h : "\n// doc\npackage p\n".toList = before ++ after) :
    LineTable.lineCount chars (Span.maxOffset + 1 + byteSize before) = before.count '\n' + 1 := by
  have hblanks : (List.replicate (Span.maxOffset + 1) ' ').count '\n' = 0 :=
    List.count_eq_zero_of_not_mem fun hmem => absurd (List.eq_of_mem_replicate hmem) (by decide)
  have hsize : byteSize (List.replicate (Span.maxOffset + 1) ' ') = Span.maxOffset + 1 :=
    byteSize_replicate _ rfl
  rw [chars, h]
  generalize List.replicate (Span.maxOffset + 1) ' ' = blanks at hblanks hsize
  rw [← hsize, ← byteSize_append, ← List.append_assoc, LineTable.lineCount_byteSize,
    List.count_append, hblanks, Nat.zero_add]

/-- The tokens of the source are all at the same place. -/
lemma clampedTokens_source : (lex source.toList).clampedTokens =
    [⟨place, .keyword .packageKw⟩, ⟨place, .ident name⟩, ⟨place, .mark .semi⟩] := by
  rw [toList_source, lex, findings_chars]
  decide +kernel

/-- Nothing is reported of the source. -/
lemma diagnostics_source : (lex source.toList).diagnostics = [] := by
  rw [toList_source, lex, findings_chars]
  rfl

/-- The package is read without a report. -/
lemma isClean_source : (parse source).isClean = true :=
  (parse_clause clampedTokens_source diagnostics_source).1

/-- All that is read is at one place, and the comment above the package is not its documentation. -/
lemma file_source : (parse source).file.file = ⟨place, ⟨name, place⟩, [], [group], none⟩ := by
  obtain ⟨-, hfile, -⟩ := parse_clause clampedTokens_source diagnostics_source
  have hgroups : (Context.ofLexed source.toList (lex source.toList)).groups = [group] := by
    rw [toList_source, Context.ofLexed, comments_chars]
    dsimp only
    rw [CommentGroup.ofComments_first _ _ rfl, LineTable.linesOf_emptyAt]
    rfl
  have hline : (parse source).file.lines.line place.start = group.endLine := by
    rw [lines_parse, toList_source]
    rfl
  rw [comments_parse, hgroups, hline, CommentGroup.lead?_of_sameLine (wrapped_le _)] at hfile
  exact hfile

end Distant

end GoService.Source
