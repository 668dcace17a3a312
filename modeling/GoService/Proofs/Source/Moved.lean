import GoService.Proofs.Source.Returns
import GoService.Source.Node
import Mathlib.Data.List.Basic
import Mathlib.Order.MinMax
import Mathlib.Order.Monotone.Basic

/-!
# Moved sources

With carriage returns before its line feeds a text says the same, but its parts stand elsewhere.
`moved f` is what a part of a source becomes if every offset `o` becomes `f o`: nothing changes but
the spans in it and the raw text of block comments and raw strings, which has the carriage returns.
This takes nothing away: a moved comment group has the same content (`CommentGroup.content_moved`),
a moved string literal the same value (`StringLiteral.value_moved`) and what was on a line is on
that line (`LineTable.line_moved`).
-/

namespace GoService.Source

variable {f : Nat → Nat}

/-! ## Spans and lines -/

/-- The place in the moved source. -/
def Span.moved (f : Nat → Nat) (s : Span) : Span :=
  ⟨f s.start, f s.stop⟩

/-- The table of lines of the moved source. -/
def LineTable.moved (f : Nat → Nat) (ix : LineTable) : LineTable :=
  ⟨ix.starts.map f⟩

namespace Span

/-- The place that covers two moves with them. -/
lemma cover_moved (hf : StrictMono f) (a b : Span) :
    (a.moved f).cover (b.moved f) = (a.cover b).moved f := by
  rw [moved, moved, cover, moved, cover, hf.monotone.map_min, hf.monotone.map_max]

/-- A moved place is empty exactly if the place is. -/
lemma isEmpty_moved (hf : StrictMono f) (s : Span) : (s.moved f).isEmpty = s.isEmpty := by
  have hle : f s.stop - f s.start = 0 ↔ s.stop - s.start = 0 := by
    rw [Nat.sub_eq_zero_iff_le, Nat.sub_eq_zero_iff_le, hf.le_iff_le]
  exact Bool.eq_iff_iff.2 (by simpa [isEmpty, size, moved] using hle)

end Span

namespace LineTable

/-- An offset stays on its line. -/
lemma line_moved (hf : StrictMono f) (ix : LineTable) (offset : Nat) :
    (ix.moved f).line (f offset) = ix.line offset := by
  have hle : (fun o => decide (o ≤ f offset)) ∘ f = fun o => decide (o ≤ offset) :=
    funext fun o => decide_eq_decide.2 hf.le_iff_le
  rw [line, moved, List.takeWhile_map, hle, List.length_map, line]

/-- The byte before an offset may go further than the offset itself, but not over a line. -/
lemma line_moved_pred (hf : StrictMono f) (ix : LineTable) {offset : Nat} (h : 0 < offset) :
    (ix.moved f).line (f offset - 1) = ix.line (offset - 1) := by
  have hpos : 0 < f offset := Nat.lt_of_le_of_lt (Nat.zero_le _) (hf h)
  have hle : (fun o => decide (o ≤ f offset - 1)) ∘ f = fun o => decide (o ≤ offset - 1) := by
    funext o
    refine decide_eq_decide.2 ?_
    rw [← Nat.lt_iff_le_pred hpos, ← Nat.lt_iff_le_pred h, hf.lt_iff_lt]
  rw [line, moved, List.takeWhile_map, hle, List.length_map, line]

/-- A place stays on its lines. -/
lemma linesOf_moved (hf : StrictMono f) (ix : LineTable) (s : Span) :
    (ix.moved f).linesOf (s.moved f) = ix.linesOf s := by
  rw [linesOf, linesOf, Span.moved, line_moved hf]
  by_cases h : s.stop > s.start
  · rw [if_pos (hf h), if_pos h, line_moved_pred hf ix (Nat.zero_lt_of_lt h)]
  · rw [if_neg (mt hf.lt_iff_lt.1 h), if_neg h, line_moved hf]

end LineTable

/-! ## Comments -/

/-- The text of a comment with carriage returns; a comment that takes no more than a line has
none. -/
def CommentKind.returned : CommentKind → String → String
  | .line, text => text
  | .block, text => String.ofList (text.toList.take 2 ++ withReturns (text.toList.drop 2))

/-- The comment in the moved source, with its text in the other form. -/
def Comment.moved (f : Nat → Nat) (c : Comment) : Comment :=
  ⟨c.kind, c.span.moved f, c.kind.returned c.text, c.next⟩

/-- The group of comments in the moved source. -/
def CommentGroup.moved (f : Nat → Nat) (g : CommentGroup) : CommentGroup :=
  ⟨g.first.moved f, g.others.map (Comment.moved f), g.trailing, g.endLine⟩

section

/-- How blanks at the end are cut off a text with one more character in front. -/
lemma trimEnd_cons (c : Char) (cs : List Char) : Text.trimEnd (c :: cs) =
    if (Text.trimEnd cs).isEmpty then Text.trimEnd [c] else c :: Text.trimEnd cs := by
  rw [Text.trimEnd, Text.trimEnd, Text.trimEnd, List.reverse_cons, List.dropWhile_append,
    List.isEmpty_reverse]
  split
  · rfl
  · rw [List.reverse_append]
    rfl

/-- A carriage return before the end of a line is blank. -/
lemma split_withReturns (cs : List Char) :
    (Text.split '\n' (withReturns cs)).map Text.trimEnd =
      (Text.split '\n' cs).map Text.trimEnd := by
  induction cs with
  | nil => rfl
  | cons c cs ih =>
    by_cases hc : c = '\n'
    · rw [hc, withReturns_lineFeed, Text.split, if_neg (by decide), Text.split, if_pos rfl,
        Text.split, if_pos rfl, List.map_cons, List.map_cons, ih]
      rfl
    · rw [withReturns_cons hc, Text.split, if_neg hc, Text.split, if_neg hc]
      -- the first pieces may differ at their ends, so nothing but what is left of them is known
      revert ih
      have hne := Text.split_ne_nil '\n' cs
      have hne' := Text.split_ne_nil '\n' (withReturns cs)
      generalize Text.split '\n' cs = pieces at hne
      generalize Text.split '\n' (withReturns cs) = pieces' at hne'
      intro ih
      cases pieces with
      | nil => exact absurd rfl hne
      | cons p ps =>
        cases pieces' with
        | nil => exact absurd rfl hne'
        | cons p' ps' =>
          obtain ⟨hp, hps⟩ := List.cons.inj ih
          rw [List.map_cons, List.map_cons, trimEnd_cons c p', trimEnd_cons c p, hp, hps]

/-- The text of a block comment less the mark at its end, if that is there. -/
def blockBody (body : List Char) : List Char :=
  if ['*', '/'].isSuffixOf body then body.take (body.length - 2) else body

/-- The body of a block comment is what comes before its closing mark. -/
lemma blockBody_close (body : List Char) : blockBody (body ++ ['*', '/']) = body := by
  rw [blockBody, if_pos (List.isSuffixOf_iff_suffix.2 (List.suffix_append ..)), List.length_append]
  exact List.take_left

/-- The body of a block comment with carriage returns. -/
lemma blockBody_withReturns (body : List Char) :
    blockBody (withReturns body) = withReturns (blockBody body) := by
  by_cases h : ∃ inner, body = inner ++ ['*', '/']
  · obtain ⟨inner, rfl⟩ := h
    rw [withReturns_append, blockBody_close]
    exact blockBody_close _
  · have hopen {cs : List Char} (h : ¬ ∃ inner, cs = inner ++ ['*', '/']) : blockBody cs = cs := by
      refine if_neg fun hsuffix => h ?_
      obtain ⟨inner, hinner⟩ := List.isSuffixOf_iff_suffix.1 hsuffix
      exact ⟨inner, hinner.symm⟩
    have h' : ¬ ∃ inner, withReturns body = inner ++ ['*', '/'] := by
      rintro ⟨inner, hinner⟩
      rw [show inner ++ ['*', '/'] = (inner ++ ['*']) ++ ['/'] by simp] at hinner
      obtain ⟨r, rfl, hr⟩ := exists_of_withReturns_eq_concat (by decide) hinner
      obtain ⟨s, rfl, -⟩ := exists_of_withReturns_eq_concat (by decide) hr.symm
      exact h ⟨s, by simp⟩
    rw [hopen h, hopen h']

/-- Without the blanks at the end of lines, a comment says the same. -/
lemma Comment.contentLines_moved (c : Comment) :
    (c.moved f).contentLines.map Text.trimEnd = c.contentLines.map Text.trimEnd := by
  obtain ⟨kind, span, text, next⟩ := c
  cases kind with
  | line => rfl
  | block =>
    have hbody : (CommentKind.returned .block text).toList.drop 2 =
        withReturns (text.toList.drop 2) := by
      rw [CommentKind.returned, String.toList_ofList]
      match text.toList with
      | [] | [_] | _ :: _ :: _ => rfl
    show (Text.split '\n' (blockBody _)).map Text.trimEnd =
      (Text.split '\n' (blockBody _)).map Text.trimEnd
    rw [Comment.moved, hbody, blockBody_withReturns, split_withReturns]

/-- The text of a comment group does not depend on how its lines end. -/
lemma CommentGroup.content_moved (g : CommentGroup) : (g.moved f).content = g.content := by
  have hlines : ((g.moved f).comments.flatMap Comment.contentLines).map Text.trimEnd =
      (g.comments.flatMap Comment.contentLines).map Text.trimEnd := by
    show (((g.comments.map (Comment.moved f)).flatMap _).map _) = _
    rw [List.flatMap_map, List.map_flatMap, List.map_flatMap]
    exact List.flatMap_congr fun c _ => c.contentLines_moved
  rw [content, content, hlines]

end

namespace CommentGroup

/-- The place of a group moves with it. -/
lemma span_moved (hf : StrictMono f) (g : CommentGroup) : (g.moved f).span = g.span.moved f := by
  have hlast : (g.others.map (Comment.moved f)).getLastD (g.first.moved f) =
      (g.others.getLastD g.first).moved f := by
    rw [List.getLastD_eq_getLast?, List.getLast?_map, List.getLastD_eq_getLast?, Option.getD_map]
  rw [span, moved, hlast]
  exact Span.cover_moved hf ..

/-- A group is extended alike in a moved source. -/
lemma extend_moved (hf : StrictMono f) (ix : LineTable) (trailing : Bool) (next endLine : Nat)
    (cs : List Comment) : extend (ix.moved f) trailing next endLine (cs.map (Comment.moved f)) =
      ((extend ix trailing next endLine cs).1.map (Comment.moved f),
        (extend ix trailing next endLine cs).2.1,
        (extend ix trailing next endLine cs).2.2.map (Comment.moved f)) := by
  induction cs generalizing endLine with
  | nil => rfl
  | cons c cs ih =>
    rw [List.map_cons, extend, extend]
    have hline : (ix.moved f).line (c.moved f).span.start = ix.line c.span.start :=
      LineTable.line_moved hf ..
    have hlines : (ix.moved f).linesOf (c.moved f).span = ix.linesOf c.span :=
      LineTable.linesOf_moved hf ..
    have hnext : (c.moved f).next = c.next := rfl
    rw [hline, hlines, hnext, ih]
    dsimp only
    generalize (c.next == next && _) = continues
    cases continues with
    | false => rfl
    | true => rfl

/-- Comments are grouped alike in a moved source. -/
lemma ofComments_moved (hf : StrictMono f) (ix : LineTable) (tokenEndLine : Nat → Option Nat)
    (cs : List Comment) : ofComments (ix.moved f) tokenEndLine (cs.map (Comment.moved f)) =
      (ofComments ix tokenEndLine cs).map (moved f) := by
  induction cs using ofComments.induct ix tokenEndLine with
  | case1 =>
    rw [ofComments]
    exact ofComments.eq_1 ..
  | case2 c cs trailing taken ih =>
    have hline : (ix.moved f).line (c.moved f).span.start = ix.line c.span.start :=
      LineTable.line_moved hf ..
    have hlines : (ix.moved f).linesOf (c.moved f).span = ix.linesOf c.span :=
      LineTable.linesOf_moved hf ..
    have hnext : (c.moved f).next = c.next := rfl
    rw [List.map_cons, ofComments, ofComments, hline, hlines, hnext, extend_moved hf, List.map_cons,
      ih]
    rfl

/-- The same group leads to a line in a moved source. -/
lemma lead?_moved (groups : List CommentGroup) (next line : Nat) :
    lead? (groups.map (moved f)) next line = (lead? groups next line).map (moved f) := by
  have hfind : (groups.map (moved f)).reverse.find? (fun g => !g.trailing && g.next == next) =
      (groups.reverse.find? fun g => !g.trailing && g.next == next).map (moved f) := by
    rw [← List.map_reverse]
    exact List.find?_map ..
  rw [lead?, lead?, hfind]
  cases groups.reverse.find? fun g => !g.trailing && g.next == next with
  | none => rfl
  | some g =>
    exact (apply_ite (Option.map (moved f)) (LineTable.lineBelow g.endLine = line) (some g)
      none).symm

/-- The same group trails a token in a moved source. -/
lemma trailing?_moved (groups : List CommentGroup) (next : Nat) :
    trailing? (groups.map (moved f)) next = (trailing? groups next).map (moved f) :=
  List.find?_map ..

end CommentGroup

/-! ## Tokens -/

/-- The text of a string literal with carriage returns, which only a raw one can have. -/
def returnedLiteral (text : String) : String :=
  if text.toList.head? = some '\x60' then String.ofList (withReturns text.toList) else text

/-- The token with carriage returns in the text of a string literal. -/
def Token.returned : Token → Token
  | .stringLit s => .stringLit (returnedLiteral s)
  | .rawStringLit s => .rawStringLit (returnedLiteral s)
  | t => t

/-- The token in the moved source. -/
def Placed.moved (f : Nat → Nat) (p : Placed) : Placed :=
  ⟨p.span.moved f, p.token.returned⟩

/-- The value of a raw literal is its body without carriage returns, if the closing quote is there.
-/
lemma unquote_raw {text : String} {body : List Char} {last : Char}
    (h : text.toList = '\x60' :: (body ++ [last])) : unquote text =
      if last = '\x60' then .ok (String.ofList (body.filter (· != '\r')))
      else if last.utf8Size != 1 then .error .splitCharacter else .error .notQuoted := by
  have hlast : ('\x60' :: (body ++ [last])).getLast? = some last := by
    rw [← List.cons_append, List.getLast?_concat]
  have hsize : ¬ byteSize ('\x60' :: (body ++ [last])) < 2 := by
    have hquote : ('\x60').utf8Size = 1 := by decide
    have hpos := last.utf8Size_pos
    rw [byteSize, byteSize_append, byteSize, byteSize]
    omega
  rw [unquote, h]
  dsimp only
  rw [if_neg hsize, hlast, List.head?_cons, List.tail_cons, List.dropLast_concat]
  by_cases hquote : last = '\x60'
  · subst hquote
    rfl
  · rw [if_neg hquote]
    refine if_congr Iff.rfl rfl ?_
    split
    · next heq => exact absurd (Option.some.inj heq) hquote
    · next heq _ => cases heq
    · rfl

/-- A string literal has the same value in either form: the value of a raw one has no carriage
returns. -/
lemma unquote_returnedLiteral (text : String) : unquote (returnedLiteral text) = unquote text := by
  by_cases hraw : text.toList.head? = some '\x60'
  · obtain ⟨r, hr⟩ := List.head?_eq_some_iff.1 hraw
    rw [returnedLiteral, if_pos hraw, hr, withReturns_cons (by decide)]
    rcases r.eq_nil_or_concat with rfl | ⟨body, last, rfl⟩
    · rw [withReturns, ← hr, String.ofList_toList]
    · rw [List.concat_eq_append] at hr ⊢
      obtain ⟨body', hbody'⟩ := List.getLast?_eq_some_iff.1
        ((getLast?_withReturns (body ++ [last])).trans List.getLast?_concat)
      have hfilter := filter_withReturns (body ++ [last])
      rw [hbody', List.filter_append, List.filter_append] at hfilter
      rw [hbody', unquote_raw hr, unquote_raw (String.toList_ofList ..),
        List.append_cancel_right hfilter]
  · rw [returnedLiteral, if_neg hraw]

/-! ## Diagnostics and nodes -/

/-- What was found, with carriage returns in the text of a string literal. -/
def Found.returned : Found → Found
  | .token t => .token t.returned
  | found => found

/-- The problem, with carriage returns in what was found. -/
def Problem.returned : Problem → Problem
  | .expected what found => .expected what found.returned
  | problem => problem

/-- The report in the moved source. -/
def Diagnostic.moved (f : Nat → Nat) (d : Diagnostic) : Diagnostic :=
  ⟨d.span.moved f, d.problem.returned⟩

/-- The label of a node in the moved source. -/
def NodeLabel.moved (f : Nat → Nat) (n : NodeLabel) : NodeLabel :=
  ⟨n.kind, n.span.moved f⟩

/-! ## Trees -/

/-- The identifier in the moved source. -/
def Ident.moved (f : Nat → Nat) (i : Ident) : Ident :=
  ⟨i.word, i.span.moved f⟩

/-- The string literal in the moved source. -/
def StringLiteral.moved (f : Nat → Nat) (l : StringLiteral) : StringLiteral :=
  ⟨returnedLiteral l.text, l.span.moved f⟩

/-- A string literal keeps its value. -/
lemma StringLiteral.value_moved (l : StringLiteral) : (l.moved f).value = l.value :=
  unquote_returnedLiteral l.text

mutual

/-- The type in the moved source. -/
def TypeExpr.moved (f : Nat → Nat) : TypeExpr → TypeExpr
  | .named span pkg name args =>
    .named (span.moved f) (pkg.map (Ident.moved f)) (name.moved f) (TypeExpr.movedAll f args)
  | .pointer span star elem => .pointer (span.moved f) (star.moved f) (elem.moved f)
  | .array span len elem => .array (span.moved f) (len.moved f) (elem.moved f)
  | .slice span elem => .slice (span.moved f) (elem.moved f)
  | .map span key val => .map (span.moved f) (key.moved f) (val.moved f)
  | .chan span dir elem => .chan (span.moved f) dir (elem.moved f)
  | .struct span lBrace fields rBrace =>
    .struct (span.moved f) (lBrace.moved f) (Field.movedAll f fields) (rBrace.moved f)
  | .interface span lBrace elems rBrace =>
    .interface (span.moved f) (lBrace.moved f) (InterfaceMember.movedAll f elems) (rBrace.moved f)
  | .func span signature => .func (span.moved f) (signature.moved f)
  | .paren span inner => .paren (span.moved f) (inner.moved f)
  | .bad span place => .bad (span.moved f) (place.moved f)

/-- The types in the moved source. -/
def TypeExpr.movedAll (f : Nat → Nat) : List TypeExpr → List TypeExpr
  | [] => []
  | t :: ts => t.moved f :: TypeExpr.movedAll f ts

/-- The field in the moved source. -/
def Field.moved (f : Nat → Nat) : Field → Field
  | ⟨span, names, ellipsis, type, tag, embedded, doc, comment⟩ =>
    ⟨span.moved f, names.map (Ident.moved f), ellipsis.map (Span.moved f), type.moved f,
      tag.map (StringLiteral.moved f), embedded, doc.map (CommentGroup.moved f),
      comment.map (CommentGroup.moved f)⟩

/-- The fields in the moved source. -/
def Field.movedAll (f : Nat → Nat) : List Field → List Field
  | [] => []
  | d :: ds => d.moved f :: Field.movedAll f ds

/-- The list of fields in the moved source. -/
def FieldList.moved (f : Nat → Nat) : FieldList → FieldList
  | ⟨opening, fields, closing⟩ => ⟨opening.moved f, Field.movedAll f fields, closing.moved f⟩

/-- The signature in the moved source. -/
def Signature.moved (f : Nat → Nat) : Signature → Signature
  | ⟨span, params, none⟩ => ⟨span.moved f, params.moved f, none⟩
  | ⟨span, params, some results⟩ => ⟨span.moved f, params.moved f, some (results.moved f)⟩

/-- The results in the moved source. -/
def ResultList.moved (f : Nat → Nat) : ResultList → ResultList
  | .params list => .params (list.moved f)
  | .single type => .single (type.moved f)

/-- The term of a union in the moved source. -/
def UnionTerm.moved (f : Nat → Nat) : UnionTerm → UnionTerm
  | ⟨tilde, type⟩ => ⟨tilde.map (Span.moved f), type.moved f⟩

/-- The terms of a union in the moved source. -/
def UnionTerm.movedAll (f : Nat → Nat) : List UnionTerm → List UnionTerm
  | [] => []
  | t :: ts => t.moved f :: UnionTerm.movedAll f ts

/-- The element of an interface in the moved source. -/
def InterfaceMember.moved (f : Nat → Nat) : InterfaceMember → InterfaceMember
  | .method name signature => .method (name.moved f) (signature.moved f)
  | .union terms => .union (UnionTerm.movedAll f terms)

/-- The elements of an interface in the moved source. -/
def InterfaceMember.movedAll (f : Nat → Nat) : List InterfaceMember → List InterfaceMember
  | [] => []
  | e :: es => e.moved f :: InterfaceMember.movedAll f es

end

/-- Types are moved one by one. -/
lemma TypeExpr.movedAll_eq_map (ts : List TypeExpr) :
    TypeExpr.movedAll f ts = ts.map (TypeExpr.moved f) := by
  induction ts with
  | nil => rfl
  | cons t ts ih => rw [TypeExpr.movedAll, ih, List.map_cons]

/-- Fields are moved one by one. -/
lemma Field.movedAll_eq_map (ds : List Field) : Field.movedAll f ds = ds.map (Field.moved f) := by
  induction ds with
  | nil => rfl
  | cons d ds ih => rw [Field.movedAll, ih, List.map_cons]

/-- The terms of a union are moved one by one. -/
lemma UnionTerm.movedAll_eq_map (ts : List UnionTerm) :
    UnionTerm.movedAll f ts = ts.map (UnionTerm.moved f) := by
  induction ts with
  | nil => rfl
  | cons t ts ih => rw [UnionTerm.movedAll, ih, List.map_cons]

/-- The elements of an interface are moved one by one. -/
lemma InterfaceMember.movedAll_eq_map (es : List InterfaceMember) :
    InterfaceMember.movedAll f es = es.map (InterfaceMember.moved f) := by
  induction es with
  | nil => rfl
  | cons e es ih => rw [InterfaceMember.movedAll, ih, List.map_cons]

/-- A signature is moved part by part. -/
lemma Signature.moved_eq (s : Signature) :
    s.moved f = ⟨s.span.moved f, s.params.moved f, s.results.map (ResultList.moved f)⟩ := by
  obtain ⟨span, params, results⟩ := s
  cases results <;> rfl

/-- Type parameters with one constraint in the moved source. -/
def TypeParamGroup.moved (f : Nat → Nat) (d : TypeParamGroup) : TypeParamGroup :=
  ⟨d.span.moved f, d.names.map (Ident.moved f), UnionTerm.movedAll f d.constraint⟩

/-- Type parameters in the moved source. -/
def TypeParams.moved (f : Nat → Nat) (p : TypeParams) : TypeParams :=
  ⟨p.span.moved f, p.lBrack.moved f, p.params.map (TypeParamGroup.moved f), p.rBrack.moved f⟩

/-- The name of an import in the moved source. -/
def ImportLabel.moved (f : Nat → Nat) : ImportLabel → ImportLabel
  | .dot span => .dot (span.moved f)
  | .blank span => .blank (span.moved f)
  | .name ident => .name (ident.moved f)

/-- The import in the moved source. -/
def ImportSpec.moved (f : Nat → Nat) (s : ImportSpec) : ImportSpec :=
  ⟨s.doc.map (CommentGroup.moved f), s.name.map (ImportLabel.moved f), s.path.moved f⟩

/-- The value entry in the moved source. -/
def ValueSpec.moved (f : Nat → Nat) (s : ValueSpec) : ValueSpec :=
  ⟨s.doc.map (CommentGroup.moved f), s.names.map (Ident.moved f), s.type.map (TypeExpr.moved f),
    s.values.map (Span.moved f)⟩

/-- The type entry in the moved source. -/
def TypeSpec.moved (f : Nat → Nat) (s : TypeSpec) : TypeSpec :=
  ⟨s.doc.map (CommentGroup.moved f), s.name.moved f, s.typeParams.map (TypeParams.moved f),
    s.equals.map (Span.moved f), s.type.moved f⟩

/-- The entry of a declaration in the moved source. -/
def Spec.moved (f : Nat → Nat) : Spec → Spec
  | .importSpec spec => .importSpec (spec.moved f)
  | .valueSpec spec => .valueSpec (spec.moved f)
  | .typeSpec spec => .typeSpec (spec.moved f)

/-- The declaration with entries in the moved source. -/
def GenDecl.moved (f : Nat → Nat) (d : GenDecl) : GenDecl :=
  ⟨d.span.moved f, d.doc.map (CommentGroup.moved f), d.kind, d.keyword.moved f,
    d.lParen.map (Span.moved f), d.specs.map (Spec.moved f), d.rParen.map (Span.moved f)⟩

/-- The function declaration in the moved source. -/
def FuncDecl.moved (f : Nat → Nat) (d : FuncDecl) : FuncDecl :=
  ⟨d.span.moved f, d.doc.map (CommentGroup.moved f), d.keyword.moved f,
    d.recv.map (FieldList.moved f), d.name.moved f, d.typeParams.map (TypeParams.moved f),
    d.signature.moved f, d.body.map (Span.moved f)⟩

/-- The declaration in the moved source. -/
def Decl.moved (f : Nat → Nat) : Decl → Decl
  | .gen decl => .gen (decl.moved f)
  | .func decl => .func (decl.moved f)
  | .bad span => .bad (span.moved f)

/-- The file in the moved source. -/
def SourceFile.moved (f : Nat → Nat) (d : SourceFile) : SourceFile :=
  ⟨d.package.moved f, d.name.moved f, d.decls.map (Decl.moved f),
    d.comments.map (CommentGroup.moved f), d.doc.map (CommentGroup.moved f)⟩

end GoService.Source
