import GoService.Project.Manifest
import GoService.Proofs.Source.LiteralValues
import Mathlib.Data.List.Forall2

/-!
# Tokens of manifests

How a line of a manifest is cut into tokens, said of its text (`IsToken`): a token is a text in
quotes, an arrow, a parenthesis, or a bare text that goes on to white space, a parenthesis, a
comment or an arrow. These are the tokens that the reader of lines takes (`isToken_of_taken`,
`taken_of_isToken`). A bare argument may as well be put in quotes: a line that is written so has the
same comment, and arguments that stand for the same (`readTokens_respelled`).
-/

namespace GoService.Project

open Text (isBlank)

/-! ## What a token is -/

/-- A bare token ends before this text. -/
inductive EndsBare : List Char → Prop
  | nil : EndsBare []
  | blank (h : isBlank c) : EndsBare (c :: cs)
  | paren (h : c = '(' ∨ c = ')') : EndsBare (c :: cs)
  | comment : EndsBare ('/' :: '/' :: cs)
  | arrow : EndsBare ('=' :: '>' :: cs)

/-- A bare token ends behind the text, and nowhere in it. -/
inductive RunsTo : List Char → List Char → Prop
  | nil (h : EndsBare rest) : RunsTo [] rest
  | cons (hc : ¬ EndsBare (c :: (run ++ rest))) (h : RunsTo run rest) : RunsTo (c :: run) rest

/-- The text is a token before the rest. -/
inductive IsToken : List Char → List Char → Prop
  | quoted (hq : q = '"' ∨ q = '\x60') (hbody : q ∉ body) : IsToken (q :: (body ++ [q])) rest
  | arrow : IsToken ['=', '>'] rest
  | paren (hc : c = '(' ∨ c = ')') : IsToken [c] rest
  | bare (hc : ¬ (c = '"' ∨ c = '\x60')) (hrun : RunsTo (c :: cs) rest) : IsToken (c :: cs) rest

/-- The reader of lines takes the token off a text, before the rest. -/
inductive Taken : List Char → List Char → Prop
  | intro (hblank : isBlank c = false) (hcomment : ¬ (c = '/' ∧ (cs ++ rest).head? = some '/'))
      (hlength : manifestTokenLength c (cs ++ rest) = .ok cs.length) : Taken (c :: cs) rest

/-- The marks that mean something as tokens. -/
def markTokens : List String := ["=>", "(", ")"]

/-- Two tokens are the same mark, or stand for the same text. -/
structure SameArgument (a b : String) : Prop where
  mark : ∀ m ∈ markTokens, a = m ↔ b = m
  value : tokenValue a = tokenValue b

/-- A token that may as well be put in quotes. -/
def IsQuotable (token : List Char) : Prop :=
  String.ofList token ∉ markTokens ∧ ∀ c ∈ token, c ≠ '"' ∧ c ≠ '\x60' ∧ c ≠ '\\'

instance (token : List Char) : Decidable (IsQuotable token) :=
  @instDecidableAnd _ _ inferInstance
    (List.decidableBAll (fun c => c ≠ '"' ∧ c ≠ '\x60' ∧ c ≠ '\\') token)

/-- The line is written with some of its tokens put in quotes. -/
inductive Respelled : List Char → List Char → Prop
  | same : Respelled line line
  | blank (hc : isBlank c) (h : Respelled line line') : Respelled (c :: line) (c :: line')
  | kept (htoken : Taken token line) (h : Respelled line line') :
      Respelled (token ++ line) (token ++ line')
  | quoted (htoken : Taken token line) (hquotable : IsQuotable token) (hq : q = '"' ∨ q = '\x60')
      (h : Respelled line line') : Respelled (token ++ line) (q :: (token ++ q :: line'))

section

variable {c d : Char} {cs ds rest run : List Char}

/-- A bare token ends at white space, at parentheses, at comments and at arrows. -/
lemma endsBare_cons_iff : EndsBare (c :: cs) ↔ isBlank c ∨ (c = '(' ∨ c = ')') ∨
    (c = '/' ∧ cs.head? = some '/') ∨ (c = '=' ∧ cs.head? = some '>') := by
  constructor
  · intro h
    cases h with
    | blank h => exact .inl h
    | paren h => exact .inr (.inl h)
    | comment => exact .inr (.inr (.inl ⟨rfl, rfl⟩))
    | arrow => exact .inr (.inr (.inr ⟨rfl, rfl⟩))
  · rintro (h | h | ⟨rfl, h⟩ | ⟨rfl, h⟩)
    · exact .blank h
    · exact .paren h
    · obtain ⟨cs, rfl⟩ := List.head?_eq_some_iff.1 h
      exact .comment
    · obtain ⟨cs, rfl⟩ := List.head?_eq_some_iff.1 h
      exact .arrow

/-- A bare token goes on at every other character. -/
lemma not_endsBare_cons_iff : ¬ EndsBare (c :: cs) ↔ isBlank c = false ∧ ¬ (c = '(' ∨ c = ')') ∧
    ¬ (c = '/' ∧ cs.head? = some '/') ∧ ¬ (c = '=' ∧ cs.head? = some '>') := by
  rw [endsBare_cons_iff, not_or, not_or, @not_or (c = '/' ∧ _), Bool.not_eq_true]

/-- Where a bare token ends shows in the next two characters. -/
lemma endsBare_cons_congr (h : cs.head? = ds.head?) : EndsBare (c :: cs) ↔ EndsBare (c :: ds) := by
  rw [endsBare_cons_iff, endsBare_cons_iff, h]

/-- A quotation mark does not end a bare token. -/
lemma not_endsBare_quote (h : c = '"' ∨ c = '\x60') : ¬ EndsBare (c :: cs) := by
  rw [endsBare_cons_iff]
  rcases h with rfl | rfl <;> simp [isBlank]

/-! ## Where a bare token ends -/

/-- A run ends where a bare token does. -/
lemma RunsTo.ends (h : RunsTo run rest) : EndsBare rest := by
  induction h with
  | nil h => exact h
  | cons _ _ ih => exact ih

/-- A run does not end at its first character. -/
lemma RunsTo.not_endsBare (h : RunsTo (c :: run) rest) : ¬ EndsBare (c :: (run ++ rest)) := by
  cases h with
  | cons hc => exact hc

/-- A run does not end before its end. -/
lemma RunsTo.goes (h : RunsTo run rest) :
    ∀ part, part <:+ run → part ≠ [] → ¬ EndsBare (part ++ rest) := by
  induction h with
  | nil => exact fun part hpart hne => absurd (List.suffix_nil.1 hpart) hne
  | cons hc _ ih =>
    intro part hpart hne
    rcases List.suffix_cons_iff.1 hpart with rfl | hpart
    · exact hc
    · exact ih part hpart hne

/-- Every text begins with a run, which may be empty. -/
lemma exists_runsTo (cs : List Char) : ∃ run rest, cs = run ++ rest ∧ RunsTo run rest := by
  induction cs with
  | nil => exact ⟨[], [], rfl, .nil .nil⟩
  | cons c cs ih =>
    by_cases hends : EndsBare (c :: cs)
    · exact ⟨[], c :: cs, rfl, .nil hends⟩
    · obtain ⟨run, rest, rfl, hrun⟩ := ih
      exact ⟨c :: run, rest, rfl, .cons hends hrun⟩

/-- A run has no white space and no parentheses. -/
lemma RunsTo.isBare (h : RunsTo run rest) :
    ∀ c ∈ run, isBlank c = false ∧ ¬ (c = '(' ∨ c = ')') := by
  induction h with
  | nil => exact List.forall_mem_nil _
  | cons hc _ ih =>
    obtain ⟨hblank, hparen, -⟩ := not_endsBare_cons_iff.1 hc
    exact List.forall_mem_cons.2 ⟨⟨hblank, hparen⟩, ih⟩

/-- A pattern that begins nowhere in a text is looked for behind it. -/
lemma indexOf?_append {pattern text : List Char} (rest : List Char)
    (h : ∀ part, part <:+ text → part ≠ [] → ¬ pattern <+: part ++ rest) :
    indexOf? pattern (text ++ rest) = (indexOf? pattern rest).map (· + text.length) := by
  induction text with
  | nil => simp
  | cons c text ih =>
    have hhere : ¬ pattern <+: c :: (text ++ rest) :=
      h _ (List.suffix_refl _) (List.cons_ne_nil _ _)
    have hthere := ih fun part hpart => h part (hpart.trans (List.suffix_cons c text))
    rw [List.cons_append, indexOf?, if_neg (mt List.isPrefixOf_iff_prefix.1 hhere), hthere,
      Option.map_map]
    rfl

/-- What comes before a pattern goes on through a text in which the pattern does not begin. -/
lemma lengthBefore_append {pattern text : List Char} (hne : text ≠ []) (rest : List Char)
    (h : ∀ part, part <:+ text → part ≠ [] → ¬ pattern <+: part ++ rest) :
    lengthBefore pattern (text ++ rest) =
      text.length + (indexOf? pattern rest).getD rest.length := by
  obtain ⟨n, hn⟩ := Nat.exists_eq_succ_of_ne_zero (mt List.length_eq_zero_iff.1 hne)
  rw [lengthBefore, indexOf?_append rest h]
  cases indexOf? pattern rest with
  | none => simp
  | some k => simp [hn, Nat.add_comm, Nat.add_left_comm, Nat.add_assoc]

/-- The marks at which a bare token ends although no white space is there. -/
lemma RunsTo.not_isPrefix (h : RunsTo run rest) {front pattern : List Char}
    (hfront : front <+: rest) (hpattern : pattern = ['/', '/'] ∨ pattern = ['=', '>']) :
    ∀ part, part <:+ run → part ≠ [] → ¬ pattern <+: part ++ front := by
  intro part hpart hne hprefix
  obtain ⟨tail, htail⟩ := hprefix.trans (List.prefix_append_right_inj part |>.2 hfront)
  refine h.goes part hpart hne ?_
  rw [← htail]
  rcases hpattern with rfl | rfl
  · exact .comment
  · exact .arrow

/-- Whether a character can stand in a bare token. -/
def isBareChar (c : Char) : Bool :=
  !(isBlank c || c == '(' || c == ')')

/-- Behind a bare token nothing more is taken. -/
lemma EndsBare.nothing_taken (h : EndsBare rest) :
    let front := rest.takeWhile isBareChar
    let text := front.take ((indexOf? ['/', '/'] front).getD front.length)
    (indexOf? ['=', '>'] text).getD text.length = 0 := by
  cases h with
  | nil => rfl
  | blank h => simp [isBareChar, h, indexOf?]
  | paren h => rcases h with rfl | rfl <;> rfl
  | comment => rfl
  | @arrow cs =>
    have hfront : ('=' :: '>' :: cs).takeWhile isBareChar = '=' :: '>' :: cs.takeWhile isBareChar :=
      rfl
    have hindex (front : List Char) : indexOf? ['/', '/'] ('=' :: '>' :: front) =
        (indexOf? ['/', '/'] front).map (· + 2) :=
      Option.map_map ..
    dsimp only
    rw [hfront, hindex]
    cases indexOf? ['/', '/'] (cs.takeWhile isBareChar) with
    | none => rfl
    | some => rfl

/-- A bare token is as long as its run. -/
lemma bareLength_of_runsTo (h : RunsTo run rest) (hne : run ≠ []) :
    bareLength (run ++ rest) = run.length := by
  have hrun : (run ++ rest).takeWhile isBareChar = run ++ rest.takeWhile isBareChar :=
    List.takeWhile_append_of_pos fun c hc => by
      obtain ⟨hblank, hparen⟩ := h.isBare c hc
      simpa [isBareChar, hblank] using hparen
  have hfront : rest.takeWhile isBareChar <+: rest := List.takeWhile_prefix _
  have hnothing := h.ends.nothing_taken
  show lengthBefore ['=', '>'] (((run ++ rest).takeWhile isBareChar).take
    (lengthBefore ['/', '/'] ((run ++ rest).takeWhile isBareChar))) = run.length
  rw [hrun, lengthBefore_append hne _ (h.not_isPrefix hfront (.inl rfl)),
    List.take_length_add_append, lengthBefore_append hne _
      (h.not_isPrefix ((List.take_prefix _ _).trans hfront) (.inr rfl)), hnothing, Nat.add_zero]

/-! ## What the reader of lines takes -/

/-- A line without characters has no tokens. -/
lemma readTokens_nil : readTokens [] = .ok ⟨[], none⟩ := by
  rw [readTokens.eq_def]

/-- The tokens of a line: blanks are passed over, a comment ends them, and any other character
begins one. -/
lemma readTokens_cons (c : Char) (cs : List Char) : readTokens (c :: cs) =
    if isBlank c then readTokens cs
    else if c = '/' ∧ cs.head? = some '/' then
      .ok ⟨[], some (String.ofList (Text.trim (cs.drop 1)))⟩
    else
      match manifestTokenLength c cs with
      | .error e => .error e
      | .ok n =>
        match readTokens (cs.drop n) with
        | .error e => .error e
        | .ok rest => .ok { rest with tokens := String.ofList (c :: cs.take n) :: rest.tokens } :=
  readTokens.eq_def (c :: cs)

/-- The first index of a character is where a body without it ends. -/
lemma idxOf?_eq_some_iff {q : Char} {text : List Char} {n : Nat} : text.idxOf? q = some n ↔
    ∃ body after, text = body ++ q :: after ∧ q ∉ body ∧ body.length = n := by
  induction text generalizing n with
  | nil => simp
  | cons c text ih =>
    rw [List.idxOf?_cons]
    constructor
    · intro h
      split at h
      · next hc =>
        obtain rfl := eq_of_beq hc
        exact ⟨[], text, rfl, List.not_mem_nil, Option.some.inj h⟩
      · next hc =>
        obtain ⟨m, hm, rfl⟩ := Option.map_eq_some_iff.1 h
        obtain ⟨body, after, rfl, hbody, rfl⟩ := ih.1 hm
        refine ⟨c :: body, after, rfl, ?_, rfl⟩
        intro hmem
        rcases List.mem_cons.1 hmem with rfl | hmem
        · exact hc (beq_self_eq_true q)
        · exact hbody hmem
    · rintro ⟨body, after, htext, hbody, rfl⟩
      cases body with
      | nil =>
        obtain ⟨rfl, -⟩ := List.cons.inj htext
        exact if_pos (beq_self_eq_true c)
      | cons d body =>
        obtain ⟨rfl, rfl⟩ := List.cons.inj htext
        rw [List.mem_cons, not_or] at hbody
        obtain ⟨hc, hbody⟩ := hbody
        rw [if_neg (by simpa using Ne.symm hc), ih.2 ⟨body, after, rfl, hbody, rfl⟩]
        rfl

/-- A token is taken from a line that begins with it. -/
lemma taken_of_isToken (h : IsToken run rest) : Taken run rest := by
  cases h with
  | @quoted q body _ hq hbody =>
    refine .intro (by rcases hq with rfl | rfl <;> decide) ?_ ?_
    · rintro ⟨rfl, -⟩
      exact absurd hq (by decide)
    · have hindex : (body ++ [q] ++ rest).idxOf? q = some body.length :=
        idxOf?_eq_some_iff.2 ⟨body, rest, by simp, hbody, rfl⟩
      rw [manifestTokenLength, if_pos hq, hindex, List.length_append]
      rfl
  | arrow => exact .intro (by decide) (by simp) rfl
  | @paren c _ hc =>
    rcases hc with rfl | rfl
    · exact .intro (by decide) (by simp) rfl
    · exact .intro (by decide) (by simp) rfl
  | @bare c cs _ hc hrun =>
    obtain ⟨hblank, hparen, hcomment, harrow⟩ := not_endsBare_cons_iff.1 hrun.not_endsBare
    refine .intro hblank hcomment ?_
    have hlength := bareLength_of_runsTo hrun (List.cons_ne_nil _ _)
    rw [List.cons_append] at hlength
    rw [manifestTokenLength, if_neg hc, if_neg harrow, if_neg hparen, hlength, List.length_cons,
      Nat.add_sub_cancel]

/-- What is taken from a line is a token. -/
lemma isToken_of_taken (h : Taken run rest) : IsToken run rest := by
  cases h with
  | @intro c cs _ hblank hcomment hlength =>
    rw [manifestTokenLength] at hlength
    -- quoted, an arrow, a parenthesis or bare: in the order in which they are tried
    split at hlength
    · next hquote =>
      split at hlength
      · next n hindex =>
        obtain ⟨body, after, htext, hbody, rfl⟩ := idxOf?_eq_some_iff.1 hindex
        have hsize : cs.length = (body ++ [c]).length := by
          rw [← Except.ok.inj hlength, List.length_append]
          rfl
        rw [List.append_cons] at htext
        obtain ⟨rfl, rfl⟩ := List.append_inj htext hsize
        exact .quoted hquote hbody
      · cases hlength
    · next hquote =>
      split at hlength
      · next harrow =>
        obtain ⟨rfl, harrow⟩ := harrow
        obtain ⟨d, rfl⟩ := List.length_eq_one_iff.1 (Except.ok.inj hlength).symm
        cases harrow
        exact .arrow
      · next harrow =>
        split at hlength
        · next hparen =>
          obtain rfl := List.length_eq_zero_iff.1 (Except.ok.inj hlength).symm
          exact .paren hparen
        · next hparen =>
          have hgoes := not_endsBare_cons_iff.2 ⟨hblank, hparen, hcomment, harrow⟩
          obtain ⟨run, after, htext, hrun⟩ := exists_runsTo (c :: (cs ++ rest))
          have hne : run ≠ [] := by
            rintro rfl
            exact hgoes (htext ▸ hrun.ends)
          have hsize : (c :: cs).length = run.length := by
            have hbare := bareLength_of_runsTo hrun hne
            have hpos := List.length_pos_iff.2 hne
            have hlength := Except.ok.inj hlength
            rw [← htext] at hbare
            rw [List.length_cons]
            omega
          obtain ⟨rfl, rfl⟩ := List.append_inj htext hsize
          exact .bare hquote hrun

/-! ## Arguments in quotes -/

/-- Every argument says the same as itself. -/
lemma SameArgument.refl (a : String) : SameArgument a a :=
  ⟨fun _ _ => .rfl, rfl⟩

/-- A text without backslashes denotes its own bytes. -/
lemma escapedBytes_of_plain {cs : List Char} (offset : Nat) (h : ∀ c ∈ cs, c ≠ '\\') :
    Source.escapedBytes offset cs = .ok (Text.utf8 cs) := by
  refine Source.escapedBytes_eq_ok.2 ?_
  induction cs with
  | nil => exact .nil
  | cons c cs ih =>
    obtain ⟨hc, hcs⟩ := List.forall_mem_cons.1 h
    rw [Text.utf8_cons]
    exact (Source.splits_char hc).append (ih hcs)

/-- A token that is not quoted is its own value. -/
lemma tokenValue_bare {token : List Char} (h : ∀ c ∈ token.head?, ¬ (c = '"' ∨ c = '\x60')) :
    tokenValue (String.ofList token) = .ok (String.ofList token) := by
  rw [tokenValue, String.toList_ofList]
  cases token with
  | nil => rfl
  | cons c cs =>
    have hc := h c rfl
    exact if_neg (by simpa using hc)

/-- A quoted token without escapes has what is between the quotes as its value. -/
lemma tokenValue_quoted {q : Char} {token : List Char} (hq : q = '"' ∨ q = '\x60')
    (hplain : ∀ c ∈ token, c ≠ '\\' ∧ c ≠ '\r') :
    tokenValue (String.ofList (q :: (token ++ [q]))) = .ok (String.ofList token) := by
  have hunquote :
      Source.unquote (String.ofList (q :: (token ++ [q]))) = .ok (String.ofList token) := by
    rcases hq with rfl | rfl
    · rw [Source.unquote_between '"' '"' (by decide) (by decide) String.toList_ofList]
      rw [escapedBytes_of_plain 1 fun c hc => (hplain c hc).1]
      have hdecode := Source.decodeBytes_utf8 (String.ofList token)
      rwa [String.toList_ofList] at hdecode
    · rw [Source.unquote_between '\x60' '\x60' (by decide) (by decide) String.toList_ofList]
      rw [List.filter_eq_self.2 fun c hc => by simpa using (hplain c hc).2]
      rfl
  rw [tokenValue, String.toList_ofList, hunquote]
  exact if_pos (by simpa using hq)

/-- A token that could be quoted is bare. -/
lemma IsToken.runsTo_of_isQuotable (h : IsToken run rest) (hquotable : IsQuotable run) :
    RunsTo run rest ∧ ∀ c ∈ run.head?, ¬ (c = '"' ∨ c = '\x60') := by
  cases h with
  | @quoted q body _ hq =>
    have hplain := hquotable.2 q List.mem_cons_self
    exact absurd hq (not_or.2 ⟨hplain.1, hplain.2.1⟩)
  | arrow => exact absurd (by decide) hquotable.1
  | paren hc =>
    rcases hc with rfl | rfl
    · exact absurd (by decide) hquotable.1
    · exact absurd (by decide) hquotable.1
  | bare hc hrun => exact ⟨hrun, fun d hd => Option.some.inj hd ▸ hc⟩

/-- Where a bare token ends it ends as well if what follows is spelled otherwise. -/
lemma Respelled.endsBare {line line' : List Char} (h : Respelled line line')
    (hends : EndsBare line) : EndsBare line' ∧ line'.head? = line.head? := by
  cases h with
  | same => exact ⟨hends, rfl⟩
  | blank hc => exact ⟨.blank hc, rfl⟩
  | kept htoken =>
    cases isToken_of_taken htoken with
    | quoted hq => exact absurd hends (not_endsBare_quote hq)
    | arrow => exact ⟨.arrow, rfl⟩
    | paren hc => exact ⟨.paren hc, rfl⟩
    | bare hc hrun => exact absurd hends hrun.not_endsBare
  | quoted htoken hquotable =>
    obtain ⟨hrun, -⟩ := (isToken_of_taken htoken).runsTo_of_isQuotable hquotable
    cases htoken with
    | intro => exact absurd hends hrun.not_endsBare

/-- A run goes as far in a line that is spelled in another way. -/
lemma RunsTo.congr {line line' : List Char} (h : RunsTo run line)
    (hspelled : Respelled line line') : RunsTo run line' := by
  obtain ⟨hends, hhead⟩ := hspelled.endsBare h.ends
  induction h with
  | nil => exact .nil hends
  | cons hc h ih =>
    refine .cons (fun hspelled => hc ((endsBare_cons_congr ?_).1 hspelled)) (ih hspelled hhead)
    rw [List.head?_append, List.head?_append, hhead]

/-- A token is one whatever the spelling of what follows. -/
lemma Taken.congr {line line' : List Char} (h : Taken run line) (hspelled : Respelled line line') :
    Taken run line' := by
  refine taken_of_isToken ?_
  cases isToken_of_taken h with
  | quoted hq hbody => exact .quoted hq hbody
  | arrow => exact .arrow
  | paren hc => exact .paren hc
  | bare hc hrun => exact .bare hc (hrun.congr hspelled)

/-- The first token of a line is taken, and the rest is read as a line of its own. -/
lemma readTokens_of_taken (h : Taken run rest) : readTokens (run ++ rest) =
    match readTokens rest with
    | .error e => .error e
    | .ok l => .ok { l with tokens := String.ofList run :: l.tokens } := by
  cases h with
  | intro hblank hcomment hlength =>
    rw [List.cons_append, readTokens_cons, if_neg (by simp [hblank]), if_neg hcomment, hlength]
    dsimp only
    rw [List.drop_left, List.take_left]

/-- A token says the same with quotes and without. -/
lemma sameArgument_quoted {q : Char} {token : List Char} (htoken : Taken token rest)
    (hquotable : IsQuotable token) (hq : q = '"' ∨ q = '\x60') :
    SameArgument (String.ofList token) (String.ofList (q :: (token ++ [q]))) := by
  obtain ⟨hrun, hbare⟩ := (isToken_of_taken htoken).runsTo_of_isQuotable hquotable
  constructor
  case mark =>
    intro m hm
    refine iff_of_false (fun h => hquotable.1 (h ▸ hm)) (fun h => ?_)
    have hhead : m.toList.head? = some q := by
      rw [← h, String.toList_ofList]
      rfl
    have hmarks : ∀ m ∈ markTokens, m.toList.head? ≠ some '"' ∧ m.toList.head? ≠ some '\x60' := by
      decide
    rcases hq with rfl | rfl
    · exact (hmarks m hm).1 hhead
    · exact (hmarks m hm).2 hhead
  case value =>
    rw [tokenValue_bare hbare, tokenValue_quoted hq fun c hc => ⟨(hquotable.2 c hc).2.2, ?_⟩]
    rintro rfl
    exact absurd (hrun.isBare _ hc).1 (by decide)

/-- A line that is spelled otherwise has the same comment, and arguments that stand for the same. -/
lemma readTokens_respelled {line line' : List Char} (h : Respelled line line') {args : List String}
    {comment : Option String} (hline : readTokens line = .ok ⟨args, comment⟩) :
    ∃ args', readTokens line' = .ok ⟨args', comment⟩ ∧ List.Forall₂ SameArgument args args' := by
  induction h generalizing args with
  | same => exact ⟨args, hline, List.forall₂_same.2 fun a _ => .refl a⟩
  | blank hc h ih =>
    rw [readTokens_cons, if_pos hc] at hline ⊢
    exact ih hline
  | @kept line line' token htoken h ih =>
    rw [readTokens_of_taken htoken] at hline
    split at hline
    · cases hline
    · next l hrest =>
      cases hline
      obtain ⟨args', hrest', hsame⟩ := ih hrest
      refine ⟨_ :: args', ?_, .cons (.refl _) hsame⟩
      rw [readTokens_of_taken (htoken.congr h), hrest']
  | @quoted token line q line' htoken hquotable hq h ih =>
    rw [readTokens_of_taken htoken] at hline
    split at hline
    · cases hline
    · next l hrest =>
      cases hline
      obtain ⟨args', hrest', hsame⟩ := ih hrest
      refine ⟨_ :: args', ?_, .cons (sameArgument_quoted htoken hquotable hq) hsame⟩
      have hnotin : q ∉ token := fun hmem => by
        have hplain := hquotable.2 q hmem
        exact absurd hq (not_or.2 ⟨hplain.1, hplain.2.1⟩)
      have hquoted : Taken (q :: (token ++ [q])) line' := taken_of_isToken (.quoted hq hnotin)
      have hread := readTokens_of_taken hquoted
      rw [hrest', List.cons_append, List.append_assoc] at hread
      exact hread

end

end GoService.Project
