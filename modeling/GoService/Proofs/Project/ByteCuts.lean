import GoService.Project.Layout
import GoService.Proofs.Project.ManifestTokens
import GoService.Proofs.Text.Cuts

/-!
# Cutting manifests and import paths by bytes

The tokens of a manifest and the directories of packages once more, with every text cut out between
two byte offsets. A search in bytes for a pattern of single bytes finds the place that a search in
characters finds (`offsetOf?_utf8`), so tokens are cut between characters (`tokenCut?_eq`); a path
is cut after the name of a module with which it begins (`belowCut?_eq`). Together with the readers
of literals, tags and annotations: no cut is inside a character, except for literals that begin or
end with a character of several bytes (`cuts_between_characters`).
-/

namespace GoService

open Source Text
open String (utf8EncodeChar)

namespace Project

/-! ## Searching in bytes -/

/-- The offset at which a pattern first occurs. -/
def offsetOf? (pattern : List UInt8) : List UInt8 → Option Nat
  | [] => if pattern.isEmpty then some 0 else none
  | b :: bs => if pattern <+: b :: bs then some 0 else (offsetOf? pattern bs).map (· + 1)

/-- Bytes without the first one of a pattern are passed over when the pattern is looked for. -/
lemma offsetOf?_append {k : UInt8} {pattern bs : List UInt8} (h : ∀ b ∈ bs, b ≠ k)
    (rest : List UInt8) :
    offsetOf? (k :: pattern) (bs ++ rest) = (offsetOf? (k :: pattern) rest).map (· + bs.length) := by
  induction bs with
  | nil => simp
  | cons b bs ih =>
    obtain ⟨hb, hbs⟩ := List.forall_mem_cons.1 h
    have hpre : ¬ k :: pattern <+: b :: (bs ++ rest) := by
      intro hpre
      exact hb (List.cons_prefix_cons.1 hpre).1.symm
    rw [List.cons_append, offsetOf?, if_neg hpre, ih hbs, Option.map_map, List.length_cons]
    rfl

/-- A pattern that begins with a single byte occurs in the bytes where it occurs in the text. -/
lemma offsetOf?_utf8 {k : Char} (hk : k.utf8Size = 1) (pattern cs : List Char) :
    offsetOf? (utf8 (k :: pattern)) (utf8 cs) =
      (indexOf? (k :: pattern) cs).map fun n => byteSize (cs.take n) := by
  induction cs with
  | nil =>
    rw [utf8_cons_of_single hk]
    rfl
  | cons c cs ih =>
    obtain ⟨b, bs, hbytes, hsize, hplain⟩ := exists_utf8EncodeChar_eq_cons c
    have hcons : utf8 (c :: cs) = b :: (bs ++ utf8 cs) := by
      rw [utf8_cons, hbytes, List.cons_append]
    rw [hcons, offsetOf?, indexOf?, ← hcons]
    by_cases hpre : k :: pattern <+: c :: cs
    · rw [if_pos (isPrefix_utf8_iff.2 hpre), if_pos (List.isPrefixOf_iff_prefix.2 hpre)]
      rfl
    · -- the other bytes of the character begin no pattern
      rw [if_neg (mt isPrefix_utf8_iff.1 hpre), if_neg (mt List.isPrefixOf_iff_prefix.1 hpre),
        utf8_cons_of_single hk, offsetOf?_append (hplain k hk), ← utf8_cons_of_single hk, ih]
      simp only [Option.map_map]
      congr 1
      funext n
      simp only [Function.comp_apply, List.take_succ_cons, byteSize, hsize]
      omega

/-! ## Tokens -/

/-- Where a bare token ends: at white space or a parenthesis, or else at a comment or an arrow
that does not stand at its start. -/
def bareEnd? (cs : List Char) : Option Nat := do
  let stop := byteSize (cs.takeWhile fun c => !(isBlank c || c == '(' || c == ')'))
  let run ← sliceBytes cs 0 stop
  let stop := match offsetOf? (utf8 ['/', '/']) (utf8 run) with
    | some (n + 1) => n + 1
    | _ => stop
  let run ← sliceBytes cs 0 stop
  return match offsetOf? (utf8 ['=', '>']) (utf8 run) with
    | some (n + 1) => n + 1
    | _ => stop

/-- The first token of a text that begins with `c`, and what comes after it. -/
def tokenCut? (c : Char) (cs : List Char) :
    Option (Except ManifestFault (List Char × List Char)) :=
  let line := c :: cs
  let size := byteSize line
  if c = '"' ∨ c = '\x60' then do
    let inner ← sliceBytes line 1 size
    match offsetOf? (utf8 [c]) (utf8 inner) with
    | none => return .error .unterminatedString
    | some stop => return .ok (← sliceBytes line 0 (stop + 2), ← sliceBytes line (stop + 2) size)
  else if ['=', '>'] <+: line then
    return .ok (['=', '>'], ← sliceBytes line 2 size)
  else if c = '(' ∨ c = ')' then
    return .ok (← sliceBytes line 0 1, ← sliceBytes line 1 size)
  else do
    let stop ← bareEnd? line
    return .ok (← sliceBytes line 0 stop, ← sliceBytes line stop size)

/-- A single character is found at its first index. -/
lemma indexOf?_singleton (c : Char) (cs : List Char) : indexOf? [c] cs = cs.idxOf? c := by
  induction cs with
  | nil => rfl
  | cons d cs ih =>
    rw [indexOf?, List.idxOf?_cons, ih]
    by_cases h : d = c
    · simp [h]
    · simp [h, Ne.symm h]

/-- The first index of a character cuts a text in front of it and behind it. -/
lemma exists_of_idxOf? {c : Char} {cs : List Char} {n : Nat} (h : cs.idxOf? c = some n) :
    ∃ before after, cs = before ++ c :: after ∧ cs.take n = before ∧
      cs.take (n + 1) = before ++ [c] ∧ cs.drop (n + 1) = after := by
  obtain ⟨before, after, rfl, -, rfl⟩ := idxOf?_eq_some_iff.1 h
  have hsize : before.length + 1 = (before ++ [c]).length := by rw [List.length_append]; rfl
  rw [List.append_cons, hsize]
  exact ⟨before, after, (List.append_cons ..).symm, by simp, List.take_left, List.drop_left⟩

/-- Cutting before a pattern that does not stand at the very start. -/
lemma stop_eq_lengthBefore {k : Char} (hk : k.utf8Size = 1) (pattern run : List Char) :
    (match offsetOf? (utf8 (k :: pattern)) (utf8 run) with
      | some (n + 1) => n + 1
      | _ => byteSize run) = byteSize (run.take (lengthBefore (k :: pattern) run)) := by
  rw [offsetOf?_utf8 hk, lengthBefore]
  cases hindex : indexOf? (k :: pattern) run with
  | none => simp
  | some n =>
    cases n with
    | zero => simp [byteSize]
    | succ n =>
      have hpos : 0 < byteSize (run.take (n + 1)) := by
        cases run with
        | nil => cases hindex
        | cons c run => exact byteSize_pos (List.cons_ne_nil _ _)
      obtain ⟨m, hm⟩ := Nat.exists_eq_succ_of_ne_zero (Nat.ne_of_gt hpos)
      simp only [Option.map_some, hm]

/-- A pattern is found within the text. -/
lemma indexOf?_le {pattern cs : List Char} {n : Nat} (h : indexOf? pattern cs = some n) :
    n ≤ cs.length := by
  induction cs generalizing n with
  | nil =>
    rw [indexOf?] at h
    split at h
    · cases h
      exact Nat.le_refl 0
    · cases h
  | cons c cs ih =>
    rw [indexOf?] at h
    split at h
    · cases h
      exact Nat.zero_le _
    · obtain ⟨m, hm, rfl⟩ := Option.map_eq_some_iff.1 h
      exact Nat.succ_le_succ (ih hm)

/-- What comes before a pattern is no longer than the text. -/
lemma lengthBefore_le (pattern cs : List Char) : lengthBefore pattern cs ≤ cs.length := by
  rw [lengthBefore]
  split
  · next h => exact indexOf?_le h
  · exact Nat.le_refl _

/-- Something comes before the pattern, or the pattern is counted. -/
lemma lengthBefore_pos (pattern : List Char) {cs : List Char} (h : cs ≠ []) :
    0 < lengthBefore pattern cs := by
  rw [lengthBefore]
  split
  · exact Nat.succ_pos _
  · exact List.length_pos_iff.2 h

/-- A bare token ends where its characters do, counted in bytes. -/
lemma bareEnd?_eq (cs : List Char) : bareEnd? cs = some (byteSize (cs.take (bareLength cs))) := by
  have hsplit : cs = cs.takeWhile (fun c => !(isBlank c || c == '(' || c == ')')) ++
      cs.dropWhile (fun c => !(isBlank c || c == '(' || c == ')')) :=
    List.takeWhile_append_dropWhile.symm
  rw [bareEnd?, bareLength]
  generalize cs.takeWhile (fun c => !(isBlank c || c == '(' || c == ')')) = run at hsplit ⊢
  have hcomment : cs = run.take (lengthBefore ['/', '/'] run) ++
      (run.drop (lengthBefore ['/', '/'] run) ++
        cs.dropWhile (fun c => !(isBlank c || c == '(' || c == ')'))) := by
    rw [← List.append_assoc, List.take_append_drop]
    exact hsplit
  have hle := lengthBefore_le ['=', '>'] (run.take (lengthBefore ['/', '/'] run))
  simp only [sliceBytes_left hsplit, Option.bind_eq_bind, Option.bind_some,
    stop_eq_lengthBefore (k := '/') (by decide), sliceBytes_left hcomment,
    stop_eq_lengthBefore (k := '=') (by decide), Option.pure_def]
  generalize run.take (lengthBefore ['/', '/'] run) = token at hcomment hle ⊢
  rw [hcomment, List.take_append_of_le_length hle]

/-- The first byte of a text that begins with a character of one byte can be cut off. -/
lemma sliceBytes_head {c : Char} (hc : c.utf8Size = 1) (cs : List Char) :
    sliceBytes (c :: cs) 0 1 = some [c] ∧
      sliceBytes (c :: cs) 1 (byteSize (c :: cs)) = some cs := by
  have hsplit : c :: cs = [c] ++ cs := rfl
  have hone : byteSize [c] = 1 := hc
  rw [← hone]
  exact ⟨sliceBytes_left hsplit, sliceBytes_right hsplit⟩

/-- An arrow begins with an equals sign that a greater-than sign follows. -/
lemma isPrefix_arrow_iff {c : Char} {cs : List Char} :
    ['=', '>'] <+: c :: cs ↔ c = '=' ∧ cs.head? = some '>' := by
  rw [List.cons_prefix_cons, List.head?_eq_some_iff]
  constructor
  · intro ⟨hc, r, hr⟩
    exact ⟨hc.symm, r, hr.symm⟩
  · intro ⟨hc, r, hr⟩
    exact ⟨hc.symm, r, hr.symm⟩

/-- A quoted token is cut off after the quote that ends it. -/
lemma tokenCut?_quoted {c : Char} (hc : c = '"' ∨ c = '\x60') (cs : List Char) :
    tokenCut? c cs =
      some ((manifestTokenLength c cs).map fun n => (c :: cs.take n, cs.drop n)) := by
  have hsingle : c.utf8Size = 1 := by
    rcases hc with rfl | rfl <;> decide
  rw [tokenCut?, manifestTokenLength, if_pos hc, if_pos hc]
  simp only [(sliceBytes_head hsingle cs).2, Option.bind_eq_bind, Option.bind_some,
    offsetOf?_utf8 hsingle, indexOf?_singleton]
  cases hidx : cs.idxOf? c with
  | none => rfl
  | some n =>
    obtain ⟨before, after, hcs, hbefore, htake, hdrop⟩ := exists_of_idxOf? hidx
    have hline : c :: cs = (c :: (before ++ [c])) ++ after := by simp [hcs]
    have hstop : byteSize before + 2 = byteSize (c :: (before ++ [c])) := by
      rw [byteSize, byteSize_append, byteSize, byteSize, hsingle]
      omega
    simp only [Option.map_some, hbefore, hstop, sliceBytes_left hline, sliceBytes_right hline,
      Option.bind_some]
    rw [Except.map, htake, hdrop]
    rfl

/-- Cutting a token out of a line by bytes gives what counting characters gives. -/
lemma tokenCut?_eq {c : Char} (hc : isBlank c = false) (cs : List Char) :
    tokenCut? c cs =
      some ((manifestTokenLength c cs).map fun n => (c :: cs.take n, cs.drop n)) := by
  by_cases hquote : c = '"' ∨ c = '\x60'
  · exact tokenCut?_quoted hquote cs
  rw [tokenCut?, manifestTokenLength, if_neg hquote, if_neg hquote]
  by_cases harrow : c = '=' ∧ cs.head? = some '>'
  · rw [if_pos (isPrefix_arrow_iff.2 harrow), if_pos harrow]
    obtain ⟨rfl, hhead⟩ := harrow
    obtain ⟨r, rfl⟩ := List.head?_eq_some_iff.1 hhead
    have hline : '=' :: '>' :: r = ['=', '>'] ++ r := rfl
    have hsize : byteSize ['=', '>'] = 2 := by decide
    rw [← hsize, sliceBytes_right hline]
    rfl
  · rw [if_neg (mt isPrefix_arrow_iff.1 harrow), if_neg harrow]
    by_cases hparen : c = '(' ∨ c = ')'
    · have hsingle : c.utf8Size = 1 := by
        rcases hparen with rfl | rfl <;> decide
      rw [if_pos hparen, if_pos hparen]
      simp only [sliceBytes_head hsingle cs]
      rfl
    -- a bare token has at least the character with which it begins
    · have hpos : 0 < bareLength (c :: cs) := by
        have hrun : (c :: cs).takeWhile (fun c => !(isBlank c || c == '(' || c == ')')) ≠ [] := by
          rw [List.takeWhile_cons_of_pos (by simpa [hc] using hparen)]
          exact List.cons_ne_nil _ _
        refine lengthBefore_pos _ ?_
        have hcut := lengthBefore_pos ['/', '/'] hrun
        rw [ne_eq, List.take_eq_nil_iff]
        exact not_or_intro (Nat.ne_of_gt hcut) hrun
      have hsplit : c :: cs = (c :: cs).take (bareLength (c :: cs)) ++
          (c :: cs).drop (bareLength (c :: cs)) := (List.take_append_drop ..).symm
      rw [if_neg hparen, if_neg hparen]
      simp only [bareEnd?_eq, sliceBytes_left hsplit, sliceBytes_right hsplit,
        Option.bind_eq_bind, Option.bind_some, Except.map]
      obtain ⟨n, hn⟩ := Nat.exists_eq_succ_of_ne_zero (Nat.ne_of_gt hpos)
      rw [hn]
      rfl

/-- Cuts at most `fuel` tokens off a line. -/
def readTokensCut? : Nat → List Char → Option (Except ManifestFault ManifestLine)
  | 0, _ => some (.ok ⟨[], none⟩)
  | fuel + 1, line =>
    match trimStart line with
    | [] => some (.ok ⟨[], none⟩)
    | c :: cs =>
      if c = '/' ∧ cs.head? = some '/' then
        some (.ok ⟨[], some (String.ofList (trim (cs.drop 1)))⟩)
      else
        match tokenCut? c cs with
        | none => none
        | some (.error e) => some (.error e)
        | some (.ok (token, rest)) =>
          (readTokensCut? fuel rest).map (·.map fun l =>
            { l with tokens := String.ofList token :: l.tokens })

/-- White space in front of a line does not matter to its tokens. -/
lemma readTokens_trimStart (line : List Char) : readTokens (trimStart line) = readTokens line := by
  induction line with
  | nil => rfl
  | cons c cs ih =>
    by_cases hblank : isBlank c = true
    · rw [trimStart, List.dropWhile_cons_of_pos hblank, ← trimStart, ih, readTokens_cons,
        if_pos hblank]
    · rw [trimStart, List.dropWhile_cons_of_neg hblank]

/-- What trimming leaves does not begin with a blank character. -/
lemma not_isBlank_of_trimStart {line cs : List Char} {c : Char} (h : trimStart line = c :: cs) :
    isBlank c = false := by
  have hhead := List.head?_dropWhile_not isBlank line
  rw [← trimStart, h] at hhead
  simpa using hhead

/-- Reading a line by cutting at byte offsets gives its tokens, if there are enough steps. -/
lemma readTokensCut?_eq {fuel : Nat} {line : List Char} (hfuel : line.length ≤ fuel) :
    readTokensCut? fuel line = some (readTokens line) := by
  induction fuel generalizing line with
  | zero =>
    obtain rfl := List.length_eq_zero_iff.1 (Nat.le_zero.1 hfuel)
    rw [readTokensCut?, readTokens_nil]
  | succ fuel ih =>
    have hlen := (List.dropWhile_suffix isBlank (l := line)).length_le
    rw [← trimStart] at hlen
    rw [← readTokens_trimStart, readTokensCut?]
    cases hline : trimStart line with
    | nil => rw [readTokens_nil]
    | cons c cs =>
      have hblank := not_isBlank_of_trimStart hline
      rw [hline, List.length_cons] at hlen
      rw [readTokens_cons, if_neg (by simp [hblank])]
      dsimp only
      by_cases hcomment : c = '/' ∧ cs.head? = some '/'
      · rw [if_pos hcomment, if_pos hcomment]
      · rw [if_neg hcomment, if_neg hcomment, tokenCut?_eq hblank]
        cases manifestTokenLength c cs with
        | error e => rfl
        | ok n =>
          -- a token takes one character at least, so the fuel lasts for the rest
          have hrest : (cs.drop n).length ≤ fuel := by
            rw [List.length_drop]
            omega
          simp only [Except.map, ih hrest, Option.map_some]
          cases readTokens (cs.drop n) <;> rfl

/-- The value of a token, read by cutting at byte offsets. -/
def tokenValueCut? (token : String) : Option (Except ManifestFault String) :=
  if token.toList.head? == some '"' || token.toList.head? == some '\x60' then do
    match ← unquoteCut? token with
    | .ok s => return .ok s
    | .error e => return .error (.badString token e)
  else some (.ok token)

/-- A token that begins with a quote ends with it. -/
lemma exists_between_quotes {line : List Char} {l : ManifestLine}
    (h : readTokens line = .ok l) {token : String} (htoken : token ∈ l.tokens) {quote : Char}
    (hquote : quote = '"' ∨ quote = '\x60') (hhead : token.toList.head? = some quote) :
    ∃ body, token.toList = quote :: (body ++ [quote]) := by
  induction line using readTokens.induct generalizing l with
  | case1 =>
    rw [readTokens_nil] at h
    cases h
    cases htoken
  | case2 c cs hblank ih =>
    rw [readTokens_cons, if_pos hblank] at h
    exact ih h htoken
  | case3 c cs hblank hcomment =>
    rw [readTokens_cons, if_neg hblank, if_pos hcomment] at h
    cases h
    cases htoken
  | case4 c cs hblank hcomment e hlen =>
    rw [readTokens_cons, if_neg hblank, if_neg hcomment, hlen] at h
    cases h
  | case5 c cs hblank hcomment n hlen e hrest =>
    rw [readTokens_cons, if_neg hblank, if_neg hcomment, hlen] at h
    simp only [hrest] at h
    cases h
  | case6 c cs hblank hcomment n hlen rest hrest ih =>
    rw [readTokens_cons, if_neg hblank, if_neg hcomment, hlen] at h
    simp only [hrest] at h
    cases h
    rcases List.mem_cons.1 htoken with rfl | htoken
    · -- the first token; its quote is the one that was searched for
      rw [String.toList_ofList, List.head?_cons] at hhead
      obtain rfl := Option.some.inj hhead
      rw [manifestTokenLength, if_pos hquote] at hlen
      cases hidx : cs.idxOf? c with
      | none =>
        rw [hidx] at hlen
        cases hlen
      | some n =>
        rw [hidx] at hlen
        cases hlen
        obtain ⟨before, -, -, -, htake, -⟩ := exists_of_idxOf? hidx
        exact ⟨before, by rw [String.toList_ofList, htake]⟩
    · exact ih hrest htoken

/-- The value of a token of a line can be had by cutting at byte offsets. -/
lemma tokenValueCut?_eq {line : List Char} {l : ManifestLine} (h : readTokens line = .ok l)
    {token : String} (htoken : token ∈ l.tokens) :
    tokenValueCut? token = some (tokenValue token) := by
  rw [tokenValueCut?, tokenValue]
  by_cases hhead : token.toList.head? = some '"' ∨ token.toList.head? = some '\x60'
  · have hwhole : ¬ EndsInCharacter token := by
      rcases hhead with hhead | hhead
      · obtain ⟨body, hbody⟩ := exists_between_quotes h htoken (.inl rfl) hhead
        exact not_endsInCharacter hbody (by decide) (by decide)
      · obtain ⟨body, hbody⟩ := exists_between_quotes h htoken (.inr rfl) hhead
        exact not_endsInCharacter hbody (by decide) (by decide)
    rw [if_pos (by simpa using hhead), if_pos (by simpa using hhead), unquoteCut?_eq hwhole]
    cases unquote token <;> rfl
  · rw [if_neg (by simpa using hhead), if_neg (by simpa using hhead)]

/-! ## Import paths -/

/-- An import path less the length of a module name. -/
def belowCut? (importPath name : String) : Option String :=
  (sliceBytes importPath.toList (byteSize name.toList) (byteSize importPath.toList)).map
    String.ofList

namespace Layout

/-- The place of a package by its path, found by cutting at byte offsets. -/
def expectedCut? (l : Layout) (importPath : String) : Option (Option PackagePlace) :=
  if l.manifest.covers importPath then do
    return some ⟨l.root.joinPieces (← belowCut? importPath l.manifest.name), l.manifest.name⟩
  else
    let require := l.manifest.requirementFor? importPath
    if require.isNone && isStandard importPath then
      some (l.goroot.map fun goroot => ⟨(goroot.join "src").joinPieces importPath, "std"⟩)
    else if l.vendored then
      some (some ⟨(l.root.join "vendor").joinPieces importPath,
        (require.map (·.name)).getD importPath⟩)
    else
      match require with
      | none => some none
      | some r =>
        match l.moduleRoot? r with
        | none => some none
        | some dir => do
          return some ⟨dir.joinPieces (← belowCut? importPath r.name), r.name⟩

/-- What comes after a module's name in an import path is cut off between characters. -/
lemma belowCut?_eq {importPath name : String} (h : Manifest.hasPathPrefix importPath name) :
    belowCut? importPath name =
      some (String.ofList (importPath.toList.drop name.length)) := by
  rw [Manifest.hasPathPrefix, Bool.and_eq_true, List.isPrefixOf_iff_prefix] at h
  obtain ⟨rest, hrest⟩ := h.1
  rw [belowCut?, sliceBytes_right hrest.symm, ← hrest, ← String.length_toList, List.drop_left]
  rfl

/-- The requirement that is found for a path is for a prefix of it. -/
lemma hasPathPrefix_of_requirementFor? {m : Manifest} {importPath : String} {r : Requirement}
    (h : m.requirementFor? importPath = some r) : Manifest.hasPathPrefix importPath r.name := by
  -- the choice among requirements answers the one it begins with or one of the list
  have hfold : ∀ (rs : List Requirement) (best : Option Requirement),
      rs.foldl Manifest.longerName best = some r → best = some r ∨ r ∈ rs := by
    intro rs
    induction rs with
    | nil => exact fun best h => .inl h
    | cons r' rs ih =>
      intro best h
      rcases ih _ h with h | h
      · cases best with
        | none => exact .inr (List.mem_cons.2 (.inl (Option.some.inj h).symm))
        | some b =>
          rw [Manifest.longerName] at h
          split at h
          · exact .inr (List.mem_cons.2 (.inl (Option.some.inj h).symm))
          · exact .inl h
      · exact .inr (List.mem_cons_of_mem _ h)
  rcases hfold _ _ h with h | h
  · cases h
  · exact (List.mem_filter.1 h).2

/-- Where a package is expected can be had by cutting at byte offsets. -/
lemma expectedCut?_eq (l : Layout) (importPath : String) :
    l.expectedCut? importPath = some (l.expected? importPath) := by
  rw [expectedCut?, expected?]
  by_cases hcovers : l.manifest.covers importPath
  · rw [if_pos hcovers, if_pos hcovers, belowCut?_eq hcovers]
    rfl
  · rw [if_neg hcovers, if_neg hcovers]
    cases hrequire : l.manifest.requirementFor? importPath with
    | none => cases isStandard importPath <;> cases l.vendored <;> rfl
    | some r =>
      have hbelow := belowCut?_eq (hasPathPrefix_of_requirementFor? hrequire)
      cases l.vendored with
      | true => rfl
      | false =>
        cases hroot : l.moduleRoot? r with
        | none => simp [hroot]
        | some dir => simp [hroot, hbelow]

end Layout

end Project

/-! ## All cuts -/

/-- Cutting a text by bytes comes to the same as reading it. Every cut that the readers of tags,
annotations, manifests and paths make is between characters, whatever the text. The cut of a literal
fails if it begins or ends with a character of several bytes, and for no other one. -/
theorem cuts_between_characters (text : String) (l : Project.Layout) :
    (unquoteCut? text = none ↔ EndsInCharacter text) ∧
      (unquote text = .error .splitCharacter ↔ EndsInCharacter text) ∧
      (∀ r, unquoteCut? text = some r → r = unquote text) ∧
      Tags.readPairsCut? .empty text.length text.toList = some (Tags.ofText text) ∧
      Annotations.ofLineCut? text.toList = some (Annotations.ofLine? text.toList) ∧
      Project.readTokensCut? text.length text.toList = some (Project.readTokens text.toList) ∧
      (∀ line, Project.readTokens text.toList = .ok line → ∀ token ∈ line.tokens,
        Project.tokenValueCut? token = some (Project.tokenValue token)) ∧
      l.expectedCut? text = some (l.expected? text) := by
  refine ⟨unquoteCut?_eq_none, unquote_eq_splitCharacter, ?literal,
    Tags.readPairsCut?_eq .empty text.length text.toList, Annotations.ofLineCut?_eq text.toList,
    Project.readTokensCut?_eq (Nat.le_of_eq String.length_toList), ?tokens,
    Project.Layout.expectedCut?_eq l text⟩
  case literal =>
    intro r hr
    have hwhole : ¬ EndsInCharacter text := by
      rw [← unquoteCut?_eq_none, hr]
      exact Option.some_ne_none r
    rw [unquoteCut?_eq hwhole] at hr
    exact (Option.some.inj hr).symm
  case tokens => exact fun line hline token htoken => Project.tokenValueCut?_eq hline htoken

namespace Accent

/-- A literal and a line that begins with it; the accent is inside the quotes. -/
theorem quoted_accent_cut :
    unquoteCut? "\"é\"" = some (.ok "é") ∧ unquote "\"é\"" = .ok "é" ∧
      Project.readTokens "\"é\" v1".toList = .ok ⟨["\"é\"", "v1"], none⟩ ∧
      Project.tokenValueCut? "\"é\"" = some (Project.tokenValue "\"é\"") := by
  have hcut : unquoteCut? "\"é\"" = some (.ok "é") := by decide +kernel
  have htokens : Project.readTokens "\"é\" v1".toList = .ok ⟨["\"é\"", "v1"], none⟩ := by
    have hread := Project.readTokensCut?_eq (Nat.le_refl "\"é\" v1".toList.length)
    exact Option.some.inj (hread.symm.trans rfl)
  obtain ⟨-, -, hliteral, -⟩ := cuts_between_characters "\"é\"" default
  obtain ⟨-, -, -, -, -, -, hvalue, -⟩ := cuts_between_characters "\"é\" v1" default
  exact ⟨hcut, (hliteral _ hcut).symm, htokens, hvalue _ htokens "\"é\"" (by simp)⟩

/-- Without quotes the cut falls inside the character. -/
theorem accent_not_cut :
    unquoteCut? "é" = none ∧ unquote "é" = .error .splitCharacter :=
  ⟨by decide +kernel, by decide +kernel⟩

end Accent

end GoService
