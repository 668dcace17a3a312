import GoService.Proofs.Project.ManifestLayout

/-!
# Replacements

A manifest is read as a row of directives; blocks are only another way to write them. The
replacement of a required module is that of the last rule for the module in its version, or else
that of the last rule for the module in all versions, wherever the rules stand
(`replacement_by_specificity`).
-/

namespace GoService.Project

/-! ## Directives -/

/-- A directive with its arguments as they are written, and the comment behind it. -/
structure Directive where
  verb : String
  args : List String
  comment : Option String
  deriving DecidableEq

/-- What a line says where a block of directives with a verb is open, or none: a directive, or
nothing, and the verb of the block that is open behind the line. -/
def readLine (block : Option String) (l : ManifestLine) : Option Directive × Option String :=
  match block, l.tokens with
  | _, [] => (none, block)
  | some _, [")"] => (none, none)
  | some verb, args => (some ⟨verb, args, l.comment⟩, block)
  | none, [verb, "("] => (none, some verb)
  | none, [_, "(", ")"] => (none, none)
  | none, verb :: args => (some ⟨verb, args, l.comment⟩, none)

/-- The directives on lines. There are none if a line has no tokens that can be read, or if a block
stays open. -/
def directivesOn? (block : Option String) : List (List Char) → Option (List Directive)
  | [] => if block.isNone then some [] else none
  | row :: rows =>
    match readTokens row with
    | .error _ => none
    | .ok l =>
      (directivesOn? (readLine block l).2 rows).map ((readLine block l).1.toList ++ ·)

/-- The directives of a manifest, in the order of the text. -/
def directives? (text : String) : Option (List Directive) :=
  directivesOn? none (Text.lines text.toList)

namespace Directive

/-- The rule of a directive that replaces a module. -/
def rule? (x : Directive) : Option ReplaceRule :=
  if x.verb = "replace" then (Draft.replaceOf x.args).toOption else none

/-- The requirement of a directive that requires a module, without a replacement. -/
def requirement? (x : Directive) : Option Requirement :=
  match x.verb, x.args with
  | "require", [name, version] => do
    return ⟨← (tokenValue name).toOption, ← (tokenValue version).toOption,
      Draft.marksIndirect x.comment, none⟩
  | _, _ => none

/-- The name that a directive gives to the module. -/
def moduleName? (x : Directive) : Option String :=
  match x.verb, x.args with
  | "module", [name] => (tokenValue name).toOption
  | _, _ => none

end Directive

namespace Draft

variable {d d' : Draft} {x : Directive} {ds : List Directive}

/-- The verbs of directives that say nothing here. -/
def idleVerbs : List String :=
  ["exclude", "retract", "godebug", "tool", "ignore"]

/-- What a directive can do to a draft. -/
inductive Step (d : Draft) : Directive → Draft → Prop
  | module {token name comment} (hnew : d.module = none) (hname : tokenValue token = .ok name) :
      Step d ⟨"module", [token], comment⟩ { d with module := some name }
  | go {token v comment} (hv : tokenValue token = .ok v) :
      Step d ⟨"go", [token], comment⟩ { d with goVersion := some v }
  | toolchain {token v comment} (hv : tokenValue token = .ok v) :
      Step d ⟨"toolchain", [token], comment⟩ { d with toolchain := some v }
  | require {nameToken versionToken name version comment} (hname : tokenValue nameToken = .ok name)
      (hversion : tokenValue versionToken = .ok version) :
      Step d ⟨"require", [nameToken, versionToken], comment⟩
        { d with requires := d.requires ++ [⟨name, version, marksIndirect comment, none⟩] }
  | replace {args rule comment} (hrule : replaceOf args = .ok rule) :
      Step d ⟨"replace", args, comment⟩ { d with replaces := d.replaces ++ [rule] }
  | idle {verb args comment} (hverb : verb ∈ idleVerbs) : Step d ⟨verb, args, comment⟩ d

/-- Reads one directive. -/
def applyTo (d : Draft) (x : Directive) : Except ManifestFault Draft :=
  d.apply x.verb x.args x.comment

/-- A computation of two parts that ends well ends well in each. -/
lemma exists_of_bind_eq_ok {α β : Type} {r : Except ManifestFault α}
    {f : α → Except ManifestFault β} {b : β} (h : (r >>= f) = .ok b) :
    ∃ a, r = .ok a ∧ f a = .ok b := by
  cases r with
  | error e => cases h
  | ok a => exact ⟨a, rfl, h⟩

/-- A directive that is applied is a step. -/
lemma step_of_applyTo (h : d.applyTo x = .ok d') : Step d x d' := by
  obtain ⟨verb, args, comment⟩ := x
  rw [applyTo, apply.eq_def] at h
  dsimp only at h
  split at h
  · split at h
    · split at h
      · cases h
      · next hnamed =>
        obtain ⟨name, hname, hd⟩ := exists_of_bind_eq_ok h
        cases hd
        exact .module (by simpa using hnamed) hname
    · cases h
  · split at h
    · obtain ⟨v, hv, hd⟩ := exists_of_bind_eq_ok h
      cases hd
      exact .go hv
    · cases h
  · split at h
    · obtain ⟨v, hv, hd⟩ := exists_of_bind_eq_ok h
      cases hd
      exact .toolchain hv
    · cases h
  · split at h
    · obtain ⟨name, hname, h⟩ := exists_of_bind_eq_ok h
      obtain ⟨version, hversion, hd⟩ := exists_of_bind_eq_ok h
      cases hd
      exact .require hname hversion
    · cases h
  · obtain ⟨rule, hrule, hd⟩ := exists_of_bind_eq_ok h
    cases hd
    exact .replace hrule
  -- the verbs that say nothing here, and then any other one
  iterate 5
    · cases h
      exact .idle (by decide)
  · cases h

/-- A step is what applying its directive does. -/
lemma applyTo_of_step (h : Step d x d') : d.applyTo x = .ok d' := by
  cases h with
  | module hnew hname => simp [applyTo, apply, hnew, hname, bind, Except.bind, pure, Except.pure]
  | go hv => simp [applyTo, apply, hv, bind, Except.bind, pure, Except.pure]
  | toolchain hv => simp [applyTo, apply, hv, bind, Except.bind, pure, Except.pure]
  | require hname hversion =>
    simp [applyTo, apply, hname, hversion, bind, Except.bind, pure, Except.pure]
  | replace hrule => simp [applyTo, apply, hrule, bind, Except.bind, pure, Except.pure]
  | idle hverb =>
    simp only [idleVerbs, List.mem_cons, List.not_mem_nil, or_false] at hverb
    rcases hverb with rfl | rfl | rfl | rfl | rfl <;> rfl

/-- What a directive adds to a draft. -/
structure Extends (d : Draft) (x : Directive) (d' : Draft) : Prop where
  module : d'.module.toList = d.module.toList ++ x.moduleName?.toList
  requires : d'.requires = d.requires ++ x.requirement?.toList
  replaces : d'.replaces = d.replaces ++ x.rule?.toList

/-- A step adds what its directive says. -/
lemma Step.extends (h : Step d x d') : Extends d x d' := by
  have hnothing {d₁ : Draft} {x : Directive} (hmodule : x.moduleName? = none)
      (hrequirement : x.requirement? = none) (hrule : x.rule? = none)
      (hd : d₁.module = d.module ∧ d₁.requires = d.requires ∧ d₁.replaces = d.replaces) :
      Extends d x d₁ := by
    constructor
    · rw [hmodule, hd.1, Option.toList_none, List.append_nil]
    · rw [hrequirement, hd.2.1, Option.toList_none, List.append_nil]
    · rw [hrule, hd.2.2, Option.toList_none, List.append_nil]
  cases h with
  | module hnew hname =>
    refine ⟨?_, (List.append_nil _).symm, (List.append_nil _).symm⟩
    simp [Directive.moduleName?, hnew, hname, Except.toOption]
  | go hv => exact hnothing rfl rfl rfl ⟨rfl, rfl, rfl⟩
  | toolchain hv => exact hnothing rfl rfl rfl ⟨rfl, rfl, rfl⟩
  | require hname hversion =>
    refine ⟨(List.append_nil _).symm, ?_, (List.append_nil _).symm⟩
    simp [Directive.requirement?, hname, hversion, Except.toOption]
  | replace hrule =>
    refine ⟨(List.append_nil _).symm, (List.append_nil _).symm, ?_⟩
    simp [Directive.rule?, hrule, Except.toOption]
  | idle hverb =>
    simp only [idleVerbs, List.mem_cons, List.not_mem_nil, or_false] at hverb
    rcases hverb with rfl | rfl | rfl | rfl | rfl <;> exact hnothing rfl rfl rfl ⟨rfl, rfl, rfl⟩

/-- A directive that is accepted in one draft is accepted in any other, unless both name the
module. -/
lemma Step.exists {e e' : Draft} (h : Step e x e') (hone : d.module = none ∨ x.moduleName? = none) :
    ∃ d', Step d x d' := by
  cases h with
  | module hnew hname =>
    refine ⟨_, .module (hone.resolve_right fun hnone => ?_) hname⟩
    simp [Directive.moduleName?, hname, Except.toOption] at hnone
  | go hv => exact ⟨_, .go hv⟩
  | toolchain hv => exact ⟨_, .toolchain hv⟩
  | require hname hversion => exact ⟨_, .require hname hversion⟩
  | replace hrule => exact ⟨_, .replace hrule⟩
  | idle hverb => exact ⟨_, .idle hverb⟩

/-! ### All directives -/

/-- Reads directives one after another. -/
def run (d : Draft) (ds : List Directive) : Except ManifestFault Draft :=
  ds.foldlM applyTo d

/-- What directives add to a draft. Each of them is accepted for itself. -/
structure Reads (d : Draft) (ds : List Directive) (d' : Draft) : Prop where
  module : d'.module.toList = d.module.toList ++ ds.filterMap Directive.moduleName?
  requires : d'.requires = d.requires ++ ds.filterMap Directive.requirement?
  replaces : d'.replaces = d.replaces ++ ds.filterMap Directive.rule?
  accepted : ∀ x ∈ ds, ∃ e e', Step e x e'

/-- What a list becomes begins with what its first element becomes. -/
lemma filterMap_cons_toList {α β : Type} (f : α → Option β) (a : α) (as : List α) :
    (a :: as).filterMap f = (f a).toList ++ as.filterMap f := by
  rw [List.filterMap_cons]
  cases f a <;> rfl

/-- A run over directives reads them all. -/
lemma reads_of_run (h : d.run ds = .ok d') : Reads d ds d' := by
  induction ds generalizing d with
  | nil =>
    cases h
    exact ⟨(List.append_nil _).symm, (List.append_nil _).symm, (List.append_nil _).symm,
      fun _ h => absurd h List.not_mem_nil⟩
  | cons x ds ih =>
    obtain ⟨d₁, hx, hds⟩ := exists_of_bind_eq_ok h
    have hstep := step_of_applyTo hx
    have hfirst := hstep.extends
    have hrest := ih hds
    constructor
    · rw [hrest.module, hfirst.module, filterMap_cons_toList, List.append_assoc]
    · rw [hrest.requires, hfirst.requires, filterMap_cons_toList, List.append_assoc]
    · rw [hrest.replaces, hfirst.replaces, filterMap_cons_toList, List.append_assoc]
    · exact List.forall_mem_cons.2 ⟨⟨d, d₁, hstep⟩, hrest.accepted⟩

/-- Directives that are accepted each for itself are read together, if one of them at most names the
module. -/
lemma exists_run (haccepted : ∀ x ∈ ds, ∃ e e', Step e x e')
    (hone : (d.module.toList ++ ds.filterMap Directive.moduleName?).length ≤ 1) :
    ∃ d', d.run ds = .ok d' := by
  induction ds generalizing d with
  | nil => exact ⟨d, rfl⟩
  | cons x ds ih =>
    obtain ⟨⟨e, e', hx⟩, haccepted⟩ := List.forall_mem_cons.1 haccepted
    rw [filterMap_cons_toList, ← List.append_assoc] at hone
    have hfree : d.module = none ∨ x.moduleName? = none := by
      by_contra hboth
      obtain ⟨hd, hname⟩ := not_or.1 hboth
      obtain ⟨a, ha⟩ := Option.ne_none_iff_exists'.1 hd
      obtain ⟨b, hb⟩ := Option.ne_none_iff_exists'.1 hname
      rw [ha, hb] at hone
      simp at hone
    obtain ⟨d₁, hstep⟩ := hx.exists hfree
    rw [← hstep.extends.module] at hone
    obtain ⟨d', hrun⟩ := ih haccepted hone
    refine ⟨d', ?_⟩
    rw [run, List.foldlM_cons, applyTo_of_step hstep]
    exact hrun

/-- Read in another order, directives are accepted too, and name the same module. -/
lemma run_perm {ds' : List Directive} (hperm : ds'.Perm ds) (h : d.run ds = .ok d') :
    ∃ d'', d.run ds' = .ok d'' ∧ d''.module = d'.module := by
  have hreads := reads_of_run h
  have hnames : (d.module.toList ++ ds'.filterMap Directive.moduleName?).Perm d'.module.toList := by
    rw [hreads.module]
    exact (hperm.filterMap _).append_left _
  have hone : (d.module.toList ++ ds'.filterMap Directive.moduleName?).length ≤ 1 := by
    rw [hnames.length_eq]
    exact Option.length_toList_le
  obtain ⟨d'', hrun⟩ := exists_run (fun x hx => hreads.accepted x (hperm.mem_iff.1 hx)) hone
  refine ⟨d'', hrun, ?_⟩
  rw [← (reads_of_run hrun).module] at hnames
  cases hnew : d''.module with
  | none =>
    cases hold : d'.module with
    | none => rfl
    | some name => simp [hnew, hold] at hnames
  | some name' =>
    cases hold : d'.module with
    | none => simp [hnew, hold] at hnames
    | some name => simpa [hnew, hold] using hnames

/-! ### Lines and directives -/

/-- A line outside a block is a directive of its own. -/
lemma readLine_outside {verb : String} {args : List String} {comment : Option String}
    (hopen : args ≠ ["("]) (hempty : args ≠ ["(", ")"]) :
    readLine none ⟨verb :: args, comment⟩ = (some ⟨verb, args, comment⟩, none) := by
  rw [readLine.eq_def]
  split
  · next h => cases h
  · next hblock _ => cases hblock
  · next hblock _ _ => cases hblock
  · next h => exact absurd (List.cons.inj h).2 hopen
  · next h => exact absurd (List.cons.inj h).2 hempty
  · next h =>
    cases h
    rfl

/-- A line inside a block is a directive with the verb of the block. -/
lemma readLine_inside {verb : String} {args : List String} {comment : Option String}
    (hne : args ≠ []) (hclose : args ≠ [")"]) :
    readLine (some verb) ⟨args, comment⟩ = (some ⟨verb, args, comment⟩, some verb) := by
  rw [readLine.eq_def]
  split
  · next h => exact absurd h hne
  · next h => exact absurd h hclose
  · next hblock _ _ =>
    cases hblock
    rfl
  · next h _ => cases h
  · next h _ => cases h
  · next h _ => cases h

/-- A run over one directive applies it. -/
lemma run_singleton (d : Draft) (x : Directive) : d.run [x] = d.applyTo x := by
  rw [run, List.foldlM_cons]
  cases d.applyTo x <;> rfl

/-- A line is read as its directive, if it has one. -/
lemma line_eq (d : Draft) (block : Option (String × Nat)) (n : Nat) (l : ManifestLine) :
    ∃ block', block'.map Prod.fst = (readLine (block.map Prod.fst) l).2 ∧
      d.line block n l =
        (d.run (readLine (block.map Prod.fst) l).1.toList).map (·, block') := by
  obtain ⟨tokens, comment⟩ := l
  cases kind_of_line block tokens with
  | vacant =>
    refine ⟨block, ?_, ?_⟩
    · cases block <;> rfl
    · rw [line_vacant]
      cases block <;> rfl
  | @opening verb =>
    refine ⟨some (verb, n), ?_, ?_⟩
    · simp [readLine]
    · simp [line_opening, readLine, run, Except.map, pure, Except.pure]
  | emptyBlock =>
    refine ⟨none, ?_, ?_⟩
    · simp [readLine]
    · simp [line_emptyBlock, readLine, run, Except.map, pure, Except.pure]
  | closing => exact ⟨none, rfl, rfl⟩
  | outside hopen hempty =>
    refine ⟨none, ?_, ?_⟩
    · rw [Option.map_none, readLine_outside hopen hempty]
    · rw [line_outside hopen hempty, Option.map_none, readLine_outside hopen hempty,
        Option.toList_some, run_singleton]
      rfl
  | @inside args verb start hne hclose =>
    refine ⟨some (verb, start), ?_, ?_⟩
    · rw [Option.map_some, readLine_inside hne hclose]
    · rw [line_inside hne hclose, Option.map_some, readLine_inside hne hclose,
        Option.toList_some, run_singleton]
      rfl

/-- A run can be made in two parts. -/
lemma run_append (d : Draft) (ds ds' : List Directive) :
    d.run (ds ++ ds') = (d.run ds).bind (·.run ds') :=
  List.foldlM_append

/-- A run that ends well can be made in two parts. -/
lemma toOption_run_append (d : Draft) (ds ds' : List Directive) :
    (d.run (ds ++ ds')).toOption =
      (d.run ds).toOption.bind fun d' => (d'.run ds').toOption := by
  rw [run_append]
  cases d.run ds <;> rfl

/-- What is read from lines is read from their directives. -/
lemma toOption_lines (d : Draft) (block : Option (String × Nat)) (n : Nat)
    (rows : List (List Char)) :
    (d.lines block n rows).toOption =
      (directivesOn? (block.map Prod.fst) rows).bind fun ds => (d.run ds).toOption := by
  induction rows generalizing d block n with
  | nil => cases block <;> rfl
  | cons row rows ih =>
    rw [lines_cons, directivesOn?]
    cases readTokens row with
    | error fault => rfl
    | ok l =>
      obtain ⟨block', hblock, hline⟩ := line_eq d block n l
      dsimp only [Except.bind]
      rw [hline, ← hblock, Option.bind_map]
      simp only [Function.comp_def, toOption_run_append]
      -- that the other lines can be read does not depend on what this one says
      rw [Option.bind_comm]
      cases d.run (readLine (block.map Prod.fst) l).1.toList with
      | error fault => rfl
      | ok d' => exact ih d' block' (n + 1)

end Draft

/-! ## The rule that wins -/

/-- The last rule for a module that names exactly a version, or none. -/
def lastFor? (rules : List ReplaceRule) (name : String) (version : Option String) :
    Option ReplaceRule :=
  (rules.filter fun r => r.old = name ∧ r.oldVersion = version).getLast?

/-- The rule for a module in a version: the last one that names the version if there is one, else
the last one for all versions. -/
def prevailing? (rules : List ReplaceRule) (name version : String) : Option ReplaceRule :=
  (lastFor? rules name (some version)).or (lastFor? rules name none)

section

variable {rules : List ReplaceRule} {r : ReplaceRule} {name version : String}

/-- The last rule for a module is the new one, if it is for the same version. -/
lemma lastFor?_concat (rules : List ReplaceRule) (r : ReplaceRule) (name : String)
    (v : Option String) : lastFor? (rules ++ [r]) name v =
      if r.old = name ∧ r.oldVersion = v then some r else lastFor? rules name v := by
  rw [lastFor?, List.filter_append, List.filter_singleton]
  by_cases h : r.old = name ∧ r.oldVersion = v
  · rw [if_pos h, decide_eq_true h, cond_true, List.getLast?_concat]
  · rw [if_neg h, decide_eq_false h, cond_false, List.append_nil, lastFor?]

/-- A rule that is found is for the version that was asked for. -/
lemma oldVersion_of_lastFor? {v : Option String} (h : lastFor? rules name v = some r) :
    r.oldVersion = v := by
  have hmem := List.mem_of_getLast? h
  exact (of_decide_eq_true (List.mem_filter.1 hmem).2).2

/-- A rule for another module does not prevail. -/
lemma prevailing?_concat_of_ne (hne : r.old ≠ name) :
    prevailing? (rules ++ [r]) name version = prevailing? rules name version := by
  rw [prevailing?, lastFor?_concat, lastFor?_concat, if_neg (fun h => hne h.1),
    if_neg (fun h => hne h.1), prevailing?]

/-- A new rule for a version prevails at that version only. -/
lemma prevailing?_concat_some (hold : r.old = name) {v : String} (hv : r.oldVersion = some v) :
    prevailing? (rules ++ [r]) name version =
      if v = version then some r else prevailing? rules name version := by
  rw [prevailing?, lastFor?_concat, lastFor?_concat, hv]
  by_cases h : v = version
  · rw [if_pos h, if_pos ⟨hold, congrArg some h⟩, Option.some_or]
  · rw [if_neg h, if_neg (fun h' => h (Option.some.inj h'.2)), if_neg (fun h => nomatch h.2),
      prevailing?]

/-- A rule for all versions wins unless a rule names the version. -/
lemma prevailing?_concat_none (hold : r.old = name) (hv : r.oldVersion = none) :
    prevailing? (rules ++ [r]) name version =
      Draft.moreSpecific (prevailing? rules name version) r := by
  rw [prevailing?, lastFor?_concat, lastFor?_concat, hv, if_neg (fun h => nomatch h.2),
    if_pos ⟨hold, rfl⟩, prevailing?]
  cases hspecific : lastFor? rules name (some version) with
  | some b =>
    rw [Option.some_or, Option.some_or, Draft.moreSpecific, oldVersion_of_lastFor? hspecific, hv]
    rfl
  | none =>
    rw [Option.none_or, Option.none_or]
    cases hblanket : lastFor? rules name none with
    | some b =>
      rw [Draft.moreSpecific, oldVersion_of_lastFor? hblanket]
      rfl
    | none => rfl

/-- A rule for a version is more specific than any before. -/
lemma moreSpecific_of_version {v : String} (hv : r.oldVersion = some v)
    (best : Option ReplaceRule) : Draft.moreSpecific best r = some r := by
  cases best with
  | none => rfl
  | some b =>
    rw [Draft.moreSpecific, hv, Option.isNone_some, Bool.and_false, if_neg Bool.false_ne_true]

/-- Comparing the rules that match, one after another, finds the one that prevails. -/
lemma foldl_moreSpecific (rules : List ReplaceRule) (name version : String) :
    (rules.filter (Draft.matchesRule name version)).foldl Draft.moreSpecific none =
      prevailing? rules name version := by
  induction rules using List.reverseRecOn with
  | nil => rfl
  | append_singleton rules r ih =>
    rw [List.filter_append, List.foldl_append, ih, List.filter_singleton, Draft.matchesRule]
    by_cases hold : r.old = name
    · rw [hold, beq_self_eq_true, Bool.true_and]
      cases hv : r.oldVersion with
      | none =>
        rw [prevailing?_concat_none hold hv]
        rfl
      | some v =>
        rw [prevailing?_concat_some hold hv]
        by_cases h : v = version
        · rw [if_pos h, Option.all_some, beq_iff_eq.2 h, cond_true, List.foldl_cons, List.foldl_nil,
            moreSpecific_of_version hv]
        · rw [if_neg h, Option.all_some, beq_false_of_ne h, cond_false, List.foldl_nil]
    · rw [prevailing?_concat_of_ne hold, beq_false_of_ne hold, Bool.false_and]
      rfl

end

/-! ## Manifests -/

variable {text : String} {path : FilePath} {m : Manifest} {d d' : Draft}

/-- A result is there exactly if the computation ends well. -/
lemma toOption_eq_some_iff {ε α : Type} {r : Except ε α} {a : α} :
    r.toOption = some a ↔ r = .ok a := by
  cases r <;> simp [Except.toOption]

/-- A manifest is read from its directives. -/
lemma parse_eq_ok_iff : Manifest.parse text path = .ok m ↔
    ∃ ds d, directives? text = some ds ∧ Draft.empty.run ds = .ok d ∧ d.manifest path = .ok m := by
  have hlines := Draft.toOption_lines .empty none 1 (Text.lines text.toList)
  rw [Option.map_none, ← directives?] at hlines
  rw [Manifest.parse]
  constructor
  · intro h
    cases hread : Draft.empty.lines none 1 (Text.lines text.toList) with
    | error e =>
      rw [hread] at h
      cases h
    | ok d =>
      rw [hread] at h hlines
      obtain ⟨ds, hds, hrun⟩ := Option.bind_eq_some_iff.1 hlines.symm
      exact ⟨ds, d, hds, toOption_eq_some_iff.1 hrun, h⟩
  · rintro ⟨ds, d, hds, hrun, hm⟩
    rw [hds, Option.bind_some, hrun] at hlines
    rw [toOption_eq_some_iff.1 hlines]
    exact hm

/-- The manifest has the requirements and rules of the draft, each requirement with the rule that
prevails for it. -/
lemma manifest_eq_ok (h : d.manifest path = .ok m) :
    m.replaces = d.replaces ∧ m.requires = d.requires.map fun r =>
      { r with replacement := (prevailing? d.replaces r.name r.version).map (·.new) } := by
  rw [Draft.manifest] at h
  simp only [Draft.replacementFor?, foldl_moreSpecific] at h
  split at h
  · cases h
  · cases h
    exact ⟨rfl, rfl⟩

/-- Whether there is a manifest is known from the name of the module. -/
lemma exists_manifest (h : d.manifest path = .ok m) (hmodule : d'.module = d.module)
    (path' : FilePath) : ∃ m', d'.manifest path' = .ok m' := by
  rw [Draft.manifest] at h ⊢
  rw [hmodule]
  split at h
  · cases h
  · next hname =>
    rw [if_neg hname]
    exact ⟨_, rfl⟩

/-- The rules of a manifest are those of its directives, in the order of the text. A requirement is
replaced by the last rule for its module that names its version, or, if there is none, by the last
one for its module that names no version. So another text with the same directives in another order
is a manifest too, and has the same requirements with the same replacements, as long as the rules
are in the same order. -/
theorem replacement_by_specificity (h : Manifest.parse text path = .ok m) :
    ∃ ds, directives? text = some ds ∧ m.replaces = ds.filterMap Directive.rule? ∧
      m.requires = (ds.filterMap Directive.requirement?).map (fun r =>
        { r with replacement := (prevailing? m.replaces r.name r.version).map (·.new) }) ∧
      ∀ text' path' ds', directives? text' = some ds' → ds'.Perm ds →
        ds'.filterMap Directive.rule? = ds.filterMap Directive.rule? →
        ∃ m', Manifest.parse text' path' = .ok m' ∧ m'.replaces = m.replaces ∧
          m'.requires.Perm m.requires ∧
          (ds'.filterMap Directive.requirement? = ds.filterMap Directive.requirement? →
            m'.requires = m.requires) := by
  obtain ⟨ds, d, hds, hrun, hm⟩ := parse_eq_ok_iff.1 h
  have hreads := Draft.reads_of_run hrun
  obtain ⟨hrules, hrequires⟩ := manifest_eq_ok hm
  rw [hreads.requires, ← hrules] at hrequires
  rw [hreads.replaces] at hrules
  refine ⟨ds, hds, hrules, hrequires, fun text' path' ds' hds' hperm hsame => ?_⟩
  obtain ⟨d', hrun', hmodule⟩ := Draft.run_perm hperm hrun
  obtain ⟨m', hm'⟩ := exists_manifest hm hmodule path'
  have hreads' := Draft.reads_of_run hrun'
  obtain ⟨hrules', hrequires'⟩ := manifest_eq_ok hm'
  rw [hreads'.requires, ← hrules'] at hrequires'
  have hreplaces : m'.replaces = m.replaces := by
    rw [hrules', hreads'.replaces, hsame, hrules]
  rw [hreplaces] at hrequires'
  refine ⟨m', parse_eq_ok_iff.2 ⟨ds', d', hds', hrun', hm'⟩, hreplaces, ?_, fun horder => ?_⟩
  · rw [hrequires', hrequires]
    exact ((hperm.filterMap _).append_left _).map _
  · rw [hrequires', horder, hrequires]

namespace Forks

/-- Rules for one version and for all versions, behind the requirements. -/
def rulesLast : String :=
  "module m\nrequire (\nx v1\ny v2\n)\nreplace x v1 => ./a\nreplace x => ./b\n" ++
    "replace y v1 => ./c\nreplace y => z v3"

/-- The same directives, with rules before the requirements and between them. -/
def rulesBetween : String :=
  "replace (\nx v1 => ./a\nx => ./b\n)\nrequire y v2\nreplace y v1 => ./c\nmodule m\n" ++
    "require x v1\nreplace y => z v3"

/-- The directive with the name of the module. -/
def named : Directive :=
  ⟨"module", ["m"], none⟩

/-- Two requirements. -/
def requirements : List Directive :=
  [⟨"require", ["x", "v1"], none⟩, ⟨"require", ["y", "v2"], none⟩]

/-- Four rules, two for each module. -/
def rules : List Directive :=
  [⟨"replace", ["x", "v1", "=>", "./a"], none⟩, ⟨"replace", ["x", "=>", "./b"], none⟩,
    ⟨"replace", ["y", "v1", "=>", "./c"], none⟩, ⟨"replace", ["y", "=>", "z", "v3"], none⟩]

/-- The same directives in another order, with the rules in the order that they had. -/
def directivesBetween : List Directive :=
  rules.take 2 ++ requirements.drop 1 ++ (rules.drop 2).take 1 ++ named :: requirements.take 1 ++
    rules.drop 3

/-- The manifest that the directives give. -/
def manifest : Manifest :=
  ⟨"m", none, none,
    [⟨"x", "v1", false, some (.path "./a")⟩, ⟨"y", "v2", false, some (.module "z" "v3")⟩],
    [⟨"x", some "v1", .path "./a"⟩, ⟨"x", none, .path "./b"⟩, ⟨"y", some "v1", .path "./c"⟩,
      ⟨"y", none, .module "z" "v3"⟩]⟩

/-- The lines of the text are the directives. -/
lemma directives?_rulesLast : directives? rulesLast = some (named :: requirements ++ rules) := by
  decide +kernel

/-- The text gives the manifest. -/
lemma parse_rulesLast : Manifest.parse rulesLast ⟨"go.mod"⟩ = .ok manifest :=
  parse_eq_ok_iff.2 ⟨_, ⟨some "m", none, none,
    manifest.requires.map ({ · with replacement := none }), manifest.replaces⟩,
    directives?_rulesLast, by decide +kernel, by decide +kernel⟩

/-- The version of `x` has a rule of its own, that of `y` has none, and nothing changes when the
rules stand between the requirements. -/
theorem forks_replaced : Manifest.parse rulesLast ⟨"go.mod"⟩ = .ok manifest ∧
    directives? rulesBetween = some directivesBetween ∧
    directivesBetween.Perm (named :: requirements ++ rules) ∧
    directivesBetween.filterMap Directive.rule? =
      (named :: requirements ++ rules).filterMap Directive.rule? ∧
    ∃ m', Manifest.parse rulesBetween ⟨"go.mod"⟩ = .ok m' ∧ m'.replaces = manifest.replaces ∧
      m'.requires.Perm manifest.requires := by
  have hbetween : directives? rulesBetween = some directivesBetween := by decide +kernel
  have hperm : directivesBetween.Perm (named :: requirements ++ rules) := by decide +kernel
  have hrules : directivesBetween.filterMap Directive.rule? =
      (named :: requirements ++ rules).filterMap Directive.rule? := by decide +kernel
  refine ⟨parse_rulesLast, hbetween, hperm, hrules, ?_⟩
  obtain ⟨ds, hds, -, -, hmoved⟩ := replacement_by_specificity parse_rulesLast
  obtain rfl := Option.some.inj (directives?_rulesLast.symm.trans hds)
  obtain ⟨m', hm', hreplaces, hrequires, -⟩ := hmoved _ ⟨"go.mod"⟩ _ hbetween hperm hrules
  exact ⟨m', hm', hreplaces, hrequires⟩

end Forks

end GoService.Project
