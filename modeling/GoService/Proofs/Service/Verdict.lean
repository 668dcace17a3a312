import GoService.Proofs.Resolution.Adequacy
import GoService.Proofs.Resolution.Places
import GoService.Proofs.Service.Order
import GoService.Proofs.Service.Slots

/-!
# The verdict on a function

Whether an annotated function is a service function is decided by its slots. What is written is
judged first (`WellShaped`), and a fault in it ends the scan in either mode before anything is
looked up. After that the types that the slots resolve to decide (`Fitting`). Names, and how many of
them stand before one type, do not count (`WrittenAlike.accepts`).
-/

namespace GoService.Service

open Data Package Resolution
open Project (Mode)
open Source (TypeExpr FuncDecl)

/-! ## What the types resolve to -/

/-- The types are resolved one after another, each in the state that the one before leaves. -/
inductive ResolveInTurn (names : KnownNames) (site : Site) :
    List Slot → Known → List DataType → Known → Prop
  | nil {k} : ResolveInTurn names site [] k [] k
  | cons {s ss k t k₁ ts k'} (h : outcome (resolve names site s.type) k = (.ok t, k₁))
      (hs : ResolveInTurn names site ss k₁ ts k') :
      ResolveInTurn names site (s :: ss) k (t :: ts) k'

/-- What a slot carries if its type resolves to `t`; a blank is no name. -/
def Slot.carrying (s : Slot) (t : DataType) : Carried :=
  ⟨s.name.filter (· != "_"), t⟩

/-- A struct, the empty value, or a pointer to one of them. -/
inductive IsCarried : DataType → Prop
  | struct {key} : IsCarried (.struct key)
  | empty : IsCarried (.wellKnown .empty)
  | pointerToStruct {key} : IsCarried (.pointer (.struct key))
  | pointerToEmpty : IsCarried (.pointer (.wellKnown .empty))

/-- The types of parameters and results are those of a service function. -/
structure Fitting (params results : List DataType) : Prop where
  context : params.head? = some (.wellKnown .context)
  param : ∀ t ∈ params.tail, IsCarried t
  result : ∀ t ∈ results.dropLast, IsCarried t
  error : results.getLast? = some (.wellKnown .error)

/-- Types fit a function exactly if the context is first, an error last, and carried types between.
-/
lemma fitting_iff {tc te : DataType} {ps rs : List DataType} :
    Fitting (tc :: ps) (rs ++ [te]) ↔ tc = .wellKnown .context ∧ (∀ t ∈ ps, IsCarried t) ∧
      (∀ t ∈ rs, IsCarried t) ∧ te = .wellKnown .error := by
  constructor
  · rintro ⟨hc, hps, hrs, he⟩
    rw [List.dropLast_concat] at hrs
    exact ⟨Option.some.inj hc, hps, hrs, Option.some.inj (List.getLast?_concat.symm.trans he)⟩
  · rintro ⟨rfl, hps, hrs, rfl⟩
    refine ⟨rfl, hps, ?_, List.getLast?_concat⟩
    rw [List.dropLast_concat]
    exact hrs

/-- A type can be carried exactly if it is a struct, the empty value, or a pointer to one of them.
-/
lemma canCarry_iff (t : DataType) : canCarry t ↔ IsCarried t := by
  constructor
  · intro h
    unfold canCarry at h
    split at h
    · exact .struct
    · exact .empty
    · exact .pointerToStruct
    · exact .pointerToEmpty
    · cases h
  · rintro (_ | _ | _ | _) <;> rfl

section

variable {names : KnownNames} {site : Site} {k k₁ k₂ k' : Known}

/-- Slots that resolve one after another may be followed by more. -/
lemma ResolveInTurn.append {ss ss' : List Slot} {ts ts' : List DataType}
    (h : ResolveInTurn names site ss k ts k₁) (h' : ResolveInTurn names site ss' k₁ ts' k') :
    ResolveInTurn names site (ss ++ ss') k (ts ++ ts') k' := by
  induction h with
  | nil => exact h'
  | cons hs _ ih => exact .cons hs (ih h')

/-- Where two lists of slots resolve in turn, the first does, and the second from where it ends. -/
lemma ResolveInTurn.exists_append {ss ss' : List Slot} {ts : List DataType}
    (h : ResolveInTurn names site (ss ++ ss') k ts k') :
    ∃ ts₁ k₁ ts₂, ts = ts₁ ++ ts₂ ∧ ResolveInTurn names site ss k ts₁ k₁ ∧
      ResolveInTurn names site ss' k₁ ts₂ k' := by
  induction ss generalizing k ts with
  | nil => exact ⟨[], k, ts, rfl, .nil, h⟩
  | cons s ss ih =>
    cases h with
    | cons hs hss =>
      obtain ⟨ts₁, k₁, ts₂, rfl, h₁, h₂⟩ := ih hss
      exact ⟨_ :: ts₁, k₁, ts₂, rfl, .cons hs h₁, h₂⟩

/-- Slots that are written alike resolve alike where names mean the same. -/
lemma ResolveInTurn.of_written {site' : Site} {ss ss' : List Slot} {ts : List DataType}
    (hscope : site.SameScope site') (hss : ss.map Slot.written = ss'.map Slot.written)
    (h : ResolveInTurn names site ss k ts k') : ResolveInTurn names site' ss' k ts k' := by
  induction h generalizing ss' with
  | nil =>
    rw [List.map_nil, eq_comm, List.map_eq_nil_iff] at hss
    rw [hss]
    exact .nil
  | @cons s ss k t k₁ ts k' hs _ ih =>
    cases ss' with
    | nil => cases hss
    | cons s' ss' =>
      obtain ⟨hhead, htail⟩ := List.cons.inj hss
      have htype : s.type.bare = s'.type.bare := (Prod.mk.inj hhead).1
      exact .cons ((agree_resolve names hscope htype).outcome_eq_ok hs) (ih htail)

/-! ## The operands one by one -/

/-- An operand whose type resolves is taken exactly if the type is wanted. -/
lemma outcome_operandOf (wanted : DataType → Bool) (fault : String → FunctionError) {s : Slot}
    {t : DataType} (h : outcome (resolve names site s.type) k = (.ok t, k₁)) :
    outcome (operandOf names site wanted fault s.operand) k =
      (if wanted t then .ok t else .error (fault t.text), k₁) := by
  have hs : outcome (operandType names site s.operand) k = (.ok t, k₁) := outcome_adapt_eq_ok.2 h
  rw [operandOf, outcome_bind_of_ok hs]
  cases wanted t <;> rfl

/-- An operand is had only if its type resolves to one that is wanted. -/
lemma exists_of_operandOf {wanted : DataType → Bool} {fault : String → FunctionError} {s : Slot}
    {t : DataType} (h : outcome (operandOf names site wanted fault s.operand) k = (.ok t, k')) :
    outcome (resolve names site s.type) k = (.ok t, k') ∧ wanted t := by
  obtain ⟨t', k₁, hs, h⟩ := exists_of_outcome_bind h
  cases hw : wanted t' with
  | false =>
    simp only [hw] at h
    cases h
  | true =>
    simp only [hw] at h
    cases h
    exact ⟨outcome_adapt_eq_ok.1 hs, hw⟩

/-- An operand that may carry a struct is taken, or is the fault, as its type can be carried or not.
-/
lemma outcome_carriedOf (fault : String → FunctionError) {o : Option Slot} {ts : List DataType}
    (h : ResolveInTurn names site o.toList k ts k₁) :
    (∃ v, outcome (carriedOf names site fault (o.map Slot.operand)) k = (.ok v, k₁) ∧
      v.toList = List.zipWith Slot.carrying o.toList ts ∧ ∀ t ∈ ts, IsCarried t) ∨
    (∃ text, outcome (carriedOf names site fault (o.map Slot.operand)) k =
      (.error (fault text), k₁)) ∧ ¬ ∀ t ∈ ts, IsCarried t := by
  cases o with
  | none =>
    cases h
    exact .inl ⟨none, rfl, rfl, List.forall_mem_nil _⟩
  | some s =>
    cases h with
    | @cons _ _ _ t _ _ _ hs hss =>
      cases hss
      have hone : outcome (operandOf names site canCarry fault s.operand) k = _ :=
        outcome_operandOf canCarry fault hs
      cases hc : canCarry t with
      | true =>
        rw [hc] at hone
        refine .inl ⟨some (s.carrying t), ?_, rfl, ?_⟩
        · exact outcome_bind_of_ok hone
        · exact List.forall_mem_singleton.2 ((canCarry_iff t).1 hc)
      | false =>
        rw [hc] at hone
        refine .inr ⟨⟨t.text, ?_⟩, fun hall => ?_⟩
        · rw [Option.map_some, carriedOf, outcome_bind, hone]
          rfl
        · have htrue := (canCarry_iff t).2 (List.forall_mem_singleton.1 hall)
          rw [hc] at htrue
          cases htrue

/-- Where an operand that may carry a struct is taken, its type has resolved. -/
lemma exists_of_carriedOf {fault : String → FunctionError} {o : Option Slot} {v : Option Carried}
    (h : outcome (carriedOf names site fault (o.map Slot.operand)) k = (.ok v, k')) :
    ∃ ts, ResolveInTurn names site o.toList k ts k' := by
  cases o with
  | none =>
    cases h
    exact ⟨[], .nil⟩
  | some s =>
    obtain ⟨t, k₁, hs, h⟩ := exists_of_outcome_bind h
    cases h
    exact ⟨[t], .cons (exists_of_operandOf hs).1 .nil⟩

/-! ## The verdict -/

/-- What follows an error is not run. -/
lemma outcome_bind_of_error {ε α β : Type} {x : ExceptT ε (StateM Known) α}
    {f : α → ExceptT ε (StateM Known) β} {e : ε} (hx : outcome x k = (.error e, k₁)) :
    outcome (x >>= f) k = (.error e, k₁) := by
  rw [outcome_bind, hx]

/-- To discard a value keeps the outcome and the state. -/
lemma outcome_discard {ε α : Type} {x : ExceptT ε (StateM Known) α} {r : Except ε α}
    (hx : outcome x k = (r, k₁)) :
    outcome (Functor.discard x) k = (r.map fun _ => ⟨⟩, k₁) := by
  have hbind : outcome (Functor.discard x) k = outcome (x >>= fun _ => pure ⟨⟩) k := rfl
  rw [hbind, outcome_bind, hx]
  cases r <;> rfl

/-- A function that is not written as a service function is malformed. -/
lemma functionOf_misshapen {d : FuncDecl} (hw : ¬ WellShaped d) :
    ∃ fault, ∀ k, outcome (functionOf names site d) k =
      (.error (.malformed site.file.path d.name.name fault), k) := by
  obtain ⟨h, -⟩ | ⟨-, fault, hfault⟩ := ofDecl_cases (fun t => site.text t.span) d
  · exact absurd h hw
  · refine ⟨fault, fun k => ?_⟩
    rw [functionOf, outcome_bind, outcome_liftExcept, hfault]
    rfl

/-- A function is had only if the types of all its slots resolve. -/
lemma exists_of_functionOf {d : FuncDecl} {fn : Function}
    (h : outcome (functionOf names site d) k = (.ok fn, k')) :
    WellShaped d ∧ ∃ ps k₁ rs, ResolveInTurn names site (paramSlots d) k ps k₁ ∧
      ResolveInTurn names site (resultSlots d) k₁ rs k' := by
  obtain ⟨hw, c, p, r, e, hs, hok⟩ | ⟨-, fault, hfault⟩ :=
    ofDecl_cases (fun t => site.text t.span) d
  · rw [functionOf, hok] at h
    obtain ⟨shape, k₀, hshape, h⟩ := exists_of_outcome_bind h
    cases hshape
    obtain ⟨_, k₁, hc, h⟩ := exists_of_outcome_bind h
    obtain ⟨param, k₂, hp, h⟩ := exists_of_outcome_bind h
    obtain ⟨result, k₃, hr, h⟩ := exists_of_outcome_bind h
    obtain ⟨_, k₄, he, h⟩ := exists_of_outcome_bind h
    cases h
    obtain ⟨tc, k₁, hc, hpure⟩ := exists_of_outcome_bind hc
    cases hpure
    obtain ⟨te, k₄, he, hpure⟩ := exists_of_outcome_bind he
    cases hpure
    obtain ⟨ps, hp⟩ := exists_of_carriedOf hp
    obtain ⟨rs, hr⟩ := exists_of_carriedOf hr
    refine ⟨hw, tc :: ps, k₂, rs ++ [te], ?_, ?_⟩
    · rw [hs.params]
      exact .cons (exists_of_operandOf hc).1 hp
    · rw [hs.results]
      exact hr.append (.cons (exists_of_operandOf he).1 .nil)
  · rw [functionOf, hfault] at h
    cases h

/-- Types that all resolve decide about a function that is written as a service function. -/
lemma functionOf_cases {d : FuncDecl} {ps rs : List DataType} (hw : WellShaped d)
    (hparams : ResolveInTurn names site (paramSlots d) k ps k₁)
    (hresults : ResolveInTurn names site (resultSlots d) k₁ rs k') :
    (Fitting ps rs ∧ ∃ fn, outcome (functionOf names site d) k = (.ok fn, k') ∧
      fn.param.toList = List.zipWith Slot.carrying (paramSlots d).tail ps.tail ∧
      fn.result.toList = List.zipWith Slot.carrying (resultSlots d).dropLast rs.dropLast) ∨
    (¬ Fitting ps rs ∧ ∃ fault k₂, outcome (functionOf names site d) k =
      (.error (.malformed site.file.path d.name.name fault), k₂)) := by
  obtain ⟨-, c, p, r, e, hs, hok⟩ | ⟨hnot, -⟩ := ofDecl_cases (fun t => site.text t.span) d
  swap
  · exact absurd hw hnot
  rw [hs.params] at hparams ⊢
  rw [hs.results] at hresults ⊢
  -- the first parameter is the context, the last result the error, and each may have one beside it
  obtain ⟨rs, k₃, es, rfl, hr, he⟩ := hresults.exists_append
  cases hparams with
  | @cons _ _ _ tc k₂ ps _ hc hp =>
  cases he with
  | @cons _ _ _ te _ _ _ he hnil =>
  cases hnil
  simp only [List.tail_cons, List.dropLast_concat]
  let malformed (fault : ShapeFault) : FunctionError := .malformed site.file.path d.name.name fault
  have hc := outcome_discard
    (outcome_operandOf (· == .wellKnown .context) (fun found => malformed (.context found)) hc)
  have he := outcome_discard
    (outcome_operandOf (· == .wellKnown .error) (fun found => malformed (.error found)) he)
  rw [functionOf, hok, fitting_iff]
  -- the operands are looked at one after another, and the first at fault ends the function
  by_cases hcontext : tc = .wellKnown .context
  swap
  · refine .inr ⟨fun hfit => hcontext hfit.1, .context tc.text, k₂, ?_⟩
    refine (outcome_bind_of_ok rfl).trans (outcome_bind_of_error (hc.trans ?_))
    rw [if_neg (by simpa using hcontext)]
    rfl
  subst hcontext
  rcases outcome_carriedOf (fun found => malformed (.param found)) hp with
    ⟨param, hp, hparam, hps⟩ | ⟨⟨text, hp⟩, hps⟩
  swap
  · refine .inr ⟨fun hfit => hps hfit.2.1, .param text, k₁, ?_⟩
    exact (outcome_bind_of_ok rfl).trans ((outcome_bind_of_ok hc).trans (outcome_bind_of_error hp))
  rcases outcome_carriedOf (fun found => malformed (.result found)) hr with
    ⟨result, hr, hresult, hrs⟩ | ⟨⟨text, hr⟩, hrs⟩
  swap
  · refine .inr ⟨fun hfit => hrs hfit.2.2.1, .result text, k₃, ?_⟩
    exact (outcome_bind_of_ok rfl).trans ((outcome_bind_of_ok hc).trans
      ((outcome_bind_of_ok hp).trans (outcome_bind_of_error hr)))
  by_cases herror : te = .wellKnown .error
  · subst herror
    exact .inl ⟨⟨rfl, hps, hrs, rfl⟩, _,
      (outcome_bind_of_ok rfl).trans ((outcome_bind_of_ok hc).trans
        ((outcome_bind_of_ok hp).trans ((outcome_bind_of_ok hr).trans (outcome_bind_of_ok he)))),
      hparam, hresult⟩
  · refine .inr ⟨fun hfit => herror hfit.2.2.2, .error te.text, k', ?_⟩
    refine (outcome_bind_of_ok rfl).trans ((outcome_bind_of_ok hc).trans
      ((outcome_bind_of_ok hp).trans ((outcome_bind_of_ok hr).trans
        (outcome_bind_of_error (he.trans ?_)))))
    rw [if_neg (by simpa using herror)]
    rfl

end

/-! ## Functions of a package -/

section

variable (names : KnownNames) (p : Package)

/-- The scan of a function gives a service function. -/
def Accepts (mode : Mode) (f : DeclaredFunc) (k : Known) : Prop :=
  ∃ fn k', outcome (scanFunction names mode p f) k = (.ok (some fn), k')

/-- The functions are written alike but for names and places, in files in which names mean the
same. -/
structure WrittenAlike (f f' : DeclaredFunc) : Prop where
  imports : f.file.imports = f'.file.imports
  recv : f.decl.recv = none ↔ f'.decl.recv = none
  typeParams : f.decl.typeParams = none ↔ f'.decl.typeParams = none
  params : (paramSlots f.decl).map Slot.written = (paramSlots f'.decl).map Slot.written
  results : (resultSlots f.decl).map Slot.written = (resultSlots f'.decl).map Slot.written

variable {names p}

/-- To be written alike goes both ways. -/
lemma WrittenAlike.symm {f f' : DeclaredFunc} (h : WrittenAlike f f') : WrittenAlike f' f :=
  ⟨h.imports.symm, h.recv.symm, h.typeParams.symm, h.params.symm, h.results.symm⟩

/-- An annotated function is kept exactly if its declaration describes it. -/
lemma outcome_scanFunction_of_ok {mode : Mode} {f : DeclaredFunc} {k k' : Known} {fn : Function}
    (hf : isAnnotated f.decl) :
    outcome (scanFunction names mode p f) k = (.ok (some fn), k') ↔
      outcome (functionOf names ⟨p, f.file⟩ f.decl) k = (.ok fn, k') := by
  rw [outcome_scanFunction_of_annotated hf]
  obtain ⟨fn', k₁, ho⟩ | ⟨e, k₁, ho⟩ := outcome_cases (functionOf names ⟨p, f.file⟩ f.decl) k
  · rw [ho]
    simp
  · rw [ho]
    dsimp only
    split <;> simp

/-- A malformed function ends the scan in either mode. -/
lemma outcome_scanFunction_of_malformed {mode : Mode} {f : DeclaredFunc} {k k' : Known}
    {file : Project.FilePath} {function : String} {fault : ShapeFault} (hf : isAnnotated f.decl)
    (h : outcome (functionOf names ⟨p, f.file⟩ f.decl) k =
      (.error (.malformed file function fault), k')) :
    outcome (scanFunction names mode p f) k = (.error (.malformed file function fault), k') := by
  rw [outcome_scanFunction_of_annotated hf, h]
  rfl

/-- What holds of the written form of all slots holds of slots that are written alike. -/
lemma forall_of_written {ss ss' : List Slot} {P : TypeExpr × Bool → Prop}
    (h : ss.map Slot.written = ss'.map Slot.written) (hss : ∀ s ∈ ss, P s.written) :
    ∀ s ∈ ss', P s.written := by
  rw [← List.forall_mem_map] at hss ⊢
  rwa [← h]

/-- What holds of the written form of an operand holds of one that is written alike. -/
lemma forall_of_written? {o o' : Option Slot} {P : TypeExpr × Bool → Prop}
    (h : o.map Slot.written = o'.map Slot.written) (ho : ∀ s ∈ o, P s.written) :
    ∀ s ∈ o', P s.written := by
  rintro s ⟨⟩
  obtain ⟨s', hs', heq⟩ := Option.map_eq_some_iff.1 h
  exact heq ▸ ho s' hs'

/-- A function that is written like one of the right shape has the right shape. -/
lemma WrittenAlike.wellShaped {f f' : DeclaredFunc} (h : WrittenAlike f f')
    (hw : WellShaped f.decl) : WellShaped f'.decl := by
  have hp := congrArg List.length h.params
  have hr := congrArg List.length h.results
  rw [List.length_map, List.length_map] at hp hr
  have hname (s : Slot) : IsName s.type ↔ isPlainName false s.written.1 := by
    rw [← isPlainName_iff, Slot.written, isPlainName_bare]
  have hpointer (s : Slot) : IsNameOrPointer s.type ↔ isPlainName true s.written.1 := by
    rw [← isPlainName_pointer_iff, Slot.written, isPlainName_bare]
  obtain ⟨hfunction, hplain, hfixed, hparams, hresults, hcontext, hparam, hresult, herror⟩ := hw
  simp only [hname, hpointer] at hcontext hparam hresult herror
  refine ⟨h.recv.1 hfunction, h.typeParams.1 hplain, ?_, hp ▸ hparams, hr ▸ hresults,
    ?_, ?_, ?_, ?_⟩
  · exact forall_of_written (P := fun w => w.2 = false) h.params hfixed
  · simp only [hname]
    refine forall_of_written? (P := fun w => isPlainName false w.1) ?_ hcontext
    rw [← List.head?_map, ← List.head?_map, h.params]
  · simp only [hpointer]
    refine forall_of_written (P := fun w => isPlainName true w.1) ?_ hparam
    rw [List.map_tail, List.map_tail, h.params]
  · simp only [hpointer]
    refine forall_of_written (P := fun w => isPlainName true w.1) ?_ hresult
    rw [List.map_dropLast, List.map_dropLast, h.results]
  · simp only [hname]
    refine forall_of_written? (P := fun w => isPlainName false w.1) ?_ herror
    rw [← List.getLast?_map, ← List.getLast?_map, h.results]

/-- A function that is written like an accepted one is accepted. -/
lemma WrittenAlike.accepts {f f' : DeclaredFunc} {mode : Mode} {k : Known}
    (h : WrittenAlike f f') (hf : isAnnotated f.decl) (hf' : isAnnotated f'.decl)
    (ha : Accepts names p mode f k) : Accepts names p mode f' k := by
  obtain ⟨fn, k', ha⟩ := ha
  have hok := (outcome_scanFunction_of_ok hf).1 ha
  obtain ⟨hw, ps, k₁, rs, hps, hrs⟩ := exists_of_functionOf hok
  have hscope : Site.SameScope ⟨p, f.file⟩ ⟨p, f'.file⟩ := ⟨rfl, h.imports⟩
  have hps' := hps.of_written hscope h.params
  have hrs' := hrs.of_written hscope h.results
  obtain ⟨hfit, -⟩ | ⟨-, fault, k₂, herror⟩ := functionOf_cases hw hps hrs
  · obtain ⟨-, fn', hok', -⟩ | ⟨hnot, -⟩ := functionOf_cases (h.wellShaped hw) hps' hrs'
    · exact ⟨fn', k', (outcome_scanFunction_of_ok hf').2 hok'⟩
    · exact absurd hfit hnot
  · cases hok.symm.trans herror

/-- Scanning an annotated function ends in the same error in either mode, before anything changes,
if it is not written as a service function. If it is and its types resolve one after another, they
alone decide. How its parameters and results are named and grouped makes no difference. -/
theorem scan_follows_slots (f : DeclaredFunc) (hf : isAnnotated f.decl) :
    (¬ WellShaped f.decl → ∃ fault, ∀ mode k, outcome (scanFunction names mode p f) k =
      (.error (.malformed f.file.path f.decl.name.name fault), k)) ∧
    (WellShaped f.decl → ∀ k ps k₁ rs k',
      ResolveInTurn names ⟨p, f.file⟩ (paramSlots f.decl) k ps k₁ →
      ResolveInTurn names ⟨p, f.file⟩ (resultSlots f.decl) k₁ rs k' →
      (∀ mode, Accepts names p mode f k ↔ Fitting ps rs) ∧
      (∀ mode fn k₂, outcome (scanFunction names mode p f) k = (.ok (some fn), k₂) → k₂ = k' ∧
        fn.param.toList = List.zipWith Slot.carrying (paramSlots f.decl).tail ps.tail ∧
        fn.result.toList = List.zipWith Slot.carrying (resultSlots f.decl).dropLast rs.dropLast) ∧
      (¬ Fitting ps rs → ∃ fault k₂, ∀ mode, outcome (scanFunction names mode p f) k =
        (.error (.malformed f.file.path f.decl.name.name fault), k₂))) ∧
    ∀ f', isAnnotated f'.decl → WrittenAlike f f' → ∀ mode k,
      Accepts names p mode f k ↔ Accepts names p mode f' k := by
  refine ⟨fun hw => ?_, fun hw k ps k₁ rs k' hps hrs => ?_, fun f' hf' h mode k => ?_⟩
  · obtain ⟨fault, hfault⟩ := functionOf_misshapen hw
    exact ⟨fault, fun mode k => outcome_scanFunction_of_malformed hf (hfault k)⟩
  · obtain ⟨hfit, fn, hok, hparam, hresult⟩ | ⟨hnot, fault, k₂, herror⟩ :=
      functionOf_cases hw hps hrs
    · refine ⟨fun mode => iff_of_true ?_ hfit, fun mode fn' k₂ hok' => ?_, fun hnot => ?_⟩
      · exact ⟨fn, k', (outcome_scanFunction_of_ok hf).2 hok⟩
      · cases hok.symm.trans ((outcome_scanFunction_of_ok hf).1 hok')
        exact ⟨rfl, hparam, hresult⟩
      · exact absurd hfit hnot
    · have hscan (mode : Mode) : outcome (scanFunction names mode p f) k = _ :=
        outcome_scanFunction_of_malformed hf herror
      refine ⟨fun mode => iff_of_false ?_ hnot, fun mode fn' k₂ hok' => ?_, fun _ => ?_⟩
      · rintro ⟨fn, k₂, hok⟩
        cases hok.symm.trans (hscan mode)
      · cases hok'.symm.trans (hscan mode)
      · exact ⟨fault, k₂, hscan⟩
  · exact ⟨h.accepts hf hf', h.symm.accepts hf' hf⟩

end

/-! ## Functions that differ in the names of their slots -/

namespace Twins

open Source

/-- A type without type arguments. -/
def typeNamed (qualifier : Option Ident) (name : Ident) : TypeExpr :=
  .named default qualifier name []

/-- The name of the struct. -/
def structName : Ident := ⟨⟨"T", by decide⟩, default⟩

/-- The name of the type of the context is a word. -/
lemma isWord_context : isWord "Context".toList :=
  rfl

/-- The name of the type of errors is a word. -/
lemma isWord_error : isWord "error".toList :=
  rfl

/-- The type of the first parameter of every function. -/
def contextType : TypeExpr :=
  typeNamed (some ⟨⟨"frame", by decide⟩, default⟩) ⟨⟨"Context", isWord_context⟩, default⟩

/-- The type that refers to the struct. -/
def structType : TypeExpr :=
  typeNamed none structName

/-- The type of the last result of every function. -/
def errorType : TypeExpr :=
  typeNamed none ⟨⟨"error", isWord_error⟩, default⟩

/-- An entry of a list of parameters or results. -/
def entry (names : List Ident) (ellipsis : Option Span) (type : TypeExpr) : Field :=
  ⟨default, names, ellipsis, type, none, false, none, none⟩

/-- The comment that annotates a function. -/
def annotation : CommentGroup :=
  ⟨⟨.line, default, "// @fn", 0⟩, [], false, 0⟩

/-- An annotated function with these parameters and results. -/
def function (name : Ident) (params results : List Field) : FuncDecl where
  span := default
  doc := some annotation
  keyword := default
  recv := none
  name := name
  typeParams := none
  signature := ⟨default, ⟨default, params, default⟩, some (.params ⟨default, results, default⟩)⟩
  body := none

/-- The function `func Unnamed(frame.Context, *T) (T, error)`. -/
def unnamed : FuncDecl :=
  function ⟨⟨"Unnamed", by decide⟩, default⟩
    [entry [] none contextType, entry [] none (.pointer default default structType)]
    [entry [] none structType, entry [] none errorType]

/-- The function `func Named(_ frame.Context, t *T) (u T, e error)`. -/
def named : FuncDecl :=
  function ⟨⟨"Named", by decide⟩, default⟩
    [entry [⟨⟨"_", by decide⟩, default⟩] none contextType,
      entry [⟨⟨"t", by decide⟩, default⟩] none (.pointer ⟨7, 9⟩ ⟨7, 8⟩ structType)]
    [entry [⟨⟨"u", by decide⟩, default⟩] none structType,
      entry [⟨⟨"e", by decide⟩, default⟩] none errorType]

/-- The function `func Variadic(frame.Context, ...T) error`. -/
def variadic : FuncDecl :=
  function ⟨⟨"Variadic", by decide⟩, default⟩
    [entry [] none contextType, entry [] (some default) structType] [entry [] none errorType]

/-- The file with the struct. -/
def file : SourceUnit where
  path := ⟨"twins/twins.go"⟩
  parsed := ⟨"", ⟨[0]⟩, ⟨default, ⟨⟨"twins", by decide⟩, default⟩,
    [.gen ⟨default, none, .types, default, none, [.typeSpec ⟨none, structName, none, none,
      .struct default default [] default⟩], none⟩, .func unnamed, .func named, .func variadic],
    [], none⟩, []⟩
  imports := ⟨[⟨"rt", "rt", .named "frame", 0⟩]⟩

/-- The package with the file. -/
def package : Package :=
  ofFiles "m/twins" "twins" ⟨"twins"⟩ "m" [file]

/-- The source with the package. -/
def source : PackageSource :=
  .ofPackages [package]

/-- The state with the package at hand. -/
def start : Known :=
  (Known.start (.ofSource source)).withPackages
    (LoadedPackages.load (.ofSource source) "m/twins").2

/-- The function with parameters that have no names is accepted. -/
lemma unnamed_accepted : Accepts ⟨"rt"⟩ package .permissive ⟨0, file, unnamed⟩ start := by
  have hfn : (outcome (scanFunction ⟨"rt"⟩ .permissive package ⟨0, file, unnamed⟩) start).1 =
      .ok (some ⟨"", "Unnamed", "m/twins", ⟨"twins/twins.go"⟩, 1,
        some ⟨none, .pointer (.struct "m/twins.T")⟩, some ⟨none, .struct "m/twins.T"⟩,
        Annotations.ofText "@fn\n", "@fn\n"⟩) := rfl
  exact ⟨_, _, Prod.ext hfn rfl⟩

/-- The function with named parameters is written like the one without. -/
lemma named_writtenAlike : WrittenAlike ⟨0, file, unnamed⟩ ⟨0, file, named⟩ :=
  ⟨rfl, Iff.rfl, Iff.rfl, rfl, rfl⟩

/-- The function with names is accepted like the one without, and the one with dots ends the scan.
-/
theorem twins_verdict :
    Accepts ⟨"rt"⟩ package .permissive ⟨0, file, named⟩ start ∧
    ∃ fault, ∀ mode k, outcome (scanFunction ⟨"rt"⟩ mode package ⟨0, file, variadic⟩) k =
      (.error (.malformed ⟨"twins/twins.go"⟩ "Variadic" fault), k) := by
  constructor
  · exact ((scan_follows_slots ⟨0, file, unnamed⟩ rfl).2.2 ⟨0, file, named⟩ rfl named_writtenAlike _
      start).1 unnamed_accepted
  · refine (scan_follows_slots ⟨0, file, variadic⟩ rfl).1 fun hw => ?_
    have hfixed := hw.fixed ⟨none, structType, true⟩ (.tail _ (.head _))
    cases hfixed

end Twins

end GoService.Service
