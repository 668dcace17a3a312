import GoService.Proofs.Source.Writing
import GoService.Service.Shape

/-!
# Slots

A function has a slot for each name of a parameter or result, and one for each parameter or result
without a name. The slots are the operands as they are written (`operands_eq`), and whether the
function has the shape of a service function is a property of them (`WellShaped`, `ofDecl_cases`).
-/

namespace GoService.Service

open Source (TypeExpr FieldList FuncDecl)

/-! ## Slots -/

/-- A single parameter or result as it is written. -/
structure Slot where
  name : Option String
  type : TypeExpr
  variadic : Bool

namespace Slot

/-- The operand in a slot; a blank is no name. -/
def operand (s : Slot) : Operand :=
  ⟨s.name.filter (· != "_"), s.type, s.variadic⟩

/-- A slot without its name and without the places in its type. -/
def written (s : Slot) : TypeExpr × Bool :=
  (s.type.bare, s.variadic)

end Slot

/-- The slots of a field: one for each name, or one if there is none. -/
def fieldSlots (f : Source.Field) : List Slot :=
  match f.names with
  | [] => [⟨none, f.type, f.ellipsis.isSome⟩]
  | names => names.map fun n => ⟨some n.name, f.type, f.ellipsis.isSome⟩

/-- The slots of the parameters. -/
def paramSlots (d : FuncDecl) : List Slot :=
  d.signature.params.fields.flatMap fieldSlots

/-- The slots of the results. -/
def resultSlots (d : FuncDecl) : List Slot :=
  match d.signature.results with
  | none => []
  | some (.single type) => [⟨none, type, false⟩]
  | some (.params list) => list.fields.flatMap fieldSlots

/-- The operands of a list are its slots. -/
lemma operands_eq (l : FieldList) :
    operands l = (l.fields.flatMap fieldSlots).map Slot.operand := by
  rw [operands, List.map_flatMap]
  refine List.flatMap_congr fun f _ => ?_
  rw [fieldOperands, fieldSlots]
  cases f.names with
  | nil => rfl
  | cons name names =>
    rw [List.map_map]
    refine List.map_congr_left fun n _ => ?_
    by_cases h : n.name = "_"
    · simp [Slot.operand, Option.filter, h]
    · simp [Slot.operand, Option.filter, h]

/-- The operands of results are their slots. -/
lemma resultOperands_eq (d : FuncDecl) :
    resultOperands d.signature.results = (resultSlots d).map Slot.operand := by
  rw [resultSlots]
  cases d.signature.results with
  | none => rfl
  | some results =>
    cases results with
    | single type => rfl
    | params list => exact operands_eq list

/-! ## What is written -/

/-- A name without type arguments, possibly in parentheses. -/
inductive IsName : TypeExpr → Prop
  | named {span qualifier name} : IsName (.named span qualifier name [])
  | paren {span t} (h : IsName t) : IsName (.paren span t)

/-- A name without type arguments or a pointer to one, possibly in parentheses. -/
inductive IsNameOrPointer : TypeExpr → Prop
  | name {t} (h : IsName t) : IsNameOrPointer t
  | pointer {span star t} (h : IsName t) : IsNameOrPointer (.pointer span star t)
  | paren {span t} (h : IsNameOrPointer t) : IsNameOrPointer (.paren span t)

/-- A type is a plain name exactly if it is a name. -/
lemma isPlainName_iff (t : TypeExpr) : isPlainName false t ↔ IsName t := by
  constructor
  · intro h
    induction t using TypeExpr.partsInduction with
    | paren span inner ih => exact .paren (ih h)
    | named span qualifier name args =>
      cases args with
      | nil => exact .named
      | cons => cases h
    | _ => cases h
  · intro h
    induction h with
    | named => rfl
    | paren _ ih => exact ih

/-- A type is a plain name or a pointer to one exactly if it is a name or points to one. -/
lemma isPlainName_pointer_iff (t : TypeExpr) : isPlainName true t ↔ IsNameOrPointer t := by
  constructor
  · intro h
    induction t using TypeExpr.partsInduction with
    | paren span inner ih => exact .paren (ih h)
    | pointer span star elem => exact .pointer ((isPlainName_iff elem).1 h)
    | named span qualifier name args =>
      cases args with
      | nil => exact .name .named
      | cons => cases h
    | _ => cases h
  · intro h
    induction h with
    | @name t h =>
      induction h with
      | named => rfl
      | paren _ ih => exact ih
    | pointer h => exact (isPlainName_iff _).2 h
    | paren _ ih => exact ih

/-- Whether a type is a plain name does not depend on where it stands. -/
lemma isPlainName_bare (pointer : Bool) (t : TypeExpr) :
    isPlainName pointer t.bare = isPlainName pointer t := by
  induction t using TypeExpr.partsInduction generalizing pointer with
  | paren span inner ih => exact ih pointer
  | pointer span star elem ih =>
    rw [TypeExpr.bare, isPlainName, isPlainName, ih]
  | named span qualifier name args =>
    rw [TypeExpr.bare, isPlainName, isPlainName, TypeExpr.bares_eq_map, List.isEmpty_map]
  | _ => rfl

/-- A function is written as a service function is: a plain function without dots that has one or
two slots on either side, with names for types, and perhaps a pointer before that of a carried
value. -/
structure WellShaped (d : FuncDecl) : Prop where
  function : d.recv = none
  plain : d.typeParams = none
  fixed : ∀ s ∈ paramSlots d, s.variadic = false
  params : 1 ≤ (paramSlots d).length ∧ (paramSlots d).length ≤ 2
  results : 1 ≤ (resultSlots d).length ∧ (resultSlots d).length ≤ 2
  context : ∀ s ∈ (paramSlots d).head?, IsName s.type
  param : ∀ s ∈ (paramSlots d).tail, IsNameOrPointer s.type
  result : ∀ s ∈ (resultSlots d).dropLast, IsNameOrPointer s.type
  error : ∀ s ∈ (resultSlots d).getLast?, IsName s.type

/-- The shape of a function whose slots are these. -/
def shapeOf (c : Slot) (p r : Option Slot) (e : Slot) : Shape :=
  ⟨c.operand, p.map Slot.operand, r.map Slot.operand, e.operand⟩

/-- The slots stand as in a service function. -/
structure Stands (d : FuncDecl) (c : Slot) (p r : Option Slot) (e : Slot) : Prop where
  function : d.recv = none
  plain : d.typeParams = none
  fixed : ∀ s ∈ paramSlots d, s.variadic = false
  params : paramSlots d = c :: p.toList
  results : resultSlots d = r.toList ++ [e]

/-- A declaration with these slots has the shape of them. -/
lemma Stands.ofOperands {d : FuncDecl} {c e : Slot} {p r : Option Slot} (h : Stands d c p r e) :
    Shape.ofOperands d = .ok (shapeOf c p r e) := by
  have hfixed : (operands d.signature.params).any (·.variadic) = false := by
    rw [operands_eq, List.any_map]
    exact List.any_eq_false.2 fun s hs htrue => Bool.false_ne_true ((h.fixed s hs).symm.trans htrue)
  simp only [Shape.ofOperands, h.function, h.plain, hfixed, resultOperands_eq, h.results]
  rw [operands_eq, ← paramSlots, h.params]
  cases p <;> cases r <;> rfl

/-- A declaration with a shape has slots for it. -/
lemma exists_stands {d : FuncDecl} {shape : Shape} (hshape : Shape.ofOperands d = .ok shape) :
    ∃ c p r e, Stands d c p r e ∧ shape = shapeOf c p r e := by
  have h := hshape
  rw [Shape.ofOperands, operands_eq, ← paramSlots, resultOperands_eq] at h
  cases hrecv : d.recv with
  | some recv =>
    simp only [hrecv] at h
    cases h
  | none =>
  cases htype : d.typeParams with
  | some params =>
    simp only [hrecv, htype] at h
    cases h
  | none =>
  cases hvar : ((paramSlots d).map Slot.operand).any (·.variadic) with
  | true =>
    simp only [hrecv, htype, hvar] at h
    cases h
  | false =>
  have hfixed : ∀ s ∈ paramSlots d, s.variadic = false := fun s hs =>
    Bool.eq_false_iff.2 (List.any_eq_false.1 hvar _ (List.mem_map_of_mem hs))
  simp only [hrecv, htype, hvar] at h
  -- one parameter or two, and one result or two; any other number is at fault
  obtain ⟨c, p, hp⟩ : ∃ c p, paramSlots d = c :: Option.toList p := by
    match hp : paramSlots d with
    | [c] => exact ⟨c, none, rfl⟩
    | [c, p] => exact ⟨c, some p, rfl⟩
    | [] | _ :: _ :: _ :: _ =>
      rw [hp] at h
      cases h
  obtain ⟨r, e, hr⟩ : ∃ r e, resultSlots d = Option.toList r ++ [e] := by
    rw [hp] at h
    match hr : resultSlots d with
    | [e] => exact ⟨none, e, rfl⟩
    | [r, e] => exact ⟨some r, e, rfl⟩
    | [] | _ :: _ :: _ :: _ =>
      rw [hr] at h
      cases p <;> cases h
  have hs : Stands d c p r e := ⟨hrecv, htype, hfixed, hp, hr⟩
  cases hs.ofOperands.symm.trans hshape
  exact ⟨c, p, r, e, hs, rfl⟩

/-- A well-shaped declaration has slots. -/
lemma WellShaped.stands {d : FuncDecl} (h : WellShaped d) : ∃ c p r e, Stands d c p r e := by
  obtain ⟨hfunction, hplain, hfixed, ⟨hparams, hparams'⟩, ⟨hresults, hresults'⟩, -, -, -, -⟩ := h
  have hp : ∃ c p, paramSlots d = c :: Option.toList p := by
    match hd : paramSlots d with
    | [] => simp [hd] at hparams
    | [c] => exact ⟨c, none, rfl⟩
    | [c, p] => exact ⟨c, some p, rfl⟩
    | _ :: _ :: _ :: _ => simp [hd] at hparams'
  have hr : ∃ r e, resultSlots d = Option.toList r ++ [e] := by
    match hd : resultSlots d with
    | [] => simp [hd] at hresults
    | [e] => exact ⟨none, e, rfl⟩
    | [r, e] => exact ⟨some r, e, rfl⟩
    | _ :: _ :: _ :: _ => simp [hd] at hresults'
  obtain ⟨c, p, hp⟩ := hp
  obtain ⟨r, e, hr⟩ := hr
  exact ⟨c, p, r, e, hfunction, hplain, hfixed, hp, hr⟩

/-- A declaration with these slots is well-shaped exactly if they have the right types. -/
lemma Stands.wellShaped_iff {d : FuncDecl} {c e : Slot} {p r : Option Slot}
    (h : Stands d c p r e) : WellShaped d ↔ IsName c.type ∧ (∀ s ∈ p, IsNameOrPointer s.type) ∧
      (∀ s ∈ r, IsNameOrPointer s.type) ∧ IsName e.type := by
  have hparam : (paramSlots d).head? = some c ∧ (paramSlots d).tail = p.toList := by
    rw [h.params]
    exact ⟨rfl, rfl⟩
  have hresult : (resultSlots d).getLast? = some e ∧ (resultSlots d).dropLast = r.toList := by
    rw [h.results]
    exact ⟨List.getLast?_concat, List.dropLast_concat⟩
  constructor
  · intro hw
    refine ⟨hw.context c hparam.1, fun s hs => hw.param s ?_, fun s hs => hw.result s ?_,
      hw.error e hresult.1⟩
    · exact hparam.2 ▸ Option.mem_toList.2 hs
    · exact hresult.2 ▸ Option.mem_toList.2 hs
  · rintro ⟨hc, hp, hr, he⟩
    refine ⟨h.function, h.plain, h.fixed, ?_, ?_, ?_, ?_, ?_, ?_⟩
    · rw [h.params]
      cases p <;> simp
    · rw [h.results]
      cases r <;> simp
    · rw [hparam.1]
      rintro s ⟨⟩
      exact hc
    · rw [hparam.2]
      exact fun s hs => hp s (Option.mem_toList.1 hs)
    · rw [hresult.2]
      exact fun s hs => hr s (Option.mem_toList.1 hs)
    · rw [hresult.1]
      rintro s ⟨⟩
      exact he

/-- An operand is not at fault exactly if it is a name or points to one. -/
lemma filter_not_plain_eq_none_iff (o : Option Operand) :
    o.filter (!isPlainName true ·.type) = none ↔ ∀ s ∈ o, IsNameOrPointer s.type := by
  rw [Option.filter_eq_none_iff]
  refine forall₂_congr fun s _ => ?_
  rw [← isPlainName_pointer_iff, Bool.not_eq_true', Bool.not_eq_false]

/-- A shape has no fault exactly if its operands have the right types. -/
lemma fault?_eq_none_iff {text : TypeExpr → String} {s : Shape} :
    s.fault? text = none ↔ IsName s.context.type ∧ (∀ p ∈ s.param, IsNameOrPointer p.type) ∧
      (∀ r ∈ s.result, IsNameOrPointer r.type) ∧ IsName s.error.type := by
  rw [← filter_not_plain_eq_none_iff, ← filter_not_plain_eq_none_iff, ← isPlainName_iff,
    ← isPlainName_iff, Shape.fault?]
  cases isPlainName false s.context.type with
  | false => simp
  | true =>
    cases s.param.filter (!isPlainName true ·.type) with
    | some p => simp
    | none =>
      cases s.result.filter (!isPlainName true ·.type) with
      | some r => simp
      | none => cases isPlainName false s.error.type <;> simp

/-- A function has the shape of a service function exactly if it is written as one is. -/
lemma ofDecl_cases (text : TypeExpr → String) (d : FuncDecl) :
    (WellShaped d ∧ ∃ c p r e, Stands d c p r e ∧ Shape.ofDecl text d = .ok (shapeOf c p r e)) ∨
    (¬ WellShaped d ∧ ∃ fault, Shape.ofDecl text d = .error fault) := by
  cases hshape : Shape.ofOperands d with
  | error fault =>
    refine .inr ⟨fun hw => ?_, fault, ?_⟩
    · obtain ⟨c, p, r, e, hs⟩ := hw.stands
      cases hs.ofOperands.symm.trans hshape
    · rw [Shape.ofDecl, hshape]
      rfl
  | ok shape =>
    obtain ⟨c, p, r, e, hs, rfl⟩ := exists_stands hshape
    have hwell : WellShaped d ↔ (shapeOf c p r e).fault? text = none := by
      rw [hs.wellShaped_iff, fault?_eq_none_iff]
      simp [shapeOf, Slot.operand]
    cases hfault : (shapeOf c p r e).fault? text with
    | none =>
      refine .inl ⟨hwell.2 hfault, c, p, r, e, hs, ?_⟩
      simp only [Shape.ofDecl, hshape, bind, Except.bind, hfault]
      rfl
    | some fault =>
      refine .inr ⟨fun hw => ?_, fault, ?_⟩
      · cases (hwell.1 hw).symm.trans hfault
      · simp only [Shape.ofDecl, hshape, bind, Except.bind, hfault]
        rfl

end GoService.Service
