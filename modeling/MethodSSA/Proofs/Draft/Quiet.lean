import MethodSSA.Proofs.Draft.Edges
import MethodSSA.Proofs.Types.Extension

/-!
# What drafts leave behind

Whatever becomes of a draft, the workspace that it was built in stays. An advance enters types
into it at most (`Quiet`). Only boxing does more, and the code of wrappers boxes nothing: the
one value that it stores is stored in a variable of its own type.
-/

namespace MethodSSA

open Relation

namespace Builder

variable {α : Type} {b b' b'' : Builder}

/-- A later state of a draft, for the same selection, whose workspace has more types at most. -/
structure Quiet (b b' : Builder) : Prop where
  types : b.types.Entered b'.types
  mode : b'.mode = b.mode
  boxed : b'.boxed = b.boxed
  method : b'.func.method = b.func.method

namespace Quiet

theorem refl (b : Builder) : Quiet b b := ⟨.refl _, rfl, rfl, rfl⟩

theorem trans (h : Quiet b b') (h' : Quiet b' b'') : Quiet b b'' :=
  ⟨h.types.trans h'.types, h'.mode.trans h.mode, h'.boxed.trans h.boxed, h'.method.trans h.method⟩

/-- A row of such changes is one of them. -/
theorem of_row {R : Builder → Builder → Prop} (hR : ∀ {b b'}, R b b' → Quiet b b')
    (h : ReflTransGen R b b') : Quiet b b' := by
  induction h with
  | refl => exact .refl b
  | tail _ hstep ih => exact ih.trans (hR hstep)

end Quiet

theorem Emission.quiet (h : Emission b b') : Quiet b b' := by
  cases h with
  | intern ty => exact ⟨.intern _ ty, rfl, rfl, rfl⟩
  | constant | step | definition | localVar => exact ⟨.refl _, rfl, rfl, rfl⟩

theorem Advance.quiet (h : Advance b b') : Quiet b b' := by
  have hclose : ∀ {f : Function} {block : BlockId} {term : Terminator},
      (f.closeBlock block term).method = f.method := by
    intro f block term
    rw [Function.closeBlock_eq]
  cases h with
  | emission h => exact h.quiet
  | constTrue | param | freeVar | nameResult | newBlock | setCurrent =>
    exact ⟨.refl _, rfl, rfl, rfl⟩
  | close => exact ⟨.refl _, rfl, rfl, hclose⟩
  | recover _ hemits =>
    have h := Quiet.of_row Emission.quiet hemits
    exact ⟨h.types, h.mode, h.boxed, hclose.trans h.method⟩

/-- What a step leaves behind that makes no other changes. -/
theorem Quiet.of_makes {x : Build α} {a : α} (hrun : x.run b = .ok (a, b')) (h : Makes Quiet x) :
    Quiet b b' :=
  single_of_row refl trans (h hrun)

theorem quiet_of_strides {x : Build α} (h : Acts Stride x) : Makes Quiet x :=
  h.makes.mono fun _ _ hs => hs.advance.quiet

theorem quiet_of_emits {x : Build α} (h : Acts Emission x) : Makes Quiet x :=
  h.makes.mono fun _ _ => Emission.quiet

/-- A draft is finished as it is. -/
theorem func_of_finish {f : Function} (h : b.finish.run = .ok (.ok f)) : f = b.func := by
  rw [finish] at h
  rcases hc : b.current with _ | block
  · rw [hc] at h
    rcases hmode : b.mode.sanityCheck with _ | _
    · rw [hmode] at h
      cases h
      rfl
    · rw [hmode] at h
      obtain ⟨r, -, hend⟩ := bind_eq_ok_iff.mp
        (h : (b.func.check.run >>= fun r => ExceptT.bindCont (fun _ => pure b.func) r) = _)
      cases r <;> cases hend
      rfl
  · rw [hc] at h
    cases h

/-! ## Copying a parameter -/

/-- A value stays as it is. -/
theorem value_later {f g : Function} (h : f.values <+: g.values) {v : ValueId} {x : Value}
    (hv : f.value v = .ok x) : g.value v = .ok x := entry_of_prefix h hv

theorem valueType_of_value {f : Function} {v : ValueId} {x : Value} (h : f.value v = .ok x) :
    f.valueType v = .ok x.ty :=
  bind_eq_ok_iff.mpr ⟨x, h, rfl⟩

/-- A value keeps its type. -/
theorem valueType_later {f g : Function} (h : f.values <+: g.values) {v : ValueId} {ty : TypeId}
    (hv : f.valueType v = .ok ty) : g.valueType v = .ok ty := by
  obtain ⟨x, hx, ⟨⟩⟩ := bind_eq_ok_iff.mp hv
  exact bind_eq_ok_iff.mpr ⟨x, value_later h hx, rfl⟩

theorem valueType_run_of_eq {v : ValueId} {ty : TypeId} (hv : b.func.valueType v = .ok ty) :
    (valueType v).run b = .ok (ty, b) := by
  change (b.func.valueType v >>= fun ty => Except.ok (ty, b)) = _
  rw [hv]
  rfl

theorem of_valueType {v : ValueId} {ty : TypeId} (h : (valueType v).run b = .ok (ty, b')) :
    b.func.valueType v = .ok ty ∧ b = b' := by
  obtain ⟨ty', hty, ⟨⟩⟩ := bind_eq_ok_iff.mp
    (h : (b.func.valueType v >>= fun ty => .ok (ty, b)) = _)
  exact ⟨hty, rfl⟩

theorem of_ask {question : TypeTable → Except Fault α} {a : α}
    (h : (ask question).run b = .ok (a, b')) : question b.types = .ok a ∧ b = b' := by
  obtain ⟨a', ha, ⟨⟩⟩ := bind_eq_ok_iff.mp (h : (question b.types >>= fun a => .ok (a, b)) = _)
  exact ⟨ha, rfl⟩

theorem of_ownSignature {sig : Signature} (h : ownSignature.run b = .ok (sig, b')) :
    b.types.signatureOf b.func.signature = .ok sig ∧ b = b' := by
  obtain ⟨sig', hsig, ⟨⟩⟩ := bind_eq_ok_iff.mp
    (h : (b.types.signatureOf b.func.signature >>= fun sig => .ok (sig, b)) = _)
  exact ⟨hsig, rfl⟩

/-- A value of the type that is asked for is not converted. -/
theorem convert_run_of_eq {v : ValueId} {ty : TypeId} (hv : b.func.valueType v = .ok ty) :
    (convert v ty).run b = .ok (v, b) := by
  have hrelabel : (relabel? v ty).run b = .ok (some v, b) := by
    rw [relabel?, StateT.run_bind, valueType_run_of_eq hv]
    change (if ty = ty then (pure (some v) : Build (Option ValueId)) else _).run b = _
    rw [if_pos rfl]
    rfl
  rw [convert, StateT.run_bind, hrelabel]
  rfl

/-- A new variable is known by its address, which is a new value of a pointer type. -/
theorem of_addLocal {ty : TypeId} {addr : ValueId} (h : (addLocal ty).run b = .ok (addr, b')) :
    ∃ block, b.current = some block ∧ addr = ⟨b.func.values.length⟩ ∧ b' = { b with
      types := (b.types.intern (.pointer ty)).2
      func := b.func.addVariable block (b.types.intern (.pointer ty)).1 } := by
  obtain ⟨ptr, b₁, hintern, h⟩ := exists_of_bind h
  cases hintern
  obtain ⟨addr', b₂, hemit, h⟩ := exists_of_bind h
  obtain ⟨block, hopen, hemit⟩ := of_openBlock_bind hemit
  cases hemit
  cases h
  exact ⟨block, hopen, rfl, rfl⟩

theorem value_addVariable (f : Function) (block : BlockId) (ptr : TypeId) :
    (f.addVariable block ptr).value ⟨f.values.length⟩ = .ok ⟨ptr, .result ⟨f.instrs.length⟩⟩ :=
  entry_eq_ok_iff.mpr List.getElem?_concat_length

/-- **A copied parameter is stored as it is**: the variable has the type of the parameter. -/
theorem spill_makes {R : Builder → Builder → Prop} {param : ValueId}
    (hlocal : ∀ ty, Makes R (addLocal ty)) (hstore : ∀ addr, Makes R (emit (.store addr param))) :
    Makes R (spill param) := by
  intro b a b' hrun
  obtain ⟨ty, b₁, hread, hrun⟩ := exists_of_bind hrun
  obtain ⟨hty, rfl⟩ := of_valueType hread
  obtain ⟨addr, b₂, hrunLocal, hrun⟩ := exists_of_bind hrun
  obtain ⟨i, b₃, hrunStore, hend⟩ := exists_of_bind hrun
  cases hend
  obtain ⟨block, -, rfl, rfl⟩ := of_addLocal hrunLocal
  have hptr := TypeTable.get_intern b.types (.pointer ty)
  have haddr := valueType_of_value
    (value_addVariable b.func block (b.types.intern (.pointer ty)).1)
  obtain ⟨ptr', b₄, hread', hrunStore⟩ := exists_of_bind hrunStore
  obtain ⟨haddr', rfl⟩ := of_valueType hread'
  cases haddr.symm.trans haddr'
  obtain ⟨elem, b₅, hask, hrunStore⟩ := exists_of_bind hrunStore
  obtain ⟨helem, rfl⟩ := of_ask hask
  have hderef := TypeTable.deref_eq (TypeTable.underlyingTy_plain hptr rfl)
  cases hderef.symm.trans helem
  obtain ⟨w, b₆, hconvert, hemit⟩ := exists_of_bind hrunStore
  have hkept : (b.func.addVariable block (b.types.intern (.pointer ty)).1).valueType param =
      .ok ty := valueType_later (List.prefix_append _ _) hty
  cases (convert_run_of_eq hkept).symm.trans hconvert
  exact (hlocal ty hrunLocal).trans (hstore _ hemit)

/-- **A copied parameter is not boxed.** -/
theorem spill_quiet (param : ValueId) : Makes Quiet (spill param) :=
  spill_makes (fun ty => quiet_of_emits (addLocal_acts ty)) fun _ => quiet_of_emits (emit_acts _)

end Builder

end MethodSSA
