import MethodSSA.Proofs.Types.Extension

/-!
# Tables that grow

While the declarations of a program stay as they are, its table only **grows** by types
that are entered. An answer of the table lasts: what it says of a type or a method it
says for ever (`Grown.get` and what follows). A table is **well formed** if its
declarations are completed and its methods have the receivers that belong to them; a
grown table is then well formed too.
-/

namespace MethodSSA

namespace TypeTable

/-- A table to which types were added, none of them declared, and with them interfaces of
abstract methods only. -/
inductive Grown (t : TypeTable) : TypeTable → Prop
  /-- nothing was added -/
  | refl : Grown t t
  /-- a type is added -/
  | intern {t' : TypeTable} (h : Grown t t') (ty : Ty) (hty : t'.Admits ty)
    (habs : ∀ m ∈ ty.listed, t'.isAbstract m = .ok true) : Grown t (t'.intern ty).2

/-- A table that is ready for use. No identifier is forged; every declared type has an
underlying type that is not declared; a method that is attached to a declared type has
that type or the pointer to it as its receiver, and the type is no pointer and no
interface; a method of an interface has an interface as its receiver. -/
structure WellFormed (t : TypeTable) : Prop where
  built : t.Built
  completed : ∀ {id u}, t.underlyingTy id = .ok u → u.isNamed = false
  attached : ∀ {id ms m}, t.declaredMethods id = .ok ms → m ∈ ms →
    ∃ recv, t.receiver? m = .ok (some recv) ∧ (recv = id ∨ t.get recv = .ok (.pointer id)) ∧
      t.isPointer id = .ok false ∧ t.isInterface id = .ok false
  listed : ∀ {id u m}, t.get id = .ok u → m ∈ u.listed → t.isAbstract m = .ok true

namespace Grown

variable {t t' t'' : TypeTable}

theorem trans (h : Grown t t') (h' : Grown t' t'') : Grown t t'' := by
  induction h' with
  | refl => exact h
  | intern _ ty hty habs ih => exact ih.intern ty hty habs

/-- A type that is no interface can always be added. -/
theorem internPlain (h : Grown t t') {ty : Ty} (hty : t'.Admits ty) (hplain : ty.methods? = none) :
    Grown t (t'.intern ty).2 := by
  refine h.intern ty hty fun m hm => ?_
  rw [Ty.listed, hplain] at hm
  exact absurd hm List.not_mem_nil

theorem funcs (h : Grown t t') : t'.funcs = t.funcs := by
  induction h with
  | refl => rfl
  | intern _ ty _ _ ih => rw [intern_funcs, ih]

theorem sound (h : Grown t t') (hs : t.Sound) : t'.Sound := by
  induction h with
  | refl => exact hs
  | intern _ ty hty _ ih => exact ih.intern hty

/-! ## Answers last -/

section Answers

variable (h : Grown t t')
include h

theorem extended : Extended t t' := by
  induction h with
  | refl => exact .refl t
  | intern _ ty _ _ ih => exact ih.trans (Entered.intern _ ty).extended

/-- **An identifier keeps its meaning.** -/
theorem get {id : TypeId} {ty : Ty} (hget : t.get id = .ok ty) : t'.get id = .ok ty :=
  h.extended.get hget

theorem holds {id : TypeId} (hid : t.Holds id) : t'.Holds id := by
  obtain ⟨ty, hty⟩ := exists_get_iff.mpr hid
  exact holds_of_get (h.get hty)

theorem func (m : FuncId) : t'.func m = t.func m := by
  rw [TypeTable.func, h.funcs, TypeTable.func]

theorem underlyingTy {id : TypeId} {u : Ty} (hu : t.underlyingTy id = .ok u) :
    t'.underlyingTy id = .ok u := h.extended.underlyingTy hu

theorem declaredMethods {id : TypeId} {ms : List FuncId} (hms : t.declaredMethods id = .ok ms) :
    t'.declaredMethods id = .ok ms := h.extended.declaredMethods hms

theorem isPointer {id : TypeId} {b : Bool} (hb : t.isPointer id = .ok b) :
    t'.isPointer id = .ok b := h.extended.isPointer hb

theorem isInterface {id : TypeId} {b : Bool} (hb : t.isInterface id = .ok b) :
    t'.isInterface id = .ok b := h.extended.isInterface hb

theorem signatureOf {id : TypeId} {sig : Signature} (hsig : t.signatureOf id = .ok sig) :
    t'.signatureOf id = .ok sig := h.extended.signatureOf hsig

theorem receiver? {m : FuncId} {r : Option TypeId} (hr : t.receiver? m = .ok r) :
    t'.receiver? m = .ok r := h.extended.receiver? hr

theorem isAbstract {m : FuncId} {b : Bool} (hb : t.isAbstract m = .ok b) :
    t'.isAbstract m = .ok b := h.extended.isAbstract hb

theorem hasPointerReceiver {m : FuncId} {b : Bool} (hb : t.hasPointerReceiver m = .ok b) :
    t'.hasPointerReceiver m = .ok b := h.extended.hasPointerReceiver hb

end Answers

/-- Of a type that was there before, a grown table says nothing new. -/
theorem underlyingTy_iff (h : Grown t t') (hs : t.Sound) {id : TypeId} (hid : t.Holds id) {u : Ty} :
    t'.underlyingTy id = .ok u ↔ t.underlyingTy id = .ok u := by
  refine ⟨fun hu => ?_, h.underlyingTy⟩
  obtain ⟨v, hv⟩ := hs.exists_underlyingTy hid
  cases hu.symm.trans (h.underlyingTy hv)
  exact hv

theorem declaredMethods_iff (h : Grown t t') (hs : t.Sound) {id : TypeId} (hid : t.Holds id)
    {ms : List FuncId} : t'.declaredMethods id = .ok ms ↔ t.declaredMethods id = .ok ms := by
  refine ⟨fun hms => ?_, h.declaredMethods⟩
  obtain ⟨ms', hms', -⟩ := hs.exists_declaredMethods hid
  cases hms.symm.trans (h.declaredMethods hms')
  exact hms'

end Grown

/-! ## Well-formed tables stay so -/

namespace WellFormed

variable {t t' : TypeTable}

theorem sound (w : t.WellFormed) : t.Sound := w.built.sound

/-- Whether a table without forged identifiers is ready for use shows type by type. -/
theorem of_places (hb : t.Built)
    (hcompleted : ∀ i < t.types.length,
      (t.underlyingTy ⟨i⟩).toOption.all (fun u => !u.isNamed) = true)
    (hattached : ∀ i < t.types.length, ∀ m ∈ (t.declaredMethods ⟨i⟩).toOption.getD [],
      ∃ recv, t.receiver? m = .ok (some recv) ∧ (recv = ⟨i⟩ ∨ t.get recv = .ok (.pointer ⟨i⟩)) ∧
        t.isPointer ⟨i⟩ = .ok false ∧ t.isInterface ⟨i⟩ = .ok false)
    (hlisted : ∀ ty ∈ t.types, ∀ m ∈ ty.listed, t.isAbstract m = .ok true) : t.WellFormed where
  built := hb
  completed {id u} hu := by
    obtain ⟨v, hv, -⟩ := bind_eq_ok_iff.mp hu
    obtain ⟨a, ha, -⟩ := bind_eq_ok_iff.mp hv
    have hid := hcompleted id.index (holds_of_get ha)
    simpa [hu, Except.toOption] using hid
  attached {id ms m} hms hm := by
    obtain ⟨a, ha, -⟩ := bind_eq_ok_iff.mp hms
    refine hattached id.index (holds_of_get ha) m ?_
    rw [hms]
    exact hm
  listed hget hm := hlisted _ (List.mem_of_getElem? (get_eq_ok_iff.mp hget)) _ hm

/-- A type that is found in a table after an entry was found there before or is the one
that was entered. -/
theorem get_intern_cases {ty ty' : Ty} {id : TypeId} (h : (t.intern ty).2.get id = .ok ty') :
    t.get id = .ok ty' ∨ ty ∉ t.types ∧ ty' = ty := by
  by_cases hmem : ty ∈ t.types
  · rw [intern_of_mem hmem] at h
    exact .inl h
  · rw [get_eq_ok_iff, (intern_of_not_mem hmem).2] at h
    rcases getElem?_concat_cases h with h | ⟨-, rfl⟩
    · exact .inl (get_eq_ok_iff.mpr h)
    · exact .inr ⟨hmem, rfl⟩

theorem intern (w : t.WellFormed) {ty : Ty} (hty : t.Admits ty)
    (habs : ∀ m ∈ ty.listed, t.isAbstract m = .ok true) : (t.intern ty).2.WellFormed := by
  have g : Grown t (t.intern ty).2 := .intern .refl ty hty habs
  have hnew : ty ∉ t.types → ty.isNamed = false := by
    intro hmem
    rcases hn : ty.isNamed with _ | _
    · rfl
    · exact absurd (hty.named hn) hmem
  refine ⟨w.built.intern ty hty, ?_, ?_, ?_⟩
  · intro id u hu
    obtain ⟨v, hv, hget⟩ := bind_eq_ok_iff.mp hu
    obtain ⟨a, ha, -⟩ := bind_eq_ok_iff.mp hv
    rcases get_intern_cases ha with ha' | ⟨hmem, rfl⟩
    · exact w.completed ((g.underlyingTy_iff w.sound (holds_of_get ha')).mp hu)
    · cases hv.symm.trans (underlying_plain ha (hnew hmem))
      cases hget.symm.trans ha
      exact hnew hmem
  · intro id ms m hms hm
    obtain ⟨a, ha, -⟩ := bind_eq_ok_iff.mp hms
    rcases get_intern_cases ha with ha' | ⟨hmem, rfl⟩
    · have hms' := (g.declaredMethods_iff w.sound (holds_of_get ha')).mp hms
      obtain ⟨recv, hrecv, hself, hptr, hiface⟩ := w.attached hms' hm
      exact ⟨recv, g.receiver? hrecv, hself.imp_right g.get, g.isPointer hptr, g.isInterface hiface⟩
    · cases hms.symm.trans (declaredMethods_plain ha (hnew hmem))
      exact absurd hm List.not_mem_nil
  · intro id u m hget hm
    rcases get_intern_cases hget with hget' | ⟨-, rfl⟩
    · exact g.isAbstract (w.listed hget' hm)
    · exact g.isAbstract (habs m hm)

/-- **A well-formed table stays well formed while it grows.** -/
theorem grown (w : t.WellFormed) (g : Grown t t') : t'.WellFormed := by
  induction g with
  | refl => exact w
  | intern _ ty hty habs ih => exact ih.intern hty habs

end WellFormed

/-- The table of the nodes is ready for use. -/
theorem nodeTable_wellFormed : nodeTable.WellFormed := by
  refine .of_places nodeTable_built (by decide) (fun i hi m hm => ?_) (by decide)
  have hleaf : ∀ i < nodeTable.types.length,
      ∀ m ∈ (nodeTable.declaredMethods ⟨i⟩).toOption.getD [],
        i = 25 ∧ (m = ⟨0⟩ ∨ m = ⟨1⟩) := by decide
  obtain ⟨rfl, rfl | rfl⟩ := hleaf i hi m hm
  · exact ⟨⟨25⟩, rfl, .inl rfl, rfl, rfl⟩
  · exact ⟨⟨27⟩, rfl, .inr rfl, rfl, rfl⟩

end TypeTable

end MethodSSA
