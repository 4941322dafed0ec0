import Mathlib.Control.Monad.Basic
import MethodSSA.Types.Table

/-!
# Tables without forged identifiers

A table is **built** if every identifier that was ever handed to it had been given
out by it before. Then a type that is no declared type mentions only types that
were entered earlier, so that such types never contain themselves, and every look-up
that starts from a type of the table finds what it asks for (`Sound`).
-/

namespace MethodSSA

/-- A step that depends on another succeeds if both do. -/
theorem bind_eq_ok_iff {ε α β : Type} {x : Except ε α} {f : α → Except ε β} {b : β} :
    (x >>= f) = .ok b ↔ ∃ a, x = .ok a ∧ f a = .ok b := by
  cases x with
  | error e =>
    constructor
    · rintro ⟨⟩
    · rintro ⟨_, ⟨⟩, _⟩
  | ok a =>
    refine ⟨fun h => ⟨a, rfl, h⟩, ?_⟩
    rintro ⟨_, ⟨⟩, h⟩
    exact h

@[simp] theorem ok_bind {ε α β : Type} (a : α) (f : α → Except ε β) :
    (Except.ok a >>= f) = f a := rfl

@[simp] theorem pure_eq_ok {ε α : Type} (a : α) : (pure a : Except ε α) = .ok a := rfl

/-- All variables of a signature: receiver, parameters, results. -/
def Signature.vars (sig : Signature) : List Var := sig.recv.toList ++ sig.params ++ sig.results

namespace Ty

/-- The types that a type mentions. A declared type mentions none: its underlying
type belongs to its declaration. -/
def components : Ty → List TypeId
  | basic _ | interface _ | named _ => []
  | pointer elem | slice elem | array elem _ | channel elem _ => [elem]
  | map key value => [key, value]
  | struct fields => fields.map (·.ty)
  | signature sig => sig.vars.map (·.ty)
  | tuple vars => vars.map (·.ty)

/-- The methods that a type lists. -/
def listed (ty : Ty) : List FuncId := ty.methods?.getD []

end Ty

namespace TypeTable

/-- Whether an identifier was given out by the table. -/
def Holds (t : TypeTable) (id : TypeId) : Prop := id.index < t.types.length

/-- Whether a function identifier was given out by the table. -/
def HoldsFunc (t : TypeTable) (m : FuncId) : Prop := m.index < t.funcs.length

instance (t : TypeTable) (id : TypeId) : Decidable (t.Holds id) :=
  inferInstanceAs (Decidable (_ < _))

instance (t : TypeTable) (m : FuncId) : Decidable (t.HoldsFunc m) :=
  inferInstanceAs (Decidable (_ < _))

/-- A type that mentions only what the table gave out. Declared types come from
declarations alone. -/
structure Admits (t : TypeTable) (ty : Ty) : Prop where
  components : ∀ c ∈ ty.components, t.Holds c
  methods : ∀ m ∈ ty.listed, t.HoldsFunc m
  named : ty.isNamed = true → ty ∈ t.types

instance (t : TypeTable) (ty : Ty) : Decidable (t.Admits ty) :=
  decidable_of_iff ((∀ c ∈ ty.components, t.Holds c) ∧ (∀ m ∈ ty.listed, t.HoldsFunc m) ∧
      (ty.isNamed = true → ty ∈ t.types))
    ⟨fun h => ⟨h.1, h.2.1, h.2.2⟩, fun h => ⟨h.components, h.methods, h.named⟩⟩

/-- What is neither declared nor an interface is admitted with its components. -/
theorem admits_of_components {t : TypeTable} {ty : Ty} (hcomp : ∀ c ∈ ty.components, t.Holds c)
    (hnamed : ty.isNamed = false) (hplain : ty.methods? = none) : t.Admits ty := by
  refine ⟨hcomp, fun m hm => ?_, fun h => ?_⟩
  · rw [Ty.listed, hplain] at hm
    exact absurd hm List.not_mem_nil
  · rw [hnamed] at h
    cases h

/-- The tables that arise when every identifier handed in was given out before. -/
inductive Built : TypeTable → Prop
  /-- the basic kinds -/
  | initial : Built .initial
  /-- a type is entered -/
  | intern {t : TypeTable} (h : Built t) (ty : Ty) (hty : t.Admits ty) : Built (t.intern ty).2
  /-- a type is declared -/
  | declareType {t : TypeTable} (h : Built t) (name : String) (pkg : Option String) :
    Built (t.declareType name pkg).2
  /-- a function is declared -/
  | declareFunc {t : TypeTable} (h : Built t) (f : FuncDecl) (hsig : t.Holds f.sig) :
    Built (t.declareFunc f).2
  /-- a declaration is completed -/
  | setUnderlying {t t' : TypeTable} (h : Built t) (named id : TypeId)
    (ht : t.setUnderlying named id = .ok t') : Built t'
  /-- a method is attached to a declared type -/
  | addMethod {t t' : TypeTable} (h : Built t) (named : TypeId) (m : FuncId)
    (hm : t.HoldsFunc m) (ht : t.addMethod named m = .ok t') : Built t'

/-- What holds of every built table: no type twice; what a type mentions is older than
the type; and what a declaration refers to exists. -/
structure Sound (t : TypeTable) : Prop where
  nodup : t.types.Nodup
  older : ∀ {i : Nat} {ty : Ty}, t.types[i]? = some ty → ∀ c ∈ ty.components, c.index < i
  olderSig : ∀ {i : Nat} {ty : Ty}, t.types[i]? = some ty → ∀ m ∈ ty.listed,
    ∃ f, t.funcs[m.index]? = some f ∧ f.sig.index < i
  declared : ∀ {i : Nat} {n : TypeName}, t.types[i]? = some (.named n) → n.decl < t.decls.length
  distinct : ∀ {i j : Nat} {n m : TypeName}, t.types[i]? = some (.named n) →
    t.types[j]? = some (.named m) → n.decl = m.decl → i = j
  signatures : ∀ f ∈ t.funcs, t.Holds f.sig
  underlying : ∀ d ∈ t.decls, t.Holds d.underlying
  attached : ∀ d ∈ t.decls, ∀ m ∈ d.methods, t.HoldsFunc m

/-! ## Building keeps tables sound -/

theorem sound_initial : Sound .initial where
  nodup := by decide
  older := by
    intro i ty h c hc
    obtain ⟨k, -, rfl⟩ := List.mem_map.mp (List.mem_of_getElem? h)
    exact absurd hc List.not_mem_nil
  olderSig := by
    intro i ty h m hm
    obtain ⟨k, -, rfl⟩ := List.mem_map.mp (List.mem_of_getElem? h)
    exact absurd hm List.not_mem_nil
  declared := by
    intro i n h
    obtain ⟨k, -, hk⟩ := List.mem_map.mp (List.mem_of_getElem? h)
    cases hk
  distinct := by
    intro i j n m h
    obtain ⟨k, -, hk⟩ := List.mem_map.mp (List.mem_of_getElem? h)
    cases hk
  signatures f hf := absurd hf List.not_mem_nil
  underlying d hd := absurd hd List.not_mem_nil
  attached d hd := absurd hd List.not_mem_nil

/-- An entry of a list with one more entry is an old one or the new one. -/
theorem getElem?_concat_cases {α : Type} {l : List α} {a b : α} {i : Nat}
    (h : (l ++ [a])[i]? = some b) : l[i]? = some b ∨ i = l.length ∧ b = a := by
  rcases Nat.lt_trichotomy i l.length with hlt | rfl | hgt
  · rw [List.getElem?_append_left hlt] at h
    exact .inl h
  · rw [List.getElem?_concat_length] at h
    exact .inr ⟨rfl, (Option.some.inj h).symm⟩
  · rw [List.getElem?_eq_none (by rw [List.length_append]; exact hgt)] at h
    cases h

/-- A new type at the end keeps a table sound if it mentions only what is there, and new
declarations do if they come with it. -/
theorem Sound.append {t t' : TypeTable} (hs : Sound t) {ty : Ty} {ds : List TypeDecl}
    (htypes : t'.types = t.types ++ [ty]) (hdecls : t'.decls = t.decls ++ ds)
    (hfuncs : t'.funcs = t.funcs) (hfresh : ty ∉ t.types) (hcomp : ∀ c ∈ ty.components, t.Holds c)
    (hlisted : ∀ m ∈ ty.listed, t.HoldsFunc m)
    (hnamed : ∀ n, ty = .named n → t.decls.length ≤ n.decl ∧ n.decl < (t.decls ++ ds).length)
    (hds : ∀ d ∈ ds, d.underlying.index ≤ t.types.length ∧ ∀ m ∈ d.methods, t.HoldsFunc m) :
    Sound t' where
  nodup := by
    rw [htypes, List.nodup_append]
    refine ⟨hs.nodup, List.pairwise_singleton _ ty, ?_⟩
    rintro a ha b hb rfl
    exact hfresh (List.mem_singleton.mp hb ▸ ha)
  older := by
    intro i a h c hc
    rcases getElem?_concat_cases (htypes ▸ h) with h | ⟨rfl, rfl⟩
    · exact hs.older h c hc
    · exact hcomp c hc
  olderSig := by
    intro i a h m hm
    rw [hfuncs]
    rcases getElem?_concat_cases (htypes ▸ h) with h | ⟨rfl, rfl⟩
    · exact hs.olderSig h m hm
    · have hlt := hlisted m hm
      refine ⟨t.funcs[m.index], List.getElem?_eq_getElem hlt, ?_⟩
      exact hs.signatures _ (List.getElem_mem hlt)
  declared := by
    intro i n h
    rw [hdecls]
    rcases getElem?_concat_cases (htypes ▸ h) with h | ⟨-, hn⟩
    · rw [List.length_append]
      exact Nat.lt_add_right _ (hs.declared h)
    · exact (hnamed n hn.symm).2
  distinct := by
    intro i j n m h h' heq
    rcases getElem?_concat_cases (htypes ▸ h) with h | ⟨hi, hn⟩ <;>
      rcases getElem?_concat_cases (htypes ▸ h') with h' | ⟨hj, hm⟩
    · exact hs.distinct h h' heq
    -- an old name has a smaller number than the new one
    · have := hs.declared h
      have := (hnamed m hm.symm).1
      omega
    · have := hs.declared h'
      have := (hnamed n hn.symm).1
      omega
    · rw [hi, hj]
  signatures := fun f hf => by
    rw [Holds, htypes, List.length_append]
    exact Nat.lt_add_right _ (hs.signatures f (hfuncs ▸ hf))
  underlying := by
    intro d hd
    rw [Holds, htypes, List.length_append]
    rcases List.mem_append.mp (hdecls ▸ hd) with hd | hd
    · exact Nat.lt_add_right _ (hs.underlying d hd)
    · exact Nat.lt_succ_of_le (hds d hd).1
  attached := by
    intro d hd m hm
    rw [HoldsFunc, hfuncs]
    rcases List.mem_append.mp (hdecls ▸ hd) with hd | hd
    · exact hs.attached d hd m hm
    · exact (hds d hd).2 m hm

theorem Sound.intern {t : TypeTable} (hs : Sound t) {ty : Ty} (hty : t.Admits ty) :
    Sound (t.intern ty).2 := by
  by_cases hmem : ty ∈ t.types
  · rw [intern_of_mem hmem]
    exact hs
  have hnew : ∀ n, ty = .named n → t.decls.length ≤ n.decl ∧ n.decl < (t.decls ++ []).length :=
    fun n hn => absurd (hty.named (by rw [hn]; rfl)) hmem
  have htypes := congrArg TypeIndex.types (intern_of_not_mem hmem).2
  exact hs.append htypes (List.append_nil _).symm rfl hmem hty.components hty.methods hnew nofun

theorem Sound.declareType {t : TypeTable} (hs : Sound t) (name : String) (pkg : Option String) :
    Sound (t.declareType name pkg).2 := by
  have hfresh : Ty.named ⟨name, pkg, t.decls.length⟩ ∉ t.types := by
    intro hmem
    obtain ⟨i, hi⟩ := List.mem_iff_getElem?.mp hmem
    exact absurd (hs.declared hi) (Nat.lt_irrefl _)
  obtain ⟨hid, hindex⟩ := intern_of_not_mem hfresh
  refine hs.append (congrArg TypeIndex.types hindex) rfl rfl hfresh
    (fun c hc => absurd hc List.not_mem_nil) (fun m hm => absurd hm List.not_mem_nil) ?_ ?_
  · rintro n ⟨⟩
    exact ⟨Nat.le_refl _, by simp⟩
  · intro d hd
    rw [List.mem_singleton.mp hd]
    exact ⟨Nat.le_of_eq (congrArg TypeId.index hid), fun m hm => absurd hm List.not_mem_nil⟩

theorem Sound.declareFunc {t : TypeTable} (hs : Sound t) {f : FuncDecl} (hsig : t.Holds f.sig) :
    Sound (t.declareFunc f).2 where
  nodup := hs.nodup
  older := hs.older
  olderSig := by
    intro i ty h m hm
    obtain ⟨g, hg, hlt⟩ := hs.olderSig h m hm
    obtain ⟨hm', -⟩ := List.getElem?_eq_some_iff.mp hg
    exact ⟨g, (List.getElem?_append_left hm').trans hg, hlt⟩
  declared := hs.declared
  distinct := hs.distinct
  signatures := by
    intro g hg
    rcases List.mem_append.mp hg with hg | hg
    · exact hs.signatures g hg
    · rw [List.mem_singleton.mp hg]
      exact hsig
  underlying := hs.underlying
  attached := by
    intro d hd m hm
    change m.index < (t.funcs ++ [f]).length
    rw [List.length_append]
    exact Nat.lt_add_right _ (hs.attached d hd m hm)

/-- A changed declaration keeps a table sound if it refers to what exists. -/
theorem Sound.updateDecl {t : TypeTable} (hs : Sound t) (n : Nat) {f : TypeDecl → TypeDecl}
    (hu : ∀ d ∈ t.decls, t.Holds (f d).underlying)
    (hm : ∀ d ∈ t.decls, ∀ m ∈ (f d).methods, t.HoldsFunc m) : Sound (t.updateDecl n f) := by
  -- every declaration is an old one, changed or not
  have hmem : ∀ d ∈ t.decls.modify n f, ∃ d₀ ∈ t.decls, d = d₀ ∨ d = f d₀ := by
    intro d hd
    obtain ⟨i, hi⟩ := List.mem_iff_getElem?.mp hd
    rw [List.getElem?_modify] at hi
    obtain ⟨d₀, hd₀, hd'⟩ := Option.map_eq_some_iff.mp hi
    refine ⟨d₀, List.mem_of_getElem? hd₀, ?_⟩
    split at hd'
    · exact .inr hd'.symm
    · exact .inl hd'.symm
  exact {
    nodup := hs.nodup
    older := hs.older
    olderSig := hs.olderSig
    declared := by
      intro i m h
      change m.decl < (t.decls.modify n f).length
      rw [List.length_modify]
      exact hs.declared h
    distinct := hs.distinct
    signatures := hs.signatures
    underlying := by
      intro d hd
      obtain ⟨d₀, hd₀, rfl | rfl⟩ := hmem d hd
      · exact hs.underlying _ hd₀
      · exact hu _ hd₀
    attached := by
      intro d hd
      obtain ⟨d₀, hd₀, rfl | rfl⟩ := hmem d hd
      · exact hs.attached _ hd₀
      · exact hm _ hd₀ }

/-! ## Looking up in a sound table -/

theorem get_eq_ok_iff {t : TypeTable} {id : TypeId} {ty : Ty} :
    t.get id = .ok ty ↔ t.types[id.index]? = some ty := entry_eq_ok_iff

theorem exists_get_iff {t : TypeTable} {id : TypeId} : (∃ ty, t.get id = .ok ty) ↔ t.Holds id := by
  simp only [get_eq_ok_iff]
  exact ⟨fun ⟨_, h⟩ => (List.getElem?_eq_some_iff.mp h).1, fun h => ⟨_, List.getElem?_eq_getElem h⟩⟩

theorem holds_of_get {t : TypeTable} {id : TypeId} {ty : Ty} (h : t.get id = .ok ty) :
    t.Holds id := exists_get_iff.mp ⟨ty, h⟩

/-- A type has one identifier. -/
theorem get_inj_of_nodup {t : TypeTable} (hn : t.types.Nodup) {a b : TypeId} {ty : Ty}
    (ha : t.get a = .ok ty) (hb : t.get b = .ok ty) : a = b := by
  have ha := get_eq_ok_iff.mp ha
  have hlt := (List.getElem?_eq_some_iff.mp ha).1
  obtain ⟨i⟩ := a
  obtain ⟨j⟩ := b
  exact congrArg TypeId.mk
    ((List.getElem?_inj hlt hn).mp (ha.trans (get_eq_ok_iff.mp hb).symm))

theorem underlying_named {t : TypeTable} {id : TypeId} {n : TypeName} {d : TypeDecl}
    (h : t.get id = .ok (.named n)) (hd : t.decls[n.decl]? = some d) :
    t.underlying id = .ok d.underlying := by
  have hd' : t.decl n.decl = .ok d := entry_eq_ok_iff.mpr hd
  simp [TypeTable.underlying, h, hd']

theorem underlying_plain {t : TypeTable} {id : TypeId} {ty : Ty} (h : t.get id = .ok ty)
    (hty : ty.isNamed = false) : t.underlying id = .ok id := by
  rw [TypeTable.underlying, h]
  cases ty <;> first | rfl | cases hty

theorem declaredMethods_named {t : TypeTable} {id : TypeId} {n : TypeName} {d : TypeDecl}
    (h : t.get id = .ok (.named n)) (hd : t.decls[n.decl]? = some d) :
    t.declaredMethods id = .ok d.methods := by
  have hd' : t.decl n.decl = .ok d := entry_eq_ok_iff.mpr hd
  simp [TypeTable.declaredMethods, h, hd']

theorem declaredMethods_plain {t : TypeTable} {id : TypeId} {ty : Ty} (h : t.get id = .ok ty)
    (hty : ty.isNamed = false) : t.declaredMethods id = .ok [] := by
  rw [TypeTable.declaredMethods, h]
  cases ty <;> first | rfl | cases hty

section Answers

variable {t : TypeTable} {id : TypeId} {u : Ty} {m : FuncId}

theorem underlyingTy_plain (h : t.get id = .ok u) (hu : u.isNamed = false) :
    t.underlyingTy id = .ok u := by
  simp [underlyingTy, underlying_plain h hu, h]

theorem isPointer_eq (h : t.underlyingTy id = .ok u) :
    t.isPointer id = .ok u.pointee?.isSome := by
  simp [isPointer, h]

theorem isInterface_eq (h : t.underlyingTy id = .ok u) :
    t.isInterface id = .ok u.methods?.isSome := by
  simp [isInterface, h]

theorem deref_eq (h : t.underlyingTy id = .ok u) : t.deref id = .ok (u.pointee?.getD id) := by
  simp [deref, h]

theorem signatureOf_eq {sig : Signature} (h : t.underlyingTy id = .ok (.signature sig)) :
    t.signatureOf id = .ok sig := by
  simp [signatureOf, h]

theorem receiver?_eq {f : FuncDecl} {sig : Signature} (hf : t.func m = .ok f)
    (hsig : t.signatureOf f.sig = .ok sig) : t.receiver? m = .ok (sig.recv.map Var.ty) := by
  simp [receiver?, hf, hsig]

/-- A method is abstract if its receiver is an interface. -/
theorem isAbstract_eq {recv : TypeId} (h : t.receiver? m = .ok (some recv)) :
    t.isAbstract m = t.isInterface recv := by
  simp [isAbstract, h]

theorem hasPointerReceiver_eq {recv : TypeId} (h : t.receiver? m = .ok (some recv)) :
    t.hasPointerReceiver m = t.isPointer recv := by
  simp [hasPointerReceiver, h]

end Answers

namespace Sound

variable {t : TypeTable} (hs : Sound t)
include hs

/-- A declared type has its declaration. -/
theorem exists_decl {id : TypeId} {n : TypeName} (h : t.get id = .ok (.named n)) :
    ∃ d ∈ t.decls, t.decls[n.decl]? = some d :=
  have hlt := hs.declared (get_eq_ok_iff.mp h)
  ⟨t.decls[n.decl], List.getElem_mem hlt, List.getElem?_eq_getElem hlt⟩

/-- What a type mentions is in the table. -/
theorem holds_component {id c : TypeId} {ty : Ty} (h : t.get id = .ok ty)
    (hc : c ∈ ty.components) : t.Holds c :=
  Nat.lt_trans (hs.older (get_eq_ok_iff.mp h) c hc) (holds_of_get h)

/-- A method that a type lists is declared. -/
theorem holdsFunc_listed {id : TypeId} {ty : Ty} {m : FuncId} (h : t.get id = .ok ty)
    (hm : m ∈ ty.listed) : t.HoldsFunc m := by
  obtain ⟨f, hf, -⟩ := hs.olderSig (get_eq_ok_iff.mp h) m hm
  exact (List.getElem?_eq_some_iff.mp hf).1

/-- Every type of the table has an underlying type in the table. -/
theorem exists_underlying {id : TypeId} (h : t.Holds id) :
    ∃ u, t.underlying id = .ok u ∧ t.Holds u := by
  obtain ⟨ty, hty⟩ := exists_get_iff.mpr h
  rcases hn : ty.isNamed with _ | _
  · exact ⟨id, underlying_plain hty hn, h⟩
  · cases ty <;> cases hn
    next n =>
      obtain ⟨d, hmem, hd⟩ := hs.exists_decl hty
      exact ⟨d.underlying, underlying_named hty hd, hs.underlying d hmem⟩

theorem holds_underlying {id u : TypeId} (h : t.Holds id) (hu : t.underlying id = .ok u) :
    t.Holds u := by
  obtain ⟨u', hu', hh⟩ := hs.exists_underlying h
  cases hu.symm.trans hu'
  exact hh

theorem exists_underlyingTy {id : TypeId} (h : t.Holds id) :
    ∃ u, t.underlyingTy id = .ok u := by
  obtain ⟨u, hu, hh⟩ := hs.exists_underlying h
  obtain ⟨ty, hty⟩ := exists_get_iff.mpr hh
  exact ⟨ty, bind_eq_ok_iff.mpr ⟨u, hu, hty⟩⟩

theorem exists_declaredMethods {id : TypeId} (h : t.Holds id) :
    ∃ ms, t.declaredMethods id = .ok ms ∧ ∀ m ∈ ms, t.HoldsFunc m := by
  obtain ⟨ty, hty⟩ := exists_get_iff.mpr h
  rcases hn : ty.isNamed with _ | _
  · exact ⟨[], declaredMethods_plain hty hn, fun m hm => absurd hm List.not_mem_nil⟩
  · cases ty <;> cases hn
    next n =>
      obtain ⟨d, hmem, hd⟩ := hs.exists_decl hty
      exact ⟨d.methods, declaredMethods_named hty hd, hs.attached d hmem⟩

theorem exists_func {m : FuncId} (h : t.HoldsFunc m) :
    ∃ f, t.func m = .ok f ∧ t.Holds f.sig :=
  ⟨t.funcs[m.index], entry_eq_ok_iff.mpr (List.getElem?_eq_getElem h),
    hs.signatures _ (List.getElem_mem h)⟩

end Sound

/-- **Built tables are sound.** -/
theorem Built.sound {t : TypeTable} (h : t.Built) : t.Sound := by
  induction h with
  | initial => exact sound_initial
  | intern _ ty hty ih => exact ih.intern hty
  | declareType _ name pkg ih => exact ih.declareType name pkg
  | declareFunc _ f hsig ih => exact ih.declareFunc hsig
  | setUnderlying _ named id ht ih =>
    obtain ⟨u, hu, ht⟩ := bind_eq_ok_iff.mp ht
    obtain ⟨n, -, ht⟩ := bind_eq_ok_iff.mp ht
    obtain ⟨d, -, ht⟩ := bind_eq_ok_iff.mp ht
    cases ht
    obtain ⟨ty, hty, -⟩ := bind_eq_ok_iff.mp hu
    exact ih.updateDecl n (fun _ _ => ih.holds_underlying (holds_of_get hty) hu) ih.attached
  | addMethod _ named m hm ht ih =>
    obtain ⟨n, -, ht⟩ := bind_eq_ok_iff.mp ht
    obtain ⟨d, -, ht⟩ := bind_eq_ok_iff.mp ht
    cases ht
    refine ih.updateDecl n ih.underlying fun d hd m' hm' => ?_
    rcases List.mem_append.mp hm' with hm' | hm'
    · exact ih.attached d hd m' hm'
    · rw [List.mem_singleton.mp hm']
      exact hm

/-! ## A small table -/

/-- The table of a small program: a declared type `Leaf` with a method on values and one
on pointers, and a declared type `Node` that embeds a pointer to itself and a leaf. -/
def nodeTable : TypeTable where
  toTypeIndex := .of (initial.types ++
    [.named ⟨"Leaf", none, 0⟩, .struct [], .pointer ⟨25⟩,
      .signature ⟨some ⟨"l", ⟨25⟩⟩, [], [⟨"", ⟨1⟩⟩], false⟩,
      .signature ⟨some ⟨"l", ⟨27⟩⟩, [⟨"xs", ⟨1⟩⟩], [], true⟩,
      .named ⟨"Node", none, 1⟩, .pointer ⟨30⟩,
      .struct [⟨"Node", none, ⟨31⟩, true⟩, ⟨"Leaf", none, ⟨25⟩, true⟩]])
  decls := [⟨⟨25⟩, ⟨26⟩, [⟨0⟩, ⟨1⟩]⟩, ⟨⟨30⟩, ⟨32⟩, []⟩]
  funcs := [⟨"Len", none, ⟨28⟩, ⟨0⟩⟩, ⟨"Put", none, ⟨29⟩, ⟨0⟩⟩]
  agrees := TypeIndex.agrees_of _

theorem nodeTable_built : nodeTable.Built := by
  have hleaf := Built.initial.declareType "Leaf" none
  have hempty := hleaf.intern (.struct []) (by decide)
  have hset := hempty.setUnderlying ⟨25⟩ ⟨26⟩ rfl
  have hptr := hset.intern (.pointer ⟨25⟩) (by decide)
  have hlen := hptr.intern (.signature ⟨some ⟨"l", ⟨25⟩⟩, [], [⟨"", ⟨1⟩⟩], false⟩) (by decide)
  have hput := hlen.intern (.signature ⟨some ⟨"l", ⟨27⟩⟩, [⟨"xs", ⟨1⟩⟩], [], true⟩) (by decide)
  have hfuncs := (hput.declareFunc ⟨"Len", none, ⟨28⟩, ⟨0⟩⟩ (by decide)).declareFunc
    ⟨"Put", none, ⟨29⟩, ⟨0⟩⟩ (by decide)
  have hmethods := (hfuncs.addMethod ⟨25⟩ ⟨0⟩ (by decide) rfl).addMethod
    ⟨25⟩ ⟨1⟩ (by decide) rfl
  have hnode := hmethods.declareType "Node" none
  have hself := hnode.intern (.pointer ⟨30⟩) (by decide)
  have hfields := hself.intern
    (.struct [⟨"Node", none, ⟨31⟩, true⟩, ⟨"Leaf", none, ⟨25⟩, true⟩]) (by decide)
  exact hfields.setUnderlying ⟨30⟩ ⟨32⟩ rfl

end TypeTable

end MethodSSA
