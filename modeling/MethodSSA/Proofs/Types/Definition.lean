import MethodSSA.Proofs.Types.Identity

/-!
# Types defined by declared types

A declared type may be defined by another declared type, and that one by a third. At the end of
such a chain stands a type that is not declared, and that should be the underlying type of
every type of the chain. Completing a declaration records the underlying type that the right side
has **at that moment**, and a declared type that is still to be completed is its own. So
the chains are followed to their ends exactly if the definitions stand **in order**: no type
is referred to before it is completed. All such orders lead to one table; in any other order
some declared type is left with a declared type for an underlying type.
-/

namespace MethodSSA

open Relation

namespace TypeTable

variable {t t' t'' : TypeTable} {defs : List (TypeId × TypeId)}

/-! ## Completing declarations in turn -/

/-- Completes declared types one after the other, each by the type beside it. -/
def complete (t : TypeTable) (defs : List (TypeId × TypeId)) : Except Fault TypeTable :=
  defs.foldlM (fun t d => t.setUnderlying d.1 d.2) t

/-- The definitions are of declared types that are still to be completed, each defined once, by
a type of the table. -/
structure Definable (t : TypeTable) (defs : List (TypeId × TypeId)) : Prop where
  once : (defs.map Prod.fst).Nodup
  declared : ∀ d ∈ defs, ∃ n, t.get d.1 = .ok (.named n)
  incomplete : ∀ d ∈ defs, t.underlying d.1 = .ok d.1
  held : ∀ d ∈ defs, t.Holds d.2

/-- No definition refers to a type that is completed by a later one, or by itself. -/
def Ordered (defs : List (TypeId × TypeId)) : Prop :=
  (∀ d ∈ defs, d.2 ≠ d.1) ∧ defs.Pairwise fun d later => d.2 ≠ later.1

instance (defs : List (TypeId × TypeId)) : Decidable (Ordered defs) :=
  inferInstanceAs (Decidable (_ ∧ _))

/-- The underlying type of a type, and it is not a declared one. -/
def Structural (t : TypeTable) (id e : TypeId) : Prop :=
  t.underlying id = .ok e ∧ ∃ ty, t.get e = .ok ty ∧ ty.isNamed = false

/-- The type at the end of a chain of definitions. -/
inductive Ends (t : TypeTable) (defs : List (TypeId × TypeId)) : TypeId → TypeId → Prop
  /-- a type that has its underlying type already -/
  | here {id e : TypeId} (h : t.Structural id e) : Ends t defs id e
  /-- a type that is defined by another one -/
  | there {id c e : TypeId} (hmem : (id, c) ∈ defs) (h : Ends t defs c e) : Ends t defs id e

/-- Definitions in order, taken apart. -/
theorem ordered_cons {a c : TypeId} :
    Ordered ((a, c) :: defs) ↔ c ≠ a ∧ c ∉ defs.map Prod.fst ∧ Ordered defs := by
  simp only [Ordered, List.forall_mem_cons, List.pairwise_cons, List.mem_map, not_exists, not_and,
    ne_comm (a := c)]
  grind

/-- The type that is not declared is its own underlying type. -/
theorem Structural.underlying_self {id e : TypeId} (h : t.Structural id e) :
    t.underlying e = .ok e := by
  obtain ⟨-, ty, hty, hplain⟩ := h
  exact underlying_plain hty hplain

/-! ## One completion -/

section Step

variable {a c : TypeId} (h : t.setUnderlying a c = .ok t')
include h

theorem underlying_completed : t'.underlying a = t.underlying c := by
  obtain ⟨u, n, d, hu, hn, hd, rfl⟩ := of_setUnderlying h
  have hd' := decl_updateDecl t n.decl n.decl (fun d => { d with underlying := u }) hd
  rw [if_pos rfl] at hd'
  have hn' : (t.updateDecl n.decl fun d => { d with underlying := u }).get a = .ok (.named n) := hn
  exact (underlying_named hn' (entry_eq_ok_iff.mp hd')).trans hu.symm

theorem structural_completed {e : TypeId} : t'.Structural a e ↔ t.Structural c e := by
  rw [Structural, Structural, underlying_completed h]
  obtain ⟨u, n, d, -, -, -, rfl⟩ := of_setUnderlying h
  exact Iff.rfl

variable (hx : t.Indexed)
include hx

/-- No other type is concerned. -/
theorem underlying_of_ne {id : TypeId} (hne : id ≠ a) : t'.underlying id = t.underlying id := by
  obtain ⟨u, n, d, -, hn, hd, rfl⟩ := of_setUnderlying h
  rcases hid : t.get id with f | ty
  · have hid' : (t.updateDecl n.decl fun d => { d with underlying := u }).get id = .error f := hid
    rw [underlying, underlying, hid, hid']
    rfl
  cases ty with
  | named m =>
    obtain ⟨d', hd', hid'⟩ := hx.recorded hid
    obtain ⟨d₀, hd₀, ha⟩ := hx.recorded hn
    have hnumber : n.decl ≠ m.decl := by
      intro heq
      rw [← heq, hd₀] at hd'
      cases hd'
      exact hne (hid'.symm.trans ha)
    have hkept := decl_updateDecl t n.decl m.decl (fun d => { d with underlying := u }) hd'
    rw [if_neg hnumber] at hkept
    rw [underlying_named hid (entry_eq_ok_iff.mp hd')]
    have hid' : (t.updateDecl n.decl fun d => { d with underlying := u }).get id = _ := hid
    exact underlying_named hid' (entry_eq_ok_iff.mp hkept)
  | _ =>
    rw [underlying_plain hid rfl]
    exact underlying_plain hid rfl

theorem structural_of_ne {id e : TypeId} (hne : id ≠ a) :
    t'.Structural id e ↔ t.Structural id e := by
  rw [Structural, Structural, underlying_of_ne h hx hne]
  obtain ⟨u, n, d, -, -, -, rfl⟩ := of_setUnderlying h
  exact Iff.rfl

/-- The definitions that are left are still to be made. -/
theorem Definable.rest (hd : t.Definable ((a, c) :: defs)) : t'.Definable defs where
  once := (List.nodup_cons.mp hd.once).2
  declared d hmem := by
    obtain ⟨n, hn⟩ := hd.declared d (List.mem_cons_of_mem _ hmem)
    exact ⟨n, Course.get (.single (.setUnderlying a c h)) hn⟩
  incomplete d hmem := by
    have hne : d.1 ≠ a := by
      intro heq
      exact (List.nodup_cons.mp hd.once).1 (List.mem_map.mpr ⟨d, hmem, heq⟩)
    rw [underlying_of_ne h hx hne]
    exact hd.incomplete d (List.mem_cons_of_mem _ hmem)
  held d hmem := by
    obtain ⟨ty, hty⟩ := exists_get_iff.mpr (hd.held d (List.mem_cons_of_mem _ hmem))
    exact holds_of_get (Course.get (.single (.setUnderlying a c h)) hty)

end Step

/-- **A definition can always be made.** -/
theorem Definable.exists_setUnderlying (hx : t.Indexed) {a c : TypeId}
    (hd : t.Definable ((a, c) :: defs)) : ∃ t', t.setUnderlying a c = .ok t' := by
  obtain ⟨n, hn⟩ := hd.declared (a, c) List.mem_cons_self
  exact hx.mirrored.completes a n c hn (hd.held (a, c) List.mem_cons_self)

/-- A type that is still to be completed has no underlying type yet. -/
theorem Definable.not_structural (hd : t.Definable defs) {id e : TypeId}
    (hmem : id ∈ defs.map Prod.fst) : ¬ t.Structural id e := by
  rintro ⟨hu, ty, hty, hplain⟩
  obtain ⟨d, hdmem, rfl⟩ := List.mem_map.mp hmem
  obtain ⟨n, hn⟩ := hd.declared d hdmem
  cases hu.symm.trans (hd.incomplete d hdmem)
  cases hn.symm.trans hty
  cases hplain

/-! ## All completions -/

/-- Completing declarations is a course. -/
theorem course_complete (h : t.complete defs = .ok t') : Course t t' := by
  induction defs generalizing t with
  | nil =>
    cases h
    exact .refl
  | cons d defs ih =>
    obtain ⟨t₁, h₁, h⟩ := bind_eq_ok_iff.mp h
    exact .head (.setUnderlying d.1 d.2 h₁) (ih h)

/-- **All definitions can be made**, in whatever order. -/
theorem Definable.exists_complete (hx : t.Indexed) (hd : t.Definable defs) :
    ∃ t', t.complete defs = .ok t' := by
  induction defs generalizing t with
  | nil => exact ⟨t, rfl⟩
  | cons d defs ih =>
    obtain ⟨t₁, h₁⟩ := hd.exists_setUnderlying hx
    obtain ⟨t', h⟩ := ih (hx.change (.setUnderlying _ _ h₁)) (hd.rest h₁ hx)
    exact ⟨t', bind_eq_ok_iff.mpr ⟨t₁, h₁, h⟩⟩

/-- A type that no definition is of keeps its underlying type. -/
theorem underlying_complete_of_not_mem (hx : t.Indexed) (h : t.complete defs = .ok t') {id : TypeId}
    (hid : id ∉ defs.map Prod.fst) : t'.underlying id = t.underlying id := by
  induction defs generalizing t with
  | nil =>
    cases h
    rfl
  | cons d defs ih =>
    obtain ⟨t₁, h₁, h⟩ := bind_eq_ok_iff.mp h
    obtain ⟨hne, hid⟩ := not_or.mp (mt List.mem_cons.mpr hid)
    exact (ih (hx.change (.setUnderlying _ _ h₁)) h hid).trans (underlying_of_ne h₁ hx hne)

/-! ### Definitions in order -/

/-- A definition that refers to no type that is still to be completed does nothing to the
chains of definitions when it is made. -/
theorem ends_rest_iff (hx : t.Indexed) {a c : TypeId} (hd : t.Definable ((a, c) :: defs))
    (hca : c ≠ a) (hlater : c ∉ defs.map Prod.fst) (h : t.setUnderlying a c = .ok t')
    {id e : TypeId} : t'.Ends defs id e ↔ t.Ends ((a, c) :: defs) id e := by
  constructor
  · intro hends
    induction hends with
    | @here id e hs =>
      by_cases hid : id = a
      · subst hid
        exact .there List.mem_cons_self (.here ((structural_completed h).mp hs))
      · exact .here ((structural_of_ne h hx hid).mp hs)
    | there hmem _ ih => exact .there (List.mem_cons_of_mem _ hmem) ih
  · intro hends
    induction hends with
    | @here id e hs =>
      have hid : id ≠ a := by
        rintro rfl
        exact hd.not_structural List.mem_cons_self hs
      exact .here ((structural_of_ne h hx hid).mpr hs)
    | there hmem _ ih =>
      rcases List.mem_cons.mp hmem with heq | hmem
      · -- the right side has its underlying type already, for no later definition is of it
        cases heq
        cases ih with
        | here hs =>
          exact .here ((structural_completed h).mpr ((structural_of_ne h hx hca).mp hs))
        | there hmem => exact absurd (List.mem_map.mpr ⟨_, hmem, rfl⟩) hlater
      · exact .there hmem ih

/-- **Definitions that are made in order lead every type to the end of its chain.** -/
theorem structural_of_ordered (hx : t.Indexed) (hd : t.Definable defs) (ho : Ordered defs)
    (h : t.complete defs = .ok t') {id e : TypeId} (hends : t.Ends defs id e) :
    t'.Structural id e := by
  induction defs generalizing t with
  | nil =>
    cases h
    cases hends with
    | here hs => exact hs
    | there hmem => cases hmem
  | cons d defs ih =>
    obtain ⟨t₁, h₁, h⟩ := bind_eq_ok_iff.mp h
    obtain ⟨hca, hlater, ho⟩ := ordered_cons.mp ho
    exact ih (hx.change (.setUnderlying _ _ h₁)) (hd.rest h₁ hx) ho h
      ((ends_rest_iff hx hd hca hlater h₁).mpr hends)

/-- Every chain of definitions in order has an end. -/
theorem exists_ends_of_ordered (hx : t.Indexed) (hd : t.Definable defs) (ho : Ordered defs)
    (hothers : ∀ id, t.Holds id → id ∉ defs.map Prod.fst → ∃ e, t.Structural id e) {id : TypeId}
    (hid : t.Holds id) : ∃ e, t.Ends defs id e := by
  induction defs generalizing t with
  | nil =>
    obtain ⟨e, he⟩ := hothers id hid List.not_mem_nil
    exact ⟨e, .here he⟩
  | cons d defs ih =>
    obtain ⟨t₁, h₁⟩ := hd.exists_setUnderlying hx
    have htypes : t₁.types = t.types := by
      obtain ⟨u, n, d, -, -, -, rfl⟩ := of_setUnderlying h₁
      rfl
    have hholds (i : TypeId) : t₁.Holds i ↔ t.Holds i := by rw [Holds, Holds, htypes]
    obtain ⟨hca, hlater, ho'⟩ := ordered_cons.mp ho
    obtain ⟨e, he⟩ := ih (hx.change (.setUnderlying _ _ h₁)) (hd.rest h₁ hx) ho'
      (by
        intro i hi hmem
        by_cases hia : i = d.1
        · subst hia
          obtain ⟨e, he⟩ := hothers d.2 (hd.held d List.mem_cons_self)
            (by rw [List.map_cons, List.mem_cons, not_or]; exact ⟨hca, hlater⟩)
          exact ⟨e, (structural_completed h₁).mpr he⟩
        · obtain ⟨e, he⟩ := hothers i ((hholds i).mp hi)
            (by rw [List.map_cons, List.mem_cons, not_or]; exact ⟨hia, hmem⟩)
          exact ⟨e, (structural_of_ne h₁ hx hia).mpr he⟩)
      ((hholds id).mpr hid)
    exact ⟨e, (ends_rest_iff hx hd hca hlater h₁).mp he⟩

/-- An order changes no chain of definitions. -/
theorem Ends.mono {defs' : List (TypeId × TypeId)} (hmem : ∀ p, p ∈ defs → p ∈ defs')
    {id e : TypeId} (h : t.Ends defs id e) : t.Ends defs' id e := by
  induction h with
  | here hs => exact .here hs
  | there hp _ ih => exact .there (hmem _ hp) ih

theorem Definable.perm {defs' : List (TypeId × TypeId)} (hd : t.Definable defs)
    (hp : defs'.Perm defs) : t.Definable defs' where
  once := (hp.map Prod.fst).nodup_iff.mpr hd.once
  declared d hmem := hd.declared d (hp.mem_iff.mp hmem)
  incomplete d hmem := hd.incomplete d (hp.mem_iff.mp hmem)
  held d hmem := hd.held d (hp.mem_iff.mp hmem)

/-- A chain of definitions ends with a definition by a type that is not to be completed. -/
theorem Ends.exists_last (hd : t.Definable defs) {id e : TypeId} (h : t.Ends defs id e)
    (hid : id ∈ defs.map Prod.fst) : ∃ p ∈ defs, p.2 ∉ defs.map Prod.fst := by
  induction h with
  | here hs => exact absurd hs (hd.not_structural hid)
  | @there id c e hmem _ ih =>
    by_cases hc : c ∈ defs.map Prod.fst
    · exact ih hc
    · exact ⟨(id, c), hmem, hc⟩

/-- **Definitions can be put in order** if every chain of them has an end. -/
theorem exists_ordered (hx : t.Indexed) (hd : t.Definable defs)
    (hends : ∀ d ∈ defs, ∃ e, t.Ends defs d.1 e) : ∃ defs', defs'.Perm defs ∧ Ordered defs' := by
  induction hn : defs.length generalizing t defs with
  | zero =>
    cases List.length_eq_zero_iff.mp hn
    exact ⟨[], .refl _, by decide⟩
  | succ n ih =>
    obtain ⟨d, hmem⟩ := List.exists_mem_of_length_pos (by omega : 0 < defs.length)
    obtain ⟨e, he⟩ := hends d hmem
    obtain ⟨p, hpmem, hlast⟩ := he.exists_last hd (List.mem_map_of_mem hmem)
    -- the last definition of a chain comes first, and the others as they are left by it
    have hperm := List.perm_cons_erase hpmem
    obtain ⟨hpa, hrest⟩ := not_or.mp (mt (fun h => (hperm.map Prod.fst).mem_iff.mpr
      (List.mem_cons.mpr h)) hlast)
    have hd' : t.Definable (p :: defs.erase p) := hd.perm hperm.symm
    obtain ⟨t₁, h₁⟩ := hd'.exists_setUnderlying hx
    obtain ⟨rest, hr, ho⟩ := ih (hx.change (.setUnderlying _ _ h₁)) (hd'.rest h₁ hx)
      (fun q hq => by
        obtain ⟨e, he⟩ := hends q (List.mem_of_mem_erase hq)
        have he' := he.mono fun r => hperm.mem_iff.mp
        exact ⟨e, (ends_rest_iff hx hd' hpa hrest h₁).mpr he'⟩)
      (by rw [List.length_erase_of_mem hpmem, hn, Nat.add_sub_cancel])
    refine ⟨p :: rest, (hr.cons p).trans hperm.symm, ordered_cons.mpr ⟨hpa, ?_, ho⟩⟩
    exact fun h => hrest ((hr.map Prod.fst).mem_iff.mp h)

/-! ### Definitions out of order -/

/-- **A definition that is made too early stays with the declared type that it refers to.** -/
theorem exists_declared_of_not_ordered (hx : t.Indexed) (hd : t.Definable defs)
    (ho : ¬ Ordered defs) (h : t.complete defs = .ok t') :
    ∃ d ∈ defs, t'.underlying d.1 = .ok d.2 ∧ ∃ n, t'.get d.2 = .ok (.named n) := by
  induction defs generalizing t with
  | nil => exact absurd (by decide) ho
  | cons d defs ih =>
    obtain ⟨t₁, h₁, hrest⟩ := bind_eq_ok_iff.mp h
    have hx₁ := hx.change (.setUnderlying _ _ h₁)
    by_cases hlater : d.2 ∈ (d :: defs).map Prod.fst
    · obtain ⟨d', hmem, heq⟩ := List.mem_map.mp hlater
      obtain ⟨n, hn⟩ := hd.declared d' hmem
      have hu := hd.incomplete d' hmem
      rw [heq] at hn hu
      refine ⟨d, List.mem_cons_self, ?_, n, (course_complete h).get hn⟩
      rw [underlying_complete_of_not_mem hx₁ hrest (List.nodup_cons.mp hd.once).1,
        underlying_completed h₁, hu]
    · obtain ⟨hca, hlater⟩ := not_or.mp (mt List.mem_cons.mpr hlater)
      have ho' : ¬ Ordered defs := fun ho' => ho (ordered_cons.mpr ⟨hca, hlater, ho'⟩)
      obtain ⟨d', hmem, hd'⟩ := ih hx₁ (hd.rest h₁ hx) ho' hrest
      exact ⟨d', List.mem_cons_of_mem _ hmem, hd'⟩

/-! ### The completed table -/

/-- What completing leaves as it was: everything but the underlying types of the completed
declarations. -/
structure Recompleted (t : TypeTable) (defs : List (TypeId × TypeId)) (t' : TypeTable) : Prop where
  index : t'.toTypeIndex = t.toTypeIndex
  funcs : t'.funcs = t.funcs
  count : t'.decls.length = t.decls.length
  decls : ∀ i d, t.decls[i]? = some d → ∃ u, t'.decls[i]? = some { d with underlying := u } ∧
    (u = d.underlying ∨ ∃ p ∈ defs, ∃ n, t.get p.1 = .ok (.named n) ∧ n.decl = i)

theorem recompleted (h : t.complete defs = .ok t') : Recompleted t defs t' := by
  induction defs generalizing t with
  | nil =>
    cases h
    exact ⟨rfl, rfl, rfl, fun i d hd => ⟨d.underlying, hd, .inl rfl⟩⟩
  | cons p defs ih =>
    obtain ⟨t₁, h₁, h⟩ := bind_eq_ok_iff.mp h
    obtain ⟨u, n, d₀, -, hn, -, rfl⟩ := of_setUnderlying h₁
    have hr := ih h
    refine ⟨hr.index, hr.funcs, ?_, ?_⟩
    · rw [hr.count]
      exact List.length_modify ..
    · intro i d hd
      have hstep : (t.updateDecl n.decl fun d => { d with underlying := u }).decls[i]? =
          some (if n.decl = i then { d with underlying := u } else d) := by
        rw [updateDecl, List.getElem?_modify, hd]
        split <;> rfl
      obtain ⟨v, hv, hcase⟩ := hr.decls i _ hstep
      by_cases hi : n.decl = i
      · rw [if_pos hi] at hv
        exact ⟨v, hv, .inr ⟨p, List.mem_cons_self, n, hn, hi⟩⟩
      · rw [if_neg hi] at hv hcase
        refine ⟨v, hv, hcase.imp_right ?_⟩
        rintro ⟨q, hmem, hq⟩
        exact ⟨q, List.mem_cons_of_mem _ hmem, hq⟩

/-- Completed tables are equal if the completed types have equal underlying types. -/
theorem Recompleted.ext {defs' : List (TypeId × TypeId)} (h : Recompleted t defs t')
    (h' : Recompleted t defs' t'') (hmem : ∀ p, p ∈ defs' ↔ p ∈ defs)
    (heq : ∀ p ∈ defs, t'.underlying p.1 = t''.underlying p.1) : t' = t'' := by
  have hdecls : t'.decls = t''.decls := by
    apply List.ext_getElem?
    intro i
    rcases hd : t.decls[i]? with _ | d
    · have hlen := List.getElem?_eq_none_iff.mp hd
      rw [List.getElem?_eq_none (h.count ▸ hlen), List.getElem?_eq_none (h'.count ▸ hlen)]
    · obtain ⟨u, hu, hcase⟩ := h.decls i d hd
      obtain ⟨v, hv, hcase'⟩ := h'.decls i d hd
      have hunderlying (p : TypeId × TypeId) (hp : p ∈ defs) (n : TypeName)
          (hn : t.get p.1 = .ok (.named n)) (hi : n.decl = i) : u = v := by
        subst hi
        have hu' := underlying_named (t := t') (by rw [get, h.index]; exact hn) hu
        have hv' := underlying_named (t := t'') (by rw [get, h'.index]; exact hn) hv
        exact Except.ok.inj (hu'.symm.trans ((heq p hp).trans hv'))
      have huv : u = v := by
        rcases hcase with hcase | ⟨p, hp, n, hn, hi⟩
        · rcases hcase' with hcase' | ⟨p, hp, n, hn, hi⟩
          · exact hcase.trans hcase'.symm
          · exact hunderlying p ((hmem p).mp hp) n hn hi
        · exact hunderlying p hp n hn hi
      rw [hu, hv, huv]
  have hindex : t'.toTypeIndex = t''.toTypeIndex := h.index.trans h'.index.symm
  exact TypeTable.ext (congrArg TypeIndex.types hindex) (congrArg TypeIndex.ids hindex) hdecls
    (h.funcs.trans h'.funcs.symm)

/-- **Underlying types of types that are defined by declared types.** Declared types that are
still to be completed can be completed in any order. If each is completed before a definition
refers to it, every type has the type at the end of its chain of definitions for underlying type,
which is not a declared one, and the order makes no difference otherwise: the tables are equal,
and so is all that they answer. In every other order there is a definition that refers to a type
too early, and the type it is of has that declared type for underlying type. Definitions whose
chains all have ends can be put in order. -/
theorem Course.complete_ordered (hc : Course .initial t) (hd : t.Definable defs)
    (hothers : ∀ id, t.Holds id → id ∉ defs.map Prod.fst → ∃ e, t.Structural id e) :
    ∃ t', t.complete defs = .ok t' ∧
      (Ordered defs →
        (∀ id, t.Holds id → ∃ e, t.Ends defs id e) ∧
        (∀ id e, t.Ends defs id e → t'.Structural id e ∧ t'.underlying e = .ok e) ∧
        ∀ defs', defs'.Perm defs → Ordered defs' → t.complete defs' = .ok t') ∧
      (¬ Ordered defs →
        ∃ d ∈ defs, t'.underlying d.1 = .ok d.2 ∧ ∃ n, t'.get d.2 = .ok (.named n)) ∧
      ((∀ d ∈ defs, ∃ e, t.Ends defs d.1 e) → ∃ defs', defs'.Perm defs ∧ Ordered defs') := by
  have hx := indexed_initial.course hc
  obtain ⟨t', h⟩ := hd.exists_complete hx
  refine ⟨t', h, fun ho => ⟨fun id => exists_ends_of_ordered hx hd ho hothers, ?_, ?_⟩,
    fun ho => exists_declared_of_not_ordered hx hd ho h, exists_ordered hx hd⟩
  · intro id e hends
    have hs := structural_of_ordered hx hd ho h hends
    exact ⟨hs, hs.underlying_self⟩
  · intro defs' hp ho'
    have hd' := hd.perm hp
    obtain ⟨t'', h''⟩ := hd'.exists_complete hx
    have heq : t' = t'' := by
      apply (recompleted h).ext (recompleted h'') fun p => hp.mem_iff
      intro p hmem
      have hheld : t.Holds p.1 := by
        obtain ⟨n, hn⟩ := hd.declared p hmem
        exact holds_of_get hn
      obtain ⟨e, hends⟩ := exists_ends_of_ordered hx hd ho hothers hheld
      have hends' := hends.mono fun q => hp.mem_iff.mpr
      rw [(structural_of_ordered hx hd ho h hends).1,
        (structural_of_ordered hx hd' ho' h'' hends').1]
    rw [h'', heq]

/-- Two declared types, neither of them completed. -/
def declaredPair : TypeTable :=
  ((initial.declareType "Kelvin" none).2.declareType "Celsius" none).2

/-- One type is defined by the other, and that one as an integer: in this order the
underlying type of the first is the second, and in the other order an integer type. -/
theorem Course.complete_ordered_pair :
    (∃ t', declaredPair.complete [(⟨25⟩, ⟨26⟩), (⟨26⟩, basic .int)] = .ok t' ∧
      ∃ d ∈ [((⟨25⟩, ⟨26⟩) : TypeId × TypeId), (⟨26⟩, basic .int)],
        t'.underlying d.1 = .ok d.2 ∧ ∃ n, t'.get d.2 = .ok (.named n)) ∧
    ∃ t', declaredPair.complete [(⟨26⟩, basic .int), (⟨25⟩, ⟨26⟩)] = .ok t' ∧
      t'.underlying ⟨25⟩ = .ok (basic .int) := by
  have hc : Course .initial declaredPair :=
    .tail (.single (.declareType "Kelvin" none)) (.declareType "Celsius" none)
  have hkinds : ∀ i < 25, ∃ k ∈ Kind.all, k.index = i := by decide
  have hbasic (id : TypeId) (hid : id.index < 27) (h₁ : id ≠ ⟨25⟩) (h₂ : id ≠ ⟨26⟩) :
      ∃ e, declaredPair.Structural id e := by
    have h₁ : id.index ≠ 25 := fun h => h₁ (congrArg TypeId.mk h)
    have h₂ : id.index ≠ 26 := fun h => h₂ (congrArg TypeId.mk h)
    obtain ⟨k, -, hk⟩ := hkinds id.index (by omega)
    have hget := (indexed_initial.course hc).basics k
    rw [basic, hk] at hget
    exact ⟨id, underlying_plain hget rfl, _, hget, rfl⟩
  have hd : declaredPair.Definable [(⟨25⟩, ⟨26⟩), (⟨26⟩, basic .int)] :=
    { once := by decide
      declared := by
        simp only [List.forall_mem_cons]
        exact ⟨⟨_, rfl⟩, ⟨_, rfl⟩, nofun⟩
      incomplete := by
        simp only [List.forall_mem_cons]
        exact ⟨rfl, rfl, nofun⟩
      held := by decide }
  have hp : [((⟨26⟩, basic .int) : TypeId × TypeId), (⟨25⟩, ⟨26⟩)].Perm
      [(⟨25⟩, ⟨26⟩), (⟨26⟩, basic .int)] := .swap ..
  constructor
  · obtain ⟨t', h, -, hearly, -⟩ := hc.complete_ordered hd fun id hid hne => by
      simp only [List.map_cons, List.mem_cons, not_or] at hne
      exact hbasic id hid hne.1 hne.2.1
    exact ⟨t', h, hearly (by decide)⟩
  · obtain ⟨t', h, hends, -, -⟩ := hc.complete_ordered (hd.perm hp) fun id hid hne => by
      simp only [List.map_cons, List.mem_cons, not_or] at hne
      exact hbasic id hid hne.2.1 hne.1
    obtain ⟨-, hall, -⟩ := hends (by decide)
    have hint : declaredPair.Structural (basic .int) (basic .int) := ⟨rfl, _, rfl, rfl⟩
    have hend : declaredPair.Ends [(⟨26⟩, basic .int), (⟨25⟩, ⟨26⟩)] ⟨25⟩ (basic .int) :=
      .there (List.mem_cons_of_mem _ List.mem_cons_self)
        (.there List.mem_cons_self (.here hint))
    exact ⟨t', h, (hall _ _ hend).1.1⟩

end TypeTable

end MethodSSA
