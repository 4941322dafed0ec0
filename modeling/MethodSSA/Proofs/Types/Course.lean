import Mathlib.Logic.Relation
import MethodSSA.Proofs.Types.Extension

/-!
# Tables under any use

A table does not ask where the identifiers come from that it is handed. Whatever is done with it,
in whatever order, it stays **indexed**: each type stands at one place, the table of identifiers
holds that place beside it and nothing else, the basic kinds stand at theirs, and a declared
type leads to the declaration that was made with it. That needs only that no declared type is
entered that was not declared. What a changed table keeps of the meaning of an identifier, it
keeps for ever (`Course.get`).
-/

namespace MethodSSA

open Relation

namespace TypeTable

variable {t t' t'' : TypeTable}

/-- One thing done with a table. Declared types come from declarations; nothing else is
asked of what is handed in. -/
inductive Change (t : TypeTable) : TypeTable → Prop
  /-- a type is entered -/
  | intern (ty : Ty) (hnamed : ty.isNamed = true → ty ∈ t.types) : Change t (t.intern ty).2
  /-- a type is declared -/
  | declareType (name : String) (pkg : Option String) : Change t (t.declareType name pkg).2
  /-- a function is declared -/
  | declareFunc (f : FuncDecl) : Change t (t.declareFunc f).2
  /-- a declaration is completed -/
  | setUnderlying {t' : TypeTable} (named id : TypeId) (h : t.setUnderlying named id = .ok t') :
    Change t t'
  /-- a method is attached to a declared type -/
  | addMethod {t' : TypeTable} (named : TypeId) (m : FuncId) (h : t.addMethod named m = .ok t') :
    Change t t'

/-- Any number of things done with a table. -/
abbrev Course : TypeTable → TypeTable → Prop := ReflTransGen Change

/-- What holds of every table, and needs no identifier to be in range. -/
structure Indexed (t : TypeTable) : Prop where
  nodup : t.types.Nodup
  index : t.toTypeIndex = .of t.types
  basics : ∀ k, t.get (basic k) = .ok (.basic k)
  recorded : ∀ {id n}, t.get id = .ok (.named n) → ∃ d, t.decl n.decl = .ok d ∧ d.id = id
  underlying : ∀ d ∈ t.decls, t.Holds d.underlying

/-! ## What changes keep -/

/-- A completed declaration is a changed one. -/
theorem of_setUnderlying {named id : TypeId} (h : t.setUnderlying named id = .ok t') :
    ∃ u n d, t.underlying id = .ok u ∧ t.get named = .ok (.named n) ∧ t.decl n.decl = .ok d ∧
      t' = t.updateDecl n.decl fun d => { d with underlying := u } := by
  obtain ⟨u, hu, h⟩ := bind_eq_ok_iff.mp h
  obtain ⟨k, hk, h⟩ := bind_eq_ok_iff.mp h
  obtain ⟨d, hd, h⟩ := bind_eq_ok_iff.mp h
  cases h
  obtain ⟨ty, hty, hk⟩ := bind_eq_ok_iff.mp hk
  cases ty <;> cases hk
  exact ⟨u, _, d, hu, hty, hd, rfl⟩

/-- A declaration with a method more is a changed one. -/
theorem of_addMethod {named : TypeId} {m : FuncId} (h : t.addMethod named m = .ok t') :
    ∃ n, t' = t.updateDecl n fun d => { d with methods := d.methods ++ [m] } := by
  obtain ⟨n, -, h⟩ := bind_eq_ok_iff.mp h
  obtain ⟨d, -, h⟩ := bind_eq_ok_iff.mp h
  cases h
  exact ⟨n, rfl⟩

theorem decl_updateDecl (t : TypeTable) (n k : Nat) (f : TypeDecl → TypeDecl) {d : TypeDecl}
    (h : t.decl k = .ok d) : (t.updateDecl n f).decl k = .ok (if n = k then f d else d) := by
  rw [decl, entry_eq_ok_iff] at h ⊢
  rw [updateDecl, List.getElem?_modify, h]
  split <;> rfl

/-- **No change takes a type away.** -/
theorem Change.types (h : Change t t') : t.types <+: t'.types := by
  cases h with
  | intern ty => exact (Entered.intern t ty).types
  | declareType name pkg => exact (Entered.intern t (.named ⟨name, pkg, t.decls.length⟩)).types
  | declareFunc => exact List.prefix_rfl
  | setUnderlying named id h =>
    obtain ⟨u, n, d, -, -, -, rfl⟩ := of_setUnderlying h
    exact List.prefix_rfl
  | addMethod named m h =>
    obtain ⟨n, rfl⟩ := of_addMethod h
    exact List.prefix_rfl

/-- **An identifier keeps its meaning, whatever is done with the table.** -/
theorem Course.get (h : Course t t') {id : TypeId} {ty : Ty} (hget : t.get id = .ok ty) :
    t'.get id = .ok ty := by
  induction h with
  | refl => exact hget
  | tail _ hstep ih => exact entry_of_prefix hstep.types ih

theorem indexed_initial : Indexed .initial where
  nodup := by decide
  index := rfl
  basics k := by cases k <;> rfl
  recorded := by
    intro id n h
    obtain ⟨k, -, hk⟩ := List.mem_map.mp (List.mem_of_getElem? (get_eq_ok_iff.mp h))
    cases hk
  underlying := nofun

namespace Indexed

variable (hx : t.Indexed)
include hx

/-- A declaration that is still to come belongs to no type of the table. -/
theorem fresh (name : String) (pkg : Option String) :
    Ty.named ⟨name, pkg, t.decls.length⟩ ∉ t.types := by
  intro hmem
  obtain ⟨i, hi⟩ := List.getElem?_of_mem hmem
  have hid : t.get ⟨i⟩ = .ok (.named ⟨name, pkg, t.decls.length⟩) := get_eq_ok_iff.mpr hi
  obtain ⟨d, hd, -⟩ := hx.recorded hid
  exact Nat.lt_irrefl _ (List.getElem?_eq_some_iff.mp (entry_eq_ok_iff.mp hd)).1

/-- A new type, entered in both tables, keeps a table indexed if it comes with its declaration. -/
theorem append {ty : Ty} {ds : List TypeDecl} (hindex : t'.toTypeIndex = t.toTypeIndex.enter ty)
    (hdecls : t'.decls = t.decls ++ ds) (hfresh : ty ∉ t.types)
    (hnamed : ∀ n, ty = .named n →
      ∃ d, (t.decls ++ ds)[n.decl]? = some d ∧ d.id = ⟨t.types.length⟩)
    (hds : ∀ d ∈ ds, d.underlying.index ≤ t.types.length) : Indexed t' := by
  have htypes : t'.types = t.types ++ [ty] := congrArg TypeIndex.types hindex
  exact {
    nodup := by
      rw [htypes, List.nodup_append]
      refine ⟨hx.nodup, List.pairwise_singleton _ ty, ?_⟩
      rintro a ha b hb rfl
      exact hfresh (List.mem_singleton.mp hb ▸ ha)
    index := by rw [htypes, TypeIndex.of_concat, ← hx.index, hindex]
    basics := fun k => entry_of_prefix (htypes ▸ List.prefix_append _ _) (hx.basics k)
    recorded := by
      intro id n h
      rcases getElem?_concat_cases (htypes ▸ get_eq_ok_iff.mp h) with h | ⟨hid, hn⟩
      · obtain ⟨d, hd, hdid⟩ := hx.recorded (get_eq_ok_iff.mpr h)
        exact ⟨d, entry_of_prefix (hdecls ▸ List.prefix_append _ _) hd, hdid⟩
      · obtain ⟨d, hd, hdid⟩ := hnamed n hn.symm
        exact ⟨d, entry_eq_ok_iff.mpr (hdecls ▸ hd), hdid.trans (congrArg TypeId.mk hid).symm⟩
    underlying := by
      intro d hd
      rw [Holds, htypes, List.length_append]
      rcases List.mem_append.mp (hdecls ▸ hd) with hd | hd
      · exact Nat.lt_add_right _ (hx.underlying d hd)
      · exact Nat.lt_succ_of_le (hds d hd) }

/-- A changed declaration keeps a table indexed if it stays that of its type. -/
theorem updateDecl (n : Nat) {f : TypeDecl → TypeDecl} (hid : ∀ d, (f d).id = d.id)
    (hf : ∀ d, t.Holds d.underlying → t.Holds (f d).underlying) : Indexed (t.updateDecl n f) where
  nodup := hx.nodup
  index := hx.index
  basics := hx.basics
  recorded := by
    intro id name h
    obtain ⟨d, hd, hdid⟩ := hx.recorded h
    refine ⟨_, decl_updateDecl t n name.decl f hd, ?_⟩
    split
    · exact (hid d).trans hdid
    · exact hdid
  underlying := by
    intro d hd
    obtain ⟨i, hi⟩ := List.getElem?_of_mem hd
    change (t.decls.modify n f)[i]? = some d at hi
    rw [List.getElem?_modify] at hi
    obtain ⟨old, hold, rfl⟩ := Option.map_eq_some_iff.mp hi
    have hheld := hx.underlying old (List.mem_of_getElem? hold)
    split
    · exact hf old hheld
    · exact hheld

/-- The underlying type of a type is in the table. -/
theorem exists_underlying {id : TypeId} (h : t.Holds id) :
    ∃ u, t.underlying id = .ok u ∧ t.Holds u := by
  obtain ⟨ty, hty⟩ := exists_get_iff.mpr h
  rcases hn : ty.isNamed with _ | _
  · exact ⟨id, underlying_plain hty hn, h⟩
  · cases ty <;> cases hn
    obtain ⟨d, hd, -⟩ := hx.recorded hty
    have hd := entry_eq_ok_iff.mp hd
    exact ⟨d.underlying, underlying_named hty hd, hx.underlying d (List.mem_of_getElem? hd)⟩

/-- Only what the table holds has an underlying type. -/
theorem holds_of_underlying {id u : TypeId} (h : t.underlying id = .ok u) : t.Holds u := by
  obtain ⟨ty, hty, -⟩ := bind_eq_ok_iff.mp h
  obtain ⟨u', hu', hheld⟩ := hx.exists_underlying (holds_of_get hty)
  cases h.symm.trans hu'
  exact hheld

/-- **One change keeps a table indexed.** -/
theorem change (h : Change t t') : t'.Indexed := by
  cases h with
  | intern ty hnamed =>
    by_cases hmem : ty ∈ t.types
    · rw [intern_of_mem hmem]
      exact hx
    · have hplain : ∀ n, ty = .named n →
          ∃ d, (t.decls ++ [])[n.decl]? = some d ∧ d.id = ⟨t.types.length⟩ := by
        rintro n rfl
        exact absurd (hnamed rfl) hmem
      exact hx.append (intern_of_not_mem hmem).2 (List.append_nil _).symm hmem hplain nofun
  | declareType name pkg =>
    have hfresh := hx.fresh name pkg
    obtain ⟨hid, hindex⟩ := intern_of_not_mem hfresh
    refine hx.append hindex rfl hfresh ?_ fun d hd => ?_
    · rintro n ⟨⟩
      exact ⟨_, List.getElem?_concat_length, hid⟩
    · obtain rfl := List.mem_singleton.mp hd
      exact Nat.le_of_eq (congrArg TypeId.index hid)
  | declareFunc f => exact ⟨hx.nodup, hx.index, hx.basics, hx.recorded, hx.underlying⟩
  | setUnderlying named id h =>
    obtain ⟨u, n, d, hu, -, -, rfl⟩ := of_setUnderlying h
    exact hx.updateDecl n.decl (fun _ => rfl) fun _ _ => hx.holds_of_underlying hu
  | addMethod named m h =>
    obtain ⟨n, rfl⟩ := of_addMethod h
    exact hx.updateDecl n (fun _ => rfl) fun _ h => h

/-- **A table stays indexed, whatever is done with it.** -/
theorem course (h : Course t t') : t'.Indexed := by
  induction h with
  | refl => exact hx
  | tail _ hstep ih => exact ih.change hstep

end Indexed

end TypeTable

end MethodSSA
