import MethodSSA.Promotion.Selection
import MethodSSA.Proofs.Types.Built

/-!
# Tables that are extended

A table is **extended** by what is entered and declared behind everything else, whatever it
is. No identifier changes its meaning by that, and no declared type its underlying type or
its methods. So what a table answers, it answers for ever; only where it had no answer it
may have one later.
-/

namespace MethodSSA

/-- What stands at a place of a list stands there in every longer one. -/
theorem entry_of_prefix {α : Type} {l l' : List α} (h : l <+: l') {i : Nat} {cause : Fault} {a : α}
    (ha : entry l i cause = .ok a) : entry l' i cause = .ok a := by
  obtain ⟨more, rfl⟩ := h
  rw [entry_eq_ok_iff] at ha ⊢
  rw [List.getElem?_append_left (List.getElem?_eq_some_iff.mp ha).1, ha]

namespace TypeTable

variable {t t' t'' : TypeTable}

/-- A table with more types and declarations. -/
structure Extended (t t' : TypeTable) : Prop where
  types : t.types <+: t'.types
  decls : t.decls <+: t'.decls
  funcs : t.funcs <+: t'.funcs

/-- A table with more types, and the same declarations. -/
structure Entered (t t' : TypeTable) : Prop where
  types : t.types <+: t'.types
  decls : t'.decls = t.decls
  funcs : t'.funcs = t.funcs

namespace Entered

theorem refl (t : TypeTable) : Entered t t := ⟨List.prefix_rfl, rfl, rfl⟩

theorem trans (h : Entered t t') (h' : Entered t' t'') : Entered t t'' :=
  ⟨h.types.trans h'.types, h'.decls.trans h.decls, h'.funcs.trans h.funcs⟩

theorem intern (t : TypeTable) (ty : Ty) : Entered t (t.intern ty).2 := by
  refine ⟨?_, intern_decls t ty, intern_funcs t ty⟩
  rw [types_intern]
  split
  · exact List.prefix_rfl
  · exact List.prefix_append _ _

theorem extended (h : Entered t t') : Extended t t' :=
  ⟨h.types, h.decls ▸ List.prefix_rfl, h.funcs ▸ List.prefix_rfl⟩

end Entered

namespace Extended

theorem refl (t : TypeTable) : Extended t t := (Entered.refl t).extended

theorem trans (h : Extended t t') (h' : Extended t' t'') : Extended t t'' :=
  ⟨h.types.trans h'.types, h.decls.trans h'.decls, h.funcs.trans h'.funcs⟩

section Answers

variable (h : Extended t t')
include h

/-- **An identifier keeps its meaning.** -/
theorem get {id : TypeId} {ty : Ty} (hget : t.get id = .ok ty) : t'.get id = .ok ty :=
  entry_of_prefix h.types hget

theorem func {m : FuncId} {f : FuncDecl} (hf : t.func m = .ok f) : t'.func m = .ok f :=
  entry_of_prefix h.funcs hf

theorem decl {n : Nat} {d : TypeDecl} (hd : t.decl n = .ok d) : t'.decl n = .ok d :=
  entry_of_prefix h.decls hd

theorem underlying {id u : TypeId} (hu : t.underlying id = .ok u) : t'.underlying id = .ok u := by
  obtain ⟨ty, hty, hu⟩ := bind_eq_ok_iff.mp hu
  refine bind_eq_ok_iff.mpr ⟨ty, h.get hty, ?_⟩
  cases ty with
  | named n =>
    obtain ⟨d, hd, hu⟩ := bind_eq_ok_iff.mp hu
    exact bind_eq_ok_iff.mpr ⟨d, h.decl hd, hu⟩
  | _ => exact hu

theorem underlyingTy {id : TypeId} {u : Ty} (hu : t.underlyingTy id = .ok u) :
    t'.underlyingTy id = .ok u := by
  obtain ⟨v, hv, hu⟩ := bind_eq_ok_iff.mp hu
  exact bind_eq_ok_iff.mpr ⟨v, h.underlying hv, h.get hu⟩

theorem deref {id elem : TypeId} (helem : t.deref id = .ok elem) : t'.deref id = .ok elem := by
  obtain ⟨u, hu, helem⟩ := bind_eq_ok_iff.mp helem
  exact bind_eq_ok_iff.mpr ⟨u, h.underlyingTy hu, helem⟩

theorem declaredMethods {id : TypeId} {ms : List FuncId} (hms : t.declaredMethods id = .ok ms) :
    t'.declaredMethods id = .ok ms := by
  obtain ⟨ty, hty, hms⟩ := bind_eq_ok_iff.mp hms
  refine bind_eq_ok_iff.mpr ⟨ty, h.get hty, ?_⟩
  cases ty with
  | named n =>
    obtain ⟨d, hd, hms⟩ := bind_eq_ok_iff.mp hms
    exact bind_eq_ok_iff.mpr ⟨d, h.decl hd, hms⟩
  | _ => exact hms

theorem isPointer {id : TypeId} {b : Bool} (hb : t.isPointer id = .ok b) :
    t'.isPointer id = .ok b := by
  obtain ⟨u, hu, hb⟩ := bind_eq_ok_iff.mp hb
  exact bind_eq_ok_iff.mpr ⟨u, h.underlyingTy hu, hb⟩

theorem isInterface {id : TypeId} {b : Bool} (hb : t.isInterface id = .ok b) :
    t'.isInterface id = .ok b := by
  obtain ⟨u, hu, hb⟩ := bind_eq_ok_iff.mp hb
  exact bind_eq_ok_iff.mpr ⟨u, h.underlyingTy hu, hb⟩

theorem isBasic {id : TypeId} {cls : Kind → Bool} {b : Bool} (hb : t.isBasic id cls = .ok b) :
    t'.isBasic id cls = .ok b := by
  obtain ⟨u, hu, hb⟩ := bind_eq_ok_iff.mp hb
  exact bind_eq_ok_iff.mpr ⟨u, h.underlyingTy hu, hb⟩

theorem signatureOf {id : TypeId} {sig : Signature} (hsig : t.signatureOf id = .ok sig) :
    t'.signatureOf id = .ok sig := by
  obtain ⟨u, hu, hsig⟩ := bind_eq_ok_iff.mp hsig
  exact bind_eq_ok_iff.mpr ⟨u, h.underlyingTy hu, hsig⟩

theorem receiver? {m : FuncId} {r : Option TypeId} (hr : t.receiver? m = .ok r) :
    t'.receiver? m = .ok r := by
  obtain ⟨f, hf, hr⟩ := bind_eq_ok_iff.mp hr
  obtain ⟨sig, hsig, hr⟩ := bind_eq_ok_iff.mp hr
  exact bind_eq_ok_iff.mpr ⟨f, h.func hf, bind_eq_ok_iff.mpr ⟨sig, h.signatureOf hsig, hr⟩⟩

theorem isAbstract {m : FuncId} {b : Bool} (hb : t.isAbstract m = .ok b) :
    t'.isAbstract m = .ok b := by
  obtain ⟨r, hr, hb⟩ := bind_eq_ok_iff.mp hb
  refine bind_eq_ok_iff.mpr ⟨r, h.receiver? hr, ?_⟩
  cases r with
  | none => exact hb
  | some recv => exact h.isInterface hb

theorem hasPointerReceiver {m : FuncId} {b : Bool} (hb : t.hasPointerReceiver m = .ok b) :
    t'.hasPointerReceiver m = .ok b := by
  obtain ⟨r, hr, hb⟩ := bind_eq_ok_iff.mp hb
  refine bind_eq_ok_iff.mpr ⟨r, h.receiver? hr, ?_⟩
  cases r with
  | none => exact hb
  | some recv => exact h.isPointer hb

theorem inMethodSet {sel : Selection} {b : Bool} (hb : t.inMethodSet sel = .ok b) :
    t'.inMethodSet sel = .ok b := by
  rw [TypeTable.inMethodSet] at hb ⊢
  split
  · next hind => rwa [if_pos hind] at hb
  · next hind =>
    rw [if_neg hind] at hb
    obtain ⟨byPtr, hbyPtr, hb⟩ := bind_eq_ok_iff.mp hb
    exact bind_eq_ok_iff.mpr ⟨byPtr, h.hasPointerReceiver hbyPtr, hb⟩

end Answers

end Extended

end TypeTable

end MethodSSA
