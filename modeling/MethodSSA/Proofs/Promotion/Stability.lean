import MethodSSA.Proofs.Promotion.Membership
import MethodSSA.Proofs.Types.Growth

/-!
# Method sets last

What belongs to the method set of a type depends on what the type embeds, and a table
that grows adds nothing to that. So a type that was there before keeps its paths, its
occurrences and its method set (`Grown.methodSet`).
-/

namespace MethodSSA

namespace TypeTable

variable {t t' : TypeTable}

/-! ## The rule in a grown table -/

namespace Grown

section Paths

variable (h : Grown t t') {a b : TypeId} {i : Nat} {p : Bool} {path : List Nat}
include h

theorem stripPointer (hb : t.stripPointer a = .ok (b, p)) : t'.stripPointer a = .ok (b, p) := by
  obtain ⟨ty, hty, hb⟩ := stripPointer_eq_ok_iff.mp hb
  exact stripPointer_eq_ok_iff.mpr ⟨ty, h.get hty, hb⟩

theorem stripPointer_iff (hs : t.Sound) (ha : t.Holds a) :
    t'.stripPointer a = .ok (b, p) ↔ t.stripPointer a = .ok (b, p) := by
  refine ⟨fun hb => ?_, h.stripPointer⟩
  obtain ⟨b', p', hb', -⟩ := hs.exists_stripPointer ha
  cases hb.symm.trans (h.stripPointer hb')
  exact hb'

theorem embeds (he : t.Embeds a i b p) : t'.Embeds a i b p := by
  obtain ⟨hu, hf, hemb, hb⟩ := he
  exact ⟨h.underlyingTy hu, hf, hemb, h.stripPointer hb⟩

theorem embeds_iff (hs : t.Sound) (ha : t.Holds a) : t'.Embeds a i b p ↔ t.Embeds a i b p := by
  refine ⟨fun he => ?_, h.embeds⟩
  obtain ⟨hu, hf, hemb, hb⟩ := he
  have hu := (h.underlyingTy_iff hs ha).mp hu
  obtain ⟨v, -, hget⟩ := bind_eq_ok_iff.mp hu
  have hheld := (hs.holds_field hget (List.mem_of_getElem? hf)).1
  exact ⟨hu, hf, hemb, (h.stripPointer_iff hs hheld).mp hb⟩

theorem leads (hl : t.Leads a path b p) : t'.Leads a path b p := by
  induction hl with
  | nil => exact .nil
  | snoc _ he ih => exact .snoc ih (h.embeds he)

theorem leads_iff (hs : t.Sound) (ha : t.Holds a) : t'.Leads a path b p ↔ t.Leads a path b p := by
  refine ⟨fun hl => ?_, h.leads⟩
  induction hl with
  | nil => exact .nil
  | snoc _ he ih => exact .snoc ih ((h.embeds_iff hs (hs.holds_leads ha ih)).mp he)

end Paths

section Occurrences

variable (h : Grown t t') (hs : t.Sound) {base : TypeId} {key : String} {path : List Nat}
  {x : Feature}
include h hs

theorem has_iff {ty : TypeId} (hty : t.Holds ty) : t'.Has ty key x ↔ t.Has ty key x := by
  constructor
  · rintro (⟨hms, hm, hf, hkey⟩ | ⟨hms, hm, hf, hkey⟩ | ⟨hfs, hf, hkey⟩)
    · exact .method ((h.declaredMethods_iff hs hty).mp hms) hm ((h.func _).symm.trans hf) hkey
    · exact .abstract ((h.underlyingTy_iff hs hty).mp hms) hm ((h.func _).symm.trans hf) hkey
    · exact .field ((h.underlyingTy_iff hs hty).mp hfs) hf hkey
  · rintro (⟨hms, hm, hf, hkey⟩ | ⟨hms, hm, hf, hkey⟩ | ⟨hfs, hf, hkey⟩)
    · exact .method (h.declaredMethods hms) hm ((h.func _).trans hf) hkey
    · exact .abstract (h.underlyingTy hms) hm ((h.func _).trans hf) hkey
    · exact .field (h.underlyingTy hfs) hf hkey

theorem occurs_iff (hbase : t.Holds base) :
    t'.Occurs base key path x ↔ t.Occurs base key path x := by
  constructor
  · rintro ⟨b, ptr, hl, hx⟩
    have hl := (h.leads_iff hs hbase).mp hl
    exact ⟨b, ptr, hl, (h.has_iff hs (hs.holds_leads hbase hl)).mp hx⟩
  · rintro ⟨b, ptr, hl, hx⟩
    exact ⟨b, ptr, h.leads hl, (h.has_iff hs (hs.holds_leads hbase hl)).mpr hx⟩

theorem shallowest_iff (hbase : t.Holds base) :
    t'.Shallowest base key path x ↔ t.Shallowest base key path x := by
  constructor
  · rintro ⟨hx, hleast, honly⟩
    exact ⟨(h.occurs_iff hs hbase).mp hx, fun hx' => hleast ((h.occurs_iff hs hbase).mpr hx'),
      fun hx' => honly ((h.occurs_iff hs hbase).mpr hx')⟩
  · rintro ⟨hx, hleast, honly⟩
    exact ⟨(h.occurs_iff hs hbase).mpr hx, fun hx' => hleast ((h.occurs_iff hs hbase).mp hx'),
      fun hx' => honly ((h.occurs_iff hs hbase).mp hx')⟩

/-- What is chosen from a type that was there before is chosen from it still. -/
theorem chosen_iff (hm : t.MethodsTyped) {recv : TypeId} {isPtr : Bool} {sel : Selection}
    (hbase : t.Holds base) :
    t'.Chosen recv base isPtr key sel ↔ t.Chosen recv base isPtr key sel := by
  constructor
  · rintro ⟨hx, hl, hcall⟩
    have hx := (h.shallowest_iff hs hbase).mp hx
    have hl := (h.leads_iff hs hbase).mp hl
    refine .intro hx hl ?_
    obtain ⟨b, ptr, -, hhas⟩ := hx.occurs
    cases hcall with
    | abstract => exact .abstract
    | method hmode =>
      cases hhas with
      | method hms hmem hf hkey =>
        obtain ⟨hheld, hmeth⟩ := hs.isMethod_of_attached hms (List.mem_of_getElem? hmem)
        have hptr := hs.hasPointerReceiver_eq hm hheld hmeth
        refine .method (hmode.imp_right fun hv => ?_)
        rw [hptr, ← hv, h.hasPointerReceiver hptr]
  · rintro ⟨hx, hl, hcall⟩
    refine .intro ((h.shallowest_iff hs hbase).mpr hx) (h.leads hl) ?_
    cases hcall with
    | abstract => exact .abstract
    | method hmode => exact .method (hmode.imp_right h.hasPointerReceiver)

end Occurrences

theorem idOf (h : Grown t t') (m : FuncId) : t'.idOf m = t.idOf m := by
  rw [TypeTable.idOf, h.func, TypeTable.idOf]

end Grown

/-! ## Well-formed tables -/

/-- A method attached to a type. -/
def Declares (t : TypeTable) (ty : TypeId) (m : FuncId) : Prop :=
  ∃ ms, t.declaredMethods ty = .ok ms ∧ m ∈ ms

/-- A method of the interface underlying a type. -/
def Lists (t : TypeTable) (ty : TypeId) (m : FuncId) : Prop :=
  ∃ ms, t.underlyingTy ty = .ok (.interface ms) ∧ m ∈ ms

theorem exists_signature_of_receiver? {m : FuncId} {r : Option TypeId} (h : t.receiver? m = .ok r) :
    ∃ f sig, t.func m = .ok f ∧ t.underlyingTy f.sig = .ok (.signature sig) ∧
      sig.recv.map Var.ty = r := by
  obtain ⟨f, hf, h⟩ := bind_eq_ok_iff.mp h
  obtain ⟨sig, hsig, h⟩ := bind_eq_ok_iff.mp h
  obtain ⟨u, hu, hsig⟩ := bind_eq_ok_iff.mp hsig
  cases u <;> cases hsig
  exact ⟨f, sig, hf, hu, Except.ok.inj h⟩

theorem exists_receiver_of_isAbstract {m : FuncId} (h : t.isAbstract m = .ok true) :
    ∃ recv ms, t.receiver? m = .ok (some recv) ∧ t.underlyingTy recv = .ok (.interface ms) := by
  obtain ⟨r, hr, h⟩ := bind_eq_ok_iff.mp h
  cases r with
  | none => cases h
  | some recv =>
    obtain ⟨u, hu, h⟩ := bind_eq_ok_iff.mp h
    cases u <;> cases h
    exact ⟨recv, _, hr, hu⟩

/-- The methods of a table that grows keep their signatures, and new interfaces list methods that
have one. -/
theorem Grown.methodsTyped (g : Grown t t') (hs : t.Sound) (hm : t.MethodsTyped) :
    t'.MethodsTyped := by
  induction g with
  | refl => exact hm
  | @intern t₁ g₁ ty hty habs ih =>
    have hs₁ := g₁.sound hs
    have g : Grown t₁ (t₁.intern ty).2 := .intern .refl ty hty habs
    rintro m f (⟨id, ms, hms, hmem⟩ | ⟨id, u, hu, hmem⟩) hf
    · -- what is entered is no declared type
      obtain ⟨a, ha, -⟩ := bind_eq_ok_iff.mp hms
      rw [g.func] at hf
      rcases WellFormed.get_intern_cases ha with ha' | ⟨hnew, rfl⟩
      · have hms' := (g.declaredMethods_iff hs₁ (holds_of_get ha')).mp hms
        obtain ⟨sig, hsig⟩ := ih m f (.inl ⟨id, ms, hms', hmem⟩) hf
        exact ⟨sig, g.underlyingTy hsig⟩
      · rcases hn : a.isNamed with _ | _
        · cases hms.symm.trans (declaredMethods_plain ha hn)
          exact absurd hmem List.not_mem_nil
        · exact absurd (hty.named hn) hnew
    · rw [g.func] at hf
      rcases WellFormed.get_intern_cases hu with hu' | ⟨-, rfl⟩
      · obtain ⟨sig, hsig⟩ := ih m f (.inr ⟨id, u, hu', hmem⟩) hf
        exact ⟨sig, g.underlyingTy hsig⟩
      · obtain ⟨recv, ms, hrecv, -⟩ := exists_receiver_of_isAbstract (habs m hmem)
        obtain ⟨f', sig, hf', hsig, -⟩ := exists_signature_of_receiver? hrecv
        cases hf.symm.trans hf'
        exact ⟨sig, g.underlyingTy hsig⟩

namespace WellFormed

variable (w : t.WellFormed)
include w

/-- The methods of a well-formed table have signatures. -/
theorem methodsTyped : t.MethodsTyped := by
  rintro m f (⟨id, ms, hms, hm⟩ | ⟨id, u, hu, hm⟩) hf
  · obtain ⟨recv, hrecv, -⟩ := w.attached hms hm
    obtain ⟨f', sig, hf', hsig, -⟩ := exists_signature_of_receiver? hrecv
    cases hf.symm.trans hf'
    exact ⟨sig, hsig⟩
  · obtain ⟨recv, ms, hrecv, -⟩ := exists_receiver_of_isAbstract (w.listed hu hm)
    obtain ⟨f', sig, hf', hsig, -⟩ := exists_signature_of_receiver? hrecv
    cases hf.symm.trans hf'
    exact ⟨sig, hsig⟩

/-- An interface lists abstract methods. -/
theorem isAbstract_of_lists {ty : TypeId} {m : FuncId} (h : t.Lists ty m) :
    t.isAbstract m = .ok true := by
  obtain ⟨ms, hms, hm⟩ := h
  obtain ⟨v, -, hget⟩ := bind_eq_ok_iff.mp hms
  exact w.listed hget hm

/-- A method that is attached to a type is concrete, and its receiver is the type or the
pointer to it. -/
theorem receiver_of_declares {ty : TypeId} {m : FuncId} (h : t.Declares ty m) :
    ∃ recv, t.receiver? m = .ok (some recv) ∧ t.isAbstract m = .ok false ∧
      (recv = ty ∧ t.hasPointerReceiver m = .ok false ∨
        t.get recv = .ok (.pointer ty) ∧ t.hasPointerReceiver m = .ok true) := by
  obtain ⟨ms, hms, hm⟩ := h
  obtain ⟨recv, hrecv, hself, hptr, hiface⟩ := w.attached hms hm
  have habs := isAbstract_eq hrecv
  have hmode := hasPointerReceiver_eq hrecv
  rcases hself with rfl | hget
  · exact ⟨recv, hrecv, habs.trans hiface, .inl ⟨rfl, hmode.trans hptr⟩⟩
  · have hu := underlyingTy_plain hget rfl
    exact ⟨recv, hrecv, habs.trans (isInterface_eq hu), .inr ⟨hget, hmode.trans (isPointer_eq hu)⟩⟩

end WellFormed

/-- **A table that grows keeps the method sets**, if its methods have signatures. -/
theorem Grown.methodSet_of_sound (g : Grown t t') (hs : t.Sound) (hm : t.MethodsTyped)
    {recv : TypeId} (hrecv : t.Holds recv) : t'.methodSet recv = t.methodSet recv := by
  obtain ⟨sels, hsels, hsorted, hmem⟩ := hs.exists_methodSet hm hrecv
  obtain ⟨sels', hsels', hsorted', hmem'⟩ :=
    (g.sound hs).exists_methodSet (g.methodsTyped hs hm) (g.holds hrecv)
  have hpromotes : ∀ key sel, t'.Promotes recv key sel ↔ t.Promotes recv key sel := by
    intro key sel
    obtain ⟨base, isPtr, hstrip, hbase, -⟩ := hs.exists_stripPointer hrecv
    obtain ⟨u, hu⟩ := hs.exists_underlyingTy hbase
    rw [promotes_iff_chosen hstrip hu,
      promotes_iff_chosen (g.stripPointer hstrip) (g.underlyingTy hu), g.chosen_iff hs hm hbase]
  -- both lists have the same members in the same order
  have hsame : ∀ sel, sel ∈ sels' ↔ sel ∈ sels := by
    intro sel
    rw [hmem, hmem']
    exact exists_congr fun key => hpromotes key sel
  simp only [g.idOf] at hsorted'
  rw [hsels, hsels', eq_of_pairwise_lt hsorted' hsorted hsame]

theorem Grown.methodSet (g : Grown t t') (w : t.WellFormed) {recv : TypeId}
    (hrecv : t.Holds recv) : t'.methodSet recv = t.methodSet recv :=
  g.methodSet_of_sound w.sound w.methodsTyped hrecv

end TypeTable

end MethodSSA
