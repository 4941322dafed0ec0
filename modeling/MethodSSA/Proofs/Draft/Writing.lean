import MethodSSA.Proofs.Draft.Typing

/-!
# What the steps of a draft write

Step by step from the smallest: each emits fitting instructions only, and a converted value is of
exactly the type that was asked for (`convert_writes`).

A conversion boxes typed values only: an untyped one takes its default type first. The untyped
`nil` has none and is told by its own type, so that a declared type with `nil` underneath would
be missed. No declared type of a **firm** table is untyped underneath
(`TypeTable.Firm.of_untyped`), and a table stays firm while its declarations do not change.
-/

namespace MethodSSA

open Relation

/-! ## Tables in which only constants are untyped -/

/-- The basic kinds stand at their places, and every declared type has an underlying type,
which is not untyped. -/
structure TypeTable.Firm (t : TypeTable) : Prop where
  basics : ∀ k, t.get (basic k) = .ok (.basic k)
  declared : ∀ d ∈ t.decls, ∃ ty, t.get d.underlying = .ok ty ∧
    ∀ k, ty = .basic k → k.isUntyped = false

namespace TypeTable

variable {t t' : TypeTable}

/-- A table of declared types none of which has an untyped underlying type. -/
theorem Indexed.firm (h : t.Indexed)
    (htyped : ∀ d ∈ t.decls, ∀ k, t.get d.underlying = .ok (.basic k) → k.isUntyped = false) :
    t.Firm := by
  refine ⟨h.basics, fun d hd => ?_⟩
  obtain ⟨ty, hty⟩ := exists_get_iff.mpr (h.underlying d hd)
  refine ⟨ty, hty, ?_⟩
  rintro k rfl
  exact htyped d hd k hty

/-- An underlying type is that of a declaration, or the type itself. -/
theorem of_underlying {id u : TypeId} (h : t.underlying id = .ok u) :
    u = id ∨ ∃ d ∈ t.decls, d.underlying = u := by
  obtain ⟨ty, hty, hu⟩ := bind_eq_ok_iff.mp h
  cases ty with
  | named n =>
    obtain ⟨d, hd, ⟨⟩⟩ := bind_eq_ok_iff.mp hu
    exact .inr ⟨d, List.mem_of_getElem? (entry_eq_ok_iff.mp hd), rfl⟩
  | _ =>
    cases hu
    exact .inl rfl

theorem of_isBasic {id : TypeId} {cls : Kind → Bool} (h : t.isBasic id cls = .ok true) :
    ∃ k, t.underlyingTy id = .ok (.basic k) ∧ cls k = true := by
  obtain ⟨ty, hty, hcls⟩ := bind_eq_ok_iff.mp h
  cases ty with
  | basic k => exact ⟨k, hty, Except.ok.inj hcls⟩
  | _ => cases hcls

theorem of_isPointer {id : TypeId} (h : t.isPointer id = .ok true) :
    ∃ elem, t.underlyingTy id = .ok (.pointer elem) := by
  obtain ⟨ty, hty, hptr⟩ := bind_eq_ok_iff.mp h
  cases ty with
  | pointer elem => exact ⟨elem, hty⟩
  | _ => cases hptr

theorem deref_of_not_isPointer {id : TypeId} (h : t.isPointer id = .ok false) :
    t.deref id = .ok id := by
  obtain ⟨ty, hty, hptr⟩ := bind_eq_ok_iff.mp h
  rw [deref_eq hty]
  cases ty with
  | pointer elem => cases hptr
  | _ => rfl

namespace Firm

variable (h : t.Firm)
include h

theorem extended (ht : t.Extended t') (hdecls : t'.decls = t.decls) : t'.Firm := by
  refine ⟨fun k => ht.get (h.basics k), fun d hd => ?_⟩
  obtain ⟨ty, hty, htyped⟩ := h.declared d (hdecls ▸ hd)
  exact ⟨ty, ht.get hty, htyped⟩

theorem underlyingTy_basic (k : Kind) : t.underlyingTy (basic k) = .ok (.basic k) :=
  underlyingTy_plain (h.basics k) rfl

theorem underlying_basic (k : Kind) : t.underlying (basic k) = .ok (basic k) :=
  underlying_plain (h.basics k) rfl

theorem isInterface_basic (k : Kind) : t.isInterface (basic k) = .ok false :=
  isInterface_eq (h.underlyingTy_basic k)

theorem isBasic_basic (k : Kind) (cls : Kind → Bool) : t.isBasic (basic k) cls = .ok (cls k) := by
  simp [isBasic, h.underlyingTy_basic k, Ty.kind?]

/-- **Only basic types are untyped.** -/
theorem of_untyped {id u : TypeId} (hu : t.underlying id = .ok u)
    (huntyped : t.isBasic u Kind.isUntyped = .ok true) :
    u = id ∧ ∃ k, t.get id = .ok (.basic k) ∧ k.isUntyped = true := by
  obtain ⟨k, huk, hkind⟩ := of_isBasic huntyped
  obtain ⟨uu, huu, hk⟩ := bind_eq_ok_iff.mp huk
  -- no declaration leads to an untyped type
  have hno : ¬ ∃ d ∈ t.decls, t.get d.underlying = .ok (.basic k) := by
    rintro ⟨d, hd, hget⟩
    obtain ⟨ty, hty, htyped⟩ := h.declared d hd
    cases hget.symm.trans hty
    rw [htyped k rfl] at hkind
    cases hkind
  rcases of_underlying huu with rfl | ⟨d, hd, rfl⟩
  · rcases of_underlying hu with rfl | ⟨d, hd, rfl⟩
    · exact ⟨rfl, k, hk, hkind⟩
    · exact absurd ⟨d, hd, hk⟩ hno
  · exact absurd ⟨d, hd, hk⟩ hno

end Firm

end TypeTable

namespace Builder

variable {b b' : Builder} {c : Command}

/-- What conversions rely on: only constants are untyped, and named results are variables. -/
structure Grounded (b : Builder) : Prop where
  firm : b.types.Firm
  named : ∀ v ∈ b.func.namedResults, b.IsAddress v

theorem Onward.grounded (h : Onward c b b') (g : b.Grounded) : b'.Grounded := by
  refine ⟨g.firm.extended h.types h.decls, fun v hv => ?_⟩
  rcases h.named v hv with hv | hv
  · exact h.isAddress (g.named v hv)
  · exact hv

/-! ## Small steps -/

theorem intern_writes (ty : Ty) :
    Writes c (intern ty) b fun id b' => b'.types.get id = .ok ty := by
  intro id b' hrun
  cases hrun
  exact ⟨.quiet (.intern _ ty) List.prefix_rfl rfl rfl rfl, TypeTable.get_intern b.types ty⟩

theorem constant_writes (lit : Literal) (ty : TypeId) :
    Writes c (constant lit ty) b fun v b' => b'.func.valueType v = .ok ty := by
  intro v b' hrun
  cases hrun
  refine ⟨.quiet (.refl _) (List.prefix_append _ _) rfl rfl rfl, ?_⟩
  exact bind_eq_ok_iff.mpr ⟨_, entry_eq_ok_iff.mpr List.getElem?_concat_length, rfl⟩

/-- Changes of a draft beside its values, named results and instructions. -/
theorem amend_writes {step : Function → Function} (hvalues : (step b.func).values = b.func.values)
    (hsig : (step b.func).signature = b.func.signature)
    (hnamed : (step b.func).namedResults = b.func.namedResults)
    (hinstrs : (step b.func).instrs = b.func.instrs) :
    Writes c (amend step) b fun _ _ => True := by
  intro u b' hrun
  cases hrun
  have hprefix : b.func.values <+: (step b.func).values := hvalues ▸ List.prefix_rfl
  exact ⟨.quiet (.refl _) hprefix hsig hnamed hinstrs, trivial⟩

theorem emitAt_writes {op : Operation} (hfit : Fitting b.types b.func c op none)
    (pos : SourcePos) : Writes c (emitAt op pos) b fun _ _ => True := by
  intro i b' hrun
  obtain ⟨block, hopen, hrun⟩ := of_openBlock_bind hrun
  cases hrun
  have hvalues : b.func.values <+: (b.func.addStep block op pos).2.values := List.prefix_rfl
  refine ⟨⟨.refl _, rfl, hvalues, rfl, fun v hv => .inl hv, [_], rfl, ?_⟩, trivial⟩
  intro i hi
  rw [List.mem_singleton.mp hi]
  exact .step rfl (hfit.later (.refl _) hvalues rfl)

theorem emitValueAt_writes {op : Operation} {ty : TypeId}
    (hfit : Fitting b.types b.func c op (some ty)) (pos : SourcePos) :
    Writes c (emitValueAt op ty pos) b fun v b' => b'.func.valueType v = .ok ty := by
  intro v b' hrun
  obtain ⟨block, hopen, hrun⟩ := of_openBlock_bind hrun
  cases hrun
  have hvalues : b.func.values <+: (b.func.addDefinition block op ty pos).2.values :=
    List.prefix_append _ _
  have hty : (b.func.addDefinition block op ty pos).2.valueType ⟨b.func.values.length⟩ = .ok ty :=
    bind_eq_ok_iff.mpr ⟨_, entry_eq_ok_iff.mpr List.getElem?_concat_length, rfl⟩
  refine ⟨⟨.refl _, rfl, hvalues, rfl, fun v hv => .inl hv, [_], rfl, ?_⟩, hty⟩
  intro i hi
  rw [List.mem_singleton.mp hi]
  exact .definition rfl hty (hfit.later (.refl _) hvalues rfl)

theorem emit_writes {op : Operation} (hfit : Fitting b.types b.func c op none) :
    Writes c (emit op) b fun _ _ => True := emitAt_writes hfit .none

theorem emitValue_writes {op : Operation} {ty : TypeId}
    (hfit : Fitting b.types b.func c op (some ty)) :
    Writes c (emitValue op ty) b fun v b' => b'.func.valueType v = .ok ty :=
  emitValueAt_writes hfit .none

/-! ## Variables -/

theorem isAddress_of_get {v : ValueId} {ptr elem : TypeId} (hv : b.func.valueType v = .ok ptr)
    (hptr : b.types.get ptr = .ok (.pointer elem)) : b.IsAddress v :=
  ⟨ptr, elem, hv, TypeTable.underlyingTy_plain hptr rfl⟩

theorem newHeap_writes (ty : TypeId) : Writes c (newHeap ty) b fun _ _ => True := by
  refine (intern_writes _).bind fun ptr b₁ h₁ hptr => ?_
  exact (emitValue_writes (.alloc true hptr)).mono fun _ _ _ _ => trivial

theorem addLocal_writes (ty : TypeId) :
    Writes c (addLocal ty) b fun addr b' => b'.IsAddress addr := by
  refine (intern_writes _).bind fun ptr b₁ h₁ hptr => ?_
  refine (emitValue_writes (.alloc false hptr)).bind fun addr b₂ h₂ haddr => ?_
  refine (amend_writes rfl rfl rfl rfl).bind fun _ b₃ h₃ _ => .pure ?_
  exact h₃.isAddress (isAddress_of_get haddr (h₂.types.get hptr))

theorem load_writes {addr : ValueId} (haddr : b.IsAddress addr) :
    Writes c (load addr) b fun _ _ => True := by
  obtain ⟨ty, elem, hty, hptr⟩ := haddr
  refine .valueTypeThen fun ty' hty' => .askThen fun elem' helem => ?_
  cases hty.symm.trans hty'
  cases (TypeTable.deref_eq hptr).symm.trans helem
  exact (emitValue_writes (.load hty hptr)).mono fun _ _ _ _ => trivial

/-! ## Conversions -/

/-- A value that no relabelling brings to the target type. -/
def Reshapes (b : Builder) (v : ValueId) (target : TypeId) : Prop :=
  ∃ source us ut, b.func.valueType v = .ok source ∧ b.types.underlying source = .ok us ∧
    b.types.underlying target = .ok ut ∧ b.types.sameRepresentation us ut = .ok false

theorem relabel?_writes (v : ValueId) (target : TypeId) :
    Writes c (relabel? v target) b fun r b' =>
      (∀ w, r = some w → b'.func.valueType w = .ok target) ∧
        (r = none → b' = b ∧ b.Reshapes v target) := by
  refine .valueTypeThen fun source hsource => .ite (fun heq => .pure ?_) fun _ => ?_
  · subst heq
    refine ⟨?_, nofun⟩
    rintro w ⟨⟩
    exact hsource
  refine .askThen fun us hus => .askThen fun ut hut => .askThen fun same hsame => ?_
  refine .ite (fun hs => ?_) fun hs => .pure ⟨nofun, fun _ => ⟨rfl, ?_⟩⟩
  · subst hs
    refine (emitValue_writes (.changeType hsource hus hut hsame)).bind fun w b₁ h₁ hw => .pure ?_
    refine ⟨?_, nofun⟩
    rintro _ ⟨⟩
    exact hw
  · rw [Bool.not_eq_true] at hs
    subst hs
    exact ⟨source, us, ut, hsource, hus, hut, hsame⟩

/-- A type that is no interface. -/
def Plain (t : TypeTable) (ty : TypeId) : Prop :=
  ∀ u, t.underlying ty = .ok u → t.isInterface u = .ok false

theorem reshape_writes {v : ValueId} {target : TypeId} (h : b.Reshapes v target)
    (hplain : Plain b.types target) :
    Writes c (reshape v target) b fun w b' => b'.func.valueType w = .ok target := by
  obtain ⟨source, us, ut, hsource, hus, hut, hsame⟩ := h
  refine .valueThen fun x hx => ?_
  rcases hlit : x.literal? with _ | lit
  · have hconst : x.isConst = false := by rw [Value.isConst, hlit]; rfl
    exact emitValue_writes (.convert hsource hx hconst hus hut hsame (hplain ut hut))
  · exact constant_writes lit target

theorem convertPlain_writes {v : ValueId} {target : TypeId} (hplain : Plain b.types target) :
    Writes c (convertPlain v target) b fun w b' => b'.func.valueType w = .ok target := by
  refine (relabel?_writes v target).bind fun r b₁ h₁ hr => ?_
  cases r with
  | some w => exact .pure (hr.1 w rfl)
  | none =>
    obtain ⟨rfl, hreshapes⟩ := hr.2 rfl
    exact reshape_writes hreshapes hplain

/-- A value that can be boxed. -/
def Boxable (b : Builder) (v : ValueId) : Prop :=
  ∃ ty u, b.func.valueType v = .ok ty ∧ b.types.underlying ty = .ok u ∧
    b.types.isInterface u = .ok false ∧ b.types.isBasic u Kind.isUntyped = .ok false

/-- **What is settled is not untyped**, unless it is `nil`. -/
theorem settle_writes (firm : b.types.Firm) {v : ValueId} {source us : TypeId} {ty : Ty}
    (hsource : b.func.valueType v = .ok source) (hus : b.types.underlying source = .ok us)
    (hplain : b.types.isInterface us = .ok false) (hty : b.types.get source = .ok ty)
    (hnil : ty.kind? ≠ some .untypedNil) :
    Writes c (settle v) b fun w b' => b'.Boxable w := by
  refine .valueTypeThen fun source' hsource' => .askThen fun us' hus' => .askThen fun q hq => ?_
  cases hsource.symm.trans hsource'
  cases hus.symm.trans hus'
  refine .ite (fun hq' => .askThen fun target htarget => ?_) fun hq' => .pure ?_
  · subst hq'
    obtain ⟨rfl, k, hk, huntyped⟩ := firm.of_untyped hus hq
    cases hty.symm.trans hk
    -- the default of every kind but that of `nil` is typed
    have hdefault : target = TypeTable.basic k.default := by
      obtain ⟨ty', hty', hd⟩ := bind_eq_ok_iff.mp htarget
      cases hty.symm.trans hty'
      exact (Except.ok.inj hd).symm
    subst hdefault
    have htyped : k.default.isUntyped = false := by
      rw [← Bool.not_eq_true, Kind.isUntyped_default]
      rintro rfl
      exact hnil rfl
    refine Writes.mono (convertPlain_writes fun u hu => ?_) fun w b' h' hw => ?_
    · cases (firm.underlying_basic k.default).symm.trans hu
      exact firm.isInterface_basic k.default
    · have firm := firm.extended h'.types h'.decls
      have hbasic := firm.isBasic_basic k.default Kind.isUntyped
      rw [htyped] at hbasic
      exact ⟨_, _, hw, firm.underlying_basic _, firm.isInterface_basic _, hbasic⟩
  · rw [Bool.not_eq_true] at hq'
    subst hq'
    exact ⟨source, us, hsource, hus, hplain, hq⟩

theorem needMethods_writes (ty : TypeId) : Writes c (needMethods ty) b fun _ _ => True := by
  intro u b' hrun
  cases hrun
  exact ⟨.quiet (.refl _) List.prefix_rfl rfl rfl rfl, trivial⟩

theorem box_writes (g : b.Grounded) {v : ValueId} {target ut : TypeId}
    (hut : b.types.underlying target = .ok ut) (hit : b.types.isInterface ut = .ok true) :
    Writes c (box v target) b fun w b' => b'.func.valueType w = .ok target := by
  refine .valueTypeThen fun source hsource => .askThen fun us hus => .askThen fun i hi => ?_
  refine .ite (fun hi' => ?_) fun hi' => .askThen fun ty hty => ?_
  · subst hi'
    exact emitValue_writes (.changeInterface hsource hus hut hi hit)
  rw [Bool.not_eq_true] at hi'
  subst hi'
  refine .ite (fun _ => constant_writes .nil target) fun hnil => ?_
  refine (settle_writes g.firm hsource hus hi hty hnil).bind fun w b₁ h₁ hw => ?_
  obtain ⟨wt, wu, hwt, hwu, hwi, hwb⟩ := hw
  refine .valueTypeThen fun wt' hwt' => (needMethods_writes wt').bind fun _ b₂ h₂ _ => ?_
  exact emitValue_writes (.makeInterface (h₂.valueType hwt) (h₂.types.underlying hwu)
    (h₂.types.underlying (h₁.types.underlying hut)) (h₂.types.isInterface hwi)
    (h₂.types.isBasic hwb) (h₂.types.isInterface (h₁.types.isInterface hit)))

/-- **A converted value is of exactly the target type.** -/
theorem convert_writes (g : b.Grounded) (v : ValueId) (target : TypeId) :
    Writes c (convert v target) b fun w b' => b'.func.valueType w = .ok target := by
  refine (relabel?_writes v target).bind fun r b₁ h₁ hr => ?_
  cases r with
  | some w => exact .pure (hr.1 w rfl)
  | none =>
    obtain ⟨rfl, hreshapes⟩ := hr.2 rfl
    refine .askThen fun ut hut => .askThen fun i hi => .ite (fun hi' => ?_) fun hi' => ?_
    · subst hi'
      exact box_writes g hut hi
    · rw [Bool.not_eq_true] at hi'
      subst hi'
      refine reshape_writes hreshapes fun u hu => ?_
      cases hut.symm.trans hu
      exact hi

theorem store_writes (g : b.Grounded) {addr : ValueId} (haddr : b.IsAddress addr) (v : ValueId) :
    Writes c (store addr v) b fun _ _ => True := by
  obtain ⟨ty, elem, hty, hptr⟩ := haddr
  refine .valueTypeThen fun ty' hty' => .askThen fun elem' helem => ?_
  cases hty.symm.trans hty'
  cases (TypeTable.deref_eq hptr).symm.trans helem
  refine (convert_writes g v elem).bind fun w b₁ h₁ hw => ?_
  exact emit_writes (.store (h₁.valueType hty) (h₁.types.underlyingTy hptr) hw)

theorem spill_writes (g : b.Grounded) (param : ValueId) :
    Writes c (spill param) b fun _ _ => True := by
  refine .valueTypeThen fun ty _ => (addLocal_writes ty).bind fun addr b₁ h₁ haddr => ?_
  exact (store_writes (h₁.grounded g) haddr param).bind fun _ _ _ _ => .pure trivial

/-! ## Operators -/

theorem shiftCount_writes (g : b.Grounded) (y : ValueId) :
    Writes c (shiftCount y) b fun w b' => ∃ yt, b'.func.valueType w = .ok yt ∧
      (yt = TypeTable.basic .uint64 ∨ b'.types.isBasic yt (!·.isUnsigned) = .ok false) := by
  refine .valueTypeThen fun yt hyt => .askThen fun q hq => .ite (fun _ => ?_) fun hq' => .pure ?_
  · exact (convert_writes g y _).mono fun w b' _ hw => ⟨_, hw, .inl rfl⟩
  · rw [Bool.not_eq_true] at hq'
    subst hq'
    exact ⟨yt, hyt, .inr hq⟩

theorem arith_writes (g : b.Grounded) (op : Operator) (x y : ValueId) (ty : TypeId) :
    WritesTry (.arith op x y ty) (arith op x y ty) b fun _ _ => True := by
  refine .ite (fun hshift => ?_) fun _ => .ite (fun harith => ?_) fun _ => .fail _
  · refine .liftThen (convert_writes g x ty) fun x' b₁ h₁ hx => ?_
    refine .liftThen (shiftCount_writes (h₁.grounded g) y) fun y' b₂ h₂ hy => ?_
    obtain ⟨yt, hyt, hcount⟩ := hy
    refine .lift ((emitValue_writes ?_).mono fun _ _ _ _ => trivial)
    exact .shift rfl hshift (h₂.valueType hx) hyt hcount
  · refine .liftThen (convert_writes g x ty) fun x' b₁ h₁ hx => ?_
    refine .liftThen (convert_writes (h₁.grounded g) y ty) fun y' b₂ h₂ hy => ?_
    refine .lift ((emitValue_writes ?_).mono fun _ _ _ _ => trivial)
    exact .arithmetic rfl harith (h₂.valueType hx) hy

theorem absorbs_writes (known other : ValueId) :
    Writes c (absorbs known other) b fun _ _ => True := by
  refine .valueTypeThen fun ty _ => .getThen (.ite (fun _ => ?_) fun _ => .pure trivial)
  intro q b' hrun
  obtain ⟨-, rfl⟩ := of_ask hrun
  exact ⟨.refl b, trivial⟩

theorem matchOperands_writes (g : b.Grounded) (x y : ValueId) :
    Writes c (matchOperands x y) b fun p b' => Matched b'.types b'.func x y p.1 p.2 := by
  refine .valueTypeThen fun xt hxt => .valueTypeThen fun yt hyt => .askThen fun ux hux =>
    .askThen fun uy huy => .ite (fun heq => .pure ?_) fun _ => ?_
  · subst heq
    exact .alike (.inl rfl) hxt hyt hux huy
  have hright : Writes c (do return (x, ← convert y xt)) b
      fun p b' => Matched b'.types b'.func x y p.1 p.2 :=
    (convert_writes g y xt).bind fun y' b₁ h₁ hy' =>
      .pure (.alike (.inl rfl) (h₁.valueType hxt) hy' (h₁.types.underlying hux)
        (h₁.types.underlying hux))
  have hleft : Writes c (do return (← convert x yt, y)) b
      fun p b' => Matched b'.types b'.func x y p.1 p.2 :=
    (convert_writes g x yt).bind fun x' b₁ h₁ hx' =>
      .pure (.alike (.inr rfl) hx' (h₁.valueType hyt) (h₁.types.underlying huy)
        (h₁.types.underlying huy))
  refine .askThen fun ix hix => .ite (fun _ => hright) fun hix' => ?_
  refine .askThen fun iy hiy => .ite (fun _ => hleft) fun hiy' => ?_
  refine .valueThen fun vx hvx => .ite (fun _ => hleft) fun hcx => ?_
  refine .valueThen fun vy hvy => .ite (fun _ => hright) fun hcy => .pure ?_
  rw [Bool.not_eq_true] at hix' hiy' hcx hcy
  subst hix' hiy'
  exact .apart hxt hyt hux huy hix hiy hvx hvy hcx hcy

theorem compare_writes (g : b.Grounded) (op : Operator) (x y : ValueId) :
    Writes (.compare op x y) (compare op x y) b fun _ _ => True := by
  have hrest {b₁ : Builder} (g₁ : b₁.Grounded) :
      Writes (.compare op x y) (matchOperands x y >>= fun operands =>
        emitValue (.binary op operands.1 operands.2) TypeTable.boolean) b₁ fun _ _ => True := by
    refine (matchOperands_writes g₁ x y).bind fun p b₂ h₂ hp => ?_
    exact (emitValue_writes (.comparison rfl hp)).mono fun _ _ _ _ => trivial
  refine .valueTypeThen fun _ _ => .valueTypeThen fun _ _ =>
    .ite (fun _ => ?_) fun _ => hrest g
  refine (absorbs_writes x y).bind fun _ b₁ h₁ _ => .ite (fun _ => .pure trivial) fun _ => ?_
  refine (absorbs_writes y x).bind fun _ b₂ h₂ _ => .ite (fun _ => .pure trivial) fun _ => ?_
  exact hrest (h₂.grounded (h₁.grounded g))

/-! ## Fields -/

/-- The struct `v`, or the one that `v` points to, has the field. -/
def HasField (b : Builder) (v : ValueId) (index : Nat) (field : Field) : Prop :=
  ∃ ty base fields, b.func.valueType v = .ok ty ∧ b.types.deref ty = .ok base ∧
    b.types.underlyingTy base = .ok (.struct fields) ∧ fields[index]? = some field

theorem fieldOf_writes (v : ValueId) (index : Nat) :
    WritesTry c (fieldOf v index) b fun field b' => b' = b ∧ b.HasField v index field := by
  refine .valueTypeThen fun ty hty => .askThen fun fields? hfields => ?_
  cases fields? with
  | none => exact .askThen fun text _ => .fail _
  | some fields =>
    obtain ⟨base, hbase, hfields⟩ := bind_eq_ok_iff.mp hfields
    obtain ⟨u, hu, hstruct⟩ := bind_eq_ok_iff.mp hfields
    have hu' : u = .struct fields := by
      cases u <;> cases hstruct
      rfl
    subst hu'
    simp only
    rcases hfield : fields[index]? with _ | field
    · exact .askThen fun text _ => .fail _
    · exact .pure ⟨rfl, ty, base, fields, hty, hbase, hu, hfield⟩

theorem fieldAddr_writes {v : ValueId} {index : Nat} {field : Field} {ty : TypeId}
    (h : b.HasField v index field) (hty : b.func.valueType v = .ok ty)
    (hptr : b.types.isPointer ty = .ok true) :
    Writes c (fieldAddr v index field) b fun addr b' => b'.IsAddress addr := by
  obtain ⟨ty', base, fields, hty', hbase, hstruct, hfield⟩ := h
  cases hty.symm.trans hty'
  obtain ⟨elem, helem⟩ := TypeTable.of_isPointer hptr
  cases (TypeTable.deref_eq helem).symm.trans hbase
  refine (intern_writes _).bind fun ptr b₁ h₁ hptr => ?_
  refine (emitValue_writes (.fieldAddr (h₁.valueType hty) (h₁.types.underlyingTy helem)
    (h₁.types.underlyingTy hstruct) hfield hptr)).mono fun addr b₂ h₂ haddr => ?_
  exact isAddress_of_get haddr (h₂.types.get hptr)

theorem emitField_writes {v : ValueId} {index : Nat} {field : Field} {ty : TypeId}
    (h : b.HasField v index field) (hty : b.func.valueType v = .ok ty)
    (hptr : b.types.isPointer ty = .ok false) :
    Writes c (emitValue (.field v index) field.ty) b fun _ _ => True := by
  obtain ⟨ty', base, fields, hty', hbase, hstruct, hfield⟩ := h
  cases hty.symm.trans hty'
  cases (TypeTable.deref_of_not_isPointer hptr).symm.trans hbase
  exact (emitValue_writes (.field hty hstruct hfield)).mono fun _ _ _ _ => trivial

theorem selectField_writes (v : ValueId) (index : Nat) (wantAddr : Bool) :
    WritesTry c (selectField v index wantAddr) b fun _ _ => True := by
  refine .andThen (fieldOf_writes v index) fun field b' _ hfield => ?_
  obtain ⟨rfl, hfield⟩ := hfield
  refine .valueTypeThen fun ty hty => .askThen fun q hq => .ite (fun hq' => ?_) fun hq' => ?_
  · subst hq'
    refine .liftThen (fieldAddr_writes hfield hty hq) fun addr b₁ _ haddr => ?_
    exact .ite (fun _ => .pure trivial) fun _ => .lift (load_writes haddr)
  · rw [Bool.not_eq_true] at hq'
    subst hq'
    exact .lift (emitField_writes hfield hty hq)

theorem followField_writes (v : ValueId) (index : Nat) :
    WritesTry c (followField v index) b fun _ _ => True := by
  refine .andThen (fieldOf_writes v index) fun field b' _ hfield => ?_
  obtain ⟨rfl, hfield⟩ := hfield
  refine .valueTypeThen fun ty hty => .askThen fun q hq => .ite (fun hq' => ?_) fun hq' => ?_
  · subst hq'
    refine .liftThen (fieldAddr_writes hfield hty hq) fun addr b₁ _ haddr => ?_
    exact .askThen fun _ _ => .ite (fun _ => .lift (load_writes haddr)) fun _ => .pure trivial
  · rw [Bool.not_eq_true] at hq'
    subst hq'
    exact .lift (emitField_writes hfield hty hq)

theorem followPath_writes (path : List Nat) (v : ValueId) :
    WritesTry c (followPath v path) b fun _ _ => True := by
  induction path generalizing v b with
  | nil => exact .pure trivial
  | cons index path ih => exact .andThen (followField_writes v index) fun w b' _ _ => ih w

/-! ## Calls, type tests and marks -/

theorem extract_writes (tuple : ValueId) (index : Nat) :
    Writes c (extract tuple index) b fun _ _ => True := by
  refine .valueTypeThen fun ty hty => .askThen fun u hu => ?_
  cases u with
  | tuple vars =>
    refine .answerThen fun var hvar => ?_
    exact (emitValue_writes (.extract hty hu (entry_eq_ok_iff.mp hvar))).mono
      fun _ _ _ _ => trivial
  | _ => exact .throw _

theorem typeAssert_writes (x : ValueId) (ty : TypeId) (pos : SourcePos) :
    Writes c (typeAssert x ty pos) b fun _ _ => True :=
  (emitValueAt_writes (.typeAssert x ty) pos).mono fun _ _ _ _ => trivial

theorem typeTest_writes (x : ValueId) (ty : TypeId) (pos : SourcePos) :
    Writes c (typeTest x ty pos) b fun _ _ => True := by
  refine (intern_writes _).bind fun tuple b₁ h₁ htuple => ?_
  exact (emitValueAt_writes (.typeTest x ty htuple) pos).mono fun _ _ _ _ => trivial

theorem debugRef_writes (x : ValueId) (pos : SourcePos) (isAddr : Bool) :
    Writes c (debugRef x pos isAddr) b fun _ _ => True := by
  refine .getThen (.ite (fun _ => ?_) fun _ => .pure trivial)
  exact (emit_writes (.debugRef x pos isAddr)).bind fun _ _ _ _ => .pure trivial

theorem close_writes (term : Terminator) : Writes c (close term) b fun _ _ => True := by
  intro u b' hrun
  obtain ⟨block, hopen, -, rfl⟩ := of_close hrun
  rw [Function.closeBlock_eq]
  exact ⟨.quiet (.refl _) List.prefix_rfl rfl rfl rfl, trivial⟩

theorem tailCall_writes (call : Call) : Writes c (tailCall call) b fun _ _ => True := by
  refine .ownSignatureThen fun sig hsig => ?_
  simp only
  split
  · next hnone =>
    refine (emit_writes (.callNone call hsig hnone)).bind fun _ _ _ _ => close_writes _
  · next r hone =>
    exact (emitValue_writes (.callOne call hsig hone)).bind fun _ _ _ _ => close_writes _
  · next hnone hone =>
    have hmany : 2 ≤ sig.results.length := by
      rcases hresults : sig.results with _ | ⟨r, _ | ⟨s, more⟩⟩
      · exact absurd hresults hnone
      · exact absurd hresults (hone r)
      · simp
    refine (intern_writes _).bind fun ty b₁ h₁ hty => ?_
    have hsig₁ : b₁.types.signatureOf b₁.func.signature = .ok sig :=
      h₁.signature ▸ h₁.types.signatureOf hsig
    refine (emitValue_writes (.callTuple call hsig₁ hmany hty)).bind fun tuple b₂ h₂ _ => ?_
    exact (Writes.mapMAll (fun _ _ => extract_writes tuple _) _).bind fun _ _ _ _ =>
      close_writes _

/-! ## Zero values and the recovery block -/

theorem zeroConst_writes (ty : TypeId) : Writes c (zeroConst ty) b fun _ _ => True :=
  .askThen fun u _ => (constant_writes u.zero ty).mono fun _ _ _ _ => trivial

theorem zeroValue_writes (ty : TypeId) : Writes c (zeroValue ty) b fun _ _ => True := by
  refine .askThen fun u _ => .ite (fun _ => ?_) fun _ => zeroConst_writes ty
  exact (addLocal_writes ty).bind fun addr b₁ _ haddr => load_writes haddr

theorem recoveredResults_writes (g : b.Grounded) :
    Writes c recoveredResults b fun _ _ => True := by
  refine .getThen (.ite (fun _ => .ownSignatureThen fun sig _ => ?_) fun _ => ?_)
  · exact .mapMAll (fun _ _ => zeroValue_writes _) _
  · exact .mapM (P := fun v b => b.IsAddress v) (fun hv h => h.isAddress hv) load_writes _ g.named

theorem newBlock_writes (label : String) : Writes c (newBlock label) b fun _ _ => True := by
  intro block b' hrun
  cases hrun
  exact ⟨.quiet (.refl _) List.prefix_rfl rfl rfl rfl, trivial⟩

theorem setCurrent_writes (block : BlockId) : Writes c (setCurrent block) b fun _ _ => True := by
  intro u b' hrun
  obtain ⟨stored, -, -, rfl⟩ := of_setCurrent hrun
  exact ⟨.quiet (.refl _) List.prefix_rfl rfl rfl rfl, trivial⟩

theorem recoveryBlock_writes (g : b.Grounded) : Writes c recoveryBlock b fun _ _ => True := by
  refine .getThen ?_
  rcases b.func.recover with _ | block
  · refine .getThen ((newBlock_writes "recover").bind fun block b₁ h₁ _ => ?_)
    have hopened (b₁ : Builder) (block : BlockId) : Writes c (modify fun b => { b with
        func := { b.func with recover := some block }, current := some block } : Build Unit) b₁
        fun _ _ => True := by
      intro u b' hrun
      cases hrun
      exact ⟨.quiet (.refl _) List.prefix_rfl rfl rfl rfl, trivial⟩
    refine (hopened b₁ block).bind fun _ b₂ h₂ _ => ?_
    refine (recoveredResults_writes (h₂.grounded (h₁.grounded g))).bind fun vs b₃ h₃ _ => ?_
    refine (close_writes _).bind fun _ b₄ h₄ _ => ?_
    intro block' b' hrun
    cases hrun
    exact ⟨.quiet (.refl _) List.prefix_rfl rfl rfl rfl, trivial⟩
  · exact .pure trivial

/-! ## Parameters and named results -/

theorem addParam_writes (name : String) (ty : TypeId) :
    Writes c (addParam name ty) b fun _ _ => True := by
  intro v b' hrun
  cases hrun
  exact ⟨.quiet (.refl _) (List.prefix_append _ _) rfl rfl rfl, trivial⟩

theorem addFreeVar_writes (name : String) (ty : TypeId) :
    Writes c (addFreeVar name ty) b fun _ _ => True := by
  intro v b' hrun
  cases hrun
  exact ⟨.quiet (.refl _) (List.prefix_append _ _) rfl rfl rfl, trivial⟩

theorem addFormals_writes : Writes c addFormals b fun _ _ => True := by
  refine .ownSignatureThen fun sig _ => ?_
  refine .mapMAll (fun p b => ?_) _
  refine .ite (fun _ => ?_) fun _ => addParam_writes p.1.name p.1.ty
  exact (intern_writes _).bind fun ty _ _ _ => addParam_writes p.1.name ty

theorem constTrue_writes : Writes c constTrue b fun _ _ => True := by
  refine .getThen ?_
  rcases b.trueConst with _ | v
  · refine (constant_writes _ _).bind fun v b₁ _ _ => ?_
    intro v' b' hrun
    cases hrun
    exact ⟨.quiet (.refl _) List.prefix_rfl rfl rfl rfl, trivial⟩
  · exact .pure trivial

theorem addNamedResult_writes (r : Var) : Writes c (addNamedResult r) b fun _ _ => True := by
  refine (addLocal_writes r.ty).bind fun addr b₁ _ haddr => ?_
  intro u b' hrun
  cases hrun
  refine ⟨⟨.refl _, rfl, List.prefix_rfl, rfl, fun v hv => ?_, [], ?_, nofun⟩, trivial⟩
  · rcases List.mem_append.mp hv with hv | hv
    · exact .inl hv
    · rw [List.mem_singleton.mp hv]
      exact .inr haddr
  · exact (List.append_nil _).symm

theorem addNamedResults_writes : Writes c addNamedResults b fun _ _ => True := by
  refine .getThen (.ite (fun _ => ?_) fun _ => .getThen (.pure trivial))
  refine .ownSignatureThen fun sig _ => ?_
  exact (Writes.forM (fun r _ => addNamedResult_writes r) _).bind fun _ _ _ _ =>
    .getThen (.pure trivial)

end Builder

end MethodSSA
