import MethodSSA.Proofs.Draft.Appending
import MethodSSA.Proofs.Draft.WellTyped

/-!
# Conversion, case by case

What `convert` does is decided in order: by the two types, by their underlying types, and by
whether the value is a constant. `Conversion` lists the cases, each with all that it changes
in the draft, and the cases exclude each other. Wherever the types are those of a table in
which only basic types are untyped, one of them applies; so a conversion always ends, with a
value of exactly the target type, which is not converted again (`convert_exact`).
-/

namespace MethodSSA

namespace TypeTable

variable {t : TypeTable}

/-- A type is represented like itself. -/
theorem sameRepresentation_self (ty : TypeId) : t.sameRepresentation ty ty = .ok true := by
  rw [sameRepresentation, if_pos rfl]
  rfl

/-- Types that are not represented alike are different. -/
theorem ne_of_sameRepresentation {source target us ut : TypeId} (hus : t.underlying source = .ok us)
    (hut : t.underlying target = .ok ut) (h : t.sameRepresentation us ut = .ok false) :
    source ≠ target := by
  rintro rfl
  cases hus.symm.trans hut
  cases (sameRepresentation_self us).symm.trans h

/-- Types that are both in the table are represented alike or not. -/
theorem exists_sameRepresentation {a b : TypeId} (ha : t.Holds a) (hb : t.Holds b) :
    ∃ same, t.sameRepresentation a b = .ok same := by
  obtain ⟨x, hx⟩ := exists_get_iff.mpr ha
  obtain ⟨y, hy⟩ := exists_get_iff.mpr hb
  rw [sameRepresentation]
  split
  · exact ⟨true, rfl⟩
  · rw [hx, hy]
    exact ⟨_, rfl⟩

/-- A basic type is represented like itself only. -/
theorem sameRepresentation_basic {a b : TypeId} {k : Kind} {ty : Ty} (ha : t.get a = .ok (.basic k))
    (hb : t.get b = .ok ty) (hne : a ≠ b) : t.sameRepresentation a b = .ok false := by
  rw [sameRepresentation, if_neg hne, ha, hb]
  rfl

namespace Indexed

variable (hx : t.Indexed)
include hx

theorem exists_underlyingTy {id : TypeId} (h : t.Holds id) : ∃ ty, t.underlyingTy id = .ok ty := by
  obtain ⟨u, hu, hheld⟩ := hx.exists_underlying h
  obtain ⟨ty, hty⟩ := exists_get_iff.mpr hheld
  exact ⟨ty, bind_eq_ok_iff.mpr ⟨u, hu, hty⟩⟩

/-- It is known of every type whether it is an interface type. -/
theorem exists_isInterface {id : TypeId} (h : t.Holds id) : ∃ q, t.isInterface id = .ok q := by
  obtain ⟨ty, hty⟩ := hx.exists_underlyingTy h
  exact ⟨_, isInterface_eq hty⟩

theorem exists_isBasic {id : TypeId} (cls : Kind → Bool) (h : t.Holds id) :
    ∃ q, t.isBasic id cls = .ok q := by
  obtain ⟨ty, hty⟩ := hx.exists_underlyingTy h
  exact ⟨_, bind_eq_ok_iff.mpr ⟨ty, hty, rfl⟩⟩

end Indexed

end TypeTable

namespace Builder

variable {α β : Type} {b b' : Builder} {block : BlockId} {v w : ValueId} {x : Value}
  {target us ut : TypeId}

/-! ## Drafts with one thing more -/

/-- The value that is made next. -/
def next (b : Builder) : ValueId := ⟨b.func.values.length⟩

/-- The draft with a constant more. -/
def withConstant (b : Builder) (lit : Literal) (ty : TypeId) : Builder :=
  { b with func := (b.func.addValue ⟨ty, .const lit⟩).2 }

/-- The draft with an instruction more, which defines a value, at the end of a block. -/
def withDefinition (b : Builder) (block : BlockId) (op : Operation) (ty : TypeId) : Builder :=
  { b with func := (b.func.addDefinition block op ty .none).2 }

/-- The draft in whose workspace it is noted that values of a type are boxed. -/
def withBoxed (b : Builder) (ty : TypeId) : Builder :=
  { b with toWorkspace := b.toWorkspace.needMethods ty }

theorem value_withConstant (lit : Literal) (ty : TypeId) :
    (b.withConstant lit ty).func.value b.next = .ok ⟨ty, .const lit⟩ :=
  entry_eq_ok_iff.mpr List.getElem?_concat_length

theorem value_withDefinition (op : Operation) (ty : TypeId) :
    (b.withDefinition block op ty).func.value b.next = .ok ⟨ty, .result ⟨b.func.instrs.length⟩⟩ :=
  entry_eq_ok_iff.mpr List.getElem?_concat_length

/-- A value that is there is not the one that is made next. -/
theorem ne_of_le (hv : b.func.value v = .ok x) (hle : b.func.values.length ≤ w.index) : w ≠ v := by
  rintro rfl
  exact Nat.not_lt.mpr hle (List.getElem?_eq_some_iff.mp (entry_eq_ok_iff.mp hv)).1

/-! ## Runs of the parts -/

theorem run_bind_of_run {f : α → Build β} {m : Build α} {a : α} (h : m.run b = .ok (a, b')) :
    (m >>= f).run b = (f a).run b' := by
  rw [StateT.run_bind, h]
  rfl

theorem value_run (h : b.func.value v = .ok x) : (value v).run b = .ok (x, b) := by
  change (b.func.value v >>= fun x => Except.ok (x, b)) = _
  rw [h]
  rfl

theorem constant_run (lit : Literal) (ty : TypeId) :
    (constant lit ty).run b = .ok (b.next, b.withConstant lit ty) := rfl

theorem emitValue_run (hopen : b.current = some block) (op : Operation) (ty : TypeId) :
    (emitValue op ty).run b = .ok (b.next, b.withDefinition block op ty) := by
  change (openBlock >>= _).run b = _
  rw [run_bind_of_run (openBlock_run hopen)]
  rfl

theorem isInterface_run {ty : TypeId} {q : Bool} (h : b.types.isInterface ty = .ok q) :
    (isInterface ty).run b = .ok (q, b) := ask_run h

/-- A value in a draft with an open block, and a type to convert it to, both types with those
underneath. -/
structure Convertible (b : Builder) (block : BlockId) (v : ValueId) (x : Value)
    (target us ut : TypeId) : Prop where
  opened : b.current = some block
  value : b.func.value v = .ok x
  source : b.types.underlying x.ty = .ok us
  target : b.types.underlying target = .ok ut

namespace Convertible

variable (h : Convertible b block v x target us ut)
include h

theorem valueType_run : (valueType v).run b = .ok (x.ty, b) :=
  valueType_run_of_eq (valueType_of_value h.value)

/-- A value of another type that is represented alike is relabelled. -/
theorem relabel?_alike (hne : x.ty ≠ target) (hsame : b.types.sameRepresentation us ut = .ok true) :
    (relabel? v target).run b =
      .ok (some b.next, b.withDefinition block (.changeType v) target) := by
  rw [relabel?, run_bind_of_run h.valueType_run, if_neg hne, run_bind_of_run (ask_run h.source),
    run_bind_of_run (ask_run h.target), run_bind_of_run (ask_run hsame), if_pos rfl,
    run_bind_of_run (emitValue_run h.opened _ _)]
  rfl

/-- A value that is represented in another way is not relabelled. -/
theorem relabel?_unlike (hsame : b.types.sameRepresentation us ut = .ok false) :
    (relabel? v target).run b = .ok (none, b) := by
  have hne := TypeTable.ne_of_sameRepresentation h.source h.target hsame
  rw [relabel?, run_bind_of_run h.valueType_run, if_neg hne, run_bind_of_run (ask_run h.source),
    run_bind_of_run (ask_run h.target), run_bind_of_run (ask_run hsame), if_neg Bool.false_ne_true]
  rfl

theorem reshape_constant {lit : Literal} (hlit : x.literal? = some lit) :
    (reshape v target).run b = .ok (b.next, b.withConstant lit target) := by
  rw [reshape, run_bind_of_run (value_run h.value), hlit]
  exact constant_run lit target

theorem reshape_other (hlit : x.literal? = none) :
    (reshape v target).run b = .ok (b.next, b.withDefinition block (.convert v) target) := by
  rw [reshape, run_bind_of_run (value_run h.value), hlit]
  exact emitValue_run h.opened _ _

theorem box_interface (hus : b.types.isInterface us = .ok true) :
    (box v target).run b = .ok (b.next, b.withDefinition block (.changeInterface v) target) := by
  rw [box, run_bind_of_run h.valueType_run, run_bind_of_run (ask_run h.source),
    run_bind_of_run (isInterface_run hus), if_pos rfl]
  exact emitValue_run h.opened _ _

theorem box_nil (hus : b.types.isInterface us = .ok false)
    (hnil : b.types.get x.ty = .ok (.basic .untypedNil)) :
    (box v target).run b = .ok (b.next, b.withConstant .nil target) := by
  have hkind : (Ty.basic .untypedNil).kind? = some .untypedNil := rfl
  rw [box, run_bind_of_run h.valueType_run, run_bind_of_run (ask_run h.source),
    run_bind_of_run (isInterface_run hus), if_neg Bool.false_ne_true,
    run_bind_of_run (ask_run hnil), if_pos hkind]
  exact constant_run _ _

/-- What is boxed is the settled value, under its type. -/
theorem box_settled {ty : Ty} {bare : TypeId} (hus : b.types.isInterface us = .ok false)
    (hty : b.types.get x.ty = .ok ty) (hnil : ty ≠ .basic .untypedNil)
    (hsettle : (settle v).run b = .ok (w, b')) (hw : b'.func.valueType w = .ok bare)
    (hopen : b'.current = some block) :
    (box v target).run b =
      .ok (b'.next, (b'.withBoxed bare).withDefinition block (.makeInterface w) target) := by
  have hkind : ty.kind? ≠ some .untypedNil := by
    intro hk
    cases ty <;> cases hk
    exact hnil rfl
  rw [box, run_bind_of_run h.valueType_run, run_bind_of_run (ask_run h.source),
    run_bind_of_run (isInterface_run hus), if_neg Bool.false_ne_true,
    run_bind_of_run (ask_run hty), if_neg hkind, run_bind_of_run hsettle,
    run_bind_of_run (valueType_run_of_eq hw)]
  exact emitValue_run (b := b'.withBoxed bare) hopen _ _

/-- A value that is not untyped is settled. -/
theorem settle_typed (htyped : b.types.isBasic us Kind.isUntyped = .ok false) :
    (settle v).run b = .ok (v, b) := by
  rw [settle, run_bind_of_run h.valueType_run, run_bind_of_run (ask_run h.source),
    run_bind_of_run (ask_run htyped), if_neg Bool.false_ne_true]
  rfl

/-- Under its default type an untyped value is represented in another way. -/
theorem settle_untyped (firm : b.types.Firm) {k : Kind} (hk : b.types.get x.ty = .ok (.basic k))
    (huntyped : k.isUntyped = true) (hnil : k ≠ .untypedNil) :
    (settle v).run b = (reshape v (TypeTable.basic k.default)).run b := by
  obtain rfl : x.ty = us := Except.ok.inj ((TypeTable.underlying_plain hk rfl).symm.trans h.source)
  have hbasic : b.types.isBasic x.ty Kind.isUntyped = .ok true := by
    rw [TypeTable.isBasic, TypeTable.underlyingTy_plain hk rfl, ← huntyped]
    rfl
  have hdefault : b.types.defaultType x.ty = .ok (TypeTable.basic k.default) := by
    rw [TypeTable.defaultType, hk]
    rfl
  have hne : x.ty ≠ TypeTable.basic k.default := by
    intro heq
    rw [heq] at hk
    have hself := Ty.basic.inj (Except.ok.inj ((firm.basics k.default).symm.trans hk))
    exact hnil ((Kind.isUntyped_default k).mp (hself.symm ▸ huntyped))
  have hplain : Convertible b block v x (TypeTable.basic k.default) x.ty
      (TypeTable.basic k.default) := ⟨h.opened, h.value, h.source, firm.underlying_basic _⟩
  have hunlike := TypeTable.sameRepresentation_basic hk (firm.basics k.default) hne
  rw [settle, run_bind_of_run h.valueType_run, run_bind_of_run (ask_run h.source),
    run_bind_of_run (ask_run hbasic), if_pos rfl, run_bind_of_run (ask_run hdefault),
    convertPlain, run_bind_of_run (hplain.relabel?_unlike hunlike)]

end Convertible

/-! ## The cases -/

/-- What a conversion comes to: the converted value, and the draft with all that was added. -/
inductive Conversion (b : Builder) (block : BlockId) (v : ValueId) (x : Value)
    (target us ut : TypeId) : ValueId → Builder → Prop
  /-- a value of the target type is left alone -/
  | same (heq : x.ty = target) : Conversion b block v x target us ut v b
  /-- a value that is represented alike is relabelled, be it a constant or not -/
  | relabelled (hne : x.ty ≠ target) (hsame : b.types.sameRepresentation us ut = .ok true) :
    Conversion b block v x target us ut b.next (b.withDefinition block (.changeType v) target)
  /-- a value in an interface changes its interface -/
  | reinterpreted (hsame : b.types.sameRepresentation us ut = .ok false)
    (hut : b.types.isInterface ut = .ok true) (hus : b.types.isInterface us = .ok true) :
    Conversion b block v x target us ut b.next
      (b.withDefinition block (.changeInterface v) target)
  /-- `nil` without a type becomes the `nil` of the interface -/
  | nil (hsame : b.types.sameRepresentation us ut = .ok false)
    (hut : b.types.isInterface ut = .ok true)
    (hnil : b.types.get x.ty = .ok (.basic .untypedNil)) :
    Conversion b block v x target us ut b.next (b.withConstant .nil target)
  /-- another untyped constant is written anew under its default type, and boxed -/
  | boxedConstant (hsame : b.types.sameRepresentation us ut = .ok false)
    (hut : b.types.isInterface ut = .ok true) {k : Kind} (hk : b.types.get x.ty = .ok (.basic k))
    (huntyped : k.isUntyped = true) (hnil : k ≠ .untypedNil) {lit : Literal}
    (hlit : x.literal? = some lit) :
    Conversion b block v x target us ut (b.withConstant lit (TypeTable.basic k.default)).next
      (((b.withConstant lit (TypeTable.basic k.default)).withBoxed (TypeTable.basic k.default)
        ).withDefinition block (.makeInterface b.next) target)
  /-- another untyped value is converted to its default type, and boxed -/
  | boxedUntyped (hsame : b.types.sameRepresentation us ut = .ok false)
    (hut : b.types.isInterface ut = .ok true) {k : Kind} (hk : b.types.get x.ty = .ok (.basic k))
    (huntyped : k.isUntyped = true) (hnil : k ≠ .untypedNil) (hlit : x.literal? = none) :
    Conversion b block v x target us ut
      (b.withDefinition block (.convert v) (TypeTable.basic k.default)).next
      (((b.withDefinition block (.convert v) (TypeTable.basic k.default)).withBoxed
        (TypeTable.basic k.default)).withDefinition block (.makeInterface b.next) target)
  /-- a typed value is boxed as it is, be it a constant or not -/
  | boxed (hsame : b.types.sameRepresentation us ut = .ok false)
    (hut : b.types.isInterface ut = .ok true) (hus : b.types.isInterface us = .ok false)
    (htyped : b.types.isBasic us Kind.isUntyped = .ok false) :
    Conversion b block v x target us ut b.next
      ((b.withBoxed x.ty).withDefinition block (.makeInterface v) target)
  /-- a constant is written anew -/
  | constant (hsame : b.types.sameRepresentation us ut = .ok false)
    (hut : b.types.isInterface ut = .ok false) {lit : Literal} (hlit : x.literal? = some lit) :
    Conversion b block v x target us ut b.next (b.withConstant lit target)
  /-- any other value changes its representation -/
  | converted (hsame : b.types.sameRepresentation us ut = .ok false)
    (hut : b.types.isInterface ut = .ok false) (hlit : x.literal? = none) :
    Conversion b block v x target us ut b.next (b.withDefinition block (.convert v) target)

namespace Conversion

/-- **The value has the target type.** -/
theorem valueType (hv : b.func.value v = .ok x) (h : Conversion b block v x target us ut w b') :
    b'.func.valueType w = .ok target := by
  cases h with
  | same heq => exact heq ▸ valueType_of_value hv
  | nil | constant => exact valueType_of_value (value_withConstant _ _)
  | relabelled | reinterpreted | boxedConstant | boxedUntyped | boxed | converted =>
    exact valueType_of_value (value_withDefinition _ _)

/-- **Only a value of the target type is left alone.** -/
theorem eq_iff (hc : Convertible b block v x target us ut)
    (h : Conversion b block v x target us ut w b') : w = v ↔ x.ty = target := by
  have hnew : ∀ {w : ValueId}, x.ty ≠ target → b.func.values.length ≤ w.index →
      (w = v ↔ x.ty = target) := fun hne hle => iff_of_false (ne_of_le hc.value hle) hne
  cases h with
  | same heq => exact iff_of_true rfl heq
  | relabelled hne => exact hnew hne (Nat.le_refl _)
  | reinterpreted hsame | nil hsame | boxed hsame | constant hsame | converted hsame =>
    exact hnew (TypeTable.ne_of_sameRepresentation hc.source hc.target hsame) (Nat.le_refl _)
  | boxedConstant hsame | boxedUntyped hsame =>
    refine hnew (TypeTable.ne_of_sameRepresentation hc.source hc.target hsame) ?_
    -- the value itself is the second one that is made
    exact (List.prefix_append _ _).length_le

/-- **Each case is what `convert` does.** -/
theorem run (firm : b.types.Firm) (hc : Convertible b block v x target us ut)
    (h : Conversion b block v x target us ut w b') : (convert v target).run b = .ok (w, b') := by
  have hbox (hsame : b.types.sameRepresentation us ut = .ok false)
      (hut : b.types.isInterface ut = .ok true) :
      (convert v target).run b = (box v target).run b := by
    rw [convert, run_bind_of_run (hc.relabel?_unlike hsame)]
    change (ask _ >>= _).run b = _
    rw [run_bind_of_run (ask_run hc.target), run_bind_of_run (isInterface_run hut), if_pos rfl]
  have hreshape (hsame : b.types.sameRepresentation us ut = .ok false)
      (hut : b.types.isInterface ut = .ok false) :
      (convert v target).run b = (reshape v target).run b := by
    rw [convert, run_bind_of_run (hc.relabel?_unlike hsame)]
    change (ask _ >>= _).run b = _
    rw [run_bind_of_run (ask_run hc.target), run_bind_of_run (isInterface_run hut),
      if_neg Bool.false_ne_true]
  -- an untyped type is basic, so it is no interface type
  have hplain {k : Kind} (hk : b.types.get x.ty = .ok (.basic k)) :
      b.types.isInterface us = .ok false := by
    cases (TypeTable.underlying_plain hk rfl).symm.trans hc.source
    exact TypeTable.isInterface_eq (TypeTable.underlyingTy_plain hk rfl)
  cases h with
  | same heq => exact convert_run_of_eq (heq ▸ valueType_of_value hc.value)
  | relabelled hne hsame =>
    rw [convert, run_bind_of_run (hc.relabel?_alike hne hsame)]
    rfl
  | reinterpreted hsame hut hus => exact (hbox hsame hut).trans (hc.box_interface hus)
  | nil hsame hut hnil => exact (hbox hsame hut).trans (hc.box_nil (hplain hnil) hnil)
  | boxedConstant hsame hut hk huntyped hnil hlit =>
    have hsettle := hc.settle_untyped firm hk huntyped hnil
    rw [Convertible.reshape_constant ⟨hc.opened, hc.value, hc.source, firm.underlying_basic _⟩
      hlit] at hsettle
    exact (hbox hsame hut).trans (hc.box_settled (hplain hk) hk (mt Ty.basic.inj hnil) hsettle
      (valueType_of_value (value_withConstant _ _)) hc.opened)
  | boxedUntyped hsame hut hk huntyped hnil hlit =>
    have hsettle := hc.settle_untyped firm hk huntyped hnil
    rw [Convertible.reshape_other ⟨hc.opened, hc.value, hc.source, firm.underlying_basic _⟩
      hlit] at hsettle
    exact (hbox hsame hut).trans (hc.box_settled (hplain hk) hk (mt Ty.basic.inj hnil) hsettle
      (valueType_of_value (value_withDefinition _ _)) hc.opened)
  | boxed hsame hut hus htyped =>
    obtain ⟨ty, hty, -⟩ := bind_eq_ok_iff.mp hc.source
    have hnil : ty ≠ .basic .untypedNil := by
      rintro rfl
      cases (TypeTable.underlying_plain hty rfl).symm.trans hc.source
      rw [TypeTable.isBasic, TypeTable.underlyingTy_plain hty rfl] at htyped
      cases htyped
    exact (hbox hsame hut).trans (hc.box_settled hus hty hnil (hc.settle_typed htyped)
      (valueType_of_value hc.value) hc.opened)
  | constant hsame hut hlit => exact (hreshape hsame hut).trans (hc.reshape_constant hlit)
  | converted hsame hut hlit => exact (hreshape hsame hut).trans (hc.reshape_other hlit)

/-- **One of the cases applies.** -/
theorem total (hx : b.types.Indexed) (firm : b.types.Firm)
    (hc : Convertible b block v x target us ut) :
    ∃ w b', Conversion b block v x target us ut w b' := by
  by_cases heq : x.ty = target
  · exact ⟨_, _, .same heq⟩
  have hus := hx.holds_of_underlying hc.source
  have hut := hx.holds_of_underlying hc.target
  obtain ⟨_ | _, hsame⟩ := TypeTable.exists_sameRepresentation hus hut
  · obtain ⟨_ | _, hit⟩ := hx.exists_isInterface hut
    · rcases hlit : x.literal? with _ | lit
      · exact ⟨_, _, .converted hsame hit hlit⟩
      · exact ⟨_, _, .constant hsame hit hlit⟩
    obtain ⟨_ | _, his⟩ := hx.exists_isInterface hus
    · obtain ⟨_ | _, hbasic⟩ := hx.exists_isBasic Kind.isUntyped hus
      · exact ⟨_, _, .boxed hsame hit his hbasic⟩
      obtain ⟨rfl, k, hk, huntyped⟩ := firm.of_untyped hc.source hbasic
      by_cases hnil : k = .untypedNil
      · exact ⟨_, _, .nil hsame hit (hnil ▸ hk)⟩
      rcases hlit : x.literal? with _ | lit
      · exact ⟨_, _, .boxedUntyped hsame hit hk huntyped hnil hlit⟩
      · exact ⟨_, _, .boxedConstant hsame hit hk huntyped hnil hlit⟩
    · exact ⟨_, _, .reinterpreted hsame hit his⟩
  · exact ⟨_, _, .relabelled heq hsame⟩

/-- The cases are those of `convert`, so they exclude each other. -/
theorem iff_run (hx : b.types.Indexed) (firm : b.types.Firm)
    (hc : Convertible b block v x target us ut) :
    Conversion b block v x target us ut w b' ↔ (convert v target).run b = .ok (w, b') := by
  refine ⟨fun h => h.run firm hc, fun hrun => ?_⟩
  obtain ⟨w', b₁, h⟩ := total hx firm hc
  cases (h.run firm hc).symm.trans hrun
  exact h

end Conversion

/-- **A conversion gives a value of exactly the target type**, in one of the cases of `Conversion`
and in no other way. Only a value that has the type already is given back itself; and to
convert the converted value again changes nothing. -/
theorem convert_exact (hcourse : TypeTable.Course .initial b.types)
    (htyped : ∀ d ∈ b.types.decls, ∀ k,
      b.types.get d.underlying = .ok (.basic k) → k.isUntyped = false)
    (hopen : b.current = some block) (hv : b.func.value v = .ok x)
    (hsource : b.types.Holds x.ty) (htarget : b.types.Holds target) :
    ∃ us ut, b.types.underlying x.ty = .ok us ∧ b.types.underlying target = .ok ut ∧
      (∀ w b', (convert v target).run b = .ok (w, b') ↔
        Conversion b block v x target us ut w b') ∧
      ∃ w b', (convert v target).run b = .ok (w, b') ∧ b'.func.valueType w = .ok target ∧
        (convert w target).run b' = .ok (w, b') ∧ (w = v ↔ x.ty = target) := by
  have hx := TypeTable.indexed_initial.course hcourse
  have firm := hx.firm htyped
  obtain ⟨us, hus, -⟩ := hx.exists_underlying hsource
  obtain ⟨ut, hut, -⟩ := hx.exists_underlying htarget
  have hc : Convertible b block v x target us ut := ⟨hopen, hv, hus, hut⟩
  refine ⟨us, ut, hus, hut, fun w b' => (Conversion.iff_run hx firm hc).symm, ?_⟩
  obtain ⟨w, b', h⟩ := Conversion.total hx firm hc
  have hw := h.valueType hv
  exact ⟨w, b', h.run firm hc, hw, convert_run_of_eq hw, h.eq_iff hc⟩

/-- A draft with a constant that has no type, over a table with an interface type. -/
def sevenDraft : Builder :=
  let b := startOf ⟨none, [], [], false⟩
  Builder.withConstant { b with types := (b.types.intern (.interface [])).2 } (.int 7)
    (TypeTable.basic .untypedInt)

/-- The constant is boxed under its default type. -/
theorem convert_exact_seven :
    TypeTable.Course .initial sevenDraft.types ∧
      (convert ⟨0⟩ ⟨26⟩).run sevenDraft = .ok (⟨2⟩,
        ((sevenDraft.withConstant (.int 7) (TypeTable.basic .int)).withBoxed
          (TypeTable.basic .int)).withDefinition ⟨0⟩ (.makeInterface ⟨1⟩) ⟨26⟩) := by
  have hcourse : TypeTable.Course .initial sevenDraft.types :=
    .tail (.single (.intern (.signature ⟨none, [], [], false⟩) nofun))
      (.intern (.interface []) nofun)
  have hdecls : sevenDraft.types.decls = [] := rfl
  have hopen : sevenDraft.current = some ⟨0⟩ := rfl
  have hv : sevenDraft.func.value ⟨0⟩ = .ok ⟨TypeTable.basic .untypedInt, .const (.int 7)⟩ := rfl
  have htarget : sevenDraft.types.Holds ⟨26⟩ := by decide
  obtain ⟨us, ut, hus, hut, hiff, -⟩ := convert_exact hcourse
    (fun d hd => by cases hdecls ▸ hd) hopen hv (by decide) htarget
  have hsource : sevenDraft.types.underlying (TypeTable.basic .untypedInt) = .ok ⟨19⟩ := rfl
  have hinterface : sevenDraft.types.underlying ⟨26⟩ = .ok ⟨26⟩ := rfl
  cases hsource.symm.trans hus
  cases hinterface.symm.trans hut
  exact ⟨hcourse, (hiff _ _).mpr
    (.boxedConstant rfl rfl (k := .untypedInt) rfl rfl (by decide) rfl)⟩

end Builder

end MethodSSA
