import MethodSSA.Proofs.Draft.Converting

/-!
# Comparison, case by case

A comparison converts at most one of its operands, and only where the underlying types differ
(`Matching`): an interface decides the type, then a constant takes the type opposite to it, and
where there is neither both operands stay as they are. Then one operator is emitted, whose
result is a truth value. The only comparison that emits nothing is that of a truth value with
the constant `true` for equality (`Absorbed`); and it is that constant value itself that counts,
not what an operand stands for (`compare_exact`).

What is converted has the other type then, in every table of types. Nothing is asked of the
declarations here, so a declared type may be untyped underneath; `convert_ends` says what is
left then of the cases of a conversion.
-/

namespace MethodSSA

/-- A type of the table has a default type there, itself if it is not basic. -/
theorem TypeTable.Indexed.exists_defaultType {t : TypeTable} (hx : t.Indexed) {id : TypeId}
    (h : t.Holds id) : ∃ ty, t.defaultType id = .ok ty ∧ t.Holds ty := by
  obtain ⟨a, ha⟩ := exists_get_iff.mpr h
  rcases hk : a.kind? with _ | k
  · exact ⟨id, by simp [defaultType, ha, hk], h⟩
  · exact ⟨basic k.default, by simp [defaultType, ha, hk], holds_of_get (hx.basics k.default)⟩

namespace Builder

variable {b b' b'' : Builder} {block : BlockId} {op : Operator} {v x y : ValueId}
  {vx vy : Value} {target us ut ux uy : TypeId}

/-! ## Conversions end -/

/-- A later state of a draft over the same types, in which the same block is open. -/
structure Continues (b b' : Builder) : Prop where
  types : b'.types = b.types
  current : b'.current = b.current
  values : b.func.values <+: b'.func.values

namespace Continues

theorem refl (b : Builder) : Continues b b := ⟨rfl, rfl, List.prefix_rfl⟩

theorem trans (h : Continues b b') (h' : Continues b' b'') : Continues b b'' :=
  ⟨h'.types.trans h.types, h'.current.trans h.current, h.values.trans h'.values⟩

theorem withConstant (b : Builder) (lit : Literal) (ty : TypeId) :
    Continues b (b.withConstant lit ty) := ⟨rfl, rfl, List.prefix_append _ _⟩

theorem withDefinition (b : Builder) (block : BlockId) (op : Operation) (ty : TypeId) :
    Continues b (b.withDefinition block op ty) := ⟨rfl, rfl, List.prefix_append _ _⟩

theorem withBoxed (b : Builder) (ty : TypeId) : Continues b (b.withBoxed ty) :=
  ⟨rfl, rfl, List.prefix_rfl⟩

end Continues

/-- The step ends, in a later state, with a value of the type. -/
abbrev EndsAt (step : Build ValueId) (b : Builder) (ty : TypeId) : Prop :=
  Yields step b fun w b' => Continues b b' ∧ b'.func.valueType w = .ok ty

theorem endsAt_constant {step : Build ValueId} {lit : Literal}
    (h : step.run b = .ok (b.next, b.withConstant lit target)) : EndsAt step b target :=
  .of_run h ⟨.withConstant b lit target, valueType_of_value (value_withConstant lit target)⟩

theorem endsAt_definition {step : Build ValueId} {op : Operation}
    (h : step.run b = .ok (b.next, b.withDefinition block op target)) : EndsAt step b target :=
  .of_run h ⟨.withDefinition b block op target, valueType_of_value (value_withDefinition op target)⟩

namespace Convertible

variable (h : Convertible b block v vx target us ut)
include h

theorem reshape_ends : EndsAt (reshape v target) b target := by
  rcases hlit : vx.literal? with _ | lit
  · exact endsAt_definition (h.reshape_other hlit)
  · exact endsAt_constant (h.reshape_constant hlit)

/-- A value is relabelled, or it is represented in another way and left for the next step. -/
theorem relabel?_ends (hx : b.types.Indexed) :
    (relabel? v target).run b = .ok (none, b) ∨
      Yields (relabel? v target) b fun r b' => ∃ w, r = some w ∧ Continues b b' ∧
        b'.func.valueType w = .ok target := by
  by_cases heq : vx.ty = target
  · refine .inr (.step h.valueType_run ?_)
    rw [if_pos heq]
    exact .pure ⟨v, rfl, .refl b, heq ▸ valueType_of_value h.value⟩
  obtain ⟨_ | _, hsame⟩ := TypeTable.exists_sameRepresentation
    (hx.holds_of_underlying h.source) (hx.holds_of_underlying h.target)
  · exact .inl (h.relabel?_unlike hsame)
  · exact .inr (.of_run (h.relabel?_alike heq hsame) ⟨b.next, rfl, .withDefinition _ _ _ _,
      valueType_of_value (value_withDefinition _ _)⟩)

theorem convertPlain_ends (hx : b.types.Indexed) : EndsAt (convertPlain v target) b target := by
  rcases h.relabel?_ends hx with hrun | hrun
  · exact .step hrun h.reshape_ends
  · refine hrun.bind fun r b' hr => ?_
    obtain ⟨w, rfl, hlater, hw⟩ := hr
    exact .pure ⟨hlater, hw⟩

/-- A value is settled under some type. -/
theorem settle_ends (hx : b.types.Indexed) : ∃ bare, EndsAt (settle v) b bare := by
  have hus := hx.holds_of_underlying h.source
  obtain ⟨_ | _, hbasic⟩ := hx.exists_isBasic Kind.isUntyped hus
  · exact ⟨vx.ty, .of_run (h.settle_typed hbasic) ⟨.refl b, valueType_of_value h.value⟩⟩
  obtain ⟨bare, hbare, hheld⟩ := hx.exists_defaultType hus
  obtain ⟨u, hu, -⟩ := hx.exists_underlying hheld
  refine ⟨bare, .step h.valueType_run (.step (ask_run h.source) (.step (ask_run hbasic) ?_))⟩
  rw [if_pos rfl]
  exact .step (ask_run hbare) (convertPlain_ends ⟨h.opened, h.value, h.source, hu⟩ hx)

theorem box_ends (hx : b.types.Indexed) : EndsAt (box v target) b target := by
  obtain ⟨_ | _, his⟩ := hx.exists_isInterface (hx.holds_of_underlying h.source)
  · obtain ⟨ty, hty, -⟩ := bind_eq_ok_iff.mp h.source
    by_cases hnil : ty = .basic .untypedNil
    · exact endsAt_constant (h.box_nil his (hnil ▸ hty))
    obtain ⟨bare, w, b', hsettle, hlater, hw⟩ := h.settle_ends hx
    have hopen : b'.current = some block := hlater.current.trans h.opened
    refine .of_run (h.box_settled his hty hnil hsettle hw hopen)
      ⟨(hlater.trans (.withBoxed b' bare)).trans (.withDefinition _ _ _ _), ?_⟩
    exact valueType_of_value (value_withDefinition (b := b'.withBoxed bare) _ _)
  · exact endsAt_definition (h.box_interface his)

/-- **A conversion always ends, with a value of exactly the target type.** -/
theorem convert_ends (hx : b.types.Indexed) : EndsAt (convert v target) b target := by
  rcases h.relabel?_ends hx with hrun | hrun
  · obtain ⟨i, hi⟩ := hx.exists_isInterface (hx.holds_of_underlying h.target)
    refine .step hrun (.step (ask_run h.target) (.step (isInterface_run hi) ?_))
    cases i with
    | false => exact h.reshape_ends
    | true => exact h.box_ends hx
  · refine hrun.bind fun r b' hr => ?_
    obtain ⟨w, rfl, hlater, hw⟩ := hr
    exact .pure ⟨hlater, hw⟩

end Convertible

/-! ## Operands -/

/-- Two values in a draft with an open block, and the types underneath theirs. -/
structure Comparable (b : Builder) (block : BlockId) (x y : ValueId) (vx vy : Value)
    (ux uy : TypeId) : Prop where
  opened : b.current = some block
  left : b.func.value x = .ok vx
  right : b.func.value y = .ok vy
  leftUnder : b.types.underlying vx.ty = .ok ux
  rightUnder : b.types.underlying vy.ty = .ok uy

/-- What becomes of the operands of a comparison: both operands, and the draft with all that
was added. -/
inductive Matching (b : Builder) (x y : ValueId) (vx vy : Value) (ux uy : TypeId) :
    ValueId → ValueId → Builder → Prop
  /-- of one underlying type: both as they are -/
  | alike (heq : ux = uy) : Matching b x y vx vy ux uy x y b
  /-- the left one is in an interface, which the right one is brought into -/
  | leftInterface {y' : ValueId} {b' : Builder} (hne : ux ≠ uy)
    (hix : b.types.isInterface ux = .ok true) (hy : (convert y vx.ty).run b = .ok (y', b')) :
    Matching b x y vx vy ux uy x y' b'
  /-- only the right one is in an interface, which the left one is brought into -/
  | rightInterface {x' : ValueId} {b' : Builder} (hne : ux ≠ uy)
    (hix : b.types.isInterface ux = .ok false) (hiy : b.types.isInterface uy = .ok true)
    (hx : (convert x vy.ty).run b = .ok (x', b')) : Matching b x y vx vy ux uy x' y b'
  /-- the left one is a constant, and takes the type of the right one -/
  | leftConstant {x' : ValueId} {b' : Builder} (hne : ux ≠ uy)
    (hix : b.types.isInterface ux = .ok false) (hiy : b.types.isInterface uy = .ok false)
    (hcx : vx.isConst = true) (hx : (convert x vy.ty).run b = .ok (x', b')) :
    Matching b x y vx vy ux uy x' y b'
  /-- only the right one is a constant, and takes the type of the left one -/
  | rightConstant {y' : ValueId} {b' : Builder} (hne : ux ≠ uy)
    (hix : b.types.isInterface ux = .ok false) (hiy : b.types.isInterface uy = .ok false)
    (hcx : vx.isConst = false) (hcy : vy.isConst = true)
    (hy : (convert y vx.ty).run b = .ok (y', b')) : Matching b x y vx vy ux uy x y' b'
  /-- neither interface nor constant: both as they are -/
  | apart (hne : ux ≠ uy) (hix : b.types.isInterface ux = .ok false)
    (hiy : b.types.isInterface uy = .ok false) (hcx : vx.isConst = false)
    (hcy : vy.isConst = false) : Matching b x y vx vy ux uy x y b

namespace Comparable

variable (h : Comparable b block x y vx vy ux uy)
include h

/-- The left operand, to be converted to the type of the right one. -/
theorem convertsLeft : Convertible b block x vx vy.ty ux uy :=
  ⟨h.opened, h.left, h.leftUnder, h.rightUnder⟩

/-- The right operand, to be converted to the type of the left one. -/
theorem convertsRight : Convertible b block y vy vx.ty uy ux :=
  ⟨h.opened, h.right, h.rightUnder, h.leftUnder⟩

/-- **The operands can always be matched**, in one of the cases. -/
theorem matchOperands_ends (hx : b.types.Indexed) :
    Yields (matchOperands x y) b fun p b' =>
      Matching b x y vx vy ux uy p.1 p.2 b' ∧ Continues b b' := by
  refine .step h.convertsLeft.valueType_run (.step h.convertsRight.valueType_run
    (.step (ask_run h.leftUnder) (.step (ask_run h.rightUnder) ?_)))
  obtain ⟨x', b₁, hrunx, hbx, -⟩ := h.convertsLeft.convert_ends hx
  obtain ⟨y', b₂, hruny, hby, -⟩ := h.convertsRight.convert_ends hx
  obtain ⟨ix, hix⟩ := hx.exists_isInterface (hx.holds_of_underlying h.leftUnder)
  obtain ⟨iy, hiy⟩ := hx.exists_isInterface (hx.holds_of_underlying h.rightUnder)
  by_cases heq : ux = uy
  · rw [if_pos heq]
    exact .pure ⟨.alike heq, .refl b⟩
  rw [if_neg heq]
  refine .step (isInterface_run hix) ?_
  rcases ix with _ | _
  · refine .step (isInterface_run hiy) ?_
    rcases iy with _ | _
    · refine .step (value_run h.left) ?_
      rcases hcx : vx.isConst with _ | _
      · refine .step (value_run h.right) ?_
        rcases hcy : vy.isConst with _ | _
        · exact .pure ⟨.apart heq hix hiy hcx hcy, .refl b⟩
        · exact .step hruny (.pure ⟨.rightConstant heq hix hiy hcx hcy hruny, hby⟩)
      · exact .step hrunx (.pure ⟨.leftConstant heq hix hiy hcx hrunx, hbx⟩)
    · exact .step hrunx (.pure ⟨.rightInterface heq hix hiy hrunx, hbx⟩)
  · exact .step hruny (.pure ⟨.leftInterface heq hix hruny, hby⟩)

/-- The types of matched operands: one underlying type, or two where nothing decides. -/
theorem matched (hx : b.types.Indexed) {x' y' : ValueId} {b' : Builder}
    (hm : Matching b x y vx vy ux uy x' y' b') : Matched b'.types b'.func x y x' y' := by
  have hleft := valueType_of_value h.left
  have hright := valueType_of_value h.right
  -- a converted operand has the type of the other one, which keeps it
  have hxy {x' : ValueId} {b' : Builder} (hrun : (convert x vy.ty).run b = .ok (x', b')) :
      Matched b'.types b'.func x y x' y := by
    obtain ⟨hlater, hx'⟩ := (h.convertsLeft.convert_ends hx).elim hrun
    have hu := hlater.types.symm ▸ h.rightUnder
    exact .alike (.inr rfl) hx' (valueType_later hlater.values hright) hu hu
  have hyx {y' : ValueId} {b' : Builder} (hrun : (convert y vx.ty).run b = .ok (y', b')) :
      Matched b'.types b'.func x y x y' := by
    obtain ⟨hlater, hy'⟩ := (h.convertsRight.convert_ends hx).elim hrun
    have hu := hlater.types.symm ▸ h.leftUnder
    exact .alike (.inl rfl) (valueType_later hlater.values hleft) hy' hu hu
  cases hm with
  | alike heq => exact .alike (.inl rfl) hleft hright h.leftUnder (heq ▸ h.rightUnder)
  | leftInterface hne hix hrun => exact hyx hrun
  | rightInterface hne hix hiy hrun => exact hxy hrun
  | leftConstant hne hix hiy hcx hrun => exact hxy hrun
  | rightConstant hne hix hiy hcx hcy hrun => exact hyx hrun
  | apart hne hix hiy hcx hcy =>
    exact .apart hleft hright h.leftUnder h.rightUnder hix hiy h.left h.right hcx hcy

end Comparable

/-- Neither operand is in an interface or a constant, so that none decides the type. -/
structure Undecided (b : Builder) (vx vy : Value) (ux uy : TypeId) : Prop where
  left : b.types.isInterface ux = .ok false
  right : b.types.isInterface uy = .ok false
  leftConst : vx.isConst = false
  rightConst : vy.isConst = false

/-- **Nothing is converted without need**: not where the underlying types agree, nor where no
operand decides the type. -/
theorem Matching.untouched {x' y' : ValueId} {b' : Builder}
    (hm : Matching b x y vx vy ux uy x' y' b') (h : ux = uy ∨ Undecided b vx vy ux uy) :
    x' = x ∧ y' = y ∧ b' = b := by
  have no {u : TypeId} (htrue : b.types.isInterface u = .ok true)
      (hfalse : b.types.isInterface u = .ok false) : False := by
    cases htrue.symm.trans hfalse
  cases hm with
  | alike | apart => exact ⟨rfl, rfl, rfl⟩
  | leftInterface hne hix => exact (no hix (h.resolve_left hne).left).elim
  | rightInterface hne hix hiy => exact (no hiy (h.resolve_left hne).right).elim
  | leftConstant hne _ _ hcx =>
    exact absurd (hcx.symm.trans (h.resolve_left hne).leftConst) nofun
  | rightConstant hne _ _ _ hcy =>
    exact absurd (hcy.symm.trans (h.resolve_left hne).rightConst) nofun

/-! ## The answer -/

/-- The operand that a comparison gives back: a truth value that is compared for equality with
the constant `true` of the function. -/
inductive Absorbed (b : Builder) (op : Operator) (x y : ValueId) (vx vy : Value) : ValueId → Prop
  /-- the left one is the constant -/
  | right (hop : op = .equal) (htrue : b.trueConst = some x)
    (hbool : b.types.isBasic vy.ty Kind.isBoolean = .ok true) : Absorbed b op x y vx vy y
  /-- the right one is the constant -/
  | left (hop : op = .equal) (htrue : b.trueConst = some y)
    (hbool : b.types.isBasic vx.ty Kind.isBoolean = .ok true) : Absorbed b op x y vx vy x

/-- Only one operand can be given back. -/
theorem Absorbed.unique {z z' : ValueId} (h : Absorbed b op x y vx vy z)
    (h' : Absorbed b op x y vx vy z') : z = z' := by
  cases h with
  | right _ htrue =>
    cases h' with
    | right => rfl
    | left _ htrue' => exact Option.some.inj (htrue'.symm.trans htrue)
  | left _ htrue =>
    cases h' with
    | right _ htrue' => exact Option.some.inj (htrue'.symm.trans htrue)
    | left => rfl

/-- Whether a value is absorbed can be told of every two values. -/
theorem absorbs_ends (hx : b.types.Indexed) {known other : ValueId} {v : Value}
    (hv : b.func.value other = .ok v) (hheld : b.types.Holds v.ty) :
    Yields (absorbs known other) b fun q b' => b' = b ∧ (q = true ↔
      b.trueConst = some known ∧ b.types.isBasic v.ty Kind.isBoolean = .ok true) := by
  obtain ⟨q, hq⟩ := hx.exists_isBasic Kind.isBoolean hheld
  refine .step (valueType_run_of_eq (valueType_of_value hv)) ?_
  change Yields (if b.trueConst = some known then _ else _) b _
  split
  · next htrue =>
    refine .of_run (ask_run hq) ⟨rfl, ?_⟩
    rw [hq, Except.ok.injEq]
    exact (and_iff_right htrue).symm
  · next hne => exact .pure ⟨rfl, by simp [hne]⟩

/-- What a comparison comes to: its answer, and the draft with all that was added. -/
inductive Comparison (b : Builder) (block : BlockId) (op : Operator) (x y : ValueId)
    (vx vy : Value) (ux uy : TypeId) : ValueId → Builder → Prop
  /-- an operand is given back, and nothing is added -/
  | absorbed {z : ValueId} (h : Absorbed b op x y vx vy z) :
    Comparison b block op x y vx vy ux uy z b
  /-- the operands are matched, and the operator is emitted last -/
  | emitted {x' y' : ValueId} {b' : Builder} (hnone : ∀ z, ¬ Absorbed b op x y vx vy z)
    (hm : Matching b x y vx vy ux uy x' y' b') (hlater : Continues b b') :
    Comparison b block op x y vx vy ux uy b'.next
      (b'.withDefinition block (.binary op x' y') TypeTable.boolean)

/-- **A comparison always ends**, in one of the two ways. -/
theorem Comparable.compare_ends (h : Comparable b block x y vx vy ux uy) (hx : b.types.Indexed)
    (op : Operator) (hheldx : b.types.Holds vx.ty) (hheldy : b.types.Holds vy.ty) :
    Yields (compare op x y) b (Comparison b block op x y vx vy ux uy) := by
  have hrest (hnone : ∀ z, ¬ Absorbed b op x y vx vy z) :
      Yields (matchOperands x y >>= fun p =>
        emitValue (.binary op p.1 p.2) TypeTable.boolean) b
        (Comparison b block op x y vx vy ux uy) := by
    refine (h.matchOperands_ends hx).bind fun p b' ⟨hm, hlater⟩ => ?_
    exact .of_run (emitValue_run (hlater.current.trans h.opened) _ _) (.emitted hnone hm hlater)
  refine .step h.convertsLeft.valueType_run (.step h.convertsRight.valueType_run ?_)
  by_cases hop : op = .equal
  · rw [if_pos hop]
    refine (absorbs_ends hx h.right hheldy).bind fun q b' ⟨hb, hq⟩ => ?_
    subst hb
    rcases q with _ | _
    · refine (absorbs_ends hx h.left hheldx).bind fun q b' ⟨hb, hq'⟩ => ?_
      subst hb
      rcases q with _ | _
      · refine hrest fun z hz => ?_
        cases hz with
        | right _ htrue hbool => exact absurd (hq.mpr ⟨htrue, hbool⟩) nofun
        | left _ htrue hbool => exact absurd (hq'.mpr ⟨htrue, hbool⟩) nofun
      · obtain ⟨htrue, hbool⟩ := hq'.mp rfl
        exact .pure (.absorbed (.left hop htrue hbool))
    · obtain ⟨htrue, hbool⟩ := hq.mp rfl
      exact .pure (.absorbed (.right hop htrue hbool))
  · rw [if_neg hop]
    refine hrest fun z hz => ?_
    cases hz <;> exact hop ‹_›

namespace Comparison

variable {r : ValueId} {b' : Builder} (h : Comparison b block op x y vx vy ux uy r b')
include h

/-- **The answer is a truth value.** -/
theorem isBoolean (hx : b.types.Indexed) (hc : Comparable b block x y vx vy ux uy) :
    ∃ ty, b'.func.valueType r = .ok ty ∧ b'.types.isBasic ty Kind.isBoolean = .ok true := by
  cases h with
  | absorbed h =>
    cases h with
    | right _ _ hbool => exact ⟨vy.ty, valueType_of_value hc.right, hbool⟩
    | left _ _ hbool => exact ⟨vx.ty, valueType_of_value hc.left, hbool⟩
  | @emitted _ _ b₁ _ _ hlater =>
    refine ⟨TypeTable.boolean, valueType_of_value (value_withDefinition _ _), ?_⟩
    change b₁.types.isBasic _ _ = _
    rw [hlater.types, TypeTable.boolean, TypeTable.isBasic,
      TypeTable.underlyingTy_plain (hx.basics .bool) rfl]
    rfl

/-- **An operand is given back only if it is absorbed.** -/
theorem operand_iff (hc : Comparable b block x y vx vy ux uy) :
    (r = x ∨ r = y) ↔ ∃ z, Absorbed b op x y vx vy z := by
  cases h with
  | absorbed h =>
    refine iff_of_true ?_ ⟨r, h⟩
    cases h with
    | right => exact .inr rfl
    | left => exact .inl rfl
  | @emitted _ _ b₁ hnone _ hlater =>
    have hle : b.func.values.length ≤ b₁.next.index := hlater.values.length_le
    refine iff_of_false ?_ fun ⟨z, hz⟩ => hnone z hz
    rintro (heq | heq)
    · exact ne_of_le hc.left hle heq
    · exact ne_of_le hc.right hle heq

/-- **Nothing is added only if an operand is absorbed.** -/
theorem unchanged_iff : b' = b ↔ ∃ z, Absorbed b op x y vx vy z := by
  cases h with
  | absorbed h => exact iff_of_true rfl ⟨r, h⟩
  | @emitted x' y' b₁ hnone _ hlater =>
    refine iff_of_false (fun heq => ?_) fun ⟨z, hz⟩ => hnone z hz
    have hlt : b₁.func.values.length <
        (b₁.withDefinition block (.binary op x' y') TypeTable.boolean).func.values.length :=
      List.length_append ▸ Nat.lt_succ_self _
    rw [heq] at hlt
    exact Nat.not_le_of_lt hlt hlater.values.length_le

end Comparison

/-- **A comparison converts only what it has to, and compares operands that match.** Its answer is
a truth value. It gives an operand back, and adds nothing, exactly if that is absorbed.
Otherwise it emits the operator last, on operands of which at most one was converted, to the
type of the other one (`Matching`). They have one underlying type, or neither was in an
interface or a constant (`Matched`); and where the underlying types agreed, or no operand
decides, both are as they were. -/
theorem compare_exact (hcourse : TypeTable.Course .initial b.types)
    (hopen : b.current = some block) (hleft : b.func.value x = .ok vx)
    (hright : b.func.value y = .ok vy) (hheldx : b.types.Holds vx.ty)
    (hheldy : b.types.Holds vy.ty) (op : Operator) :
    ∃ ux uy r b', b.types.underlying vx.ty = .ok ux ∧ b.types.underlying vy.ty = .ok uy ∧
      (compare op x y).run b = .ok (r, b') ∧
      (∃ ty, b'.func.valueType r = .ok ty ∧ b'.types.isBasic ty Kind.isBoolean = .ok true) ∧
      ((r = x ∨ r = y) ↔ ∃ z, Absorbed b op x y vx vy z) ∧
      (b' = b ↔ ∃ z, Absorbed b op x y vx vy z) ∧
      (∀ z, Absorbed b op x y vx vy z → r = z) ∧
      ((∀ z, ¬ Absorbed b op x y vx vy z) → ∃ x' y' b₁,
        Matching b x y vx vy ux uy x' y' b₁ ∧ Matched b₁.types b₁.func x y x' y' ∧
        (ux = uy ∨ Undecided b vx vy ux uy → x' = x ∧ y' = y ∧ b₁ = b) ∧
        r = b₁.next ∧ b' = b₁.withDefinition block (.binary op x' y') TypeTable.boolean) := by
  have hx := TypeTable.indexed_initial.course hcourse
  obtain ⟨ux, hux, -⟩ := hx.exists_underlying hheldx
  obtain ⟨uy, huy, -⟩ := hx.exists_underlying hheldy
  have hc : Comparable b block x y vx vy ux uy := ⟨hopen, hleft, hright, hux, huy⟩
  obtain ⟨r, b', hrun, h⟩ := hc.compare_ends hx op hheldx hheldy
  refine ⟨ux, uy, r, b', hux, huy, hrun, h.isBoolean hx hc, h.operand_iff hc, h.unchanged_iff,
    fun z hz => ?_, fun hnone => ?_⟩
  · cases h with
    | absorbed h => exact h.unique hz
    | emitted hnone => exact absurd hz (hnone z)
  · cases h with
    | absorbed h => exact absurd h (hnone r)
    | emitted _ hm hlater =>
      exact ⟨_, _, _, hm, hc.matched hx hm, hm.untouched, rfl, rfl⟩

/-- The draft with the constant, and with a parameter of the interface type. -/
def anyDraft : Builder :=
  { sevenDraft with func := { (sevenDraft.func.addValue ⟨⟨26⟩, .param 0 "any"⟩).2 with
      params := [⟨1⟩] } }

/-- The constant is brought into the interface that it is compared with. -/
theorem compare_exact_any :
    TypeTable.Course .initial anyDraft.types ∧ anyDraft.current = some ⟨0⟩ ∧
      anyDraft.func.value ⟨0⟩ = .ok ⟨TypeTable.basic .untypedInt, .const (.int 7)⟩ ∧
      anyDraft.func.value ⟨1⟩ = .ok ⟨⟨26⟩, .param 0 "any"⟩ ∧
      ∃ w b₁, (convert ⟨0⟩ ⟨26⟩).run anyDraft = .ok (w, b₁) ∧
        (compare .equal ⟨0⟩ ⟨1⟩).run anyDraft = .ok (b₁.next,
          b₁.withDefinition ⟨0⟩ (.binary .equal w ⟨1⟩) TypeTable.boolean) := by
  have hcourse : TypeTable.Course .initial anyDraft.types :=
    .tail (.single (.intern (.signature ⟨none, [], [], false⟩) nofun))
      (.intern (.interface []) nofun)
  have hopen : anyDraft.current = some ⟨0⟩ := rfl
  have hleft : anyDraft.func.value ⟨0⟩ =
      .ok ⟨TypeTable.basic .untypedInt, .const (.int 7)⟩ := rfl
  have hright : anyDraft.func.value ⟨1⟩ = .ok ⟨⟨26⟩, .param 0 "any"⟩ := rfl
  refine ⟨hcourse, hopen, hleft, hright, ?_⟩
  obtain ⟨ux, uy, r, b', hux, huy, hrun, -, -, -, -, hrest⟩ :=
    compare_exact hcourse hopen hleft hright (by decide) (by decide) .equal
  have hsource : anyDraft.types.underlying (TypeTable.basic .untypedInt) = .ok ⟨19⟩ := rfl
  have hinterface : anyDraft.types.underlying ⟨26⟩ = .ok ⟨26⟩ := rfl
  cases hsource.symm.trans hux
  cases hinterface.symm.trans huy
  obtain ⟨x', y', b₁, hm, -, -, rfl, rfl⟩ := hrest fun z hz => by
    cases hz <;> next htrue _ => exact absurd htrue nofun
  cases hm with
  | rightInterface _ _ _ hconvert => exact ⟨_, _, hconvert, hrun⟩
  | alike heq => exact absurd heq (by decide)
  | leftInterface _ hix => exact absurd hix (by decide)
  | leftConstant _ _ hiy => exact absurd hiy (by decide)
  | rightConstant _ _ hiy => exact absurd hiy (by decide)
  | apart _ _ hiy => exact absurd hiy (by decide)

end Builder

end MethodSSA
