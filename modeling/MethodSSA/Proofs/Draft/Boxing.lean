import MethodSSA.Proofs.Draft.Writing
import MethodSSA.Proofs.KeyOrder

/-!
# What is boxed is noted

A value is boxed in an interface by conversion only, and the workspace has a note of its type as
soon as it is. So a step of construction **registers** (`Registers`): the notes that it adds are
types of values that it boxes, and the values that it boxes have types that are noted. Most steps
**abstain** (`Abstains`): they box nothing and note nothing.

What is noted is the type under which the value is boxed in the end. An untyped value takes its
default type before, an interface only changes its interface, and `nil` becomes a constant
(`box_registers`).
-/

namespace MethodSSA

open Relation

/-- The value that an operation boxes, if it boxes one. -/
def Operation.boxed? : Operation → Option ValueId
  | .makeInterface x => some x
  | _ => none

/-- Whether a command emits an instruction that boxes a value, as it is. -/
def Command.boxes : Command → Bool
  | .emit op | .emitValue op _ _ => op.boxed?.isSome
  | _ => false

namespace Function

variable {f g : Function} {ty : TypeId} {l l' : List TypeId}

/-- The operands of all instructions that box a value, in order. -/
def boxedOperands (f : Function) : List ValueId := f.instrs.filterMap (·.op.boxed?)

/-- A value of the type is boxed. -/
def Boxes (f : Function) (ty : TypeId) : Prop := ∃ x ∈ f.boxedOperands, f.valueType x = .ok ty

/-- Every value that is boxed has a type of the list. -/
def Registered (f : Function) (l : List TypeId) : Prop :=
  ∀ x ∈ f.boxedOperands, ∃ ty ∈ l, f.valueType x = .ok ty

theorem Boxes.later (h : f.Boxes ty) (hvalues : f.values <+: g.values)
    (hoperands : f.boxedOperands <+: g.boxedOperands) : g.Boxes ty := by
  obtain ⟨x, hx, hty⟩ := h
  exact ⟨x, hoperands.subset hx, Builder.valueType_later hvalues hty⟩

theorem Registered.later (h : f.Registered l) (hvalues : f.values <+: g.values)
    (hoperands : g.boxedOperands = f.boxedOperands) (hl : l ⊆ l') : g.Registered l' := by
  intro x hx
  obtain ⟨ty, hmem, hty⟩ := h x (hoperands ▸ hx)
  exact ⟨ty, hl hmem, Builder.valueType_later hvalues hty⟩

end Function

namespace TypeTable

variable {t t' : TypeTable}

/-- A type that is no interface and not untyped. -/
structure Concrete (t : TypeTable) (ty : TypeId) : Prop where
  plain : t.isInterface ty = .ok false
  typed : t.isBasic ty Kind.isUntyped = .ok false

theorem Concrete.later {ty : TypeId} (h : t.Concrete ty) (ht : t.Extended t') : t'.Concrete ty :=
  ⟨ht.isInterface h.plain, ht.isBasic h.typed⟩

/-- A type is as concrete as its underlying type. -/
theorem concrete_of_underlying {ty u : TypeId} (hu : t.underlying ty = .ok u)
    (hplain : t.isInterface u = .ok false) (htyped : t.isBasic u Kind.isUntyped = .ok false) :
    t.Concrete ty := by
  obtain ⟨uu, huu, hp⟩ := bind_eq_ok_iff.mp hplain
  obtain ⟨uu', huu', hb⟩ := bind_eq_ok_iff.mp htyped
  cases huu.symm.trans huu'
  obtain ⟨v, hv, -⟩ := bind_eq_ok_iff.mp huu
  obtain ⟨tyu, htyu, -⟩ := bind_eq_ok_iff.mp (hv : _ >>= _ = _)
  have hty : t.underlyingTy ty = .ok tyu := bind_eq_ok_iff.mpr ⟨u, hu, htyu⟩
  rcases hnamed : tyu.isNamed with _ | _
  · -- the underlying type is its own
    cases (underlyingTy_plain htyu hnamed).symm.trans huu
    exact ⟨bind_eq_ok_iff.mpr ⟨_, hty, hp⟩, bind_eq_ok_iff.mpr ⟨_, hty, hb⟩⟩
  · -- it is a declared type that was not completed in time
    cases tyu <;> cases hnamed
    exact ⟨bind_eq_ok_iff.mpr ⟨_, hty, rfl⟩, bind_eq_ok_iff.mpr ⟨_, hty, rfl⟩⟩

end TypeTable

namespace Builder

variable {α : Type} {b b' b'' : Builder}

/-! ## Steps that box nothing -/

/-- A later state of a draft. Nothing was boxed in between, and nothing noted. -/
structure Abstains (b b' : Builder) : Prop where
  types : b.types.Entered b'.types
  values : b.func.values <+: b'.func.values
  operands : b'.func.boxedOperands = b.func.boxedOperands
  boxed : b'.boxed = b.boxed

namespace Abstains

theorem refl (b : Builder) : Abstains b b := ⟨.refl _, List.prefix_rfl, rfl, rfl⟩

theorem trans (h : Abstains b b') (h' : Abstains b' b'') : Abstains b b'' where
  types := h.types.trans h'.types
  values := h.values.trans h'.values
  operands := h'.operands.trans h.operands
  boxed := h'.boxed.trans h.boxed

/-- Something is done that emits nothing. -/
theorem quiet (htypes : b.types.Entered b'.types) (hvalues : b.func.values <+: b'.func.values)
    (hinstrs : b'.func.instrs = b.func.instrs) (hboxed : b'.boxed = b.boxed) : Abstains b b' :=
  ⟨htypes, hvalues, by rw [Function.boxedOperands, hinstrs, Function.boxedOperands], hboxed⟩

/-- An instruction is emitted that boxes nothing. -/
theorem emit {i : Instr} (htypes : b'.types = b.types) (hvalues : b.func.values <+: b'.func.values)
    (hinstrs : b'.func.instrs = b.func.instrs ++ [i]) (hop : i.op.boxed? = none)
    (hboxed : b'.boxed = b.boxed) : Abstains b b' where
  types := htypes ▸ .refl _
  values := hvalues
  operands := by simp [Function.boxedOperands, hinstrs, hop]
  boxed := hboxed

theorem of_row (h : ReflTransGen Abstains b b') : Abstains b b' := single_of_row refl trans h

theorem of_makes {x : Build α} {a : α} (h : Makes Abstains x) (hrun : x.run b = .ok (a, b')) :
    Abstains b b' := of_row (h hrun)

end Abstains

/-! ### Small steps -/

theorem intern_abstains (ty : Ty) : Makes Abstains (intern ty) := by
  refine .single fun b id b' hrun => ?_
  cases hrun
  exact .quiet (.intern _ ty) List.prefix_rfl rfl rfl

theorem constant_abstains (lit : Literal) (ty : TypeId) : Makes Abstains (constant lit ty) := by
  refine .single fun b v b' hrun => ?_
  cases hrun
  exact .quiet (.refl _) (List.prefix_append _ _) rfl rfl

/-- Changes of a draft beside its values and instructions. -/
theorem modify_abstains {step : Builder → Builder} (hworkspace : ∀ b, (step b).toWorkspace =
    b.toWorkspace) (hvalues : ∀ b, (step b).func.values = b.func.values)
    (hinstrs : ∀ b, (step b).func.instrs = b.func.instrs) :
    Makes Abstains (modify step : Build PUnit) := by
  refine .single fun b u b' hrun => ?_
  cases hrun
  have htypes : (step b).types = b.types := congrArg Workspace.types (hworkspace b)
  have hboxed : (step b).boxed = b.boxed := congrArg Workspace.boxed (hworkspace b)
  refine .quiet ?_ ?_ (hinstrs b) hboxed
  · rw [htypes]
    exact .refl _
  · simp [hvalues]

theorem amend_abstains {step : Function → Function} (hvalues : ∀ f, (step f).values = f.values)
    (hinstrs : ∀ f, (step f).instrs = f.instrs) : Makes Abstains (amend step) :=
  modify_abstains (fun _ => rfl) (fun b => hvalues b.func) fun b => hinstrs b.func

theorem emitAt_abstains {op : Operation} (hop : op.boxed? = none) (pos : SourcePos) :
    Makes Abstains (emitAt op pos) := by
  refine .single fun b i b' hrun => ?_
  obtain ⟨block, -, hrun⟩ := of_openBlock_bind hrun
  cases hrun
  exact .emit rfl List.prefix_rfl rfl hop rfl

theorem emitValueAt_abstains {op : Operation} (hop : op.boxed? = none) (ty : TypeId)
    (pos : SourcePos) : Makes Abstains (emitValueAt op ty pos) := by
  refine .single fun b v b' hrun => ?_
  obtain ⟨block, -, hrun⟩ := of_openBlock_bind hrun
  cases hrun
  exact .emit rfl (List.prefix_append _ _) rfl hop rfl

theorem emit_abstains {op : Operation} (hop : op.boxed? = none) : Makes Abstains (emit op) :=
  emitAt_abstains hop .none

theorem emitValue_abstains {op : Operation} (hop : op.boxed? = none) (ty : TypeId) :
    Makes Abstains (emitValue op ty) := emitValueAt_abstains hop ty .none

section Questions

variable {R : Builder → Builder → Prop}

theorem ask_makes (question : TypeTable → Except Fault α) : Makes R (ask question) :=
  (ask_acts question).makes

theorem valueType_makes (v : ValueId) : Makes R (valueType v) := (valueType_acts v).makes

theorem ownSignature_makes : Makes R ownSignature := ownSignature_acts.makes

end Questions

/-! ### Variables, parameters and constants -/

theorem addLocal_abstains (ty : TypeId) : Makes Abstains (addLocal ty) :=
  (intern_abstains _).bind fun ptr => (emitValue_abstains rfl ptr).bind fun addr =>
    .bind (amend_abstains (fun _ => rfl) fun _ => rfl) fun _ => .pure addr

theorem newHeap_abstains (ty : TypeId) : Makes Abstains (newHeap ty) :=
  (intern_abstains _).bind fun ptr => emitValue_abstains rfl ptr

theorem load_abstains (addr : ValueId) : Makes Abstains (load addr) :=
  (valueType_makes addr).bind fun _ => (ask_makes _).bind fun elem =>
    emitValue_abstains rfl elem

theorem addParam_abstains (name : String) (ty : TypeId) : Makes Abstains (addParam name ty) := by
  refine .single fun b v b' hrun => ?_
  cases hrun
  exact .quiet (.refl _) (List.prefix_append _ _) rfl rfl

theorem addFreeVar_abstains (name : String) (ty : TypeId) :
    Makes Abstains (addFreeVar name ty) := by
  refine .single fun b v b' hrun => ?_
  cases hrun
  exact .quiet (.refl _) (List.prefix_append _ _) rfl rfl

theorem addFormals_abstains : Makes Abstains addFormals := by
  refine ownSignature_makes.bind fun sig => .mapM (fun (p : Var × Nat) => .ite ?_ ?_) _
  · exact (intern_abstains _).bind fun ty => addParam_abstains p.1.name ty
  · exact addParam_abstains p.1.name p.1.ty

theorem addNamedResults_abstains : Makes Abstains addNamedResults := by
  have hresult (r : Var) : Makes Abstains (addNamedResult r) :=
    (addLocal_abstains r.ty).bind fun addr => amend_abstains (fun _ => rfl) fun _ => rfl
  have hlast : Makes Abstains (do return (← get).func.namedResults : Build (List ValueId)) :=
    Makes.get.bind fun b => .pure _
  refine Makes.get.bind fun b => .ite ?_ hlast
  exact ownSignature_makes.bind fun sig => (Makes.forM hresult _).bind fun _ => hlast

theorem constTrue_abstains : Makes Abstains constTrue := by
  refine Makes.get.bind fun b => ?_
  cases b.trueConst with
  | some v => exact .pure v
  | none =>
    exact (constant_abstains _ _).bind fun v =>
      .bind (modify_abstains (fun _ => rfl) (fun _ => rfl) fun _ => rfl) fun _ => .pure v

theorem zeroConst_abstains (ty : TypeId) : Makes Abstains (zeroConst ty) :=
  (ask_makes _).bind fun u => constant_abstains u.zero ty

theorem zeroValue_abstains (ty : TypeId) : Makes Abstains (zeroValue ty) := by
  refine (ask_makes _).bind fun u => .ite ?_ (zeroConst_abstains ty)
  exact (addLocal_abstains ty).bind fun addr => load_abstains addr

/-- A parameter is copied as it is. -/
theorem spill_abstains (param : ValueId) : Makes Abstains (spill param) :=
  spill_makes addLocal_abstains fun _ => emit_abstains rfl

/-! ### Conversions to other types than interfaces -/

theorem relabel?_abstains (v : ValueId) (target : TypeId) :
    Makes Abstains (relabel? v target) := by
  refine (valueType_makes v).bind fun source => .ite (.pure _) ?_
  refine (ask_makes _).bind fun us => (ask_makes _).bind fun ut =>
    (ask_makes _).bind fun same => .ite ?_ (.pure _)
  exact (emitValue_abstains rfl target).bind fun _ => .pure _

theorem reshape_abstains (v : ValueId) (target : TypeId) : Makes Abstains (reshape v target) := by
  refine (value_acts v).makes.bind fun x => ?_
  cases x.literal? with
  | none => exact emitValue_abstains rfl target
  | some lit => exact constant_abstains lit target

theorem settle_abstains (v : ValueId) : Makes Abstains (settle v) := by
  refine (valueType_makes v).bind fun ty => (ask_makes _).bind fun us =>
    (ask_makes _).bind fun c => .ite ((ask_makes _).bind fun target => ?_) (.pure v)
  refine (relabel?_abstains v target).bind fun w => ?_
  cases w with
  | none => exact reshape_abstains v target
  | some w => exact .pure w

/-! ### Fields, tuples and type tests -/

theorem fieldOf_abstains (v : ValueId) (index : Nat) : Makes Abstains (fieldOf v index).run := by
  refine .liftThen (valueType_makes v) fun ty => .liftThen (ask_makes _) fun fields => ?_
  cases fields with
  | none => exact .liftThen (ask_makes _) fun text => .fail _
  | some fields =>
    simp only
    cases fields[index]? with
    | none => exact .liftThen (ask_makes _) fun text => .fail _
    | some field => exact .pure _

theorem fieldAddr_abstains (v : ValueId) (index : Nat) (field : Field) :
    Makes Abstains (fieldAddr v index field) :=
  (intern_abstains _).bind fun ptr => emitValue_abstains rfl ptr

theorem selectField_abstains (v : ValueId) (index : Nat) (wantAddr : Bool) :
    Makes Abstains (selectField v index wantAddr).run := by
  refine .andThen (fieldOf_abstains v index) fun field => .liftThen (valueType_makes v)
    fun ty => .liftThen (ask_makes _) fun c => .iteFail ?_ (.lift (emitValue_abstains rfl _))
  refine .liftThen (fieldAddr_abstains v index field) fun addr => ?_
  exact .iteFail (.pure _) (.lift (load_abstains addr))

theorem followField_abstains (v : ValueId) (index : Nat) :
    Makes Abstains (followField v index).run := by
  refine .andThen (fieldOf_abstains v index) fun field => .liftThen (valueType_makes v)
    fun ty => .liftThen (ask_makes _) fun c => .iteFail ?_ (.lift (emitValue_abstains rfl _))
  refine .liftThen (fieldAddr_abstains v index field) fun addr =>
    .liftThen (ask_makes _) fun c => ?_
  exact .iteFail (.lift (load_abstains addr)) (.pure _)

theorem followPath_abstains (path : List Nat) :
    ∀ v : ValueId, Makes Abstains (followPath v path).run := by
  induction path with
  | nil => exact fun v => .pure _
  | cons index path ih => exact fun v => .andThen (followField_abstains v index) ih

theorem extract_abstains (tuple : ValueId) (index : Nat) :
    Makes Abstains (extract tuple index) := by
  refine (valueType_makes tuple).bind fun ty => (ask_makes _).bind fun u => ?_
  cases u with
  | tuple vars =>
    exact (Makes.answer _).bind fun component => emitValue_abstains rfl component.ty
  | _ => exact .throw _

theorem typeTest_abstains (x : ValueId) (ty : TypeId) (pos : SourcePos) :
    Makes Abstains (typeTest x ty pos) :=
  (intern_abstains _).bind fun tuple => emitValueAt_abstains rfl tuple pos

theorem debugRef_abstains (x : ValueId) (pos : SourcePos) (isAddr : Bool) :
    Makes Abstains (debugRef x pos isAddr) :=
  Makes.get.bind fun _ => .ite ((emit_abstains rfl).bind fun _ => .pure _) (.pure none)

/-! ### Blocks and terminators -/

theorem newBlock_abstains (label : String) : Makes Abstains (newBlock label) := by
  refine .single fun b block b' hrun => ?_
  cases hrun
  exact .quiet (.refl _) List.prefix_rfl rfl rfl

theorem setCurrent_abstains (block : BlockId) : Makes Abstains (setCurrent block) := by
  refine .single fun b u b' hrun => ?_
  obtain ⟨stored, -, -, rfl⟩ := of_setCurrent hrun
  exact .quiet (.refl _) List.prefix_rfl rfl rfl

theorem close_abstains (term : Terminator) : Makes Abstains (close term) := by
  refine .single fun b u b' hrun => ?_
  obtain ⟨block, -, -, rfl⟩ := of_close hrun
  rw [Function.closeBlock_eq]
  exact .quiet (.refl _) List.prefix_rfl rfl rfl

theorem tailCall_abstains (call : Call) : Makes Abstains (tailCall call) := by
  refine ownSignature_makes.bind fun sig => ?_
  simp only
  split
  · exact (emit_abstains rfl).bind fun _ => close_abstains _
  · exact (emitValue_abstains rfl _).bind fun _ => close_abstains _
  · refine (intern_abstains _).bind fun ty => (emitValue_abstains rfl ty).bind fun tuple => ?_
    exact (Makes.mapM (extract_abstains tuple) _).bind fun _ => close_abstains _

theorem recoveryBlock_abstains : Makes Abstains recoveryBlock := by
  have hresults : Makes Abstains recoveredResults := by
    refine Makes.get.bind fun b => .ite ?_ (.mapM load_abstains _)
    exact ownSignature_makes.bind fun sig => .mapM (fun (r : Var) => zeroValue_abstains r.ty) _
  refine Makes.get.bind fun b => ?_
  cases b.func.recover with
  | some block => exact .pure block
  | none =>
    refine Makes.get.bind fun b => (newBlock_abstains "recover").bind fun block => ?_
    refine .bind (modify_abstains (fun _ => rfl) (fun _ => rfl) fun _ => rfl) fun _ => ?_
    refine hresults.bind fun results => (close_abstains _).bind fun _ => ?_
    exact .bind (modify_abstains (fun _ => rfl) (fun _ => rfl) fun _ => rfl) fun _ => .pure block

/-! ## Steps that box -/

/-- A later state of a draft. What was boxed in between was noted, and nothing else was. -/
structure Registers (b b' : Builder) : Prop where
  types : b.types.Entered b'.types
  values : b.func.values <+: b'.func.values
  operands : b.func.boxedOperands <+: b'.func.boxedOperands
  kept : b.boxed ⊆ b'.boxed
  sound : ∀ ty ∈ b'.boxed, ty ∈ b.boxed ∨ b'.func.Boxes ty
  complete : b.func.Registered b.boxed → b'.func.Registered b'.boxed
  increasing : b.boxed.Pairwise (fun x y => x.index < y.index) →
    b'.boxed.Pairwise fun x y => x.index < y.index
  concrete : b.types.Firm → ∀ ty ∈ b'.boxed, ty ∈ b.boxed ∨ b'.types.Concrete ty

theorem Abstains.registers (h : Abstains b b') : Registers b b' where
  types := h.types
  values := h.values
  operands := by simp [h.operands]
  kept := by simp [h.boxed]
  sound ty hty := .inl (h.boxed ▸ hty)
  complete hreg := hreg.later h.values h.operands (by simp [h.boxed])
  increasing := by simp [h.boxed]
  concrete _ ty hty := .inl (h.boxed ▸ hty)

namespace Registers

theorem refl (b : Builder) : Registers b b := (Abstains.refl b).registers

theorem trans (h : Registers b b') (h' : Registers b' b'') : Registers b b'' where
  types := h.types.trans h'.types
  values := h.values.trans h'.values
  operands := h.operands.trans h'.operands
  kept := List.Subset.trans h.kept h'.kept
  sound ty hty := by
    rcases h'.sound ty hty with hty | hnew
    · exact (h.sound ty hty).imp_right fun hboxes => hboxes.later h'.values h'.operands
    · exact .inr hnew
  complete hreg := h'.complete (h.complete hreg)
  increasing hinc := h'.increasing (h.increasing hinc)
  concrete firm ty hty := by
    have firm' := firm.extended h.types.extended h.types.decls
    rcases h'.concrete firm' ty hty with hty | hnew
    · exact (h.concrete firm ty hty).imp_right fun hc => hc.later h'.types.extended
    · exact .inr hnew

theorem of_makes {x : Build α} {a : α} (h : Makes Registers x) (hrun : x.run b = .ok (a, b')) :
    Registers b b' := single_of_row refl trans (h hrun)

end Registers

/-- A step that boxes nothing has nothing to note. -/
theorem registers_of_abstains {x : Build α} (h : Makes Abstains x) : Makes Registers x :=
  h.mono fun _ _ => Abstains.registers

/-- The type of a value is noted, and the value is boxed. -/
theorem registers_of_boxed {b₁ : Builder} {v : ValueId} {wt target : TypeId} {block : BlockId}
    (h : Abstains b b₁) (hwt : b₁.func.valueType v = .ok wt)
    (hconcrete : b.types.Firm → b₁.types.Concrete wt)
    (hend : b' = { b₁ with
      toWorkspace := b₁.toWorkspace.needMethods wt
      func := (b₁.func.addDefinition block (.makeInterface v) target .none).2 }) :
    Registers b b' := by
  have hvalues : b₁.func.values <+: b'.func.values := hend ▸ List.prefix_append _ _
  have hoperands : b'.func.boxedOperands = b.func.boxedOperands ++ [v] := by
    rw [← h.operands, hend]
    exact List.filterMap_append
  have hboxed : b'.boxed = putType wt b.boxed := by
    rw [← h.boxed, hend]
    rfl
  have htypes : b'.types = b₁.types := by rw [hend]; rfl
  have hv : b'.func.valueType v = .ok wt := valueType_later hvalues hwt
  refine ⟨htypes ▸ h.types, h.values.trans hvalues, by simp [hoperands], ?kept, ?sound, ?complete,
    ?increasing, ?concrete⟩
  case kept =>
    intro ty hty
    simp [hboxed, mem_putType, hty]
  case sound =>
    intro ty hty
    rw [hboxed, mem_putType] at hty
    rcases hty with rfl | hold
    · exact .inr ⟨v, by simp [hoperands], hv⟩
    · exact .inl hold
  case complete =>
    intro hreg x hx
    have hx : x ∈ b.func.boxedOperands ∨ x = v := by simpa [hoperands] using hx
    rcases hx with hx | rfl
    · obtain ⟨ty, hty, hx⟩ := hreg x hx
      refine ⟨ty, ?_, valueType_later (h.values.trans hvalues) hx⟩
      simp [hboxed, mem_putType, hty]
    · exact ⟨wt, by simp [hboxed, mem_putType], hv⟩
  case increasing =>
    intro hinc
    rw [hboxed]
    exact pairwise_putType hinc
  case concrete =>
    intro firm ty hty
    rw [hboxed, mem_putType] at hty
    rcases hty with rfl | hold
    · exact .inr (htypes ▸ hconcrete firm)
    · exact .inl hold

/-- **A boxed value is noted under the type that it is boxed with.** -/
theorem box_registers (v : ValueId) (target : TypeId) : Makes Registers (box v target) := by
  refine .single fun b w b' hrun => ?_
  obtain ⟨source, b₁, hread, hrun⟩ := exists_of_bind hrun
  obtain ⟨hsource, rfl⟩ := of_valueType hread
  obtain ⟨us, b₁, hask, hrun⟩ := exists_of_bind hrun
  obtain ⟨hus, rfl⟩ := of_ask hask
  obtain ⟨iface, b₁, hask, hrun⟩ := exists_of_bind hrun
  obtain ⟨hiface, rfl⟩ := of_ask hask
  cases iface with
  | true => exact (Abstains.of_makes (emitValue_abstains rfl target) hrun).registers
  | false =>
    obtain ⟨ty, b₁, hask, hrun⟩ := exists_of_bind hrun
    obtain ⟨hty, rfl⟩ := of_ask hask
    by_cases hnil : ty.kind? = some .untypedNil
    · rw [if_pos hnil] at hrun
      exact (Abstains.of_makes (constant_abstains .nil target) hrun).registers
    · rw [if_neg hnil] at hrun
      obtain ⟨x, b₁, hsettle, hrun⟩ := exists_of_bind hrun
      obtain ⟨xt, b₂, hread, hrun⟩ := exists_of_bind hrun
      obtain ⟨hxt, rfl⟩ := of_valueType hread
      obtain ⟨u, b₂, hnote, hrun⟩ := exists_of_bind hrun
      cases hnote
      obtain ⟨block, -, hrun⟩ := of_openBlock_bind hrun
      cases hrun
      refine registers_of_boxed (.of_makes (settle_abstains v) hsettle) hxt (fun firm => ?_) rfl
      -- what is boxed is settled
      obtain ⟨-, xt', xu, hxt', hxu, hplain, htyped⟩ :=
        settle_writes (c := .constTrue) firm hsource hus hiface hty hnil hsettle
      cases hxt.symm.trans hxt'
      exact TypeTable.concrete_of_underlying hxu hplain htyped

theorem convert_registers (v : ValueId) (target : TypeId) : Makes Registers (convert v target) := by
  refine (registers_of_abstains (relabel?_abstains v target)).bind fun w => ?_
  cases w with
  | some w => exact .pure w
  | none =>
    refine (ask_makes _).bind fun ut =>
      (ask_makes _).bind fun c => ?_
    exact .ite (box_registers v target) (registers_of_abstains (reshape_abstains v target))

theorem store_registers (addr v : ValueId) : Makes Registers (store addr v) := by
  refine (valueType_makes addr).bind fun ty =>
    (ask_makes _).bind fun elem => ?_
  exact (convert_registers v elem).bind fun v => registers_of_abstains (emit_abstains rfl)

/-! ### Operators -/

theorem shiftCount_registers (y : ValueId) : Makes Registers (shiftCount y) := by
  refine (valueType_makes y).bind fun ty =>
    (ask_makes _).bind fun c => ?_
  exact .ite (convert_registers y _) (.pure y)

theorem arith_registers (op : Operator) (x y : ValueId) (ty : TypeId) :
    Makes Registers (arith op x y ty).run := by
  have hemit : ∀ x y, Makes Registers
      (liftM (emitValue (.binary op x y) ty) : TryBuild ValueId).run := fun x y =>
    .lift (registers_of_abstains (emitValue_abstains rfl ty))
  refine .iteFail ?_ (.iteFail ?_ (.fail _))
  · exact .liftThen (convert_registers x ty) fun x => .liftThen (shiftCount_registers y) (hemit x)
  · exact .liftThen (convert_registers x ty) fun x => .liftThen (convert_registers y ty) (hemit x)

theorem matchOperands_registers (x y : ValueId) : Makes Registers (matchOperands x y) := by
  have hright : ∀ ty, Makes Registers (do return (x, ← convert y ty) : Build _) := fun ty =>
    (convert_registers y ty).bind fun _ => .pure _
  have hleft : ∀ ty, Makes Registers (do return (← convert x ty, y) : Build _) := fun ty =>
    (convert_registers x ty).bind fun _ => .pure _
  refine (valueType_makes x).bind fun xt => (valueType_makes y).bind fun yt =>
    (ask_makes _).bind fun ux => (ask_makes _).bind fun uy => .ite (.pure _) ?_
  refine (ask_makes _).bind fun ix => .ite (hright xt) ?_
  refine (ask_makes _).bind fun iy => .ite (hleft yt) ?_
  refine (value_acts x).makes.bind fun vx => .ite (hleft yt) ?_
  exact (value_acts y).makes.bind fun vy => .ite (hright xt) (.pure _)

theorem compare_registers (op : Operator) (x y : ValueId) : Makes Registers (compare op x y) := by
  have hrest : Makes Registers (matchOperands x y >>= fun operands =>
      emitValue (.binary op operands.1 operands.2) TypeTable.boolean) :=
    (matchOperands_registers x y).bind fun _ => registers_of_abstains (emitValue_abstains rfl _)
  refine (valueType_makes x).bind fun _ =>
    (valueType_makes y).bind fun _ => .ite ?_ hrest
  refine (absorbs_acts x y).makes.bind fun _ => .ite (.pure _) ?_
  exact (absorbs_acts y x).makes.bind fun _ => .ite (.pure _) hrest

/-! ## Commands -/

/-- **Every command registers**, unless it emits a boxing instruction as it is. -/
theorem perform_registers {c : Command} (hc : c.boxes = false) :
    Makes Registers (perform c).run := by
  have done {α : Type} {x : Build α} {out : α → Outcome} (h : Makes Registers x) :
      Makes Registers (do return out (← x) : TryBuild Outcome).run :=
    .liftThen h fun _ => .pure _
  have plain {α : Type} {x : Build α} {out : α → Outcome} (h : Makes Abstains x) :
      Makes Registers (do return out (← x) : TryBuild Outcome).run :=
    done (registers_of_abstains h)
  have tried {x : TryBuild ValueId} (h : Makes Registers x.run) :
      Makes Registers (do return Outcome.value (← x) : TryBuild Outcome).run :=
    .andThen h fun _ => .pure _
  cases c with
  | describe | place | implement | standFor =>
    exact plain (amend_abstains (fun _ => rfl) fun _ => rfl)
  | param name ty => exact plain (addParam_abstains name ty)
  | freeVar name ty => exact plain (addFreeVar_abstains name ty)
  | formals => exact plain addFormals_abstains
  | namedResults => exact plain addNamedResults_abstains
  | localVar ty => exact plain (addLocal_abstains ty)
  | heapVar ty => exact plain (newHeap_abstains ty)
  | zeroValue ty => exact plain (zeroValue_abstains ty)
  | zeroConst ty => exact plain (zeroConst_abstains ty)
  | spill param => exact plain (spill_abstains param)
  | load addr => exact plain (load_abstains addr)
  | store addr val => exact done (store_registers addr val)
  | constant lit ty => exact plain (constant_abstains lit ty)
  | constTrue => exact plain constTrue_abstains
  | newBlock label => exact plain (newBlock_abstains label)
  | setCurrent block => exact plain (setCurrent_abstains block)
  | emit op => exact plain (emit_abstains (by simpa [Command.boxes] using hc))
  | emitValue op ty pos =>
    exact plain (emitValueAt_abstains (by simpa [Command.boxes] using hc) ty pos)
  | close term => exact plain (close_abstains term)
  | arith op x y ty => exact tried (arith_registers op x y ty)
  | compare op x y => exact done (compare_registers op x y)
  | convert x ty => exact done (convert_registers x ty)
  | followPath x path => exact tried (registers_of_abstains (followPath_abstains path x))
  | selectField x index wantAddr =>
    exact tried (registers_of_abstains (selectField_abstains x index wantAddr))
  | extract tuple index => exact plain (extract_abstains tuple index)
  | typeAssert x ty pos => exact plain (emitValueAt_abstains rfl ty pos)
  | typeTest x ty pos => exact plain (typeTest_abstains x ty pos)
  | debugRef x pos isAddr =>
    refine .liftThen (registers_of_abstains (debugRef_abstains x pos isAddr)) fun i => ?_
    cases i with
    | some i => exact .pure _
    | none => exact .pure _
  | trace kind start stop => exact plain (emitAt_abstains rfl start)
  | tailCall call => exact plain (tailCall_abstains call)
  | recoveryBlock => exact plain recoveryBlock_abstains

end Builder

end MethodSSA
