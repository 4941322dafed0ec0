import MethodSSA.Proofs.Draft.Quiet
import MethodSSA.Proofs.Draft.Straight

/-!
# Code at the end of the open block

What a step adds to the open block of a draft, whatever the draft is and whatever its type table
holds (`Appends`). In a function whose instructions read only what is there before them
(`Function.Ordered`), such code is no exception. A step can still be a fault, if an identifier is
none of the table: of each step it is said when that can be.
-/

namespace MethodSSA

namespace Function

variable {f f' : Function}

/-- A value is there before the instruction `k`: it is no result, or that of an earlier one. -/
def Ready (f : Function) (k : Nat) (v : ValueId) : Prop :=
  ∃ x, f.value v = .ok x ∧ ∀ i, x.origin = .result i →
    i.index < k ∧ ∃ instr, f.instr i = .ok instr ∧ instr.result = some v

/-- The instructions read only what is there before them. -/
structure Ordered (f : Function) : Prop where
  results : ∀ v x, f.value v = .ok x → ∀ i, x.origin = .result i →
    ∃ instr, f.instr i = .ok instr ∧ instr.result = some v
  reads : ∀ (k : Nat) (i : Instr), f.instrs[k]? = some i → ∀ v ∈ i.op.operands, f.Ready k v

theorem instr_later (h : f.instrs <+: f'.instrs) {i : InstrId} {instr : Instr}
    (hi : f.instr i = .ok instr) : f'.instr i = .ok instr := entry_of_prefix h hi

theorem Ready.later (hvalues : f.values <+: f'.values) (hinstrs : f.instrs <+: f'.instrs) {k : Nat}
    {v : ValueId} (hv : f.Ready k v) : f'.Ready k v := by
  obtain ⟨x, hx, horigin⟩ := hv
  refine ⟨x, Builder.value_later hvalues hx, fun i hi => ?_⟩
  obtain ⟨hlt, instr, hinstr, hresult⟩ := horigin i hi
  exact ⟨hlt, instr, instr_later hinstrs hinstr, hresult⟩

/-- Every value is there before the next instruction. -/
theorem Ordered.ready (h : f.Ordered) {v : ValueId} {ty : TypeId} (hv : TypedAs f.values v ty) :
    f.Ready f.instrs.length v := by
  obtain ⟨origin, hv⟩ := hv
  have hx : f.value v = .ok ⟨ty, origin⟩ := entry_eq_ok_iff.mpr hv
  refine ⟨_, hx, fun i hi => ?_⟩
  obtain ⟨instr, hinstr, hresult⟩ := h.results v _ hx i hi
  exact ⟨(List.getElem?_eq_some_iff.mp (entry_eq_ok_iff.mp hinstr)).1, instr, hinstr, hresult⟩

/-- One instruction more that reads only what is there, with its result. -/
theorem Ordered.append (h : f.Ordered) {i : Instr} {vs : List Value}
    (hinstrs : f'.instrs = f.instrs ++ [i]) (hvalues : f'.values = f.values ++ vs)
    (hvs : vs = [] ∨ ∃ ty, vs = [⟨ty, .result ⟨f.instrs.length⟩⟩] ∧
      i.result = some ⟨f.values.length⟩)
    (hreads : ∀ v ∈ i.op.operands, ∃ ty, TypedAs f.values v ty) : f'.Ordered := by
  have hvalues' : f.values <+: f'.values := by
    rw [hvalues]
    exact List.prefix_append _ _
  have hinstrs' : f.instrs <+: f'.instrs := by
    rw [hinstrs]
    exact List.prefix_append _ _
  constructor
  · intro v x hx j hj
    have hold : f.value v = .ok x → ∃ instr, f'.instr j = .ok instr ∧ instr.result = some v := by
      intro hx
      obtain ⟨instr, hinstr, hresult⟩ := h.results v x hx j hj
      exact ⟨instr, instr_later hinstrs' hinstr, hresult⟩
    have hx := entry_eq_ok_iff.mp hx
    rw [hvalues] at hx
    obtain rfl | ⟨ty, rfl, hresult⟩ := hvs
    · rw [List.append_nil] at hx
      exact hold (entry_eq_ok_iff.mpr hx)
    · rcases TypeTable.getElem?_concat_cases hx with hx | ⟨hv, rfl⟩
      · exact hold (entry_eq_ok_iff.mpr hx)
      · cases hj
        refine ⟨i, entry_eq_ok_iff.mpr ?_, hresult.trans (congrArg (some ∘ ValueId.mk) hv.symm)⟩
        rw [hinstrs]
        exact List.getElem?_concat_length
  · intro k j hj v hv
    rw [hinstrs] at hj
    apply Ready.later hvalues' hinstrs'
    rcases TypeTable.getElem?_concat_cases hj with hj | ⟨rfl, rfl⟩
    · exact h.reads k j hj v hv
    · obtain ⟨ty, hty⟩ := hreads v hv
      exact h.ready hty

/-- One variable or constant more, which no instruction reads yet. -/
theorem Ordered.beside (h : f.Ordered) {x : Value} (hinstrs : f'.instrs = f.instrs)
    (hvalues : f'.values = f.values ++ [x]) (hx : ∀ i, x.origin ≠ .result i) : f'.Ordered := by
  have hvalues' : f.values <+: f'.values := by
    rw [hvalues]
    exact List.prefix_append _ _
  have hinstrs' : f.instrs <+: f'.instrs := by simp [hinstrs]
  constructor
  · intro v y hy j hj
    have hy := entry_eq_ok_iff.mp hy
    rw [hvalues] at hy
    rcases TypeTable.getElem?_concat_cases hy with hy | ⟨-, rfl⟩
    · obtain ⟨instr, hinstr, hresult⟩ := h.results v y (entry_eq_ok_iff.mpr hy) j hj
      exact ⟨instr, instr_later hinstrs' hinstr, hresult⟩
    · exact absurd hj (hx j)
  · intro k j hj v hv
    rw [hinstrs] at hj
    apply Ready.later hvalues' hinstrs'
    exact h.reads k j hj v hv

end Function

/-- The identifiers of the instructions from `n` on, `k` of them. -/
def instrsFrom (n k : Nat) : List InstrId := (List.range' n k).map InstrId.mk

theorem instrsFrom_append (n k j : Nat) :
    instrsFrom n k ++ instrsFrom (n + k) j = instrsFrom n (k + j) := by
  rw [instrsFrom, instrsFrom, instrsFrom, ← List.map_append, List.range'_append_1]

/-- A block that lists more instructions. -/
def Block.list (block : Block) (ids : List InstrId) : Block :=
  { block with instrs := block.instrs ++ ids }

/-- A block that lists nothing more. -/
theorem modify_list_nil (blocks : List Block) (i n : Nat) :
    blocks.modify i (·.list (instrsFrom n 0)) = blocks := by
  have hid : (fun k : Block => k.list (instrsFrom n 0)) = id := by
    funext k
    simp [Block.list, instrsFrom]
  rw [hid, List.modify_id]

/-- A block that lists more, and more again. -/
theorem modify_list_append (blocks : List Block) (i n k j : Nat) :
    (blocks.modify i (·.list (instrsFrom n k))).modify i (·.list (instrsFrom (n + k) j)) =
      blocks.modify i (·.list (instrsFrom n (k + j))) := by
  rw [List.modify_modify_eq]
  congr 1
  funext block
  simp [Block.list, ← instrsFrom_append]

theorem typedAs_iff {f : Function} {v : ValueId} {ty : TypeId} :
    TypedAs f.values v ty ↔ f.valueType v = .ok ty := by
  constructor
  · rintro ⟨origin, hv⟩
    exact bind_eq_ok_iff.mpr ⟨_, entry_eq_ok_iff.mpr hv, rfl⟩
  · intro hv
    obtain ⟨⟨ty, origin⟩, hx, ⟨⟩⟩ := bind_eq_ok_iff.mp hv
    exact ⟨origin, entry_eq_ok_iff.mp hx⟩

namespace Builder

variable {α β : Type} {b b' b'' : Builder} {block : BlockId} {code code' : List Instr}

/-- A step adds code at the end of a block, and the values that are its results in order. -/
structure Appends (block : BlockId) (code : List Instr) (b b' : Builder) : Prop where
  types : b.types.Entered b'.types
  mode : b'.mode = b.mode
  boxed : b'.boxed = b.boxed
  current : b'.current = b.current
  header : b'.func.header = b.func.header
  params : b'.func.params = b.func.params
  freeVars : b'.func.freeVars = b.func.freeVars
  instrs : b'.func.instrs = b.func.instrs ++ code
  placed : ∀ i ∈ code, i.block = block
  blocks : b'.func.blocks = b.func.blocks.modify block.index
    (·.list (instrsFrom b.func.instrs.length code.length))
  values : ∃ vs, b'.func.values = b.func.values ++ vs ∧
    code.filterMap Instr.result = valuesFrom b.func.values.length vs.length
  ordered : b.func.Ordered → b'.func.Ordered

namespace Appends

/-- Types are entered, and nothing else is done. -/
theorem withTypes {t : TypeTable} (h : b.types.Entered t) (block : BlockId) :
    Appends block [] b { b with types := t } where
  types := h
  mode := rfl
  boxed := rfl
  current := rfl
  header := rfl
  params := rfl
  freeVars := rfl
  instrs := (List.append_nil _).symm
  placed := nofun
  blocks := (modify_list_nil _ _ _).symm
  values := ⟨[], (List.append_nil _).symm, rfl⟩
  ordered := id

theorem refl (block : BlockId) (b : Builder) : Appends block [] b b := withTypes (.refl _) block

theorem trans (h : Appends block code b b') (h' : Appends block code' b' b'') :
    Appends block (code ++ code') b b'' where
  types := h.types.trans h'.types
  mode := h'.mode.trans h.mode
  boxed := h'.boxed.trans h.boxed
  current := h'.current.trans h.current
  header := h'.header.trans h.header
  params := h'.params.trans h.params
  freeVars := h'.freeVars.trans h.freeVars
  instrs := by rw [h'.instrs, h.instrs, List.append_assoc]
  placed i hi := by
    rcases List.mem_append.mp hi with hi | hi
    · exact h.placed i hi
    · exact h'.placed i hi
  blocks := by
    rw [h'.blocks, h.blocks, h.instrs, List.length_append, List.length_append,
      modify_list_append]
  values := by
    obtain ⟨vs, hvs, hres⟩ := h.values
    obtain ⟨vs', hvs', hres'⟩ := h'.values
    refine ⟨vs ++ vs', by rw [hvs', hvs, List.append_assoc], ?_⟩
    rw [List.filterMap_append, hres, hres', hvs, List.length_append, List.length_append,
      valuesFrom_append]
  ordered ho := h'.ordered (h.ordered ho)

section Facts

variable (h : Appends block code b b')
include h

theorem typedAs {v : ValueId} {ty : TypeId} (hv : TypedAs b.func.values v ty) :
    TypedAs b'.func.values v ty := by
  obtain ⟨vs, hvs, -⟩ := h.values
  rw [hvs]
  exact hv.append vs

theorem signature : b'.func.signature = b.func.signature :=
  Function.signature_eq_of_header h.header

end Facts

end Appends

/-! ## Steps that only read -/

section Reading

variable {E : Fault → Prop} {R : β → Builder → Prop} {P : Except BuildError β → Builder → Prop}

theorem settles_liftAsk {question : TypeTable → Except Fault α} {f : α → TryBuild β}
    (he : ∀ e, question b.types = .error e → E e)
    (hf : ∀ a, question b.types = .ok a → Settles E (f a).run b P) :
    Settles E (liftM (ask question) >>= f).run b P := by
  rcases hq : question b.types with e | a
  · exact .faultLift (ask_fault hq) (he e hq)
  · exact .stepLift (ask_run hq) (hf a hq)

/-- What follows a step that cannot fail. -/
theorem settles_lift {x : Build α} {f : α → TryBuild β} {Q : α → Builder → Prop}
    (h : Settles E x b Q) (hf : ∀ a b', Q a b' → Settles E (f a).run b' P) :
    Settles E (liftM x >>= f).run b P := by
  rcases h with h | ⟨e, hrun, he⟩
  · exact .afterGives (.lift h) hf
  · exact .faultLift hrun he

/-- The last step, which cannot fail. -/
theorem settles_last {x : Build α} {Q : α → Builder → Prop}
    {P : Except BuildError α → Builder → Prop}
    (h : Settles E x b Q) (hq : ∀ a b', Q a b' → P (.ok a) b') :
    Settles E (liftM x : TryBuild α).run b P := by
  refine Settles.bind h fun a b' ha => .inl (Yields.pure ?_)
  exact hq a b' ha

end Reading

/-! ## Steps that emit -/

theorem openBlock_run (hopen : b.current = some block) : openBlock.run b = .ok (block, b) := by
  simp [openBlock, hopen]

/-- The open block with one instruction more. -/
theorem modify_list (f : Function) (block : BlockId) :
    f.blocks.modify block.index (fun k => { k with instrs := k.instrs ++ [⟨f.instrs.length⟩] }) =
      f.blocks.modify block.index (·.list (instrsFrom f.instrs.length 1)) := rfl

theorem emit_appends (hopen : b.current = some block) {op : Operation}
    (hreads : ∀ v ∈ op.operands, ∃ ty, TypedAs b.func.values v ty) :
    Yields (emit op) b fun _ b' =>
      Appends block [⟨block, op, none, .none⟩] b b' ∧ b'.types = b.types := by
  have hrun : (emit op).run b = .ok (⟨b.func.instrs.length⟩,
      { b with func := (b.func.addStep block op .none).2 }) := by
    change (openBlock >>= _).run b = _
    rw [StateT.run_bind, openBlock_run hopen]
    rfl
  refine .of_run hrun ⟨?_, rfl⟩
  exact {
    types := .refl _
    mode := rfl
    boxed := rfl
    current := rfl
    header := rfl
    params := rfl
    freeVars := rfl
    instrs := rfl
    placed := by simp
    blocks := modify_list b.func block
    values := ⟨[], (List.append_nil _).symm, rfl⟩
    ordered := fun h => h.append rfl (List.append_nil _).symm (.inl rfl) hreads }

theorem emitValue_appends (hopen : b.current = some block) {op : Operation} (ty : TypeId)
    (hreads : ∀ v ∈ op.operands, ∃ ty, TypedAs b.func.values v ty) :
    Yields (emitValue op ty) b fun v b' =>
      Appends block [⟨block, op, some v, .none⟩] b b' ∧ TypedAs b'.func.values v ty ∧
        b'.types = b.types := by
  have hrun : (emitValue op ty).run b = .ok (⟨b.func.values.length⟩,
      { b with func := (b.func.addDefinition block op ty .none).2 }) := by
    change (openBlock >>= _).run b = _
    rw [StateT.run_bind, openBlock_run hopen]
    rfl
  refine .of_run hrun ⟨?_, ⟨_, List.getElem?_concat_length⟩, rfl⟩
  exact {
    types := .refl _
    mode := rfl
    boxed := rfl
    current := rfl
    header := rfl
    params := rfl
    freeVars := rfl
    instrs := rfl
    placed := by simp
    blocks := modify_list b.func block
    values := ⟨[⟨ty, .result ⟨b.func.instrs.length⟩⟩], rfl, rfl⟩
    ordered := fun h => h.append rfl rfl (.inr ⟨ty, rfl, rfl⟩) hreads }

theorem intern_appends (block : BlockId) (ty : Ty) :
    Yields (intern ty) b fun id b' =>
      Appends block [] b b' ∧ b'.types.get id = .ok ty ∧ b'.func = b.func ∧
        (b.types.Sound → b.types.Admits ty → b'.types.Sound) :=
  .of_run rfl ⟨.withTypes (.intern _ ty) block, TypeTable.get_intern b.types ty, rfl,
    fun hs hty => hs.intern hty⟩

/-- A variable is read by its address. -/
theorem load_appends (hopen : b.current = some block) {addr : ValueId} {ty elem : TypeId}
    (haddr : TypedAs b.func.values addr ty) (helem : b.types.deref ty = .ok elem) :
    Yields (load addr) b fun w b' =>
      Appends block [⟨block, .load addr, some w, .none⟩] b b' ∧ TypedAs b'.func.values w elem ∧
        b'.types = b.types := by
  refine .step (valueType_run haddr) (.step (ask_run helem) ?_)
  refine emitValue_appends hopen elem fun v hv => ?_
  obtain rfl := List.mem_singleton.mp hv
  exact ⟨ty, haddr⟩

end Builder

end MethodSSA
