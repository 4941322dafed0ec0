import MethodSSA.Proofs.Draft.Selecting
import MethodSSA.Proofs.Draft.TailCall

/-!
# A block that hands everything on

What the steps of a wrapper add to its draft, whatever the type table holds. The draft has one
block, which stays open until the end (`Line`). First it takes variables (`Binds`): the receiver
and the parameters of its signature. Then code is emitted, of which a tail call is the end
(`tailCall_appends`); the closed block passes every check. A step may be a fault, since the
table may not know a type that it is asked about; but where it ends, it ends like this.
-/

namespace MethodSSA

/-! ## Calls in code -/

/-- The call that an operation makes, if it is one. -/
def Operation.call? : Operation → Option Call
  | .call c => some c
  | _ => none

/-- The calls of a piece of code, in order. -/
def callsOf (code : List Instr) : List Call := code.filterMap (·.op.call?)

@[simp] theorem callsOf_append (code more : List Instr) :
    callsOf (code ++ more) = callsOf code ++ callsOf more := List.filterMap_append

section Calls

variable {t : TypeTable} {vals : List Value} {block : BlockId}

theorem SelectionCode.calls {start v : ValueId} {base ty : TypeId} {path : List Nat}
    {code : List Instr} (h : SelectionCode t vals block start base path v ty code) :
    callsOf code = [] := by
  induction h with
  | nil => rfl
  | snoc _ hstep ih =>
    rw [callsOf_append, ih]
    cases hstep <;> rfl

/-- The call is the only one. -/
theorem ResultCode.calls {call : Call} {rs : List Var} {code : List Instr} {vs : List ValueId}
    (h : ResultCode t vals call rs code vs) : callsOf code = [call] := by
  cases h with
  | none | one => rfl
  | many =>
    simp [callsOf, Instr.plain, Operation.call?, List.filterMap_map]

/-- Every result is a value. -/
theorem ResultCode.typed {call : Call} {rs : List Var} {code : List Instr} {vs : List ValueId}
    (h : ResultCode t vals call rs code vs) : ∀ v ∈ vs, ∃ ty, TypedAs vals v ty := by
  cases h with
  | none => exact nofun
  | one hv =>
    intro v hmem
    obtain rfl := List.mem_singleton.mp hmem
    exact ⟨_, hv⟩
  | many _ _ _ hvs =>
    intro v hmem
    obtain ⟨n, hn, rfl⟩ := List.getElem_of_mem hmem
    exact ⟨_, hvs.get hn (hvs.length_eq ▸ hn)⟩

end Calls

namespace Builder

variable {b b' b'' : Builder} {block : BlockId}

/-! ## Drafts of one block -/

/-- A draft whose only block is open and lists all its instructions. -/
structure Line (b : Builder) : Prop where
  current : b.current = some Function.entryBlock
  blocks : b.func.blocks = [openEntry b.func.instrs.length]
  placed : ∀ i ∈ b.func.instrs, i.block = Function.entryBlock
  recover : b.func.recover = none
  ordered : b.func.Ordered

theorem Line.appends {code : List Instr} (l : b.Line) (h : Appends Function.entryBlock code b b') :
    b'.Line where
  current := h.current.trans l.current
  blocks := by
    have hlist (n k : Nat) : (openEntry n).list (instrsFrom n k) = openEntry (n + k) := by
      simp [openEntry, Block.list, instrsFrom, List.range_eq_range', ← List.range'_append_1]
    rw [h.blocks, l.blocks, h.instrs, List.length_append, ← hlist]
    rfl
  placed i hi := by
    rw [h.instrs] at hi
    rcases List.mem_append.mp hi with hi | hi
    · exact l.placed i hi
    · exact h.placed i hi
  recover := (Function.recover_eq_of_header h.header).trans l.recover
  ordered := h.ordered l.ordered

/-! ## Variables -/

/-- A step adds parameters and captured variables, and types at most besides. -/
structure Binds (params freeVars : List ValueId) (b b' : Builder) : Prop where
  types : b.types.Entered b'.types
  header : b'.func.header = b.func.header
  params : b'.func.params = b.func.params ++ params
  freeVars : b'.func.freeVars = b.func.freeVars ++ freeVars
  instrs : b'.func.instrs = b.func.instrs
  values : b.func.values <+: b'.func.values
  line : b.Line → b'.Line

namespace Binds

variable {params params' freeVars freeVars' : List ValueId}

theorem refl (b : Builder) : Binds [] [] b b :=
  ⟨.refl _, rfl, (List.append_nil _).symm, (List.append_nil _).symm, rfl, List.prefix_rfl, id⟩

theorem trans (h : Binds params freeVars b b') (h' : Binds params' freeVars' b' b'') :
    Binds (params ++ params') (freeVars ++ freeVars') b b'' where
  types := h.types.trans h'.types
  header := h'.header.trans h.header
  params := by rw [h'.params, h.params, List.append_assoc]
  freeVars := by rw [h'.freeVars, h.freeVars, List.append_assoc]
  instrs := h'.instrs.trans h.instrs
  values := h.values.trans h'.values
  line l := h'.line (h.line l)

section Facts

variable (h : Binds params freeVars b b')
include h

theorem typedAs {v : ValueId} {ty : TypeId} (hv : TypedAs b.func.values v ty) :
    TypedAs b'.func.values v ty := by
  obtain ⟨more, hmore⟩ := h.values
  rw [← hmore]
  exact hv.append more

theorem signatureOf {sig : Signature} (hsig : b.types.signatureOf b.func.signature = .ok sig) :
    b'.types.signatureOf b'.func.signature = .ok sig := by
  rw [Function.signature_eq_of_header h.header]
  exact h.types.extended.signatureOf hsig

end Facts

end Binds

/-- One more variable or constant. -/
theorem Line.beside (l : b.Line) {f : Function} {x : Value} (hblocks : f.blocks = b.func.blocks)
    (hinstrs : f.instrs = b.func.instrs) (hrecover : f.recover = b.func.recover)
    (hvalues : f.values = b.func.values ++ [x]) (hx : ∀ i, x.origin ≠ .result i) :
    Line { b with func := f } where
  current := l.current
  blocks := by
    change f.blocks = [openEntry f.instrs.length]
    rw [hblocks, hinstrs]
    exact l.blocks
  placed := by
    change ∀ i ∈ f.instrs, _
    rw [hinstrs]
    exact l.placed
  recover := hrecover.trans l.recover
  ordered := l.ordered.beside hinstrs hvalues hx

theorem addParam_binds (b : Builder) (name : String) (ty : TypeId) :
    Yields (addParam name ty) b fun v b' =>
      Binds [v] [] b b' ∧ TypedAs b'.func.values v ty ∧ b'.types = b.types :=
  .of_run rfl ⟨⟨.refl _, rfl, rfl, (List.append_nil _).symm, rfl, List.prefix_append _ _,
    fun l => l.beside rfl rfl rfl rfl nofun⟩, ⟨_, List.getElem?_concat_length⟩, rfl⟩

theorem addFreeVar_binds (b : Builder) (name : String) (ty : TypeId) :
    Yields (addFreeVar name ty) b fun v b' =>
      Binds [] [v] b b' ∧ TypedAs b'.func.values v ty ∧ b'.types = b.types :=
  .of_run rfl ⟨⟨.refl _, rfl, (List.append_nil _).symm, rfl, rfl, List.prefix_append _ _,
    fun l => l.beside rfl rfl rfl rfl nofun⟩, ⟨_, List.getElem?_concat_length⟩, rfl⟩

theorem intern_binds (b : Builder) (ty : Ty) :
    Yields (intern ty) b fun id b' => Binds [] [] b b' ∧ b'.types.get id = .ok ty := by
  refine .of_run rfl ⟨⟨.intern _ ty, rfl, (List.append_nil _).symm, (List.append_nil _).symm, rfl,
    List.prefix_rfl, fun l => ?_⟩, TypeTable.get_intern b.types ty⟩
  exact ⟨l.current, l.blocks, l.placed, l.recover, l.ordered⟩

theorem addFormal_binds (b : Builder) (sig : Signature) (p : Var) (place : Nat) :
    Yields (addFormal sig p place) b fun v b' =>
      Binds [v] [] b b' ∧ FormalTyped b'.types b'.func.values sig (p, place) v := by
  rcases hlast : sig.variadic && place + 1 == sig.params.length with _ | _
  · rw [addFormal, hlast, if_neg Bool.false_ne_true]
    refine (addParam_binds b p.name p.ty).mono ?_
    rintro v b' ⟨hbinds, hv, -⟩
    refine ⟨hbinds, p.ty, hv, ?_⟩
    simp [hlast]
  · rw [addFormal, hlast, if_pos rfl]
    refine (intern_binds b (.slice p.ty)).bind ?_
    rintro ty b₁ ⟨hbinds₁, hget⟩
    refine (addParam_binds b₁ p.name ty).mono ?_
    rintro v b' ⟨hbinds, hv, htypes⟩
    refine ⟨hbinds₁.trans hbinds, ty, hv, ?_⟩
    simp only [hlast, if_true]
    rw [htypes]
    exact hget

/-- The parameters of a signature, one by one. -/
theorem mapM_addFormal_binds (sig : Signature) (ps : List (Var × Nat)) (b : Builder) :
    Yields (ps.mapM fun (p, place) => addFormal sig p place) b fun vs b' =>
      Binds vs [] b b' ∧ List.Forall₂ (FormalTyped b'.types b'.func.values sig) ps vs := by
  induction ps generalizing b with
  | nil => exact .pure ⟨.refl b, .nil⟩
  | cons p ps ih =>
    rw [List.mapM_cons]
    refine (addFormal_binds b sig p.1 p.2).bind ?_
    rintro v b₁ ⟨h₁, hv⟩
    refine (ih b₁).bind ?_
    rintro vs b₂ ⟨h₂, hvs⟩
    have hv₂ : FormalTyped b₂.types b₂.func.values sig p v := .later h₂.types.types h₂.typedAs hv
    exact .pure ⟨h₁.trans h₂, .cons hv₂ hvs⟩

/-- The formal parameters of a signature. -/
theorem addFormals_binds {sig : Signature}
    (hsig : b.types.signatureOf b.func.signature = .ok sig) :
    Yields addFormals b fun vs b' => Binds vs [] b b' ∧
      List.Forall₂ (FormalTyped b'.types b'.func.values sig) sig.params.zipIdx vs :=
  .step (ownSignature_run hsig) (mapM_addFormal_binds sig sig.params.zipIdx b)

/-! ## Code -/

theorem addLocal_appends (hopen : b.current = some block) (ty : TypeId) :
    Yields (addLocal ty) b fun addr b' =>
      Appends block [⟨block, .alloc false, some addr, .none⟩] b b' ∧ ∃ ptr,
        TypedAs b'.func.values addr ptr ∧ b'.types.get ptr = .ok (.pointer ty) := by
  refine (intern_appends block (.pointer ty)).bind ?_
  rintro ptr b₁ ⟨h₁, hget, -, -⟩
  refine Yields.bind (emitValue_appends (h₁.current.trans hopen) ptr nofun) ?_
  rintro addr b₂ ⟨h₂, haddr, htypes⟩
  have h := h₁.trans h₂
  refine .of_run rfl ⟨?_, ptr, haddr, ?_⟩
  · -- the variables of a function are not read by its code
    exact { h with ordered := fun ho => ⟨(h.ordered ho).results, (h.ordered ho).reads⟩ }
  · change b₂.types.get ptr = _
    rw [htypes]
    exact hget

/-- A parameter is copied as it is. -/
theorem spill_appends (hopen : b.current = some block) {v : ValueId} {ty : TypeId}
    (hv : TypedAs b.func.values v ty) :
    Yields (spill v) b fun addr b' =>
      Appends block [⟨block, .alloc false, some addr, .none⟩, ⟨block, .store addr v, none, .none⟩]
        b b' ∧ ∃ ptr, TypedAs b'.func.values addr ptr ∧ b'.types.get ptr = .ok (.pointer ty) := by
  refine .step (valueType_run hv) ((addLocal_appends hopen ty).bind ?_)
  rintro addr b₁ ⟨h₁, ptr, haddr, hget⟩
  have hv₁ := h₁.typedAs hv
  have hderef := TypeTable.deref_eq (TypeTable.underlyingTy_plain hget rfl)
  have hstore : Yields (store addr v) b₁ fun _ b' =>
      Appends block [⟨block, .store addr v, none, .none⟩] b₁ b' ∧ b'.types = b₁.types := by
    refine .step (valueType_run haddr) (.step (ask_run hderef) ?_)
    refine .step (convert_run_of_eq (typedAs_iff.mp hv₁)) ?_
    refine emit_appends (h₁.current.trans hopen) fun x hx => ?_
    rcases List.mem_cons.mp hx with rfl | hx
    · exact ⟨ptr, haddr⟩
    · obtain rfl := List.mem_singleton.mp hx
      exact ⟨ty, hv₁⟩
  refine hstore.bind ?_
  rintro _ b₂ ⟨h₂, -⟩
  exact .pure ⟨h₁.trans h₂, ptr, h₂.typedAs haddr, h₂.types.extended.get hget⟩

/-- What is read has the type that the address points to, if the table knows it. -/
theorem load_settles (hopen : b.current = some block) {addr : ValueId} {ty : TypeId}
    (haddr : TypedAs b.func.values addr ty) :
    Settles (fun _ => True) (load addr) b fun w b' => ∃ elem, b'.types.deref ty = .ok elem ∧
      Appends block [⟨block, .load addr, some w, .none⟩] b b' ∧ TypedAs b'.func.values w elem := by
  rcases hderef : b.types.deref ty with e | elem
  · have hfault : (load addr).run b = .error e := by
      rw [load, StateT.run_bind, valueType_run haddr]
      change (ask (·.deref ty) >>= _).run b = _
      rw [StateT.run_bind, ask_fault hderef]
      rfl
    exact .inr ⟨e, hfault, trivial⟩
  · refine .inl ((load_appends hopen haddr hderef).mono ?_)
    rintro w b' ⟨h, hw, htypes⟩
    refine ⟨elem, ?_, h, hw⟩
    rw [htypes]
    exact hderef

/-! ## The call and its results -/

theorem appends_takesApart (tuple : ValueId) (results : List Var) :
    TakesApart (fun b => b.current = some Function.entryBlock) (Appends Function.entryBlock)
      tuple results where
  refl _ := .refl _ _
  trans := .trans
  kept hopen h := h.current.trans hopen
  typedAs h := h.typedAs
  extract hopen htuple _ _ := by
    refine emitValue_appends hopen _ fun x hx => ?_
    obtain rfl := List.mem_singleton.mp hx
    exact ⟨_, htuple⟩

theorem Line.ret_run (l : b.Line) (vs : List ValueId) :
    (ret vs).run b = .ok ((), b.returned vs) := by
  rw [ret, close, StateT.run_bind, openBlock_run l.current]
  rfl

/-- **A tail call** calls, and returns all results. -/
theorem tailCall_appends (l : b.Line) {sig : Signature} {call : Call}
    (hcall : ∀ v ∈ (Operation.call call).operands, ∃ ty, TypedAs b.func.values v ty)
    (hsig : b.types.signatureOf b.func.signature = .ok sig) :
    Yields (tailCall call) b fun _ b' => ∃ b₁ code vs, Appends Function.entryBlock code b b₁ ∧
      b' = b₁.returned vs ∧ ResultCode b₁.types b₁.func.values call sig.results code vs := by
  refine .step (ownSignature_run hsig) ?_
  generalize sig.results = results
  rcases results with _ | ⟨r, _ | ⟨r', rest⟩⟩
  · -- the call has no value
    refine (emit_appends l.current hcall).bind ?_
    rintro _ b₁ ⟨h, -⟩
    exact .of_run ((l.appends h).ret_run []) ⟨b₁, _, [], h, rfl, .none⟩
  · -- the value of the call is the result
    refine (emitValue_appends l.current r.ty hcall).bind ?_
    rintro v b₁ ⟨h, hv, -⟩
    exact .of_run ((l.appends h).ret_run [v]) ⟨b₁, _, [v], h, rfl, .one hv⟩
  · -- the value of the call is a tuple, which is taken apart
    refine (intern_appends Function.entryBlock (.tuple (r :: r' :: rest))).bind ?_
    rintro ty b₁ ⟨h₁, hget, -, -⟩
    have l₁ := l.appends h₁
    refine (emitValue_appends l₁.current ty fun v hv => ?_).bind ?_
    · obtain ⟨ty', hty⟩ := hcall v hv
      exact ⟨ty', h₁.typedAs hty⟩
    rintro tuple b₂ ⟨h₂, hv, htypes⟩
    have l₂ := l₁.appends h₂
    rw [List.range_eq_range']
    refine ((appends_takesApart tuple _).mapM (r :: r' :: rest) 0 l₂.current hv (htypes ▸ hget)
      rfl).bind ?_
    rintro vs b₃ ⟨h₃, hvs⟩
    refine .of_run ((l₂.appends h₃).ret_run vs) ⟨b₃, _, vs, (h₁.trans h₂).trans h₃, rfl, ?_⟩
    exact .many (by simp) (h₃.typedAs hv) (h₃.types.extended.get (htypes ▸ hget)) hvs

end Builder

end MethodSSA
