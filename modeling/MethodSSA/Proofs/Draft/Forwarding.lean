import MethodSSA.Proofs.Draft.Straight
import MethodSSA.Proofs.Promotion.Route

/-!
# Code that forwards a call

The pieces of code of which wrappers consist: taking the receiver by address
(`StartCode`), following a path of embedded fields (`PathCode`), taking the object that
was reached as the method wants it (`ReceiverCode`), and handing back the results of the
call (`ResultCode`). Each piece is described by what stands in it and by the types of the
values that it defines, and beside each description stands the step of construction that
emits such a piece.
-/

namespace MethodSSA

/-- A value has the type of pointers to `elem`. -/
def Points (t : TypeTable) (vals : List Value) (v : ValueId) (elem : TypeId) : Prop :=
  ∃ ty, TypedAs vals v ty ∧ t.get ty = .ok (.pointer elem)

theorem Points.append {t t' : TypeTable} {vals : List Value} {v : ValueId} {elem : TypeId}
    (h : Points t vals v elem) (g : t.Grown t') (more : List Value) :
    Points t' (vals ++ more) v elem := by
  obtain ⟨ty, hv, hget⟩ := h
  exact ⟨ty, hv.append more, g.get hget⟩

theorem Builder.Emits.points {b b' : Builder} {code : List Instr} (e : b.Emits code b')
    {v : ValueId} {elem : TypeId} (h : Points b.types b.func.values v elem) :
    Points b'.types b'.func.values v elem := by
  obtain ⟨vs, hvs, -⟩ := e.values
  rw [hvs]
  exact h.append e.types vs

namespace TypeTable

variable {t : TypeTable}

/-- A pointer to a struct has the fields of the struct. -/
theorem structFields?_of_pointer {ptr a : TypeId} {fields : List Field}
    (hptr : t.get ptr = .ok (.pointer a)) (hu : t.underlyingTy a = .ok (.struct fields)) :
    t.structFields? ptr = .ok (some fields) := by
  have hderef : t.deref ptr = .ok a := deref_eq (underlyingTy_plain hptr rfl)
  simp [structFields?, hderef, hu, Ty.fields?]

end TypeTable

/-! ## The pieces -/

/-- The receiver by address: itself if it is a pointer, else the address of a copy. -/
inductive StartCode (t : TypeTable) (vals : List Value) (recv : TypeId) (v : ValueId) :
    (base : TypeId) → (isPtr : Bool) → (start : ValueId) → List Instr → Prop
  /-- a pointer stays as it is -/
  | pointer {base : TypeId} (h : t.get recv = .ok (.pointer base)) : StartCode t vals recv v base
    true v []
  /-- a value is copied to a variable -/
  | copied {a : ValueId} (ha : Points t vals a recv) : StartCode t vals recv v recv false a
    [.plain (.alloc false) (some a), .plain (.store a v) none]

/-- From the address of an object of type `base` to the address of what is embedded at
the end of a path. An embedded value is addressed in place, of an embedded pointer the
content is taken. -/
inductive PathCode (t : TypeTable) (vals : List Value) (base : TypeId) (start : ValueId) :
    (path : List Nat) → (b : TypeId) → (v : ValueId) → List Instr → Prop
  /-- no field to follow -/
  | nil : PathCode t vals base start [] base start []
  /-- a field that holds a value -/
  | value {path : List Nat} {b c : TypeId} {v w : ValueId} {i : Nat} {code : List Instr}
    (h : PathCode t vals base start path b v code) (he : t.Embeds b i c false)
    (hw : Points t vals w c) : PathCode t vals base start (path ++ [i]) c w
      (code ++ [.plain (.fieldAddr v i) (some w)])
  /-- a field that holds a pointer -/
  | pointer {path : List Nat} {b c ptr : TypeId} {v u w : ValueId} {i : Nat} {code : List Instr}
    (h : PathCode t vals base start path b v code) (he : t.Embeds b i c true)
    (hu : Points t vals u ptr) (hptr : t.get ptr = .ok (.pointer c)) (hw : TypedAs vals w ptr) :
    PathCode t vals base start (path ++ [i]) c w
      (code ++ [.plain (.fieldAddr v i) (some u), .plain (.load u) (some w)])

/-- The receiver of a concrete method, from the address of the object: the address itself
for a method on pointers, else the content. -/
inductive ReceiverCode (t : TypeTable) (vals : List Value) (elem : TypeId) (m : FuncId)
    (addr : ValueId) : (arg : ValueId) → List Instr → Prop
  /-- a method on pointers -/
  | address (h : t.hasPointerReceiver m = .ok true) : ReceiverCode t vals elem m addr addr []
  /-- a method on values -/
  | content {w : ValueId} (h : t.hasPointerReceiver m = .ok false) (hw : TypedAs vals w elem) :
    ReceiverCode t vals elem m addr w [.plain (.load addr) (some w)]

/-- The call, and taking its results apart if there are several. -/
inductive ResultCode (t : TypeTable) (vals : List Value) (call : Call) :
    (results : List Var) → List Instr → List ValueId → Prop
  /-- no result -/
  | none : ResultCode t vals call [] [.plain (.call call) none] []
  /-- one result -/
  | one {r : Var} {v : ValueId} (hv : TypedAs vals v r.ty) :
    ResultCode t vals call [r] [.plain (.call call) (some v)] [v]
  /-- several results -/
  | many {results : List Var} {tuple : ValueId} {ty : TypeId} {vs : List ValueId}
    (hmany : 2 ≤ results.length) (htuple : TypedAs vals tuple ty)
    (hty : t.get ty = .ok (.tuple results))
    (hvs : List.Forall₂ (fun v (r : Var) => TypedAs vals v r.ty) vs results) :
    ResultCode t vals call results
      (.plain (.call call) (some tuple) ::
        vs.zipIdx.map fun (v, i) => .plain (.extract tuple i) (some v)) vs

/-- The call stays as it is described. -/
theorem ResultCode.later {t t' : TypeTable} (ht : t.types <+: t'.types) {vals vals' : List Value}
    (hvals : ∀ {v ty}, TypedAs vals v ty → TypedAs vals' v ty) {call : Call} {rs : List Var}
    {code : List Instr} {vs : List ValueId} (h : ResultCode t vals call rs code vs) :
    ResultCode t' vals' call rs code vs := by
  cases h with
  | none => exact .none
  | one hv => exact .one (hvals hv)
  | many hmany htuple hty hvs =>
    have hty' := entry_of_prefix ht hty
    exact .many hmany (hvals htuple) hty' (hvs.imp fun _ _ hv => hvals hv)

section Growth

variable {t t' : TypeTable} {vals : List Value} (g : t.Grown t') (more : List Value)
include g

theorem StartCode.append {recv base : TypeId} {v start : ValueId} {isPtr : Bool}
    {code : List Instr} (h : StartCode t vals recv v base isPtr start code) :
    StartCode t' (vals ++ more) recv v base isPtr start code := by
  cases h with
  | pointer h => exact .pointer (g.get h)
  | copied ha => exact .copied (ha.append g more)

theorem PathCode.append {base b : TypeId} {start v : ValueId} {path : List Nat}
    {code : List Instr} (h : PathCode t vals base start path b v code) :
    PathCode t' (vals ++ more) base start path b v code := by
  induction h with
  | nil => exact .nil
  | value _ he hw ih => exact .value ih (g.embeds he) (hw.append g more)
  | pointer _ he hu hptr hw ih =>
    exact .pointer ih (g.embeds he) (hu.append g more) (g.get hptr) (hw.append more)

theorem ReceiverCode.append {elem : TypeId} {m : FuncId} {addr arg : ValueId} {code : List Instr}
    (h : ReceiverCode t vals elem m addr arg code) :
    ReceiverCode t' (vals ++ more) elem m addr arg code := by
  cases h with
  | address h => exact .address (g.hasPointerReceiver h)
  | content h hw => exact .content (g.hasPointerReceiver h) (hw.append more)

end Growth

namespace Builder

variable {b : Builder}

/-! ## Variables -/

theorem addLocal_yields (s : b.Straight) {ty : TypeId} (hty : b.types.Holds ty) :
    Yields (addLocal ty) b fun a b' =>
      Emits b [.plain (.alloc false) (some a)] b' ∧ Points b'.types b'.func.values a ty := by
  have hptr : b.types.Admits (.pointer ty) :=
    TypeTable.admits_of_components (fun c hc => List.mem_singleton.mp hc ▸ hty) rfl rfl
  refine (intern_yields s hptr rfl).bind ?_
  rintro ptr b₁ ⟨he, hget, -⟩
  refine (emitValue_yields he.straight (.alloc false) (TypeTable.holds_of_get hget)).bind ?_
  rintro a b₂ ⟨he', ha, htypes⟩
  have hemits := he.trans he'
  refine .of_run rfl ⟨⟨⟨?_, hemits.types, hemits.mode, hemits.boxed, hemits.header⟩, hemits.params,
    hemits.freeVars, hemits.instrs, hemits.values⟩, ptr, ha, ?_⟩
  · -- the list of local variables is no part of what a straight draft promises
    have s' := he'.straight
    exact ⟨s'.sound, s'.current, s'.blocks, s'.placed, s'.held, s'.signature, s'.recover⟩
  · change b₂.types.get ptr = _
    rw [htypes]
    exact hget

theorem load_yields (s : b.Straight) {addr : ValueId} {elem : TypeId}
    (h : Points b.types b.func.values addr elem) :
    Yields (load addr) b fun w b' =>
      Emits b [.plain (.load addr) (some w)] b' ∧ TypedAs b'.func.values w elem ∧
        b'.types = b.types := by
  obtain ⟨ty, hty, hget⟩ := h
  have hheld : b.types.Holds elem :=
    s.sound.holds_component hget (List.mem_singleton_self elem)
  have hderef : b.types.deref ty = .ok elem :=
    TypeTable.deref_eq (TypeTable.underlyingTy_plain hget rfl)
  exact .step (valueType_run hty) (.step (ask_run hderef) (emitValue_yields s (.load addr) hheld))

/-- A value of the variable's own type is stored as it is. -/
theorem store_yields (s : b.Straight) {addr v : ValueId} {ty : TypeId}
    (h : Points b.types b.func.values addr ty) (hv : TypedAs b.func.values v ty) :
    Yields (store addr v) b fun _ b' =>
      Emits b [.plain (.store addr v) none] b' ∧ b'.types = b.types := by
  obtain ⟨ptr, hptr, hget⟩ := h
  have hderef : b.types.deref ptr = .ok ty :=
    TypeTable.deref_eq (TypeTable.underlyingTy_plain hget rfl)
  have hconvert : (convert v ty).run b = .ok (v, b) := by
    have hrelabel : (relabel? v ty).run b = .ok (some v, b) := by
      rw [relabel?, StateT.run_bind, valueType_run hv]
      change (if ty = ty then (pure (some v) : Build (Option ValueId)) else _).run b = _
      rw [if_pos rfl]
      rfl
    rw [convert, StateT.run_bind, hrelabel]
    rfl
  refine .step (valueType_run hptr) (.step (ask_run hderef) (.step hconvert ?_))
  exact emit_yields s (.store addr v)

theorem spill_yields (s : b.Straight) {v : ValueId} {ty : TypeId}
    (hv : TypedAs b.func.values v ty) :
    Yields (spill v) b fun a b' =>
      Emits b [.plain (.alloc false) (some a), .plain (.store a v) none] b' ∧
        Points b'.types b'.func.values a ty := by
  refine .step (valueType_run hv) ((addLocal_yields s (s.holds_typedAs hv)).bind ?_)
  rintro a b₁ ⟨he, ha⟩
  refine (store_yields he.straight ha (he.typedAs hv)).bind ?_
  rintro _ b₂ ⟨he', -⟩
  exact .pure ⟨he.trans he', he'.points ha⟩

/-! ## Paths of embedded fields -/

theorem fieldOf_run {v : ValueId} {ptr a : TypeId} {fields : List Field} {f : Field} {i : Nat}
    (hv : TypedAs b.func.values v ptr) (hptr : b.types.get ptr = .ok (.pointer a))
    (hu : b.types.underlyingTy a = .ok (.struct fields)) (hf : fields[i]? = some f) :
    (fieldOf v i).run.run b = .ok (.ok f, b) := by
  have hfields : (structFields? ptr).run b = .ok (some fields, b) :=
    ask_run (TypeTable.structFields?_of_pointer hptr hu)
  have hgives : Gives (fieldOf v i) b fun g b' => f = g ∧ b = b' := by
    refine .stepLift (valueType_run hv) (.stepLift hfields ?_)
    simp only [hf]
    exact .pure ⟨rfl, rfl⟩
  obtain ⟨r, b', hrun, g, rfl, rfl, rfl⟩ := hgives
  exact hrun

theorem fieldAddr_yields (s : b.Straight) {f : Field} (hf : b.types.Holds f.ty) (v : ValueId)
    (i : Nat) :
    Yields (fieldAddr v i f) b fun w b' =>
      Emits b [.plain (.fieldAddr v i) (some w)] b' ∧ Points b'.types b'.func.values w f.ty := by
  have hptr : b.types.Admits (.pointer f.ty) :=
    TypeTable.admits_of_components (fun c hc => List.mem_singleton.mp hc ▸ hf) rfl rfl
  refine (intern_yields s hptr rfl).bind ?_
  rintro ptr b₁ ⟨he, hget, -⟩
  refine (emitValue_yields he.straight _ (TypeTable.holds_of_get hget)).mono ?_
  rintro w b₂ ⟨he', hw, htypes⟩
  exact ⟨he.trans he', ptr, hw, htypes ▸ hget⟩

/-- One embedded field is followed, by the address of the struct that has it. -/
theorem followField_gives (s : b.Straight) {base a c : TypeId} {start v : ValueId}
    {path : List Nat} {i : Nat} {p : Bool} {code : List Instr}
    (h : PathCode b.types b.func.values base start path a v code)
    (hv : Points b.types b.func.values v a) (he : b.types.Embeds a i c p)
    (hc : b.types.isPointer c = .ok false) :
    Gives (followField v i) b fun w b' =>
      ∃ more, Emits b more b' ∧ Points b'.types b'.func.values w c ∧
        PathCode b'.types b'.func.values base start (path ++ [i]) c w (code ++ more) := by
  have hembeds := he
  obtain ⟨hu, hf, -, hstrip⟩ := he
  obtain ⟨ptr, hptr, hget⟩ := hv
  obtain ⟨u, -, hstruct⟩ := bind_eq_ok_iff.mp hu
  have hheld := (s.sound.holds_field hstruct (List.mem_of_getElem? hf)).1
  have hself : b.types.isPointer ptr = .ok true :=
    TypeTable.isPointer_eq (TypeTable.underlyingTy_plain hget rfl)
  refine .step (fieldOf_run hptr hget hu hf) (.stepLift (valueType_run hptr)
    (.stepLift (ask_run hself) ?_))
  refine (Gives.lift (fieldAddr_yields s hheld v i)).bind ?_
  rintro w b₁ ⟨he₁, hw⟩
  -- the code so far is described for the values of now
  obtain ⟨ws, hws, -⟩ := he₁.values
  have hpath := h.append he₁.types ws
  rw [← hws] at hpath
  have hembeds₁ := he₁.types.embeds hembeds
  obtain ⟨ty, hty, ⟨rfl, rfl⟩ | ⟨hnone, rfl, rfl⟩⟩ := TypeTable.stripPointer_eq_ok_iff.mp hstrip
  · -- the field holds a pointer, which is read
    have hty₁ := he₁.types.get hty
    have hpointer : b₁.types.isPointer _ = .ok true :=
      TypeTable.isPointer_eq (TypeTable.underlyingTy_plain hty₁ rfl)
    refine .stepLift (ask_run hpointer) (Gives.lift ((load_yields he₁.straight hw).mono ?_))
    rintro w' b₂ ⟨he₂, hw', htypes⟩
    obtain ⟨ws', hws', -⟩ := he₂.values
    have hpath₂ := hpath.append he₂.types ws'
    rw [← hws'] at hpath₂
    refine ⟨_, he₁.trans he₂, ⟨_, hw', he₂.types.get hty₁⟩, ?_⟩
    exact .pointer hpath₂ (he₂.types.embeds hembeds₁) (he₂.points hw) (he₂.types.get hty₁) hw'
  · -- the field holds a value, and its address is enough
    refine .stepLift (ask_run (he₁.types.isPointer hc)) (.pure ⟨_, he₁, hw, ?_⟩)
    exact .value hpath hembeds₁ hw

/-- **A path is followed to its end**, if no declared pointer type stands there. -/
theorem followPath_gives (s : b.Straight) {base c : TypeId} {start : ValueId} {path : List Nat}
    {p : Bool} (hstart : Points b.types b.func.values start base)
    (hl : b.types.Leads base path c p) (hc : b.types.isPointer c = .ok false) :
    Gives (followPath start path) b fun v b' =>
      ∃ code, Emits b code b' ∧ Points b'.types b'.func.values v c ∧
        PathCode b'.types b'.func.values base start path c v code := by
  induction hl with
  | nil => exact .pure ⟨[], .refl s, hstart, .nil⟩
  | snoc _ he ih =>
    -- what embeds a type is a struct, so that `hc` holds before the last field as well
    rw [followPath, List.foldlM_append]
    refine (ih (TypeTable.isPointer_of_embeds he)).bind ?_
    rintro v b₁ ⟨code, he₁, hv, hpath⟩
    rw [List.foldlM_cons]
    refine (followField_gives he₁.straight hpath hv (he₁.types.embeds he)
      (he₁.types.isPointer hc)).bind ?_
    rintro w b₂ ⟨more, he₂, hw, hpath₂⟩
    exact .pure ⟨code ++ more, he₁.trans he₂, hw, hpath₂⟩

end Builder

end MethodSSA
