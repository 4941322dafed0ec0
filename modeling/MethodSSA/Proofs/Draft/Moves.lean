import MethodSSA.Proofs.Draft.Growth
import MethodSSA.Proofs.Types.Extension

/-!
# What commands do to a draft

However large, a command changes a draft by a row of small **moves**: it emits an instruction,
adds a parameter, adds, opens or closes a block, and so on. `perform_makes` finds the row for
every command; whatever each move keeps is then kept by all commands, and holds in every
draft that is **reached** by commands (`Reached.invariant`).

There are three kinds, each of them with those before it. **Emissions** only emit: they leave
the open block open, and of the other blocks nothing is seen in them. **Advances** also add
variables and blocks, and open and close blocks. Other moves use the workspace or say something
about the function as a whole. The recovery block is emitted within a single advance, because
another block waits as the open one in the meantime.

Only two commands give the function named results and a recovery block. All others are
**steady** (`perform_steady`): of the type table they make nothing but a longer one.
-/

namespace MethodSSA

open Relation

/-- Adds the local variable whose address is of type `ptr` to a block. -/
def Function.addVariable (f : Function) (block : BlockId) (ptr : TypeId) : Function :=
  { (f.addDefinition block (.alloc false) ptr .none).2 with
    locals := f.locals ++ [⟨f.values.length⟩] }

/-- Whether a command opens a block, or adds one. -/
def Command.movesOn : Command → Bool
  | .newBlock _ | .setCurrent _ | .recoveryBlock => true
  | _ => false

namespace Builder

/-- The draft in which the recovery block is emitted. -/
def landing (b : Builder) : Builder :=
  { b with
    func := { (b.func.addBlock (some "recover")).2 with recover := some ⟨b.func.blocks.length⟩ }
    current := some ⟨b.func.blocks.length⟩ }

/-- A move that emits. -/
inductive Emission (b : Builder) : Builder → Prop
  /-- a type is entered -/
  | intern (ty : Ty) : Emission b { b with types := (b.types.intern ty).2 }
  /-- a constant is made -/
  | constant (lit : Literal) (ty : TypeId) :
    Emission b { b with func := (b.func.addValue ⟨ty, .const lit⟩).2 }
  /-- an instruction is emitted that defines no value -/
  | step {block : BlockId} (hopen : b.current = some block) (op : Operation) (pos : SourcePos) :
    Emission b { b with func := (b.func.addStep block op pos).2 }
  /-- an instruction is emitted that defines a value -/
  | definition {block : BlockId} (hopen : b.current = some block) (op : Operation) (ty : TypeId)
    (pos : SourcePos) : Emission b { b with func := (b.func.addDefinition block op ty pos).2 }
  /-- a local variable is made -/
  | localVar {block : BlockId} (hopen : b.current = some block) (ptr : TypeId) :
    Emission b { b with func := b.func.addVariable block ptr }

/-- A move by which the draft grows or goes on elsewhere. -/
inductive Advance (b : Builder) : Builder → Prop
  /-- something is emitted -/
  | emission {b' : Builder} (h : Emission b b') : Advance b b'
  /-- a constant is kept as the shared constant `true` -/
  | constTrue (v : ValueId) : Advance b { b with trueConst := some v }
  /-- a parameter is added -/
  | param (name : String) (ty : TypeId) :
    Advance b { b with
      func := { (b.func.addValue ⟨ty, .param b.func.params.length name⟩).2 with
        params := b.func.params ++ [⟨b.func.values.length⟩] } }
  /-- a captured variable is added -/
  | freeVar (name : String) (ty : TypeId) :
    Advance b { b with
      func := { (b.func.addValue ⟨ty, .free b.func.freeVars.length name⟩).2 with
        freeVars := b.func.freeVars ++ [⟨b.func.values.length⟩] } }
  /-- a local variable is kept as that of a named result -/
  | nameResult {addr : ValueId} (haddr : addr ∈ b.func.locals) :
    Advance b { b with func := { b.func with namedResults := b.func.namedResults ++ [addr] } }
  /-- a block is added -/
  | newBlock (label : Option String) : Advance b { b with func := (b.func.addBlock label).2 }
  /-- a block that has no terminator is opened -/
  | setCurrent {block : BlockId} {stored : Block} (hstored : b.func.block block = .ok stored)
    (hopen : stored.isClosed = false) : Advance b { b with current := some block }
  /-- the open block is closed -/
  | close {block : BlockId} {term : Terminator} (hopen : b.current = some block)
    (hsuccs : ∀ succ ∈ term.successors, ∃ stored, b.func.block succ = .ok stored) :
    Advance b { b with func := b.func.closeBlock block term, current := none }
  /-- the recovery block is added, emitted and closed -/
  | recover {b' : Builder} {results : List ValueId} (hnone : b.func.recover = none)
    (h : ReflTransGen Emission b.landing b') :
    Advance b { b' with
      func := b'.func.closeBlock ⟨b.func.blocks.length⟩ (.ret results), current := b.current }

/-- What a command does, one thing at a time. -/
inductive Move (b : Builder) : Builder → Prop
  /-- the draft advances -/
  | advance {b' : Builder} (h : Advance b b') : Move b b'
  /-- the workspace is used in another way, here or elsewhere in the program -/
  | share (w : Workspace) : Move b { b with toWorkspace := w }
  /-- something is said about the function as a whole -/
  | describe (synthetic : Option String) (pos : SourcePos) (object : Option FuncId)
    (method : Option Selection) :
    Move b { b with func := { b.func with synthetic, pos, object, method } }

/-- A later state of a draft with the same signature, named results and recovery block, over a
table with more types at most. -/
structure Steady (b b' : Builder) : Prop where
  types : b.types.Entered b'.types
  signature : b'.func.signature = b.func.signature
  namedResults : b'.func.namedResults = b.func.namedResults
  recover : b'.func.recover = b.func.recover

/-- An advance that leaves named results and recovery block as they are. -/
structure Stride (b b' : Builder) : Prop where
  advance : Advance b b'
  steady : Steady b b'

/-- A move that leaves named results and recovery block as they are. -/
structure SteadyMove (b b' : Builder) : Prop where
  move : Move b b'
  steady : Steady b b'

variable {α : Type} {R : Builder → Builder → Prop} {b b' b'' : Builder}

namespace Steady

theorem refl (b : Builder) : Steady b b := ⟨.refl _, rfl, rfl, rfl⟩

theorem trans (h : Steady b b') (h' : Steady b' b'') : Steady b b'' :=
  ⟨h.types.trans h'.types, h'.signature.trans h.signature,
    h'.namedResults.trans h.namedResults, h'.recover.trans h.recover⟩

end Steady

/-! ## Steps that only read -/

theorem ask_acts (question : TypeTable → Except Fault α) : Acts R (ask question) :=
  .getThen (fun _ => .answer _) fun _ _ => rfl

theorem value_acts (v : ValueId) : Acts R (value v) :=
  .getThen (fun _ => .answer _) fun _ _ => rfl

theorem valueType_acts (v : ValueId) : Acts R (valueType v) :=
  .getThen (fun _ => .answer _) fun _ _ => rfl

theorem ownSignature_acts : Acts R ownSignature :=
  .getThen (fun _ => .answer _) fun _ _ => rfl

/-- A block is open whenever one is asked for. -/
theorem current_of_openBlock {block : BlockId} (h : openBlock.run b = .ok (block, b')) :
    b.current = some block ∧ b' = b := by
  rcases hc : b.current with _ | c
  · simp only [openBlock, StateT.run_bind, StateT.run_get, pure_bind, hc] at h
    cases h
  · simp [openBlock, hc] at h
    simp [h]

/-- What follows the demand for an open block. -/
theorem of_openBlock_bind {f : BlockId → Build α} {a : α}
    (h : (openBlock >>= f).run b = .ok (a, b')) :
    ∃ block, b.current = some block ∧ (f block).run b = .ok (a, b') := by
  obtain ⟨block, b₁, hopen, hrest⟩ := exists_of_bind h
  obtain ⟨hcurrent, rfl⟩ := current_of_openBlock hopen
  exact ⟨block, hcurrent, hrest⟩

/-! ## Emissions -/

/-- By an emission a draft grows. -/
theorem Emission.grows (h : Emission b b') : Grows b b' := by
  have hvalue : ∀ x, b.func.values <+: b.func.values ++ [x] := fun _ => List.prefix_append _ _
  cases h with
  | intern ty =>
    exact .beside rfl rfl rfl List.prefix_rfl List.prefix_rfl List.prefix_rfl List.prefix_rfl
  | constant lit ty =>
    exact .beside rfl rfl rfl (hvalue _) List.prefix_rfl List.prefix_rfl List.prefix_rfl
  | step hopen op pos => exact .emit hopen rfl rfl rfl List.prefix_rfl rfl rfl List.prefix_rfl
  | definition hopen op ty pos => exact .emit hopen rfl rfl rfl (hvalue _) rfl rfl List.prefix_rfl
  | localVar hopen ptr =>
    exact .emit hopen rfl rfl rfl (hvalue _) rfl rfl (List.prefix_append _ _)

theorem Emission.steady (h : Emission b b') : Steady b b' := by
  cases h with
  | intern ty => exact ⟨.intern _ ty, rfl, rfl, rfl⟩
  | constant | step | definition | localVar => exact ⟨.refl _, rfl, rfl, rfl⟩

/-- A step that is a single emission. -/
theorem Acts.emission {x : Build α} (h : ∀ ⦃b a b'⦄, x.run b = .ok (a, b') → Emission b b')
    (hi : Insists x) : Acts Emission x :=
  .single (fun _ _ _ hrun => ⟨h hrun, (h hrun).grows⟩) hi

theorem intern_acts (ty : Ty) : Acts Emission (intern ty) := by
  refine .emission (fun b id b' hrun => ?_) (fun b k id b' hrun => ?_)
  · cases hrun
    exact .intern ty
  · cases hrun
    exact .inr ⟨rfl, rfl, rfl, rfl⟩

theorem constant_acts (lit : Literal) (ty : TypeId) : Acts Emission (constant lit ty) := by
  refine .emission (fun b v b' hrun => ?_) (fun b k v b' hrun => ?_)
  · cases hrun
    exact .constant lit ty
  · cases hrun
    exact .inr ⟨rfl, rfl, rfl, rfl⟩

theorem emitAt_acts (op : Operation) (pos : SourcePos) : Acts Emission (emitAt op pos) := by
  refine .emission (fun b i b' hrun => ?_) (.ofOpen _)
  obtain ⟨block, hopen, hrun⟩ := of_openBlock_bind hrun
  cases hrun
  exact .step hopen op pos

theorem emitValueAt_acts (op : Operation) (ty : TypeId) (pos : SourcePos) :
    Acts Emission (emitValueAt op ty pos) := by
  refine .emission (fun b v b' hrun => ?_) (.ofOpen _)
  obtain ⟨block, hopen, hrun⟩ := of_openBlock_bind hrun
  cases hrun
  exact .definition hopen op ty pos

theorem emit_acts (op : Operation) : Acts Emission (emit op) := emitAt_acts op .none

theorem emitValue_acts (op : Operation) (ty : TypeId) : Acts Emission (emitValue op ty) :=
  emitValueAt_acts op ty .none

/-- The variable of a local is listed as soon as it is made. -/
theorem emit_local_acts (ptr : TypeId) :
    Acts Emission (do
      let addr ← emitValue (.alloc false) ptr
      amend fun f => { f with locals := f.locals ++ [addr] }
      return addr) := by
  refine .emission (fun b v b' hrun => ?_) <|
    (emitValue_acts (.alloc false) ptr).insists.bind fun addr => ?_
  · obtain ⟨addr, b₁, hemit, hrest⟩ := exists_of_bind hrun
    obtain ⟨block, hopen, hemit⟩ := of_openBlock_bind hemit
    cases hemit
    cases hrest
    exact .localVar hopen ptr
  · intro b k v b' hrun
    cases hrun
    exact .inr ⟨rfl, rfl, rfl, rfl⟩

theorem addLocal_acts (ty : TypeId) : Acts Emission (addLocal ty) :=
  (intern_acts _).bind fun ptr => emit_local_acts ptr

theorem newHeap_acts (ty : TypeId) : Acts Emission (newHeap ty) :=
  (intern_acts _).bind fun ptr => emitValue_acts _ ptr

theorem load_acts (addr : ValueId) : Acts Emission (load addr) :=
  (valueType_acts addr).bind fun _ => (ask_acts _).bind fun elem => emitValue_acts _ elem

/-! ### Conversions that box nothing -/

theorem relabel?_acts (v : ValueId) (target : TypeId) : Acts Emission (relabel? v target) := by
  refine (valueType_acts v).bind fun source => .ite (.pure _) ?_
  refine (ask_acts _).bind fun us => (ask_acts _).bind fun ut => (ask_acts _).bind fun same => ?_
  exact .ite ((emitValue_acts _ target).bind fun _ => .pure _) (.pure _)

theorem reshape_acts (v : ValueId) (target : TypeId) : Acts Emission (reshape v target) := by
  refine (value_acts v).bind fun x => ?_
  cases x.literal? with
  | none => exact emitValue_acts _ target
  | some lit => exact constant_acts lit target

theorem convertPlain_acts (v : ValueId) (target : TypeId) :
    Acts Emission (convertPlain v target) := by
  refine (relabel?_acts v target).bind fun w => ?_
  cases w with
  | none => exact reshape_acts v target
  | some w => exact .pure w

theorem settle_acts (v : ValueId) : Acts Emission (settle v) := by
  refine (valueType_acts v).bind fun ty => (ask_acts _).bind fun us =>
    (ask_acts _).bind fun c => ?_
  exact .ite ((ask_acts _).bind fun target => convertPlain_acts v target) (.pure v)

/-! ### Fields -/

theorem fieldOf_acts (v : ValueId) (index : Nat) : Acts Emission (fieldOf v index).run := by
  refine .liftThen (valueType_acts v) fun ty => .liftThen (ask_acts _) fun fields => ?_
  cases fields with
  | none => exact .liftThen (ask_acts _) fun text => .fail _
  | some fields =>
    simp only
    cases fields[index]? with
    | none => exact .liftThen (ask_acts _) fun text => .fail _
    | some field => exact .pure _

theorem fieldAddr_acts (v : ValueId) (index : Nat) (field : Field) :
    Acts Emission (fieldAddr v index field) :=
  (intern_acts _).bind fun ptr => emitValue_acts _ ptr

theorem selectField_acts (v : ValueId) (index : Nat) (wantAddr : Bool) :
    Acts Emission (selectField v index wantAddr).run := by
  refine .andThen (fieldOf_acts v index) fun field => .liftThen (valueType_acts v) fun ty =>
    .liftThen (ask_acts _) fun c => .iteFail ?_ (.lift (emitValue_acts _ _))
  refine .liftThen (fieldAddr_acts v index field) fun addr => ?_
  exact .iteFail (.pure _) (.lift (load_acts addr))

theorem followField_acts (v : ValueId) (index : Nat) :
    Acts Emission (followField v index).run := by
  refine .andThen (fieldOf_acts v index) fun field => .liftThen (valueType_acts v) fun ty =>
    .liftThen (ask_acts _) fun c => .iteFail ?_ (.lift (emitValue_acts _ _))
  refine .liftThen (fieldAddr_acts v index field) fun addr => .liftThen (ask_acts _) fun c => ?_
  exact .iteFail (.lift (load_acts addr)) (.pure _)

theorem followPath_acts (path : List Nat) :
    ∀ v : ValueId, Acts Emission (followPath v path).run := by
  induction path with
  | nil => exact fun v => .pure _
  | cons index path ih => exact fun v => .andThen (followField_acts v index) ih

/-! ### Calls, type tests and marks -/

theorem extract_acts (tuple : ValueId) (index : Nat) : Acts Emission (extract tuple index) := by
  refine (valueType_acts tuple).bind fun ty => (ask_acts _).bind fun u => ?_
  cases u with
  | tuple vars => exact (Acts.answer _).bind fun component => emitValue_acts _ component.ty
  | _ => exact .throw _

theorem typeTest_acts (x : ValueId) (ty : TypeId) (pos : SourcePos) :
    Acts Emission (typeTest x ty pos) :=
  (intern_acts _).bind fun tuple => emitValueAt_acts _ tuple pos

theorem debugRef_acts (x : ValueId) (pos : SourcePos) (isAddr : Bool) :
    Acts Emission (debugRef x pos isAddr) :=
  .getThen (fun _ => .ite ((emit_acts _).bind fun _ => .pure _) (.pure none)) fun _ _ => rfl

/-! ### Zero values -/

theorem zeroConst_acts (ty : TypeId) : Acts Emission (zeroConst ty) :=
  (ask_acts _).bind fun u => constant_acts u.zero ty

theorem zeroValue_acts (ty : TypeId) : Acts Emission (zeroValue ty) := by
  refine (ask_acts _).bind fun u => .ite ?_ (zeroConst_acts ty)
  exact (addLocal_acts ty).bind fun addr => load_acts addr

theorem recoveredResults_acts : Acts Emission recoveredResults := by
  refine .getThen (fun b => .ite ?_ ?_) fun _ _ => rfl
  · refine ownSignature_acts.bind fun sig => ?_
    exact .mapM (fun (r : Var) => zeroValue_acts r.ty) _
  · exact .mapM load_acts _

/-! ## Advances -/

theorem strides_of_emits {x : Build α} (h : Acts Emission x) : Acts Stride x :=
  h.mono fun _ _ he => ⟨.emission he, he.steady⟩

theorem advances_of_strides {x : Build α} (h : Acts Stride x) : Acts Advance x :=
  h.mono fun _ _ => Stride.advance

theorem addParam_acts (name : String) (ty : TypeId) : Acts Stride (addParam name ty) := by
  refine .single (fun b v b' hrun => ?_) (fun b k v b' hrun => ?_)
  · cases hrun
    exact ⟨⟨.param name ty, .refl _, rfl, rfl, rfl⟩, .beside rfl rfl rfl
      (List.prefix_append _ _) (List.prefix_append _ _) List.prefix_rfl List.prefix_rfl⟩
  · cases hrun
    exact .inr ⟨rfl, rfl, rfl, rfl⟩

theorem addFreeVar_acts (name : String) (ty : TypeId) : Acts Stride (addFreeVar name ty) := by
  refine .single (fun b v b' hrun => ?_) (fun b k v b' hrun => ?_)
  · cases hrun
    exact ⟨⟨.freeVar name ty, .refl _, rfl, rfl, rfl⟩, .beside rfl rfl rfl
      (List.prefix_append _ _) List.prefix_rfl (List.prefix_append _ _) List.prefix_rfl⟩
  · cases hrun
    exact .inr ⟨rfl, rfl, rfl, rfl⟩

theorem addFormal_acts (sig : Signature) (p : Var) (place : Nat) :
    Acts Stride (addFormal sig p place) :=
  .ite ((strides_of_emits (intern_acts _)).bind fun ty => addParam_acts p.name ty)
    (addParam_acts p.name p.ty)

theorem addFormals_acts : Acts Stride addFormals :=
  ownSignature_acts.bind fun sig => .mapM (fun (p : Var × Nat) => addFormal_acts sig p.1 p.2) _

theorem constTrue_acts : Acts Stride constTrue := by
  refine .getThen (fun b => ?_) fun _ _ => rfl
  cases b.trueConst with
  | some v => exact .pure v
  | none =>
    refine (strides_of_emits (constant_acts _ _)).bind fun v => ?_
    refine .single (fun b v' b' hrun => ?_) (fun b k v' b' hrun => ?_)
    · cases hrun
      exact ⟨⟨.constTrue v, .refl _, rfl, rfl, rfl⟩, .beside rfl rfl rfl List.prefix_rfl
        List.prefix_rfl List.prefix_rfl List.prefix_rfl⟩
    · cases hrun
      exact .inr ⟨rfl, rfl, rfl, rfl⟩

/-- The address of a named result is that of the local variable made for it. -/
theorem addNamedResult_acts (r : Var) : Acts Advance (addNamedResult r) := by
  have hlocal := addLocal_acts r.ty
  refine ⟨fun b u b' hrun => ?_, hlocal.grows.bind fun addr => .single fun b u b' hrun => ?_,
    hlocal.insists.bind fun addr b k u b' hrun => ?_⟩
  · obtain ⟨addr, b₁, hrun, hrest⟩ := exists_of_bind hrun
    have hmem : addr ∈ b₁.func.locals := by
      obtain ⟨ptr, b₂, -, hrest⟩ := exists_of_bind hrun
      obtain ⟨addr', b₃, -, hrest⟩ := exists_of_bind hrest
      cases hrest
      simp
    have hmoves := (advances_of_strides (strides_of_emits hlocal)).makes hrun
    cases hrest
    exact hmoves.tail (.nameResult hmem)
  · cases hrun
    exact .beside rfl rfl rfl List.prefix_rfl List.prefix_rfl List.prefix_rfl List.prefix_rfl
  · cases hrun
    exact .inr ⟨rfl, rfl, rfl, rfl⟩

theorem addNamedResults_acts : Acts Advance addNamedResults := by
  have hlast : Acts Advance (do return (← get).func.namedResults) :=
    .getThen (fun b => .pure b.func.namedResults) fun _ _ => rfl
  refine .getThen (fun b => .ite ?_ hlast) fun _ _ => rfl
  exact ownSignature_acts.bind fun sig => (Acts.forM addNamedResult_acts _).bind fun _ => hlast

theorem newBlock_makes (label : String) : Makes Advance (newBlock label) := by
  refine .single fun b block b' hrun => ?_
  cases hrun
  exact .newBlock (some label)

/-- The end of a step that opens a block. -/
theorem of_setCurrent {block : BlockId} {u : Unit} (h : (setCurrent block).run b = .ok (u, b')) :
    ∃ stored, b.func.block block = .ok stored ∧ stored.isClosed = false ∧
      b' = { b with current := some block } := by
  obtain ⟨stored, hstored, hrun⟩ := exists_of_answer_bind (of_get_bind h)
  rcases hclosed : stored.isClosed with _ | _ <;> rw [hclosed] at hrun <;> cases hrun
  exact ⟨stored, hstored, hclosed, rfl⟩

theorem setCurrent_makes (block : BlockId) : Makes Advance (setCurrent block) := by
  refine .single fun b u b' hrun => ?_
  obtain ⟨stored, hstored, hclosed, rfl⟩ := of_setCurrent hrun
  exact .setCurrent hstored hclosed

/-- The end of a step that closes the open block. -/
theorem of_close {term : Terminator} {u : Unit} (h : (close term).run b = .ok (u, b')) :
    ∃ block, b.current = some block ∧
      (∀ succ ∈ term.successors, ∃ stored, b.func.block succ = .ok stored) ∧
      b' = { b with func := b.func.closeBlock block term, current := none } := by
  obtain ⟨block, hopen, h⟩ := of_openBlock_bind h
  obtain ⟨u', b₁, hsuccs, hrest⟩ := exists_of_bind (of_get_bind h)
  obtain ⟨rfl, hsuccs⟩ := answers_of_forM hsuccs
  cases hrest
  exact ⟨block, hopen, hsuccs, rfl⟩

theorem close_acts (term : Terminator) : Acts Stride (close term) := by
  refine .single (fun b u b' hrun => ?_) (.ofOpen _)
  obtain ⟨block, hopen, hsuccs, rfl⟩ := of_close hrun
  refine ⟨⟨.close hopen hsuccs, ?_⟩, .close hopen⟩
  rw [Function.closeBlock_eq]
  exact ⟨.refl _, rfl, rfl, rfl⟩

theorem tailCall_acts (call : Call) : Acts Stride (tailCall call) := by
  refine ownSignature_acts.bind fun sig => ?_
  simp only
  split
  · exact (strides_of_emits (emit_acts _)).bind fun _ => close_acts _
  · exact (strides_of_emits (emitValue_acts _ _)).bind fun _ => close_acts _
  · refine (strides_of_emits (intern_acts _)).bind fun ty =>
      (strides_of_emits (emitValue_acts _ ty)).bind fun tuple => ?_
    refine Acts.bind ?_ fun _ => close_acts _
    exact strides_of_emits (.mapM (fun i => extract_acts tuple i) _)

/-- Emissions leave the open block open. -/
theorem Emission.current_eq (h : Emission b b') : b'.current = b.current := by
  cases h <;> rfl

theorem current_eq_of_emissions (h : ReflTransGen Emission b b') : b'.current = b.current := by
  induction h with
  | refl => rfl
  | tail _ hstep ih => exact hstep.current_eq.trans ih

/-- The recovery block is there already, or its results are emitted between its opening and
its closing. -/
theorem of_recoveryBlock {block : BlockId} (h : recoveryBlock.run b = .ok (block, b')) :
    b.func.recover = some block ∧ b' = b ∨ ∃ b₁ results, b.func.recover = none ∧
      block = ⟨b.func.blocks.length⟩ ∧ recoveredResults.run b.landing = .ok (results, b₁) ∧
      b' = { b₁ with
        func := b₁.func.closeBlock ⟨b.func.blocks.length⟩ (.ret results)
        current := b.current } := by
  replace h := of_get_bind h
  rcases hrecover : b.func.recover with _ | recover <;> rw [hrecover] at h
  · have hrun : (do
        ret (← recoveredResults)
        modify fun b' => { b' with current := b.current }
        return ⟨b.func.blocks.length⟩ : Build BlockId).run b.landing = .ok (block, b') := h
    obtain ⟨results, b₁, hresults, hrun⟩ := exists_of_bind hrun
    obtain ⟨u, b₂, hclose, hrun⟩ := exists_of_bind hrun
    have hemits := recoveredResults_acts.makes hresults
    obtain ⟨c, hopen, -, rfl⟩ := of_close hclose
    cases hrun
    obtain rfl : ⟨b.func.blocks.length⟩ = c :=
      Option.some.inj ((current_eq_of_emissions hemits).symm.trans hopen)
    exact .inr ⟨b₁, results, rfl, rfl, hresults, rfl⟩
  · cases h
    exact .inl ⟨rfl, rfl⟩

theorem recoveryBlock_makes : Makes Advance recoveryBlock := by
  intro b block b' hrun
  rcases of_recoveryBlock hrun with ⟨-, rfl⟩ | ⟨b₁, results, hrecover, -, hresults, rfl⟩
  · exact .refl
  · exact .single (.recover hrecover (recoveredResults_acts.makes hresults))

/-! ## Moves -/

theorem steady_of_strides {x : Build α} (h : Acts Stride x) : Acts SteadyMove x :=
  h.mono fun _ _ hs => ⟨.advance hs.advance, hs.steady⟩

theorem steady_of_emits {x : Build α} (h : Acts Emission x) : Acts SteadyMove x :=
  steady_of_strides (strides_of_emits h)

/-! ### Conversion -/

theorem needMethods_acts (ty : TypeId) : Acts SteadyMove (needMethods ty) := by
  refine .single (fun b u b' hrun => ?_) (fun b k u b' hrun => ?_)
  · cases hrun
    exact ⟨⟨.share _, .refl _, rfl, rfl, rfl⟩, .beside rfl rfl rfl List.prefix_rfl
      List.prefix_rfl List.prefix_rfl List.prefix_rfl⟩
  · cases hrun
    exact .inr ⟨rfl, rfl, rfl, rfl⟩

theorem box_acts (v : ValueId) (target : TypeId) : Acts SteadyMove (box v target) := by
  refine (valueType_acts v).bind fun source => (ask_acts _).bind fun us =>
    (ask_acts _).bind fun c => .ite (steady_of_emits (emitValue_acts _ target)) ?_
  refine (ask_acts _).bind fun ty => .ite (steady_of_emits (constant_acts _ target)) ?_
  refine (steady_of_emits (settle_acts v)).bind fun v => (valueType_acts v).bind fun ty => ?_
  exact (needMethods_acts ty).bind fun _ => steady_of_emits (emitValue_acts _ target)

theorem convert_acts (v : ValueId) (target : TypeId) : Acts SteadyMove (convert v target) := by
  refine (steady_of_emits (relabel?_acts v target)).bind fun w => ?_
  cases w with
  | some w => exact .pure w
  | none =>
    refine (ask_acts _).bind fun ut => (ask_acts _).bind fun c => ?_
    exact .ite (box_acts v target) (steady_of_emits (reshape_acts v target))

theorem store_acts (addr v : ValueId) : Acts SteadyMove (store addr v) := by
  refine (valueType_acts addr).bind fun ty => (ask_acts _).bind fun elem => ?_
  exact (convert_acts v elem).bind fun v => steady_of_emits (emit_acts (.store addr v))

theorem spill_acts (param : ValueId) : Acts SteadyMove (spill param) := by
  refine (valueType_acts param).bind fun ty =>
    (steady_of_emits (addLocal_acts ty)).bind fun addr => ?_
  exact (store_acts addr param).bind fun _ => .pure addr

/-! ### Operators -/

theorem shiftCount_acts (y : ValueId) : Acts SteadyMove (shiftCount y) := by
  refine (valueType_acts y).bind fun ty => (ask_acts _).bind fun c => ?_
  exact .ite (convert_acts y _) (.pure y)

theorem arith_acts (op : Operator) (x y : ValueId) (ty : TypeId) :
    Acts SteadyMove (arith op x y ty).run := by
  have hlast : ∀ x y, Acts SteadyMove (emitValue (.binary op x y) ty) := fun x y =>
    steady_of_emits (emitValue_acts _ ty)
  refine .iteFail ?_ (.iteFail ?_ (.fail _))
  · refine .liftThen (convert_acts x ty) fun x => .liftThen (shiftCount_acts y) fun y => ?_
    exact .lift (hlast x y)
  · refine .liftThen (convert_acts x ty) fun x => .liftThen (convert_acts y ty) fun y => ?_
    exact .lift (hlast x y)

theorem absorbs_acts (known other : ValueId) : Acts R (absorbs known other) :=
  (valueType_acts other).bind fun _ =>
    .getThen (fun _ => .ite (ask_acts _) (.pure false)) fun _ _ => rfl

theorem matchOperands_acts (x y : ValueId) : Acts SteadyMove (matchOperands x y) := by
  refine (valueType_acts x).bind fun xt => (valueType_acts y).bind fun yt =>
    (ask_acts _).bind fun ux => (ask_acts _).bind fun uy => .ite (.pure _) ?_
  have hright := (convert_acts y xt).bind fun y => Acts.pure (x, y)
  have hleft := (convert_acts x yt).bind fun x => Acts.pure (x, y)
  refine (ask_acts _).bind fun _ => .ite hright ((ask_acts _).bind fun _ => .ite hleft ?_)
  refine (value_acts x).bind fun _ => .ite hleft ((value_acts y).bind fun _ => .ite hright ?_)
  exact .pure (x, y)

theorem compare_acts (op : Operator) (x y : ValueId) : Acts SteadyMove (compare op x y) := by
  have hrest : Acts SteadyMove (matchOperands x y >>= fun operands =>
      emitValue (.binary op operands.1 operands.2) TypeTable.boolean) :=
    (matchOperands_acts x y).bind fun _ => steady_of_emits (emitValue_acts _ _)
  refine (valueType_acts x).bind fun _ => (valueType_acts y).bind fun _ => .ite ?_ hrest
  refine (absorbs_acts x y).bind fun _ => .ite (.pure y) ?_
  exact (absorbs_acts y x).bind fun _ => .ite (.pure x) hrest

/-! ### Descriptions -/

theorem amend_acts {step : Function → Function}
    (h : ∀ f : Function, ∃ synthetic pos object method,
      step f = { f with synthetic, pos, object, method }) : Acts SteadyMove (amend step) := by
  refine .single (fun b u b' hrun => ?_) (fun b k u b' hrun => ?_)
  · cases hrun
    obtain ⟨synthetic, pos, object, method, heq⟩ := h b.func
    change SteadyMove b { b with func := step b.func } ∧ Grows b { b with func := step b.func }
    rw [heq]
    exact ⟨⟨.describe synthetic pos object method, .refl _, rfl, rfl, rfl⟩, .beside rfl rfl rfl
      List.prefix_rfl List.prefix_rfl List.prefix_rfl List.prefix_rfl⟩
  · cases hrun
    obtain ⟨synthetic, pos, object, method, heq⟩ := h b.func
    have hblocks : (step b.func).blocks = b.func.blocks := by rw [heq]
    have hinstrs : (step b.func).instrs = b.func.instrs := by rw [heq]
    exact .inr ⟨rfl, hblocks, hinstrs, rfl⟩

/-! ## Commands -/

/-- By a command that opens no block and adds none a draft grows, and only one such command gives
the function named results. -/
theorem perform_steady_acts (c : Command) (hc : c.movesOn = false) (hn : c ≠ .namedResults) :
    Acts SteadyMove (perform c).run := by
  have value : ∀ {x : Build ValueId}, Acts SteadyMove x →
      Acts SteadyMove (do return .value (← x) : TryBuild Outcome).run :=
    fun h => .liftThen h fun v => .pure _
  cases c with
  | describe text => exact .liftThen (amend_acts fun f => ⟨_, _, _, _, rfl⟩) fun _ => .pure _
  | place pos => exact .liftThen (amend_acts fun f => ⟨_, _, _, _, rfl⟩) fun _ => .pure _
  | implement func => exact .liftThen (amend_acts fun f => ⟨_, _, _, _, rfl⟩) fun _ => .pure _
  | standFor sel => exact .liftThen (amend_acts fun f => ⟨_, _, _, _, rfl⟩) fun _ => .pure _
  | param name ty => exact value (steady_of_strides (addParam_acts name ty))
  | freeVar name ty => exact value (steady_of_strides (addFreeVar_acts name ty))
  | formals => exact .liftThen (steady_of_strides addFormals_acts) fun _ => .pure _
  | namedResults => exact absurd rfl hn
  | localVar ty => exact value (steady_of_emits (addLocal_acts ty))
  | heapVar ty => exact value (steady_of_emits (newHeap_acts ty))
  | zeroValue ty => exact value (steady_of_emits (zeroValue_acts ty))
  | zeroConst ty => exact value (steady_of_emits (zeroConst_acts ty))
  | spill param => exact value (spill_acts param)
  | load addr => exact value (steady_of_emits (load_acts addr))
  | store addr val => exact .liftThen (store_acts addr val) fun _ => .pure _
  | constant lit ty => exact value (steady_of_emits (constant_acts lit ty))
  | constTrue => exact value (steady_of_strides constTrue_acts)
  | newBlock | setCurrent | recoveryBlock => cases hc
  | emit op => exact .liftThen (steady_of_emits (emit_acts op)) fun _ => .pure _
  | emitValue op ty pos => exact value (steady_of_emits (emitValueAt_acts op ty pos))
  | close term => exact .liftThen (steady_of_strides (close_acts term)) fun _ => .pure _
  | arith op x y ty => exact .andThen (arith_acts op x y ty) fun _ => .pure _
  | compare op x y => exact value (compare_acts op x y)
  | convert x ty => exact value (convert_acts x ty)
  | followPath x path => exact .andThen (steady_of_emits (followPath_acts path x)) fun _ => .pure _
  | selectField x index wantAddr =>
    exact .andThen (steady_of_emits (selectField_acts x index wantAddr)) fun _ => .pure _
  | extract tuple index => exact value (steady_of_emits (extract_acts tuple index))
  | typeAssert x ty pos => exact value (steady_of_emits (emitValueAt_acts _ ty pos))
  | typeTest x ty pos => exact value (steady_of_emits (typeTest_acts x ty pos))
  | debugRef x pos isAddr =>
    refine .liftThen (steady_of_emits (debugRef_acts x pos isAddr)) fun i => ?_
    cases i with
    | some i => exact .pure _
    | none => exact .pure _
  | trace kind start stop =>
    exact .liftThen (steady_of_emits (emitAt_acts _ start)) fun _ => .pure _
  | tailCall call => exact .liftThen (steady_of_strides (tailCall_acts call)) fun _ => .pure _

/-- By a command that opens no block and adds none a draft grows. -/
theorem perform_acts (c : Command) (hc : c.movesOn = false) : Acts Move (perform c).run := by
  by_cases hn : c = .namedResults
  · subst hn
    exact .liftThen (addNamedResults_acts.mono fun _ _ => .advance) fun _ => .pure _
  · exact (perform_steady_acts c hc hn).mono fun _ _ => SteadyMove.move

/-- **Only two commands give the function named results and a recovery block.** -/
theorem perform_steady (c : Command) (hn : c ≠ .namedResults) (hr : c ≠ .recoveryBlock) :
    Makes Steady (perform c).run := by
  rcases hc : c.movesOn with _ | _
  · exact (perform_steady_acts c hc hn).makes.mono fun _ _ => SteadyMove.steady
  cases c with
  | newBlock label =>
    refine .liftThen (.single fun b block b' hrun => ?_) fun _ => .pure _
    cases hrun
    exact ⟨.refl _, rfl, rfl, rfl⟩
  | setCurrent block =>
    refine .liftThen (.single fun b u b' hrun => ?_) fun _ => .pure _
    obtain ⟨stored, -, -, rfl⟩ := of_setCurrent hrun
    exact ⟨.refl _, rfl, rfl, rfl⟩
  | recoveryBlock => exact absurd rfl hr
  | _ => cases hc

/-- **Every command is a row of moves.** -/
theorem perform_makes (c : Command) : Makes Move (perform c).run := by
  rcases hc : c.movesOn with _ | _
  · exact (perform_acts c hc).makes
  have hmoves : ∀ {α : Type} {x : Build α}, Makes Advance x → Makes Move x :=
    fun h => h.mono fun _ _ => .advance
  cases c with
  | newBlock label => exact .liftThen (hmoves (newBlock_makes label)) fun _ => .pure _
  | setCurrent block => exact .liftThen (hmoves (setCurrent_makes block)) fun _ => .pure _
  | recoveryBlock => exact .liftThen (hmoves recoveryBlock_makes) fun _ => .pure _
  | _ => cases hc

/-! ## Drafts that are reached -/

/-- The drafts that commands reach. A command may fail, and the workspace may be used
elsewhere in between. -/
inductive Reached : Builder → Prop
  /-- a new draft -/
  | start (w : Workspace) (name : String) (signature : TypeId) :
    Reached ⟨w, .start name signature⟩
  /-- after a command -/
  | perform {b b' : Builder} {c : Command} {result : Except BuildError Outcome} (h : Reached b)
    (hrun : (Builder.perform c).run.run b = .ok (result, b')) : Reached b'
  /-- after other work in the same workspace -/
  | share {b : Builder} (h : Reached b) (w : Workspace) : Reached { b with toWorkspace := w }

/-- **What holds of a new draft and is kept by every move holds of every draft.** -/
theorem Reached.invariant {P : Builder → Prop} (h : Reached b)
    (hstart : ∀ w name signature, P ⟨w, .start name signature⟩)
    (hmove : ∀ b b', P b → Move b b' → P b') : P b := by
  induction h with
  | start w name signature => exact hstart w name signature
  | perform _ hrun ih =>
    have hmoves := perform_makes _ hrun
    clear hrun
    induction hmoves with
    | refl => exact ih
    | tail _ hstep ih' => exact hmove _ _ ih' hstep
  | share _ w ih => exact hmove _ _ ih (.share w)

/-- The draft after a list of commands, which go on where one of them fails. -/
def after (b : Builder) (commands : List Command) : Except Fault Builder :=
  commands.foldlM (fun b c => do return (← (perform c).run.run b).2) b

theorem Reached.after {commands : List Command} (h : Reached b)
    (hrun : b.after commands = .ok b') : Reached b' := by
  induction commands generalizing b with
  | nil =>
    cases hrun
    exact h
  | cons c commands ih =>
    obtain ⟨b₁, hc, hrest⟩ := bind_eq_ok_iff.mp (hrun : _ >>= _ = _)
    obtain ⟨⟨result, b₂⟩, hperform, ⟨⟩⟩ := bind_eq_ok_iff.mp hc
    exact ih (h.perform hperform) hrest

/-- A row of commands that is no fault leads to a draft. -/
theorem exists_after {β : Type} (commands : List Command) {g : Builder → β} {x : β}
    (h : (b.after commands).toOption.map g = some x) :
    ∃ b', b.after commands = .ok b' ∧ g b' = x := by
  obtain ⟨b', hb', hx⟩ := Option.map_eq_some_iff.mp h
  rcases hafter : b.after commands with e | b₁ <;> rw [hafter] at hb' <;> cases hb'
  exact ⟨b', rfl, hx⟩

/-- A draft for a function with one parameter and a named result. -/
def loopStart : Builder :=
  let sig : Signature := ⟨none, [⟨"x", TypeTable.boolean⟩], [⟨"r", TypeTable.boolean⟩], false⟩
  let (id, types) := TypeTable.initial.intern (.signature sig)
  ⟨⟨types, .debug, []⟩, .start "loop" id⟩

/-- Commands that leave a block open, add the recovery block in between, close a block by a
branch to itself both ways, and close all others. -/
def loopCommands : List Command :=
  [.formals, .namedResults, .freeVar "c" TypeTable.boolean, .constTrue, .newBlock "loop",
    .newBlock "done", .setCurrent ⟨1⟩, .recoveryBlock, .compare .equal ⟨0⟩ ⟨2⟩,
    .close (.branch ⟨3⟩ ⟨1⟩ ⟨1⟩), .setCurrent ⟨0⟩, .close (.jump ⟨1⟩), .setCurrent ⟨2⟩,
    .emit (.trace .statement .none .none), .close (.ret [⟨0⟩])]

end Builder

end MethodSSA
