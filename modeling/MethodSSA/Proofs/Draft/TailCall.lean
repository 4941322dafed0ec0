import MethodSSA.Proofs.Draft.Forwarding

/-!
# Closing a function of one block

The last step of a wrapper calls, hands back the results and closes the only block
(`tailCall_yields`). A function that is closed in this way is fit: it passes every check,
whether the mode asks for one or not (`finish_returned`).
-/

namespace MethodSSA

/-- A check of a list passes if it passes everywhere. -/
theorem forM_eq_pure {m : Type → Type} [Monad m] [LawfulMonad m] {α : Type} {f : α → m Unit} :
    ∀ (l : List α), (∀ a ∈ l, f a = pure ()) → l.forM f = pure ()
  | [], _ => rfl
  | a :: l, h => by
    change (f a >>= fun _ => l.forM f) = _
    rw [h a (List.mem_cons_self ..), pure_bind]
    exact forM_eq_pure l fun a ha => h a (List.mem_cons_of_mem _ ha)

/-- The entry block after `n` instructions, closed by a return. -/
def closedEntry (n : Nat) (vs : List ValueId) : Block :=
  ⟨Function.entryBlock, some "entry", (List.range n).map InstrId.mk, .ret vs, [], []⟩

/-- A function of one block that is closed by a return, whose values are its variables and
the results of its instructions in order. -/
structure OneBlock (f : Function) (code : List Instr) (results : List ValueId) : Prop where
  instrs : f.instrs = code
  blocks : f.blocks = [closedEntry code.length results]
  values : f.freeVars ++ f.params ++ code.filterMap Instr.result = valuesFrom 0 f.values.length

namespace Builder

variable {b b' : Builder}

/-- A draft whose values so far are its variables and the results of its code in order. -/
structure Numbered (b : Builder) (code : List Instr) : Prop where
  instrs : b.func.instrs = code
  values : b.func.freeVars ++ b.func.params ++ code.filterMap Instr.result =
    valuesFrom 0 b.func.values.length

/-- A draft to which nothing was added yet. -/
structure Blank (b : Builder) : Prop where
  params : b.func.params = []
  freeVars : b.func.freeVars = []
  instrs : b.func.instrs = []
  values : b.func.values = []

theorem Blank.numbered (h : b.Blank) : b.Numbered [] := by
  refine ⟨h.instrs, ?_⟩
  rw [h.freeVars, h.params, h.values]
  rfl

theorem Emits.numbered {code more : List Instr} (e : b.Emits more b') (h : b.Numbered code) :
    b'.Numbered (code ++ more) := by
  obtain ⟨vs, hvs, hres⟩ := e.values
  refine ⟨?_, ?_⟩
  · rw [e.instrs, h.instrs]
  · rw [e.freeVars, e.params, List.filterMap_append, ← List.append_assoc, h.values, hres, hvs,
      List.length_append, ← valuesFrom_append, Nat.zero_add]

theorem Takes.numbered {added : List ValueId} (k : b.Takes added b') (h : b.Numbered []) :
    b'.Numbered [] := by
  obtain ⟨vs, hvs, hadded⟩ := k.values
  refine ⟨k.instrs.trans h.instrs, ?_⟩
  have hvalues := h.values
  rw [List.filterMap_nil, List.append_nil] at hvalues ⊢
  rw [k.freeVars, k.params, ← List.append_assoc, hvalues, hadded, hvs, List.length_append,
    ← valuesFrom_append, Nat.zero_add]

/-- The draft whose block is closed by a return. -/
def returned (b : Builder) (vs : List ValueId) : Builder :=
  { b with func := b.func.closeBlock Function.entryBlock (.ret vs), current := none }

theorem returned_blocks (h : b.func.blocks = [openEntry b.func.instrs.length])
    (vs : List ValueId) : (b.returned vs).func.blocks = [closedEntry b.func.instrs.length vs] := by
  change b.func.blocks.modify 0 _ = _
  rw [h]
  rfl

/-- A straight draft that is closed is one block. -/
theorem Straight.oneBlock (s : b.Straight) {code : List Instr} (h : b.Numbered code)
    (vs : List ValueId) : OneBlock (b.returned vs).func code vs := by
  refine ⟨h.instrs, ?_, h.values⟩
  rw [returned_blocks s.blocks, h.instrs]

theorem ret_run (s : b.Straight) (vs : List ValueId) :
    (ret vs).run b = .ok ((), b.returned vs) := by
  rw [ret, close, StateT.run_bind, s.openBlock_run]
  rfl

/-! ## Results -/

/-- A tuple can be taken apart in drafts of a kind, by pieces of code of a kind. -/
structure TakesApart (P : Builder → Prop) (Code : List Instr → Builder → Builder → Prop)
    (tuple : ValueId) (results : List Var) : Prop where
  refl : ∀ {b}, P b → Code [] b b
  trans : ∀ {code code' b b' b''}, Code code b b' → Code code' b' b'' → Code (code ++ code') b b''
  kept : ∀ {code b b'}, P b → Code code b b' → P b'
  typedAs : ∀ {code b b' v ty}, Code code b b' → TypedAs b.func.values v ty →
    TypedAs b'.func.values v ty
  extract : ∀ {b ty n r}, P b → TypedAs b.func.values tuple ty →
    b.types.get ty = .ok (.tuple results) → results[n]? = some r →
    Yields (emitValue (.extract tuple n) r.ty) b fun v b' =>
      Code [.plain (.extract tuple n) (some v)] b b' ∧ TypedAs b'.func.values v r.ty ∧
        b'.types = b.types

/-- The results of a call are taken from its tuple, from place `n` on. -/
theorem TakesApart.mapM {P : Builder → Prop} {Code : List Instr → Builder → Builder → Prop}
    {tuple : ValueId} {ty : TypeId} {results : List Var} (h : TakesApart P Code tuple results)
    (rest : List Var) (n : Nat) (hb : P b) (htuple : TypedAs b.func.values tuple ty)
    (hty : b.types.get ty = .ok (.tuple results)) (hdrop : results.drop n = rest) :
    Yields ((List.range' n rest.length).mapM fun i => Builder.extract tuple i) b fun vs b' =>
      Code ((vs.zipIdx n).map fun (v, i) => .plain (.extract tuple i) (some v)) b b' ∧
        List.Forall₂ (fun v (r : Var) => TypedAs b'.func.values v r.ty) vs rest := by
  induction rest generalizing n b with
  | nil => exact .pure ⟨h.refl hb, .nil⟩
  | cons r rest ih =>
    have hr : results[n]? = some r := by
      rw [← Nat.add_zero n, ← List.getElem?_drop, hdrop]
      rfl
    have hextract : Yields (Builder.extract tuple n) b fun v b' =>
        Code [.plain (.extract tuple n) (some v)] b b' ∧ TypedAs b'.func.values v r.ty ∧
          b'.types = b.types := by
      refine .step (valueType_run htuple) (.step (ask_run hty) ?_)
      have hentry : entry results n .outOfRange = .ok r := entry_eq_ok_iff.mpr hr
      have hlift : (liftM (entry results n .outOfRange) : Build Var).run b = .ok (r, b) := by
        rw [hentry]
        rfl
      exact .step hlift (h.extract hb htuple hty hr)
    have hdrop' : results.drop (n + 1) = rest := by
      rw [← List.drop_drop, hdrop, List.drop_one, List.tail_cons]
    rw [List.length_cons, List.range'_succ, List.mapM_cons]
    refine hextract.bind ?_
    rintro v b₁ ⟨h₁, hv, htypes⟩
    refine (ih (n + 1) (h.kept hb h₁) (h.typedAs h₁ htuple) (htypes ▸ hty) hdrop').bind ?_
    rintro vs b₂ ⟨h₂, hvs⟩
    exact .pure ⟨h.trans h₁ h₂, .cons (h.typedAs h₂ hv) hvs⟩

theorem straight_takesApart (tuple : ValueId) (results : List Var) :
    TakesApart Straight (fun code b b' => Emits b code b') tuple results where
  refl := .refl
  trans := .trans
  kept _ h := h.straight
  typedAs h := h.typedAs
  extract s _ hty hr := emitValue_yields s _
    (s.sound.holds_component hty (List.mem_map_of_mem (List.mem_of_getElem? hr)))

/-- **A tail call** calls and returns all results. -/
theorem tailCall_yields (s : b.Straight) {sig : Signature} (call : Call)
    (hsig : b.types.signatureOf b.func.signature = .ok sig)
    (hheld : ∀ r ∈ sig.results, b.types.Holds r.ty) :
    Yields (tailCall call) b fun _ b' => ∃ b₁ code vs, Emits b code b₁ ∧
      b' = b₁.returned vs ∧ ResultCode b₁.types b₁.func.values call sig.results code vs := by
  refine .step (ownSignature_run hsig) ?_
  generalize sig.results = results at hheld ⊢
  rcases results with _ | ⟨r, _ | ⟨r', rest⟩⟩
  · -- the call has no value
    refine (emit_yields s (.call call)).bind ?_
    rintro _ b₁ ⟨he, -⟩
    exact .of_run (ret_run he.straight []) ⟨b₁, _, [], he, rfl, .none⟩
  · -- the value of the call is the result
    have hr : b.types.Holds r.ty := hheld r (List.mem_singleton_self r)
    refine (emitValue_yields s (.call call) hr).bind ?_
    rintro v b₁ ⟨he, hv, -⟩
    exact .of_run (ret_run he.straight [v]) ⟨b₁, _, [v], he, rfl, .one hv⟩
  · -- the value of the call is a tuple, which is taken apart
    have htuple : b.types.Admits (.tuple (r :: r' :: rest)) := by
      refine TypeTable.admits_of_components (fun c hc => ?_) rfl rfl
      obtain ⟨r, hr, rfl⟩ := List.mem_map.mp hc
      exact hheld r hr
    refine (intern_yields s htuple rfl).bind ?_
    rintro ty b₁ ⟨he, hget, -⟩
    refine (emitValue_yields he.straight (.call call) (TypeTable.holds_of_get hget)).bind ?_
    rintro tuple b₂ ⟨he', hv, htypes⟩
    rw [List.range_eq_range']
    refine ((straight_takesApart tuple _).mapM (r :: r' :: rest) 0 he'.straight hv
      (htypes ▸ hget) rfl).bind ?_
    rintro vs b₃ ⟨he'', hvs⟩
    refine .of_run (ret_run he''.straight vs) ⟨b₃, _, vs, (he.trans he').trans he'', rfl, ?_⟩
    exact .many (by simp) (he''.typedAs hv) (he''.types.get (htypes ▸ hget)) hvs

/-- **A tail call makes one block** of a draft whose values are numbered. -/
theorem tailCall_closes (s : b.Straight) {code : List Instr} (hn : b.Numbered code)
    {sig : Signature} (call : Call) (hsig : b.types.signatureOf b.func.signature = .ok sig)
    (hheld : ∀ r ∈ sig.results, b.types.Holds r.ty) :
    Gives (liftM (tailCall call) : TryBuild Unit) b fun _ b' => ∃ b₁ resultCode vs,
      Emits b resultCode b₁ ∧ b' = b₁.returned vs ∧
        ResultCode b₁.types b₁.func.values call sig.results resultCode vs ∧
        OneBlock b'.func (code ++ resultCode) vs := by
  refine Gives.lift ((tailCall_yields s call hsig hheld).mono ?_)
  rintro _ b' ⟨b₁, resultCode, vs, he, rfl, hresults⟩
  exact ⟨b₁, resultCode, vs, he, rfl, hresults, he.straight.oneBlock (he.numbered hn) vs⟩

/-! ## Finishing -/

/-- A draft of one block that is closed by a return passes the check. -/
theorem check_returned (hblocks : b.func.blocks = [openEntry b.func.instrs.length])
    (hplaced : ∀ i ∈ b.func.instrs, i.block = Function.entryBlock)
    (hrecover : b.func.recover = none) (vs : List ValueId) :
    (b.returned vs).func.check = pure () := by
  have hrecover' : (b.returned vs).func.recover = none := hrecover
  -- all instructions were placed in the block, and no edge leaves it
  have howners : (closedEntry b.func.instrs.length vs).instrs.forM
      ((b.returned vs).func.checkOwner (closedEntry b.func.instrs.length vs)) = pure () := by
    refine forM_eq_pure _ fun i hi => ?_
    obtain ⟨n, hn, rfl⟩ := List.mem_map.mp hi
    have hlt : n < b.func.instrs.length := List.mem_range.mp hn
    have hget : (b.returned vs).func.instr ⟨n⟩ = .ok b.func.instrs[n] :=
      entry_eq_ok_iff.mpr (List.getElem?_eq_getElem hlt)
    have howner := hplaced _ (List.getElem_mem hlt)
    rw [Function.checkOwner, hget]
    change (b.returned vs).func.demand (b.func.instrs[n].block = Function.entryBlock) _ = _
    rw [howner]
    rfl
  have hblock : (b.returned vs).func.checkBlock (closedEntry b.func.instrs.length vs) 0 =
      pure () := by
    rw [Function.checkBlock, howners]
    simp [closedEntry, Function.entryBlock, Function.demand, Block.isClosed, Terminator.successors]
  rw [Function.check, returned_blocks hblocks, hrecover']
  simp [hblock, Function.demand]

/-- **A closed straight draft is a finished function**, whatever the mode. -/
theorem finish_returned (s : b.Straight) (vs : List ValueId) :
    finish (b.returned vs) = pure (b.returned vs).func := by
  have hcurrent : (b.returned vs).current = none := rfl
  rw [finish, hcurrent, check_returned s.blocks s.placed s.recover]
  rcases (b.returned vs).mode.sanityCheck with _ | _ <;> rfl

end Builder

end MethodSSA
