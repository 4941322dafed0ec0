import Mathlib.Data.List.Forall2
import MethodSSA.Proofs.Draft.Writing

/-!
# Drafts are well typed

A command is **typed** if it emits nothing but what it stands for, and if it reads or writes
variables only (`Command.isTyped`). Whatever typed commands build, and whichever of them fail,
all instructions are fitting: each for the command that emitted it, of which a record is kept
(`TypedRun.fitting`).

The record matters for operators alone. An arithmetic operator has operands and a result of one
type where arithmetic was asked for; but a comparison takes every operator, and its result is
a truth value still (`TypedRun.compare_add`).
-/

namespace MethodSSA

/-- Whether the command emits nothing but what it stands for, and reads and writes variables
only. -/
def Command.isTyped (b : Builder) : Command → Bool
  | .emit _ | .emitValue _ _ _ => false
  | .load addr | .store addr _ =>
    (b.func.valueType addr >>= b.types.isPointer).toOption == some true
  | _ => true

namespace Builder

variable {b b' : Builder} {c : Command} {log log' commands : List Command}

theorem isAddress_of_isPointer {v : ValueId}
    (h : ((b.func.valueType v >>= b.types.isPointer).toOption == some true) = true) :
    b.IsAddress v := by
  rcases hv : b.func.valueType v >>= b.types.isPointer with e | q <;> rw [hv] at h
  · cases h
  · obtain ⟨ty, hty, hq⟩ := bind_eq_ok_iff.mp hv
    rw [Option.some.inj (beq_iff_eq.mp h)] at hq
    obtain ⟨elem, helem⟩ := TypeTable.of_isPointer hq
    exact ⟨ty, elem, hty, helem⟩

/-- **Every typed command emits fitting instructions only.** -/
theorem perform_writes (g : b.Grounded) (hc : c.isTyped b = true) :
    WritesTry c (perform c) b fun _ _ => True := by
  have done {α : Type} {x : Build α} {out : α → Outcome} (h : Writes c x b fun _ _ => True) :
      WritesTry c (do return out (← x) : TryBuild Outcome) b fun _ _ => True :=
    .liftThen h fun _ _ _ _ => .pure trivial
  have tried {x : TryBuild ValueId} (h : WritesTry c x b fun _ _ => True) :
      WritesTry c (do return Outcome.value (← x) : TryBuild Outcome) b fun _ _ => True :=
    .andThen h fun _ _ _ _ => .pure trivial
  cases c with
  | describe text => exact done (amend_writes rfl rfl rfl rfl)
  | place pos => exact done (amend_writes rfl rfl rfl rfl)
  | implement func => exact done (amend_writes rfl rfl rfl rfl)
  | standFor sel => exact done (amend_writes rfl rfl rfl rfl)
  | param name ty => exact done (addParam_writes name ty)
  | freeVar name ty => exact done (addFreeVar_writes name ty)
  | formals => exact done addFormals_writes
  | namedResults => exact done addNamedResults_writes
  | localVar ty => exact done ((addLocal_writes ty).mono fun _ _ _ _ => trivial)
  | heapVar ty => exact done (newHeap_writes ty)
  | zeroValue ty => exact done (zeroValue_writes ty)
  | zeroConst ty => exact done (zeroConst_writes ty)
  | spill param => exact done (spill_writes g param)
  | load addr => exact done (load_writes (isAddress_of_isPointer hc))
  | store addr val => exact done (store_writes g (isAddress_of_isPointer hc) val)
  | constant lit ty => exact done ((constant_writes lit ty).mono fun _ _ _ _ => trivial)
  | constTrue => exact done constTrue_writes
  | newBlock label => exact done (newBlock_writes label)
  | setCurrent block => exact done (setCurrent_writes block)
  | emit | emitValue => cases hc
  | close term => exact done (close_writes term)
  | arith op x y ty => exact tried (arith_writes g op x y ty)
  | compare op x y => exact done (compare_writes g op x y)
  | convert x ty => exact done ((convert_writes g x ty).mono fun _ _ _ _ => trivial)
  | followPath x path => exact tried (followPath_writes path x)
  | selectField x index wantAddr => exact tried (selectField_writes x index wantAddr)
  | extract tuple index => exact done (extract_writes tuple index)
  | typeAssert x ty pos => exact done (typeAssert_writes x ty pos)
  | typeTest x ty pos => exact done (typeTest_writes x ty pos)
  | debugRef x pos isAddr =>
    refine .liftThen (debugRef_writes x pos isAddr) fun i _ _ _ => ?_
    cases i with
    | some i => exact .pure trivial
    | none => exact .pure trivial
  | trace kind start stop => exact done (emitAt_writes (.trace kind start stop) start)
  | tailCall call => exact done (tailCall_writes call)
  | recoveryBlock => exact done (recoveryBlock_writes g)

/-! ## Runs -/

/-- The drafts that typed commands reach, each with a record of the command that emitted each
instruction. No declared type is untyped underneath, and declarations stay as they are while
the draft is built. -/
inductive TypedRun : Builder → List Command → Prop
  /-- a new draft -/
  | start (w : Workspace) (name : String) (signature : TypeId)
    (hcourse : TypeTable.Course .initial w.types) (htyped : ∀ d ∈ w.types.decls, ∀ k,
      w.types.get d.underlying = .ok (.basic k) → k.isUntyped = false) :
    TypedRun ⟨w, .start name signature⟩ []
  /-- after a command -/
  | perform {b b' : Builder} {log : List Command} {c : Command}
    {result : Except BuildError Outcome} (h : TypedRun b log) (hc : c.isTyped b = true)
    (hrun : (Builder.perform c).run.run b = .ok (result, b')) :
    TypedRun b' (log ++ List.replicate (b'.func.instrs.length - b.func.instrs.length) c)
  /-- after other work in the same workspace -/
  | share {b : Builder} {log : List Command} (h : TypedRun b log) (w : Workspace)
    (htypes : b.types.Extended w.types) (hdecls : w.types.decls = b.types.decls) :
    TypedRun { b with toWorkspace := w } log

/-- The draft after a list of typed commands, which go on where one of them fails, and the record
of them. -/
def typedAfter (b : Builder) (log : List Command) :
    List Command → Option (Builder × List Command)
  | [] => some (b, log)
  | c :: commands =>
    if c.isTyped b then do
      let (_, b') ← ((perform c).run.run b).toOption
      let new := b'.func.instrs.length - b.func.instrs.length
      b'.typedAfter (log ++ List.replicate new c) commands
    else none

theorem TypedRun.after (h : TypedRun b log)
    (hrun : b.typedAfter log commands = some (b', log')) : TypedRun b' log' := by
  induction commands generalizing b log with
  | nil =>
    cases hrun
    exact h
  | cons c commands ih =>
    rw [typedAfter] at hrun
    split at hrun
    · next hc =>
      obtain ⟨⟨result, b₁⟩, hperform, hrest⟩ := Option.bind_eq_some_iff.mp hrun
      rcases hrun : (Builder.perform c).run.run b with e | r <;> rw [hrun] at hperform <;>
        cases hperform
      exact ih (h.perform hc hrun) hrest
    · cases hrun

/-- A list of typed commands that leads somewhere. -/
theorem TypedRun.exists_after {β : Type} (h : TypedRun b log) (commands : List Command)
    {g : Builder → List Command → β} {x : β}
    (hrun : (b.typedAfter log commands).map (fun p => g p.1 p.2) = some x) :
    ∃ b' log', TypedRun b' log' ∧ g b' log' = x := by
  obtain ⟨⟨b', log'⟩, hafter, heq⟩ := Option.map_eq_some_iff.mp hrun
  exact ⟨b', log', h.after hafter, heq⟩

/-- A draft for a function with the signature, in a new workspace. -/
def startOf (sig : Signature) : Builder :=
  let entered := TypeTable.initial.intern (.signature sig)
  ⟨⟨entered.2, .debug, []⟩, .start "f" entered.1⟩

theorem typedRun_startOf (sig : Signature) : TypedRun (startOf sig) [] := by
  have hnone : (TypeTable.initial.intern (.signature sig)).2.decls = [] :=
    (TypeTable.Entered.intern _ _).decls
  refine .start _ _ _ (.single (.intern _ nofun)) fun d hd => ?_
  cases (hnone ▸ hd : d ∈ [])

/-! ## What runs keep -/

/-- Each instruction is fitting for the command that the record has for it. -/
def Recorded (b : Builder) (log : List Command) : Prop :=
  List.Forall₂ (Instr.Fitting b.types b.func) log b.func.instrs

/-- What was recorded before is fitting still, and so is what a command adds. -/
theorem Onward.recorded (h : Onward c b b') (hlog : b.Recorded log) :
    b'.Recorded (log ++ List.replicate (b'.func.instrs.length - b.func.instrs.length) c) := by
  obtain ⟨more, hmore, hfit⟩ := h.instrs
  have hold : List.Forall₂ (Instr.Fitting b'.types b'.func) log b.func.instrs :=
    hlog.imp fun _ _ hi => hi.later h.types h.values h.signature
  have hnew : List.Forall₂ (Instr.Fitting b'.types b'.func) (List.replicate more.length c)
      more := by
    rw [← List.map_const, List.forall₂_map_left_iff]
    exact List.forall₂_same.mpr hfit
  have hlength : b'.func.instrs.length - b.func.instrs.length = more.length := by
    rw [hmore, List.length_append, Nat.add_sub_cancel_left]
  rw [Recorded, hlength, hmore]
  exact List.rel_append hold hnew

/-- What every typed run keeps. -/
theorem TypedRun.invariant (h : TypedRun b log) : b.Grounded ∧ b.Recorded log := by
  induction h with
  | start w name signature hcourse htyped =>
    exact ⟨⟨(TypeTable.indexed_initial.course hcourse).firm htyped, nofun⟩, .nil⟩
  | perform _ hc hrun ih =>
    obtain ⟨g, hlog⟩ := ih
    obtain ⟨h, -⟩ := perform_writes g hc hrun
    exact ⟨h.grounded g, h.recorded hlog⟩
  | share _ w htypes hdecls ih =>
    obtain ⟨g, hlog⟩ := ih
    refine ⟨⟨g.firm.extended htypes hdecls, fun v hv => ?_⟩, ?_⟩
    · obtain ⟨ty, elem, hty, hptr⟩ := g.named v hv
      exact ⟨ty, elem, hty, htypes.underlyingTy hptr⟩
    · exact hlog.imp fun _ _ hi => hi.later htypes List.prefix_rfl rfl

/-- **Drafts built with typed commands are well typed.** Of such a draft every instruction is
fitting for the command that emitted it, whichever commands failed. -/
theorem TypedRun.fitting (h : TypedRun b log) :
    List.Forall₂ (Instr.Fitting b.types b.func) log b.func.instrs := h.invariant.2

/-- A shift whose result is stored under another type and read again. The conjunction fails,
since it is not arithmetic; and the recovery block reads the result. -/
theorem TypedRun.fitting_shift : ∃ b log, TypedRun b log ∧
    List.Forall₂ (Instr.Fitting b.types b.func) log b.func.instrs ∧
    log.zip (b.func.instrs.map Instr.op) = [
      (.namedResults, .alloc false),
      (.arith .shiftLeft ⟨0⟩ ⟨1⟩ (TypeTable.basic .int), .convert ⟨1⟩),
      (.arith .shiftLeft ⟨0⟩ ⟨1⟩ (TypeTable.basic .int), .binary .shiftLeft ⟨0⟩ ⟨3⟩),
      (.store ⟨2⟩ ⟨4⟩, .convert ⟨4⟩),
      (.store ⟨2⟩ ⟨4⟩, .store ⟨2⟩ ⟨5⟩),
      (.load ⟨2⟩, .load ⟨2⟩),
      (.recoveryBlock, .load ⟨2⟩)] := by
  have hstart := typedRun_startOf ⟨none,
    [⟨"n", TypeTable.basic .int⟩, ⟨"k", TypeTable.basic .int64⟩],
    [⟨"r", TypeTable.basic .float64⟩], false⟩
  refine (hstart.exists_after [.formals, .namedResults,
      .arith .shiftLeft ⟨0⟩ ⟨1⟩ (TypeTable.basic .int),
      .arith .and ⟨0⟩ ⟨1⟩ (TypeTable.basic .int), .store ⟨2⟩ ⟨4⟩, .load ⟨2⟩, .recoveryBlock]
    (g := fun b log => log.zip (b.func.instrs.map Instr.op)) ?_).imp
    fun b => Exists.imp fun log h => ⟨h.1, h.1.fitting, h.2⟩
  decide +kernel

/-- **A comparison with an arithmetic operator.** The operands have one type, and the result has
another: it is a truth value. -/
theorem TypedRun.compare_add : ∃ b, TypedRun b [.compare .add ⟨0⟩ ⟨1⟩] ∧
    ¬ ∀ i ∈ b.func.instrs, ∀ op x y v, i.op = .binary op x y → op.isArithmetic = true →
      i.result = some v → ∃ ty, b.func.valueType x = .ok ty ∧ b.func.valueType y = .ok ty ∧
        b.func.valueType v = .ok ty := by
  obtain ⟨b, log, h, hfacts⟩ := (typedRun_startOf ⟨none, [], [], false⟩).exists_after
    [.param "x" (TypeTable.basic .int), .param "y" (TypeTable.basic .int),
      .compare .add ⟨0⟩ ⟨1⟩]
    (g := fun b log => (log, b.func.instrs.map fun i => (i.op, i.result),
      (b.func.valueType ⟨0⟩).toOption, (b.func.valueType ⟨2⟩).toOption))
    (x := ([.compare .add ⟨0⟩ ⟨1⟩], [(.binary .add ⟨0⟩ ⟨1⟩, some ⟨2⟩)],
      some (TypeTable.basic .int), some TypeTable.boolean)) (by decide +kernel)
  simp only [Prod.mk.injEq] at hfacts
  obtain ⟨rfl, hinstrs, hx, hv⟩ := hfacts
  refine ⟨b, h, fun hall => ?_⟩
  obtain ⟨i, hi, hop⟩ := List.mem_map.mp (hinstrs ▸ List.mem_singleton_self _)
  obtain ⟨ty, hx', -, hv'⟩ := hall i hi _ _ _ _ (congrArg Prod.fst hop) rfl (congrArg Prod.snd hop)
  rw [hx'] at hx
  rw [hv'] at hv
  exact absurd (hx.symm.trans hv) (by decide)

end Builder

end MethodSSA
