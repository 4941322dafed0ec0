import MethodSSA.Proofs.Draft.Appending
import MethodSSA.Proofs.Draft.Frozen

/-!
# The recovery block

The recovery block is emitted while another block may be open. Nothing of that is left: the
draft has one block more, which returns and lists all that was emitted in between, and its
other blocks and the open one are as before (`Lands`). After that it is the recovery block of the
draft, whatever is done next: to ask for it again changes nothing, it cannot be opened, and only
its predecessors can become more (`Reached.recovery`).
-/

namespace MethodSSA

open Relation

namespace Builder

variable {b b' b'' : Builder} {block : BlockId} {code code' : List Instr}

/-! ## Emissions into one block -/

/-- What emissions add is code at the end of a block, values, local variables and types. -/
structure Fills (block : BlockId) (code : List Instr) (b b' : Builder) : Prop where
  types : b.types.Entered b'.types
  mode : b'.mode = b.mode
  boxed : b'.boxed = b.boxed
  current : b'.current = b.current
  trueConst : b'.trueConst = b.trueConst
  header : b'.func.header = b.func.header
  params : b'.func.params = b.func.params
  freeVars : b'.func.freeVars = b.func.freeVars
  locals : b.func.locals <+: b'.func.locals
  values : b.func.values <+: b'.func.values
  instrs : b'.func.instrs = b.func.instrs ++ code
  placed : ∀ i ∈ code, i.block = block
  blocks : b'.func.blocks = b.func.blocks.modify block.index
    (·.list (instrsFrom b.func.instrs.length code.length))

namespace Fills

theorem refl (block : BlockId) (b : Builder) : Fills block [] b b :=
  ⟨.refl _, rfl, rfl, rfl, rfl, rfl, rfl, rfl, List.prefix_rfl, List.prefix_rfl,
    (List.append_nil _).symm, nofun, (modify_list_nil _ _ _).symm⟩

theorem trans (h : Fills block code b b') (h' : Fills block code' b' b'') :
    Fills block (code ++ code') b b'' where
  types := h.types.trans h'.types
  mode := h'.mode.trans h.mode
  boxed := h'.boxed.trans h.boxed
  current := h'.current.trans h.current
  trueConst := h'.trueConst.trans h.trueConst
  header := h'.header.trans h.header
  params := h'.params.trans h.params
  freeVars := h'.freeVars.trans h.freeVars
  locals := h.locals.trans h'.locals
  values := h.values.trans h'.values
  instrs := by rw [h'.instrs, h.instrs, List.append_assoc]
  placed := List.forall_mem_append.mpr ⟨h.placed, h'.placed⟩
  blocks := by
    rw [h'.blocks, h.blocks, h.instrs, List.length_append, List.length_append,
      modify_list_append]

end Fills

theorem Emission.fills (h : Emission b b') (hopen : b.current = some block) :
    ∃ code, Fills block code b b' := by
  have hvalue : ∀ x, b.func.values <+: b.func.values ++ [x] := fun _ => List.prefix_append _ _
  cases h with
  | intern ty => exact ⟨[], { Fills.refl block b with types := .intern _ ty }⟩
  | constant lit ty => exact ⟨[], { Fills.refl block b with values := hvalue _ }⟩
  | step hopen' op pos =>
    cases hopen.symm.trans hopen'
    exact ⟨[⟨block, op, none, pos⟩], { Fills.refl block b with
      instrs := rfl
      placed := by simp
      blocks := modify_list b.func block }⟩
  | definition hopen' op ty pos =>
    cases hopen.symm.trans hopen'
    exact ⟨[⟨block, op, some ⟨b.func.values.length⟩, pos⟩], { Fills.refl block b with
      values := hvalue _
      instrs := rfl
      placed := by simp
      blocks := modify_list b.func block }⟩
  | localVar hopen' ptr =>
    cases hopen.symm.trans hopen'
    exact ⟨[⟨block, .alloc false, some ⟨b.func.values.length⟩, .none⟩], { Fills.refl block b with
      locals := List.prefix_append _ _
      values := hvalue _
      instrs := rfl
      placed := by simp
      blocks := modify_list b.func block }⟩

/-- A row of emissions goes to one block. -/
theorem fills_of_emissions (h : ReflTransGen Emission b b') (hopen : b.current = some block) :
    ∃ code, Fills block code b b' := by
  induction h with
  | refl => exact ⟨[], .refl block b⟩
  | tail _ hstep ih =>
    obtain ⟨code, hfills⟩ := ih
    obtain ⟨more, hmore⟩ := hstep.fills (hfills.current.trans hopen)
    exact ⟨code ++ more, hfills.trans hmore⟩

/-! ## The first time -/

/-- The recovery block is there now: a new block at the end, which returns the results, with all
new instructions in it and nothing leading to it. Nothing else is touched, but there may be more
values, local variables and types. -/
structure Lands (b : Builder) (block : BlockId) (results : List ValueId) (b' : Builder) : Prop where
  place : block = ⟨b.func.blocks.length⟩
  current : b'.current = b.current
  added : ∃ code, b'.func.instrs = b.func.instrs ++ code ∧ (∀ i ∈ code, i.block = block) ∧
    b'.func.blocks = b.func.blocks ++
      [⟨block, some "recover", instrsFrom b.func.instrs.length code.length, .ret results, [], []⟩]
  header : b'.func.header = { b.func.header with recover := some block }
  params : b'.func.params = b.func.params
  freeVars : b'.func.freeVars = b.func.freeVars
  locals : b.func.locals <+: b'.func.locals
  values : b.func.values <+: b'.func.values
  types : b.types.Entered b'.types
  mode : b'.mode = b.mode
  boxed : b'.boxed = b.boxed
  trueConst : b'.trueConst = b.trueConst

theorem modify_concat {α : Type} (l : List α) (a : α) (f : α → α) :
    (l ++ [a]).modify l.length f = l ++ [f a] := by
  induction l with
  | nil => rfl
  | cons x l ih => exact congrArg (x :: ·) ih

/-- Closing a block by a return changes that block only. -/
theorem blocks_closeBlock_ret (f : Function) (block : BlockId) (results : List ValueId) :
    (f.closeBlock block (.ret results)).blocks =
      f.blocks.modify block.index fun b => { b with term := .ret results, succs := [] } := rfl

/-- What is emitted between the opening and the closing of the recovery block is in it. -/
theorem lands_of_emissions {results : List ValueId} (h : ReflTransGen Emission b.landing b') :
    Lands b ⟨b.func.blocks.length⟩ results { b' with
      func := b'.func.closeBlock ⟨b.func.blocks.length⟩ (.ret results), current := b.current } := by
  obtain ⟨code, hfills⟩ := fills_of_emissions h rfl
  have hblocks : (b'.func.closeBlock ⟨b.func.blocks.length⟩ (.ret results)).blocks =
      b.func.blocks ++ [⟨⟨b.func.blocks.length⟩, some "recover",
        instrsFrom b.func.instrs.length code.length, .ret results, [], []⟩] := by
    rw [blocks_closeBlock_ret, hfills.blocks, List.modify_modify_eq]
    exact modify_concat b.func.blocks _ _
  rw [Function.closeBlock_eq, hblocks]
  exact ⟨rfl, rfl, ⟨code, hfills.instrs, hfills.placed, rfl⟩, hfills.header,
    hfills.params, hfills.freeVars, hfills.locals, hfills.values, hfills.types, hfills.mode,
    hfills.boxed, hfills.trueConst⟩

/-- **The first request makes the block, and every other one finds it.** -/
theorem lands_or_found (hrun : recoveryBlock.run b = .ok (block, b')) :
    (b.func.recover = none ∧ ∃ results, Lands b block results b') ∨
      b.func.recover = some block ∧ b' = b := by
  rcases of_recoveryBlock hrun with hfound | ⟨b₁, results, hnone, rfl, hresults, rfl⟩
  · exact .inr hfound
  · exact .inl ⟨hnone, results, lands_of_emissions (recoveredResults_acts.makes hresults)⟩

theorem Lands.recover {results : List ValueId} (h : Lands b block results b') :
    b'.func.recover = some block :=
  (congrArg Function.recover h.header :)

theorem recover_of_recoveryBlock (hrun : recoveryBlock.run b = .ok (block, b')) :
    b'.func.recover = some block := by
  rcases lands_or_found hrun with ⟨-, results, hlands⟩ | ⟨hr, rfl⟩
  · exact hlands.recover
  · exact hr

theorem perform_recoveryBlock (hrun : recoveryBlock.run b = .ok (block, b')) :
    (Builder.perform .recoveryBlock).run.run b = .ok (.ok (.block block), b') := by
  simp [Builder.perform, hrun]
  rfl

/-- A block that is there already is found. -/
theorem recoveryBlock_found (h : b.func.recover = some block) :
    recoveryBlock.run b = .ok (block, b) := by
  simp [recoveryBlock, h]

/-! ## From then on -/

/-- What comes next for a draft: a command, or other work in the same workspace. -/
inductive Turn (b : Builder) : Builder → Prop
  /-- a command is carried out, which may fail -/
  | perform {c : Command} {result : Except BuildError Outcome} {b' : Builder}
    (hrun : (Builder.perform c).run.run b = .ok (result, b')) : Turn b b'
  /-- the workspace is used elsewhere -/
  | share (w : Workspace) : Turn b { b with toWorkspace := w }

theorem Reached.turns (h : Reached b) (hturns : ReflTransGen Turn b b') : Reached b' := by
  induction hturns with
  | refl => exact h
  | tail _ hturn ih =>
    cases hturn with
    | perform hrun => exact ih.perform hrun
    | share w => exact ih.share w

/-- No move takes the recovery block away. -/
theorem Move.recover (h : Move b b') (hr : b.func.recover = some block) :
    b'.func.recover = some block := by
  have hclose : ∀ {f : Function} {c : BlockId} {term : Terminator},
      (f.closeBlock c term).recover = f.recover := by
    intro f c term
    rw [Function.closeBlock_eq]
  cases h with
  | advance h =>
    cases h with
    | emission h => exact h.steady.recover.trans hr
    | constTrue | param | freeVar | nameResult | newBlock | setCurrent => exact hr
    | close => exact hclose.trans hr
    | recover hnone => cases hr.symm.trans hnone
  | share | describe => exact hr

/-- A block that returns has its terminator. -/
theorem isClosed_of_isReturn {stored : Block} (h : stored.term.isReturn = true) :
    stored.isClosed = true := by
  rw [Block.isClosed, bne_iff_ne]
  rintro heq
  rw [heq] at h
  cases h

/-- No turn takes the recovery block away. -/
theorem Turn.recover (h : Turn b b') (hr : b.func.recover = some block) :
    b'.func.recover = some block := by
  cases h with
  | perform hrun =>
    have hmoves := perform_makes _ hrun
    clear hrun
    induction hmoves with
    | refl => exact hr
    | tail _ hmove ih => exact hmove.recover ih
  | share w => exact hr

/-- One turn leaves a block that is closed as it is, but for its predecessors. -/
theorem Turn.stored (s : Shaped b) (h : Turn b b') {stored : Block}
    (hstored : b.func.block block = .ok stored) (hclosed : stored.isClosed = true) :
    ∃ preds, b'.func.block block = .ok { stored with preds := stored.preds ++ preds } := by
  cases h with
  | perform hrun =>
    obtain ⟨new, hnew, hext, hfrozen⟩ := (s.preserves hrun).blocks hstored
    obtain ⟨preds, hpreds⟩ := hext.preds
    refine ⟨preds, hnew.trans (congrArg _ ?_)⟩
    rw [hfrozen (.inl hclosed), ← hpreds]
  | share w => exact ⟨[], by simpa using hstored⟩

/-- Whatever the turns are, the recovery block stays what it is. -/
theorem Reached.settled (h : Reached b) {stored : Block} (hr : b.func.recover = some block)
    (hstored : b.func.block block = .ok stored) (hclosed : stored.isClosed = true)
    (hturns : ReflTransGen Turn b b') :
    b'.func.recover = some block ∧
      ∃ preds, b'.func.block block = .ok { stored with preds := stored.preds ++ preds } := by
  induction hturns with
  | refl => exact ⟨hr, [], by simpa using hstored⟩
  | tail hturns hturn ih =>
    obtain ⟨hr', preds, hstored'⟩ := ih
    obtain ⟨more, hstored''⟩ := hturn.stored (h.turns hturns).shaped hstored' hclosed
    exact ⟨hturn.recover hr', preds ++ more, by simpa using hstored''⟩

/-- **The recovery block is made once and for all.** The first request adds a block that returns,
and touches nothing else of the draft: neither the open block, if there is one, nor any other.
Every other request finds that block, whatever was done in between, and changes nothing; it
cannot be opened, and all but its predecessors stays as it is. -/
theorem Reached.recovery (h : Reached b) (hrun : recoveryBlock.run b = .ok (block, b')) :
    ((b.func.recover = none ∧ ∃ results, Lands b block results b') ∨
      b.func.recover = some block ∧ b' = b) ∧
    ∃ stored, b'.func.block block = .ok stored ∧ stored.term.isReturn = true ∧
      ∀ b'', ReflTransGen Turn b' b'' →
        b''.func.recover = some block ∧ recoveryBlock.run b'' = .ok (block, b'') ∧
        (setCurrent block).run b'' = .error (.closedBlock block) ∧
        ∃ preds, b''.func.block block = .ok { stored with preds := stored.preds ++ preds } := by
  have hcases := lands_or_found hrun
  have hr := recover_of_recoveryBlock hrun
  have hreached : Reached b' := h.perform (perform_recoveryBlock hrun)
  obtain ⟨stored, hstored, hterm⟩ := hreached.shaped.recover hr
  have hstored : b'.func.block block = .ok stored := entry_eq_ok_iff.mpr hstored
  have hclosed := isClosed_of_isReturn hterm
  refine ⟨hcases, stored, hstored, hterm, fun b'' hturns => ?_⟩
  obtain ⟨hr', preds, hstored'⟩ := hreached.settled hr hstored hclosed hturns
  exact ⟨hr', recoveryBlock_found hr', setCurrent_fault hstored' hclosed, preds, hstored'⟩

/-- A draft for a function with two results without names, the first of which is an array. -/
def guardStart : Builder :=
  let (array, types) := TypeTable.initial.intern (.array TypeTable.boolean 2)
  let (id, types) :=
    types.intern (.signature ⟨none, [], [⟨"", array⟩, ⟨"", TypeTable.boolean⟩], false⟩)
  ⟨⟨types, .debug, []⟩, .start "guard" id⟩

/-- The recovery block is made while the second block is open, and the first one was left open
before. -/
theorem Reached.recovery_guard :
    ∃ b b', guardStart.after [.newBlock "next", .setCurrent ⟨1⟩] = .ok b ∧ Reached b ∧
      b.current = some ⟨1⟩ ∧ recoveryBlock.run b = .ok (⟨2⟩, b') ∧
      (∃ results, Lands b ⟨2⟩ results b') ∧
      ∀ w : Workspace, recoveryBlock.run { b' with toWorkspace := w } =
        .ok (⟨2⟩, { b' with toWorkspace := w }) := by
  obtain ⟨b, hafter, hfacts⟩ := exists_after (b := guardStart) [.newBlock "next", .setCurrent ⟨1⟩]
    (g := fun b => (b.current, b.func.recover, (recoveryBlock.run b).toOption.map Prod.fst))
    (x := (some ⟨1⟩, none, some ⟨2⟩)) (by decide +kernel)
  simp only [Prod.mk.injEq] at hfacts
  obtain ⟨hcurrent, hnone, hblock⟩ := hfacts
  have h : Reached b := .after (.start _ _ _) hafter
  obtain ⟨⟨block, b'⟩, hrun, rfl⟩ := Option.map_eq_some_iff.mp hblock
  have hrun : recoveryBlock.run b = .ok (⟨2⟩, b') := by
    rcases hrecovery : recoveryBlock.run b with e | r <;> rw [hrecovery] at hrun <;> cases hrun
    rfl
  obtain ⟨hcases, stored, -, -, hlater⟩ := h.recovery hrun
  refine ⟨b, b', hafter, h, hcurrent, hrun, ?_, fun w => ?_⟩
  · rcases hcases with ⟨-, hlands⟩ | ⟨hsome, -⟩
    · exact hlands
    · cases hnone.symm.trans hsome
  · exact (hlater _ (.single (.share w))).2.1

end Builder

end MethodSSA
