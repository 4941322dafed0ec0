import MethodSSA.BuildError
import MethodSSA.Code.Function

/-!
# Checking a function

`Function.check` accepts a function whose blocks fit together: each stands at its
own place, is closed, notes the edges of its terminator at both ends and lists
only instructions that were emitted into it; and the recovery block returns. The
first defect in the order of the blocks is reported.
-/

namespace MethodSSA

namespace Function

/-- A check that may find the function unfit. -/
abbrev Checked := ExceptT BuildError (Except Fault)

/-- Finds a defect unless a condition holds. -/
def demand (f : Function) (ok : Bool) (defect : Defect) : Checked Unit :=
  if ok then pure () else throw (.malformed f.name defect)

/-- Whether `a` is noted as leading to `b`. -/
def leadsTo (f : Function) (a b : BlockId) : Bool :=
  f.blocks[a.index]?.any (b ∈ ·.succs)

/-- A successor must exist and note the edge. -/
def checkSuccessor (f : Function) (b : Block) (succ : BlockId) : Checked Unit :=
  match f.blocks[succ.index]? with
  | none => throw (.malformed f.name (.dangling b.id succ))
  | some target => f.demand (b.id ∈ target.preds) (.missingPred succ b.id)

/-- An instruction must have been emitted into the block that lists it. -/
def checkOwner (f : Function) (b : Block) (i : InstrId) : Checked Unit := do
  let owner := (← f.instr i).block
  f.demand (owner = b.id) (.foreignInstr i b.id owner)

/-- The conditions on the block stored at a place. -/
def checkBlock (f : Function) (b : Block) (place : Nat) : Checked Unit := do
  f.demand (b.id.index = place) (.misplaced b.id place)
  unless b.isClosed do throw (.unterminated f.name b.id)
  f.demand (b.term.successors = b.succs) (.successors b.id)
  b.succs.forM (f.checkSuccessor b)
  b.preds.forM fun pred => f.demand (f.leadsTo pred b.id) (.phantomPred b.id pred)
  b.instrs.forM (f.checkOwner b)

/-- Accepts a function whose blocks fit together. -/
def check (f : Function) : Checked Unit := do
  f.demand (!f.blocks.isEmpty) .noBlocks
  f.blocks.zipIdx.forM fun (b, place) => f.checkBlock b place
  match f.recover with
  | none => pure ()
  | some b => f.demand (← f.block b).term.isReturn .recoverReturn

end Function

end MethodSSA
