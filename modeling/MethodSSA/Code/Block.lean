import MethodSSA.Ids

/-!
# Blocks

A block is a list of instructions that is entered at its start and left at its
end by its **terminator**. Edges are noted at both ends: `succs` lists the blocks
that the terminator leads to, and `preds` the blocks whose terminators lead here,
once for each way.
-/

namespace MethodSSA

/-- How a block is left. -/
inductive Terminator where
  /-- on to another block -/
  | jump (target : BlockId)
  /-- on to one of two blocks, by a truth value -/
  | branch (cond : ValueId) (thenTo elseTo : BlockId)
  /-- back to the caller with all results -/
  | ret (results : List ValueId)
  /-- not at all; the block still waits for its terminator -/
  | unreachable
  deriving DecidableEq, Repr

namespace Terminator

/-- The blocks that may come next. -/
def successors : Terminator → List BlockId
  | jump target => [target]
  | branch _ thenTo elseTo => [thenTo, elseTo]
  | ret _ | unreachable => []

/-- The values that are read. -/
def operands : Terminator → List ValueId
  | branch cond _ _ => [cond]
  | ret results => results
  | jump _ | unreachable => []

/-- Whether this is a return. -/
def isReturn : Terminator → Bool
  | ret _ => true
  | _ => false

/-- A terminator as listings write it, its values by name. -/
def text : Terminator → String
  | jump target => "jump " ++ target.text
  | branch cond thenTo elseTo =>
    "if " ++ cond.text ++ " then " ++ thenTo.text ++ " else " ++ elseTo.text
  | ret [] => "return"
  | ret results => "return " ++ ", ".intercalate (results.map ValueId.text)
  | unreachable => "unreachable"

end Terminator

/-- A block of a function. -/
structure Block where
  /-- its identifier -/
  id : BlockId
  /-- a word for its purpose -/
  label : Option String
  /-- its instructions, in order -/
  instrs : List InstrId
  /-- how it is left -/
  term : Terminator
  /-- the blocks that lead to it, once for each way -/
  preds : List BlockId
  /-- the blocks that it leads to -/
  succs : List BlockId
  deriving DecidableEq, Repr

namespace Block

/-- A new block, empty and open. -/
def empty (id : BlockId) (label : Option String) : Block :=
  ⟨id, label, [], .unreachable, [], []⟩

/-- Whether a block has its terminator, so that nothing can be added to it. -/
def isClosed (b : Block) : Bool := b.term != .unreachable

end Block

end MethodSSA
