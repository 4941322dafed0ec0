import MethodSSA.Code.Operation

/-!
# Errors of construction

A **build error** is a demand that cannot be met: a method without a body, a
field that a type does not have, a function that is not finished. Unlike a
fault it leaves everything built so far in place, and the same demand may be
met later.
-/

namespace MethodSSA

/-- What is wrong with the blocks of a function. -/
inductive Defect where
  /-- there are none -/
  | noBlocks
  /-- a block that is not stored at its own place -/
  | misplaced (block : BlockId) (place : Nat)
  /-- a block whose noted successors are not those of its terminator -/
  | successors (block : BlockId)
  /-- a block that leads to a block that does not exist -/
  | dangling (block succ : BlockId)
  /-- a block that is led to and does not note it -/
  | missingPred (succ block : BlockId)
  /-- a block that notes a predecessor which does not lead to it -/
  | phantomPred (block pred : BlockId)
  /-- an instruction listed in one block and emitted into another -/
  | foreignInstr (instr : InstrId) (block owner : BlockId)
  /-- a recovery block that is left otherwise than by a return -/
  | recoverReturn
  deriving DecidableEq, Repr

/-- The wording of a defect. -/
def Defect.message : Defect → String
  | noBlocks => "function has no blocks"
  | misplaced block place => s!"block {block.text} stored at index {place}"
  | successors block => s!"block {block.text} successor list does not match its terminator"
  | dangling block succ => s!"block {block.text} references non-existent successor {succ.text}"
  | missingPred succ block => s!"block {succ.text} is missing predecessor {block.text}"
  | phantomPred block pred =>
    s!"block {block.text} lists {pred.text} as predecessor without an edge"
  | foreignInstr instr block owner =>
    s!"instruction {instr.text} listed in {block.text} but placed in {owner.text}"
  | recoverReturn => "recover block does not return"

/-- Why something cannot be built. Types and functions come with their text. -/
inductive BuildError where
  /-- a method whose body was never declared -/
  | noBody (method : FuncId) (text : String)
  /-- a plain function where a method is needed -/
  | notAMethod (func : FuncId) (text : String)
  /-- an operator that is no arithmetic -/
  | notArithmetic (op : Operator)
  /-- a field is asked of a type that is no struct -/
  | notAStruct (ty : TypeId) (text : String)
  /-- a field that a struct does not have -/
  | noSuchField (ty : TypeId) (text : String) (index : Nat)
  /-- a block without terminator -/
  | unterminated (function : String) (block : BlockId)
  /-- blocks that do not fit together -/
  | malformed (function : String) (defect : Defect)
  deriving DecidableEq, Repr

/-- The wording of a build error. -/
def BuildError.message : BuildError → String
  | noBody _ text => "No concrete method: " ++ text
  | notAMethod _ text => text ++ " is not a method"
  | notArithmetic op => "Illegal operator in arithmetic: " ++ op.symbol
  | notAStruct _ text => "Field selection on non-struct type " ++ text
  | noSuchField _ text index => s!"Type {text} has no field #{index}"
  | unterminated function block => s!"Function {function}: block {block.text} is not terminated"
  | malformed function defect => s!"Function {function} is malformed: {defect.message}"

end MethodSSA
