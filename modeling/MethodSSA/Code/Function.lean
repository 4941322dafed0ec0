import MethodSSA.Code.Block
import MethodSSA.Code.Operand
import MethodSSA.Code.Operation
import MethodSSA.Promotion.Selection

/-!
# Functions

A function keeps its values, instructions and blocks in three lists that only
grow while it is built, and everything in it refers to everything else by place.
-/

namespace MethodSSA

/-- A function in single-assignment form. -/
structure Function where
  /-- its name -/
  name : String
  /-- its signature, with the receiver of a method -/
  signature : TypeId
  /-- what it was made for, if no source text stands behind it -/
  synthetic : Option String
  /-- where it is declared -/
  pos : SourcePos
  /-- the declared function that it implements -/
  object : Option FuncId
  /-- the selection that it stands for -/
  method : Option Selection
  /-- its parameters, the receiver first -/
  params : List ValueId
  /-- its captured variables -/
  freeVars : List ValueId
  /-- the addresses of its local variables -/
  locals : List ValueId
  /-- the addresses of its named results -/
  namedResults : List ValueId
  /-- its blocks, the entry first -/
  blocks : List Block
  /-- the block that runs after a panic was recovered from -/
  recover : Option BlockId
  /-- its values -/
  values : List Value
  /-- its instructions -/
  instrs : List Instr
  deriving DecidableEq

namespace Function

/-- A function without blocks. -/
def empty (name : String) (signature : TypeId) : Function :=
  ⟨name, signature, none, .none, none, none, [], [], [], [], [], none, [], []⟩

/-- The block that runs first. -/
def entryBlock : BlockId := ⟨0⟩

/-- Whether no source text stands behind the function. -/
def isSynthetic (f : Function) : Bool := f.synthetic.isSome

/-! ## Looking up -/

/-- A value of the function. -/
def value (f : Function) (v : ValueId) : Except Fault Value :=
  entry f.values v.index .outOfRange

/-- The type of a value. -/
def valueType (f : Function) (v : ValueId) : Except Fault TypeId := do
  return (← f.value v).ty

/-- An instruction of the function. -/
def instr (f : Function) (i : InstrId) : Except Fault Instr :=
  entry f.instrs i.index .outOfRange

/-- A block of the function. -/
def block (f : Function) (b : BlockId) : Except Fault Block :=
  entry f.blocks b.index .outOfRange

/-- The instruction that defines a value, if one does. -/
def definition? (f : Function) (v : ValueId) : Except Fault (Option Instr) := do
  match (← f.value v).origin with
  | .result i => return some (← f.instr i)
  | _ => return none

/-! ## Growing -/

/-- Changes the block stored at a place. -/
def updateBlock (f : Function) (b : BlockId) (g : Block → Block) : Function :=
  { f with blocks := f.blocks.modify b.index g }

/-- Adds a block, empty and open. -/
def addBlock (f : Function) (label : Option String) : BlockId × Function :=
  let id : BlockId := ⟨f.blocks.length⟩
  (id, { f with blocks := f.blocks ++ [.empty id label] })

/-- Adds a value. -/
def addValue (f : Function) (v : Value) : ValueId × Function :=
  (⟨f.values.length⟩, { f with values := f.values ++ [v] })

/-- Adds an instruction, to the function and to the end of its block. -/
def addInstr (f : Function) (i : Instr) : InstrId × Function :=
  let id : InstrId := ⟨f.instrs.length⟩
  (id, { f with instrs := f.instrs ++ [i] }.updateBlock i.block
    fun b => { b with instrs := b.instrs ++ [id] })

end Function

end MethodSSA
