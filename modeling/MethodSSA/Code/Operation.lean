import MethodSSA.Ids

/-!
# Instructions

What the body of a block does, one step at a time. Steps read values, and most
define one; how a block is left is said by its terminator.
-/

namespace MethodSSA

/-- An operator on two operands. -/
inductive Operator where
  /-- sum -/
  | add
  /-- difference -/
  | sub
  /-- product -/
  | mul
  /-- quotient -/
  | div
  /-- remainder -/
  | mod
  /-- bits set in both -/
  | bitAnd
  /-- bits set in either -/
  | bitOr
  /-- bits set in one only -/
  | bitXor
  /-- bits set in the left operand only -/
  | andNot
  /-- shift to the left -/
  | shiftLeft
  /-- shift to the right -/
  | shiftRight
  /-- equality -/
  | equal
  /-- inequality -/
  | notEqual
  /-- strict order -/
  | less
  /-- order -/
  | lessEqual
  /-- strict order, operands exchanged -/
  | greater
  /-- order, operands exchanged -/
  | greaterEqual
  /-- conjunction that may leave its right operand alone -/
  | and
  /-- disjunction that may leave its right operand alone -/
  | or
  deriving DecidableEq, Repr

namespace Operator

/-- The symbol of an operator. -/
def symbol : Operator → String
  | add => "+"
  | sub => "-"
  | mul => "*"
  | div => "/"
  | mod => "%"
  | bitAnd => "&"
  | bitOr => "|"
  | bitXor => "^"
  | andNot => "&^"
  | shiftLeft => "<<"
  | shiftRight => ">>"
  | equal => "=="
  | notEqual => "!="
  | less => "<"
  | lessEqual => "<="
  | greater => ">"
  | greaterEqual => ">="
  | and => "&&"
  | or => "||"

/-- Shifts, whose operands may differ in type. -/
def isShift : Operator → Bool
  | shiftLeft | shiftRight => true
  | _ => false

/-- Arithmetic on operands of one type. -/
def isArithmetic : Operator → Bool
  | add | sub | mul | div | mod | bitAnd | bitOr | bitXor | andNot => true
  | _ => false

/-- Comparisons, whose result is a truth value. -/
def isComparison : Operator → Bool
  | equal | notEqual | less | lessEqual | greater | greaterEqual => true
  | _ => false

/-- Operators that are lowered to control flow. -/
def isLogical : Operator → Bool
  | and | or => true
  | _ => false

/-- Every operator belongs to exactly one class. -/
theorem class_unique (op : Operator) :
    [op.isShift, op.isArithmetic, op.isComparison, op.isLogical].count true = 1 := by
  cases op <;> rfl

end Operator

/-- What a call runs. -/
inductive Callee where
  /-- a known body; the receiver of a method is its first argument -/
  | direct (body : BodyId)
  /-- the method of the value held by an interface -/
  | invoke (recv : ValueId) (method : FuncId)
  deriving DecidableEq, Repr

/-- A call: what is run, and with which arguments. -/
structure Call where
  /-- what is run -/
  callee : Callee
  /-- the arguments; an invocation lists its receiver apart -/
  args : List ValueId
  deriving DecidableEq, Repr

/-- What a debugger stops at. -/
inductive StepKind where
  /-- a statement -/
  | statement
  /-- an expression -/
  | expression
  /-- a call -/
  | call
  /-- a return -/
  | ret
  /-- a panic -/
  | panic
  deriving DecidableEq, Repr

/-- The word for a step in listings. -/
def StepKind.word : StepKind → String
  | statement => "STATEMENT"
  | expression => "EXPRESSION"
  | call => "CALL"
  | ret => "RETURN"
  | panic => "PANIC"

/-- What an instruction does. -/
inductive Operation where
  /-- makes a zeroed variable, on the heap or local, and gives its address -/
  | alloc (heap : Bool)
  /-- reads a variable -/
  | load (addr : ValueId)
  /-- writes a variable -/
  | store (addr val : ValueId)
  /-- applies an operator -/
  | binary (op : Operator) (x y : ValueId)
  /-- the address of a field of the struct that `x` points to -/
  | fieldAddr (x : ValueId) (field : Nat)
  /-- a field of the struct `x` -/
  | field (x : ValueId) (field : Nat)
  /-- the same value under another type of the same representation -/
  | changeType (x : ValueId)
  /-- an interface value as a value of another interface -/
  | changeInterface (x : ValueId)
  /-- a conversion that changes the representation -/
  | convert (x : ValueId)
  /-- boxes a value in an interface -/
  | makeInterface (x : ValueId)
  /-- a call -/
  | call (c : Call)
  /-- a component of a tuple -/
  | extract (tuple : ValueId) (index : Nat)
  /-- checks the type of the value in an interface; with `commaOk` the result
  says whether it fits, without it a misfit is an error -/
  | typeAssert (x : ValueId) (asserted : TypeId) (commaOk : Bool)
  /-- relates a value, or the variable at an address, to the source -/
  | debugRef (x : ValueId) (pos : SourcePos) (isAddr : Bool)
  /-- marks a step for a debugger -/
  | trace (kind : StepKind) (start stop : SourcePos)
  deriving DecidableEq, Repr

namespace Operation

/-- The word for an operation. -/
def mnemonic : Operation → String
  | alloc true => "new"
  | alloc false => "local"
  | load _ => "load"
  | store _ _ => "store"
  | binary _ _ _ => "binop"
  | fieldAddr _ _ => "fieldaddr"
  | field _ _ => "field"
  | changeType _ => "changetype"
  | changeInterface _ => "changeinterface"
  | convert _ => "convert"
  | makeInterface _ => "makeinterface"
  | call ⟨.invoke _ _, _⟩ => "invoke"
  | call ⟨.direct _, _⟩ => "call"
  | extract _ _ => "extract"
  | typeAssert _ _ _ => "typeassert"
  | debugRef _ _ _ => "debugref"
  | trace _ _ _ => "trace"

/-- The values that an operation reads, in order. -/
def operands : Operation → List ValueId
  | alloc _ | trace _ _ _ => []
  | load addr => [addr]
  | store addr val => [addr, val]
  | binary _ x y => [x, y]
  | fieldAddr x _ | field x _ | changeType x | changeInterface x | convert x | makeInterface x
  | typeAssert x _ _ | debugRef x _ _ => [x]
  | extract tuple _ => [tuple]
  | call ⟨.direct _, args⟩ => args
  | call ⟨.invoke recv _, args⟩ => recv :: args

end Operation

/-- An instruction in its block. -/
structure Instr where
  /-- the block it was emitted into -/
  block : BlockId
  /-- what it does -/
  op : Operation
  /-- the value it defines -/
  result : Option ValueId
  /-- where it comes from in the source -/
  pos : SourcePos
  deriving DecidableEq, Repr

end MethodSSA
