import MethodSSA.Code.Check
import MethodSSA.Workspace

/-!
# Functions under construction

A **draft** is a function that grows. At most one of its blocks is open, and
instructions go to the end of the open block. A terminator closes the block;
after that no block is open until another one is opened. To emit with no block
open is a fault.

A `Builder` is a draft together with the workspace of its program. What is done
with it comes in two kinds: a `Build` step always ends or is a fault, a `TryBuild`
step may also fail with a build error and then keeps what was done so far.
-/

namespace MethodSSA

/-- A function that grows. -/
structure Draft where
  /-- the function so far -/
  func : Function
  /-- the open block -/
  current : Option BlockId
  /-- the constant `true`, once it was asked for -/
  trueConst : Option ValueId

/-- A new draft, whose entry block is open. -/
def Draft.start (name : String) (signature : TypeId) : Draft :=
  let (entryId, f) := (Function.empty name signature).addBlock (some "entry")
  ⟨f, some entryId, none⟩

/-- A draft and the workspace that it is built in. -/
structure Builder extends Workspace, Draft

/-- A step of construction. -/
abbrev Build := StateT Builder (Except Fault)

/-- A step of construction that may fail and then keeps what was done so far. -/
abbrev TryBuild := ExceptT BuildError Build

/-! ## Growing a function by an instruction or an edge -/

namespace Function

/-- Adds an instruction that defines no value to a block. -/
def addStep (f : Function) (block : BlockId) (op : Operation) (pos : SourcePos) :
    InstrId × Function :=
  f.addInstr ⟨block, op, none, pos⟩

/-- Adds an instruction and the value that it defines to a block. -/
def addDefinition (f : Function) (block : BlockId) (op : Operation) (ty : TypeId)
    (pos : SourcePos) : ValueId × Function :=
  let (v, g) := f.addValue ⟨ty, .result ⟨f.instrs.length⟩⟩
  (v, (g.addInstr ⟨block, op, some v, pos⟩).2)

/-- Notes that `pred` leads to the given blocks. -/
def addPreds (f : Function) (pred : BlockId) (succs : List BlockId) : Function :=
  succs.foldl (fun f succ => f.updateBlock succ fun b => { b with preds := b.preds ++ [pred] }) f

/-- Closes a block and notes its edges at both ends. -/
def closeBlock (f : Function) (block : BlockId) (term : Terminator) : Function :=
  (f.addPreds block term.successors).updateBlock block fun b =>
    { b with term := term, succs := term.successors }

end Function

namespace Builder

/-! ## Asking -/

/-- The answer of the type table to a question. -/
def ask {α : Type} (question : TypeTable → Except Fault α) : Build α := do
  question (← get).types

/-- The text of a type. -/
def typeText (ty : TypeId) : Build String := ask (·.typeText ty)

/-- The text of a declared function. -/
def funcText (f : FuncId) : Build String := ask (·.funcText f)

/-- Whether a type is a pointer type. -/
def isPointer (ty : TypeId) : Build Bool := ask (·.isPointer ty)

/-- Whether a type is an interface type. -/
def isInterface (ty : TypeId) : Build Bool := ask (·.isInterface ty)

/-- Whether a method belongs to an interface. -/
def isAbstract (f : FuncId) : Build Bool := ask (·.isAbstract f)

/-- Whether a method takes its receiver by pointer. -/
def hasPointerReceiver (f : FuncId) : Build Bool := ask (·.hasPointerReceiver f)

/-- A value of the function. -/
def value (v : ValueId) : Build Value := do
  (← get).func.value v

/-- The type of a value. -/
def valueType (v : ValueId) : Build TypeId := do
  (← get).func.valueType v

/-- The signature of the function. -/
def ownSignature : Build Signature := do
  let b ← get
  b.types.signatureOf b.func.signature

/-- The open block. -/
def openBlock : Build BlockId := do
  match (← get).current with
  | some block => return block
  | none => throw .noOpenBlock

/-! ## Changing -/

/-- Enters a type into the type table. -/
def intern (ty : Ty) : Build TypeId :=
  modifyGet fun b =>
    let (id, types) := b.types.intern ty
    (id, { b with types })

/-- Grows the function. -/
def grow {α : Type} (step : Function → α × Function) : Build α :=
  modifyGet fun b =>
    let (a, func) := step b.func
    (a, { b with func })

/-- Changes the function. -/
def amend (step : Function → Function) : Build Unit :=
  modify fun b => { b with func := step b.func }

/-- Notes that values of a type are boxed. -/
def needMethods (ty : TypeId) : Build Unit :=
  modify fun b => { b with toWorkspace := b.toWorkspace.needMethods ty }

/-! ## Emitting -/

/-- Emits an instruction that defines no value. -/
def emitAt (op : Operation) (pos : SourcePos) : Build InstrId := do
  let block ← openBlock
  grow (·.addStep block op pos)

/-- Emits an instruction that defines no value, without a position. -/
def emit (op : Operation) : Build InstrId := emitAt op .none

/-- Emits an instruction and gives the value of type `ty` that it defines. -/
def emitValueAt (op : Operation) (ty : TypeId) (pos : SourcePos) : Build ValueId := do
  let block ← openBlock
  grow (·.addDefinition block op ty pos)

/-- Emits an instruction that defines a value, without a position. -/
def emitValue (op : Operation) (ty : TypeId) : Build ValueId := emitValueAt op ty .none

/-- Closes the open block. Every block that the terminator leads to must exist. -/
def close (term : Terminator) : Build Unit := do
  let block ← openBlock
  let func := (← get).func
  term.successors.forM fun succ => do let _ ← func.block succ
  modify fun b => { b with func := b.func.closeBlock block term, current := none }

/-- Closes the open block by a return. -/
def ret (results : List ValueId) : Build Unit := close (.ret results)

/-! ## Blocks -/

/-- Adds a block without opening it. -/
def newBlock (label : String) : Build BlockId := grow (·.addBlock (some label))

/-- Opens a block. The block that was open stays as it is. -/
def setCurrent (block : BlockId) : Build Unit := do
  if (← (← get).func.block block).isClosed then throw (.closedBlock block)
  modify fun b => { b with current := some block }

/-! ## Constants, parameters and variables -/

/-- A new constant. -/
def constant (lit : Literal) (ty : TypeId) : Build ValueId := grow (·.addValue ⟨ty, .const lit⟩)

/-- The constant `true` of this function, made when it is first asked for. -/
def constTrue : Build ValueId := do
  match (← get).trueConst with
  | some v => return v
  | none =>
    let v ← constant (.bool true) TypeTable.boolean
    modify fun b => { b with trueConst := some v }
    return v

/-- Adds a parameter. -/
def addParam (name : String) (ty : TypeId) : Build ValueId :=
  grow fun f =>
    let (v, f) := f.addValue ⟨ty, .param f.params.length name⟩
    (v, { f with params := f.params ++ [v] })

/-- Adds a captured variable. -/
def addFreeVar (name : String) (ty : TypeId) : Build ValueId :=
  grow fun f =>
    let (v, f) := f.addValue ⟨ty, .free f.freeVars.length name⟩
    (v, { f with freeVars := f.freeVars ++ [v] })

/-- Adds the parameter at a place of a signature. The last one of a variadic
signature is a slice of its element type. -/
def addFormal (sig : Signature) (p : Var) (place : Nat) : Build ValueId := do
  if sig.variadic && place + 1 == sig.params.length then
    addParam p.name (← intern (.slice p.ty))
  else addParam p.name p.ty

/-- Adds the parameters of the signature, without the receiver. -/
def addFormals : Build (List ValueId) := do
  let sig ← ownSignature
  sig.params.zipIdx.mapM fun (p, place) => addFormal sig p place

/-- Makes a local variable and gives its address. -/
def addLocal (ty : TypeId) : Build ValueId := do
  let ptr ← intern (.pointer ty)
  let addr ← emitValue (.alloc false) ptr
  amend fun f => { f with locals := f.locals ++ [addr] }
  return addr

/-- Makes a variable on the heap and gives its address. -/
def newHeap (ty : TypeId) : Build ValueId := do
  let ptr ← intern (.pointer ty)
  emitValue (.alloc true) ptr

/-- Makes the local variable of a named result. -/
def addNamedResult (r : Var) : Build Unit := do
  let addr ← addLocal r.ty
  amend fun f => { f with namedResults := f.namedResults ++ [addr] }

/-- Gives every named result a local variable, unless there are some already,
and gives their addresses. -/
def addNamedResults : Build (List ValueId) := do
  if (← get).func.namedResults.isEmpty then
    let sig ← ownSignature
    (sig.results.filter (!·.name.isEmpty)).forM addNamedResult
  return (← get).func.namedResults

/-- Reads a variable. -/
def load (addr : ValueId) : Build ValueId := do
  let ty ← valueType addr
  let elem ← ask (·.deref ty)
  emitValue (.load addr) elem

/-! ## Finishing -/

/-- The finished function. No block may be open, and if the mode asks for it the
function is checked. -/
def finish (b : Builder) : Function.Checked Function := do
  if let some block := b.current then throw (.unterminated b.func.name block)
  if b.mode.sanityCheck then b.func.check
  return b.func

end Builder

end MethodSSA
