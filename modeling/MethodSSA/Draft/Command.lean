import MethodSSA.Draft.Arithmetic
import MethodSSA.Draft.Calls
import MethodSSA.Draft.Fields
import MethodSSA.Draft.Recovery

/-!
# Commands

Whatever can be done with a function under construction, as data: a function is
built by a list of commands, and what holds of every list of them holds of every
function built.
-/

namespace MethodSSA

/-- One thing to do with a function under construction. -/
inductive Command where
  /-- says what a function without source text is for -/
  | describe (text : String)
  /-- says where the function is declared -/
  | place (pos : SourcePos)
  /-- says which declared function this one implements -/
  | implement (func : FuncId)
  /-- says which selection this function stands for -/
  | standFor (sel : Selection)
  /-- adds a parameter -/
  | param (name : String) (ty : TypeId)
  /-- adds a captured variable -/
  | freeVar (name : String) (ty : TypeId)
  /-- adds the parameters of the signature -/
  | formals
  /-- adds the variables of the named results -/
  | namedResults
  /-- makes a local variable -/
  | localVar (ty : TypeId)
  /-- makes a variable on the heap -/
  | heapVar (ty : TypeId)
  /-- a zero value -/
  | zeroValue (ty : TypeId)
  /-- a zero constant -/
  | zeroConst (ty : TypeId)
  /-- copies a parameter to a local variable -/
  | spill (param : ValueId)
  /-- reads a variable -/
  | load (addr : ValueId)
  /-- writes a variable -/
  | store (addr val : ValueId)
  /-- a constant -/
  | constant (lit : Literal) (ty : TypeId)
  /-- the shared constant `true` -/
  | constTrue
  /-- adds a block -/
  | newBlock (label : String)
  /-- opens a block -/
  | setCurrent (block : BlockId)
  /-- emits an instruction as it is -/
  | emit (op : Operation)
  /-- emits an instruction that defines a value, as it is -/
  | emitValue (op : Operation) (ty : TypeId) (pos : SourcePos)
  /-- closes the open block -/
  | close (term : Terminator)
  /-- arithmetic -/
  | arith (op : Operator) (x y : ValueId) (ty : TypeId)
  /-- a comparison -/
  | compare (op : Operator) (x y : ValueId)
  /-- a conversion -/
  | convert (x : ValueId) (ty : TypeId)
  /-- follows a path of embedded fields -/
  | followPath (x : ValueId) (path : List Nat)
  /-- selects a field -/
  | selectField (x : ValueId) (index : Nat) (wantAddr : Bool)
  /-- takes a component of a tuple -/
  | extract (tuple : ValueId) (index : Nat)
  /-- asserts the type of the value in an interface -/
  | typeAssert (x : ValueId) (ty : TypeId) (pos : SourcePos)
  /-- tests the type of the value in an interface -/
  | typeTest (x : ValueId) (ty : TypeId) (pos : SourcePos)
  /-- relates a value to the source -/
  | debugRef (x : ValueId) (pos : SourcePos) (isAddr : Bool)
  /-- marks a step for a debugger -/
  | trace (kind : StepKind) (start stop : SourcePos)
  /-- calls and returns what the call returns -/
  | tailCall (call : Call)
  /-- the recovery block -/
  | recoveryBlock
  deriving DecidableEq, Repr

/-- What a command gives. -/
inductive Outcome where
  /-- nothing -/
  | done
  /-- a value -/
  | value (v : ValueId)
  /-- several values -/
  | values (vs : List ValueId)
  /-- a block -/
  | block (b : BlockId)
  /-- an instruction -/
  | instr (i : InstrId)
  deriving DecidableEq, Repr

namespace Builder

/-- Carries out a command. -/
def perform : Command → TryBuild Outcome
  | .describe text => do
    amend fun f => { f with synthetic := some text }
    return .done
  | .place pos => do
    amend fun f => { f with pos }
    return .done
  | .implement func => do
    amend fun f => { f with object := some func }
    return .done
  | .standFor sel => do
    amend fun f => { f with method := some sel }
    return .done
  | .param name ty => return .value (← addParam name ty)
  | .freeVar name ty => return .value (← addFreeVar name ty)
  | .formals => return .values (← addFormals)
  | .namedResults => return .values (← addNamedResults)
  | .localVar ty => return .value (← addLocal ty)
  | .heapVar ty => return .value (← newHeap ty)
  | .zeroValue ty => return .value (← Builder.zeroValue ty)
  | .zeroConst ty => return .value (← Builder.zeroConst ty)
  | .spill param => return .value (← Builder.spill param)
  | .load addr => return .value (← Builder.load addr)
  | .store addr val => return .instr (← Builder.store addr val)
  | .constant lit ty => return .value (← Builder.constant lit ty)
  | .constTrue => return .value (← Builder.constTrue)
  | .newBlock label => return .block (← Builder.newBlock label)
  | .setCurrent block => do
    Builder.setCurrent block
    return .done
  | .emit op => return .instr (← Builder.emit op)
  | .emitValue op ty pos => return .value (← emitValueAt op ty pos)
  | .close term => do
    Builder.close term
    return .done
  | .arith op x y ty => return .value (← Builder.arith op x y ty)
  | .compare op x y => return .value (← Builder.compare op x y)
  | .convert x ty => return .value (← Builder.convert x ty)
  | .followPath x path => return .value (← Builder.followPath x path)
  | .selectField x index wantAddr => return .value (← Builder.selectField x index wantAddr)
  | .extract tuple index => return .value (← Builder.extract tuple index)
  | .typeAssert x ty pos => return .value (← Builder.typeAssert x ty pos)
  | .typeTest x ty pos => return .value (← Builder.typeTest x ty pos)
  | .debugRef x pos isAddr => do
    match ← Builder.debugRef x pos isAddr with
    | some i => return .instr i
    | none => return .done
  | .trace kind start stop => return .instr (← Builder.trace kind start stop)
  | .tailCall call => do
    Builder.tailCall call
    return .done
  | .recoveryBlock => return .block (← Builder.recoveryBlock)

end Builder

end MethodSSA
