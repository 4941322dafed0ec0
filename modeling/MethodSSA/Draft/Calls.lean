import MethodSSA.Draft.Basic

/-!
# Tuples, type tests, marks and tail calls

A call with several results defines one tuple, from which the results are taken
one by one.
-/

namespace MethodSSA

namespace Builder

/-- A component of a tuple. -/
def extract (tuple : ValueId) (index : Nat) : Build ValueId := do
  let ty ← valueType tuple
  match ← ask (·.get ty) with
  | .tuple vars =>
    let component ← entry vars index .outOfRange
    emitValue (.extract tuple index) component.ty
  | other => throw (.notTuple other)

/-- The value in the interface `x`, which must be of type `ty`. -/
def typeAssert (x : ValueId) (ty : TypeId) (pos : SourcePos) : Build ValueId :=
  emitValueAt (.typeAssert x ty false) ty pos

/-- The value in the interface `x` and whether it is of type `ty`, as a tuple. -/
def typeTest (x : ValueId) (ty : TypeId) (pos : SourcePos) : Build ValueId := do
  let tuple ← intern (.tuple [⟨"value", ty⟩, ⟨"ok", TypeTable.boolean⟩])
  emitValueAt (.typeAssert x ty true) tuple pos

/-- Relates a value to the source, if the mode asks for it. -/
def debugRef (x : ValueId) (pos : SourcePos) (isAddr : Bool) : Build (Option InstrId) := do
  if (← get).mode.debugInfo then return some (← emit (.debugRef x pos isAddr))
  return none

/-- Marks a step for a debugger. -/
def trace (kind : StepKind) (start stop : SourcePos) : Build InstrId :=
  emitAt (.trace kind start stop) start

/-- Calls and returns what the call returns. The types of the results are those
of this function's own signature. -/
def tailCall (call : Call) : Build Unit := do
  let results := (← ownSignature).results
  match results with
  | [] =>
    let _ ← emit (.call call)
    ret []
  | [r] =>
    let v ← emitValue (.call call) r.ty
    ret [v]
  | _ =>
    let tuple ← emitValue (.call call) (← intern (.tuple results))
    let values ← (List.range results.length).mapM fun i => extract tuple i
    ret values

end Builder

end MethodSSA
