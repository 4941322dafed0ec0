import MethodSSA.Types.Basic

/-!
# Broken calls

A **fault** is a call that no caller may make: an identifier of another table or
function, a query that its argument's type does not admit, an instruction where
no block is open. A fault ends the run that made it; nothing of its state is
kept. Errors that a run survives are `BuildError`s.
-/

namespace MethodSSA

/-- Why a call is broken. -/
inductive Fault where
  /-- a type identifier that the table never gave out -/
  | foreignType
  /-- a function declaration that the table does not hold -/
  | foreignFunc
  /-- a body that the program does not hold -/
  | foreignBody
  /-- a declaration is asked of a type that was not declared -/
  | notNamed (ty : Ty)
  /-- a signature is asked of another type -/
  | notSignature (ty : Ty)
  /-- a component is asked of a value that is no tuple -/
  | notTuple (ty : Ty)
  /-- a block is opened that already has its terminator -/
  | closedBlock (block : BlockId)
  /-- something is emitted while no block is open -/
  | noOpenBlock
  /-- a value, block, instruction or tuple component that does not exist -/
  | outOfRange
  /-- a type that contains itself with no declared type in between -/
  | endlessType
  deriving DecidableEq, Repr

/-- The wording of a fault. Places out of range have none. -/
def Fault.message : Fault → String
  | foreignType => "TypeId from a different context"
  | foreignFunc => "FuncId from a different context"
  | foreignBody => "FunctionId from a different program"
  | notNamed ty => ty.brief ++ " is not a named type"
  | notSignature ty => ty.brief ++ " is not a signature"
  | notTuple ty => "extract from non-tuple " ++ ty.brief
  | closedBlock block => "block " ++ block.text ++ " is already closed"
  | noOpenBlock => "emission with no open block"
  | outOfRange => ""
  | endlessType => "type contains itself"

/-- The entry of a list at a place, or a fault of the given cause. -/
def entry {α : Type} (l : List α) (i : Nat) (cause : Fault) : Except Fault α :=
  match l[i]? with
  | some a => .ok a
  | none => .error cause

theorem entry_eq_ok_iff {α : Type} {l : List α} {i : Nat} {cause : Fault} {a : α} :
    entry l i cause = .ok a ↔ l[i]? = some a := by
  unfold entry
  cases l[i]? <;> simp

theorem entry_eq_error_iff {α : Type} {l : List α} {i : Nat} {cause f : Fault} :
    entry l i cause = .error f ↔ l.length ≤ i ∧ f = cause := by
  unfold entry
  rcases h : l[i]? with _ | a
  · simp [List.getElem?_eq_none_iff.mp h, eq_comm]
  · obtain ⟨hi, -⟩ := List.getElem?_eq_some_iff.mp h
    simp; omega

end MethodSSA
