import MethodSSA.Draft.Basic

/-!
# Zero values and the recovery block

A function that recovers from a panic goes on in its **recovery block**, which
returns the named results as they stand, or zero values if there are none.
-/

namespace MethodSSA

/-- The zero of a basic kind; pointers without element type, and untyped `nil`,
have none but `nil`. -/
def Kind.zero (k : Kind) : Literal :=
  if k.isBoolean then .bool false
  else if k.isInteger then .int 0
  else if k.isFloat then .float .zero
  else if k.isComplex then .complex .zero .zero
  else if k.isString then .string ""
  else .nil

/-- The zero constant of an underlying type. -/
def Ty.zero (ty : Ty) : Literal := ty.kind?.elim .nil Kind.zero

/-- Whether values of an underlying type have parts of their own, so that no
constant can stand for them. -/
def Ty.isAggregate : Ty → Bool
  | struct _ | array _ _ => true
  | _ => false

namespace Builder

/-- The zero constant of a type. -/
def zeroConst (ty : TypeId) : Build ValueId := do
  constant (← ask (·.underlyingTy ty)).zero ty

/-- The zero value of a type: a constant, or the content of a new local variable. -/
def zeroValue (ty : TypeId) : Build ValueId := do
  if (← ask (·.underlyingTy ty)).isAggregate then load (← addLocal ty)
  else zeroConst ty

/-- What the recovery block returns. -/
def recoveredResults : Build (List ValueId) := do
  let named := (← get).func.namedResults
  if named.isEmpty then (← ownSignature).results.mapM fun r => zeroValue r.ty
  else named.mapM load

/-- The recovery block, made when it is first asked for. The open block stays
open. -/
def recoveryBlock : Build BlockId := do
  match (← get).func.recover with
  | some block => return block
  | none =>
    let saved := (← get).current
    let block ← newBlock "recover"
    modify fun b => { b with func := { b.func with recover := some block }, current := some block }
    ret (← recoveredResults)
    modify fun b => { b with current := saved }
    return block

end Builder

end MethodSSA
