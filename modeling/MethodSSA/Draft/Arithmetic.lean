import MethodSSA.Draft.Conversion

/-!
# Operators

Operands are converted before an operator is applied: those of arithmetic to the
type of the result, those of a comparison to each other.
-/

namespace MethodSSA

namespace Builder

/-- A shift count: unsigned counts stay as they are, other basic ones become
64-bit unsigned. -/
def shiftCount (y : ValueId) : Build ValueId := do
  let ty ← valueType y
  if ← ask (·.isBasic ty fun k => !k.isUnsigned) then convert y (TypeTable.basic .uint64)
  else return y

/-- `x op y` for an arithmetic operator or a shift, as a value of type `ty`. -/
def arith (op : Operator) (x y : ValueId) (ty : TypeId) : TryBuild ValueId := do
  if op.isShift then
    let x ← convert x ty
    let y ← shiftCount y
    emitValue (.binary op x y) ty
  else if op.isArithmetic then
    let x ← convert x ty
    let y ← convert y ty
    emitValue (.binary op x y) ty
  else throw (.notArithmetic op)

/-- Whether `known == other` is `other` itself: `known` is this function's
constant `true` and `other` is a truth value. -/
def absorbs (known other : ValueId) : Build Bool := do
  let ty ← valueType other
  if (← get).trueConst = some known then ask (·.isBasic ty Kind.isBoolean) else return false

/-- The operands of a comparison, at most one of them converted. Operands of one
underlying type stay as they are; otherwise an interface, or the type opposite a
constant, decides the type; and where there is neither both stay as they are. -/
def matchOperands (x y : ValueId) : Build (ValueId × ValueId) := do
  let xt ← valueType x
  let yt ← valueType y
  let ux ← ask (·.underlying xt)
  let uy ← ask (·.underlying yt)
  if ux = uy then return (x, y)
  else if ← isInterface ux then return (x, ← convert y xt)
  else if ← isInterface uy then return (← convert x yt, y)
  else if (← value x).isConst then return (← convert x yt, y)
  else if (← value y).isConst then return (x, ← convert y xt)
  else return (x, y)

/-- `x op y` as a truth value. A truth value compared with the constant `true`
for equality is itself the answer. -/
def compare (op : Operator) (x y : ValueId) : Build ValueId := do
  let _ ← valueType x
  let _ ← valueType y
  if op = .equal then
    if ← absorbs x y then return y
    if ← absorbs y x then return x
  let (x, y) ← matchOperands x y
  emitValue (.binary op x y) TypeTable.boolean

end Builder

end MethodSSA
