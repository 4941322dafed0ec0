import MethodSSA.Draft.Basic

/-!
# Conversion

A value is used at exactly the type that is asked for. `Builder.convert` brings
it there in the cheapest way: not at all, by relabelling it, by boxing it in an
interface, by giving a constant another type, or by an instruction that changes
its representation.
-/

namespace MethodSSA

/-- Whether values of two underlying types are represented alike: the types are
the same, or both are channel types, both pointer types or both function types. -/
def TypeTable.sameRepresentation (t : TypeTable) (a b : TypeId) : Except Fault Bool := do
  if a = b then return true
  let x ← t.get a
  let y ← t.get b
  return match x, y with
  | .channel _ _, .channel _ _ | .pointer _, .pointer _ | .signature _, .signature _ => true
  | _, _ => false

namespace Builder

/-- The value under another type, if that changes no representation. -/
def relabel? (v : ValueId) (target : TypeId) : Build (Option ValueId) := do
  let source ← valueType v
  if source = target then return some v
  let us ← ask (·.underlying source)
  let ut ← ask (·.underlying target)
  if ← ask (·.sameRepresentation us ut) then return some (← emitValue (.changeType v) target)
  return none

/-- The value in another representation. A constant is written anew. -/
def reshape (v : ValueId) (target : TypeId) : Build ValueId := do
  match (← value v).literal? with
  | some lit => constant lit target
  | none => emitValue (.convert v) target

/-- Conversion to a type that is no interface. -/
def convertPlain (v : ValueId) (target : TypeId) : Build ValueId := do
  match ← relabel? v target with
  | some w => return w
  | none => reshape v target

/-- The value under the default type of its type, if it has an untyped one. -/
def settle (v : ValueId) : Build ValueId := do
  let us ← ask (·.underlying (← valueType v))
  if ← ask (·.isBasic us Kind.isUntyped) then convertPlain v (← ask (·.defaultType us))
  else return v

/-- The value in an interface. An interface value changes its interface, `nil`
becomes the `nil` of the interface, and any other value is boxed under a type
that is not untyped; the methods of that type are needed when the program runs. -/
def box (v : ValueId) (target : TypeId) : Build ValueId := do
  let source ← valueType v
  if ← isInterface (← ask (·.underlying source)) then
    emitValue (.changeInterface v) target
  else if (← ask (·.get source)).kind? = some .untypedNil then
    constant .nil target
  else
    let v ← settle v
    needMethods (← valueType v)
    emitValue (.makeInterface v) target

/-- The value as one of type `target`. -/
def convert (v : ValueId) (target : TypeId) : Build ValueId := do
  match ← relabel? v target with
  | some w => return w
  | none =>
    if ← isInterface (← ask (·.underlying target)) then box v target
    else reshape v target

/-- Writes a variable, with the value converted to the variable's type. -/
def store (addr v : ValueId) : Build InstrId := do
  let elem ← ask (·.deref (← valueType addr))
  let v ← convert v elem
  emit (.store addr v)

/-- Copies a parameter to a new local variable and gives its address. -/
def spill (param : ValueId) : Build ValueId := do
  let addr ← addLocal (← valueType param)
  let _ ← store addr param
  return addr

end Builder

end MethodSSA
