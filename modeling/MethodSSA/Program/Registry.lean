import MethodSSA.Program.Wrapper
import MethodSSA.Promotion.Walk

/-!
# The registry of methods

Behind every method of every receiver type stands one body. It is found when it
is first asked for, by `bodyOf` for one selection or by `methodSet` for all
methods of a type, and both share what they found. What can be called on
variables of a type without belonging to its method set is remembered apart.
-/

namespace MethodSSA

namespace Program

/-- Whether a method takes its receiver by pointer and is selected from a value,
or the other way round. -/
def crossesPointer (sel : Selection) : Request Bool := do
  match ← ask (·.receiver? sel.method) with
  | none => return false
  | some recv =>
    let declared ← ask (·.isPointer recv)
    let selected ← ask (·.isPointer sel.recv)
    return declared != selected

/-- Finds or makes the body behind a selection that no memory answers. -/
def resolve (sel : Selection) : Request BodyId := do
  let crosses ← crossesPointer sel
  if sel.isPromoted || crosses then promotionWrapper sel
  else if ← ask (·.isInterface sel.recv) then interfaceWrapper sel.recv sel.method
  else concreteBody sel.method

/-- The body behind a selection. -/
def bodyOf (sel : Selection) : Request BodyId := do
  let key := (sel.recv, (← ask (·.func sel.method)).id)
  if ← ask (·.inMethodSet sel) then
    match (← get).members.lookup key with
    | some id => return id
    | none =>
      let id ← resolve sel
      modify fun p => { p with members := (key, id) :: p.members }
      return id
  else
    match (← get).addressable.lookup key with
    | some id => return id
    | none =>
      let id ← resolve sel
      modify fun p => { p with addressable := (key, id) :: p.addressable }
      return id

/-- Resolves a member of the method set of `ty`, unless it is resolved already. -/
def resolveMember (ty : TypeId) (sel : Selection) : Request Unit := do
  let key := (ty, (← ask (·.func sel.method)).id)
  if ((← get).members.lookup key).isNone then
    let id ← resolve sel
    modify fun p => { p with members := (key, id) :: p.members }

/-- The bodies behind all methods of a type, in the order of method identifiers. -/
def methodSet (ty : TypeId) : Request (List (String × BodyId)) := do
  if ty ∉ (← get).complete then
    (← ask (·.methodSet ty)).forM (resolveMember ty)
    modify fun p => { p with complete := ty :: p.complete }
  return (← get).membersOf ty

end Program

end MethodSSA
