import MethodSSA.KeyOrder
import MethodSSA.Promotion.Selection

/-!
# Method sets

The method set of a type holds its own methods and those of its embedded
fields. It is found by a walk in breadth: level by level, from a type to the
types of its embedded fields. **What is found on a shallower level hides what
lies deeper**, and so does a field; two methods of one identifier on one level
hide each other. A declared type is walked once, on the first level that reaches
it. A type that one level reaches twice is walked once and all it offers is
hidden, since it could be meant along either way.
-/

namespace MethodSSA

/-- A type reached by the walk. -/
structure Reach where
  /-- the type -/
  ty : TypeId
  /-- the embedded fields on the way to it -/
  path : List Nat
  /-- whether a pointer lies on the way -/
  indirect : Bool
  /-- whether another way of the same length leads to it -/
  ambiguous : Bool
  deriving DecidableEq, Repr

/-- What methods and fields are known by identifier, and `none` for those that
only hide others. Of two entries the first counts. -/
abbrev Offers := List (String × Option Selection)

/-- A level while it is walked. -/
structure Level where
  /-- the declared types walked so far, on this level and those above -/
  seen : List TypeId
  /-- the methods found on this level, the latest first -/
  found : Offers
  /-- the identifiers of the fields found on this level -/
  fields : List String
  /-- the types reached by the embedded fields of this level -/
  next : List Reach

/-- Adds a reach to a level, in which every type stands once. -/
def addReach (level : List Reach) (r : Reach) : List Reach :=
  if level.any (·.ty == r.ty) then
    level.map fun s => if s.ty == r.ty then { s with ambiguous := true } else s
  else
    level ++ [r]

/-- A level in which every type stands once, marked if it was there more often. -/
def mergeReaches (rs : List Reach) : List Reach := rs.foldl addReach []

/-- What a level offers to those below: its methods, less those that one of its
fields hides, and its fields. -/
def Level.offers (l : Level) : Offers :=
  l.found.map (fun (key, s) => (key, if key ∈ l.fields then none else s)) ++
    l.fields.map (·, none)

namespace TypeTable

/-- Takes note of a method found at `r`. It is offered if nothing on this level
has its identifier, the way to it is the only one, and it can be called with
what the way gives: a pointer, or a value where the receiver is a value. -/
def offerMethod (t : TypeTable) (recv : TypeId) (r : Reach) (found : Offers)
    (m : FuncId) (place : Nat) : Except Fault Offers := do
  let key := (← t.func m).id
  if r.ambiguous || (found.lookup key).isSome then return (key, none) :: found
  if !r.indirect then
    if ← t.hasPointerReceiver m then return (key, none) :: found
  return (key, some ⟨recv, m, r.path ++ [place], r.indirect⟩) :: found

/-- Takes note of a list of methods found at `r`. -/
def offerMethods (t : TypeTable) (recv : TypeId) (r : Reach) (found : Offers)
    (methods : List FuncId) : Except Fault Offers :=
  methods.zipIdx.foldlM (fun found (m, place) => t.offerMethod recv r found m place) found

/-- A type, or the element type of a pointer type, and whether it was one. Only
the pointer type itself counts, not a declared type with such an underlying. -/
def stripPointer (t : TypeTable) (id : TypeId) : Except Fault (TypeId × Bool) := do
  return match (← t.get id).pointee? with
  | some elem => (elem, true)
  | none => (id, false)

/-- Takes note of a struct field at `r`. -/
def walkField (t : TypeTable) (r : Reach) (l : Level) (f : Field) (place : Nat) :
    Except Fault Level := do
  let l := { l with fields := f.id :: l.fields }
  if f.embedded then
    let (ty, isPtr) ← t.stripPointer f.ty
    return { l with next := l.next ++ [⟨ty, r.path ++ [place], r.indirect || isPtr, r.ambiguous⟩] }
  else return l

/-- Walks the fields of a struct or the methods of an interface at `r`, whose
type is `id` when its declaration is left aside. -/
def walkStructure (t : TypeTable) (recv : TypeId) (r : Reach) (id : TypeId) (l : Level) :
    Except Fault Level := do
  match ← t.get id with
  | .struct fields => fields.zipIdx.foldlM (fun l (f, place) => t.walkField r l f place) l
  | .interface methods =>
    return { l with found := ← t.offerMethods recv { r with indirect := true } l.found methods }
  | _ => return l

/-- Walks a type of the current level: the methods of its declaration, unless
it was walked before, and its structure. -/
def walkReach (t : TypeTable) (recv : TypeId) (l : Level) (r : Reach) : Except Fault Level := do
  if (← t.get r.ty).isNamed then
    if r.ty ∈ l.seen then return l
    let l := { l with seen := r.ty :: l.seen }
    let l := { l with found := ← t.offerMethods recv r l.found (← t.declaredMethods r.ty) }
    t.walkStructure recv r (← t.underlying r.ty) l
  else t.walkStructure recv r r.ty l

/-- Walks a level. -/
def walkLevel (t : TypeTable) (recv : TypeId) (seen : List TypeId) (level : List Reach) :
    Except Fault Level :=
  level.foldlM (t.walkReach recv) ⟨seen, [], [], []⟩

/-- Walks at most `depth` levels, as long as they are not empty, and adds what
they offer to the offers of the levels above. -/
def walk (t : TypeTable) (recv : TypeId) :
    (depth : Nat) → List TypeId → List Reach → Offers → Except Fault Offers
  | _, _, [], above => return above
  | 0, _, _ :: _, _ => throw .endlessType
  | depth + 1, seen, level@(_ :: _), above => do
    let l ← t.walkLevel recv seen level
    t.walk recv depth l.seen (mergeReaches l.next) (above ++ l.offers)

/-- A bound on the levels of a walk: between two declared types, each met once,
lie only types that do not contain themselves. -/
def walkDepth (t : TypeTable) : Nat := (t.decls.length + 1) * (t.types.length + 1) + 1

/-- The method set of a type, in the order of method identifiers. A pointer to
an interface has no methods. -/
def methodSet (t : TypeTable) (recv : TypeId) : Except Fault (List Selection) := do
  let (base, isPtr) ← t.stripPointer recv
  if isPtr then
    if ← t.isInterface base then return []
  let offers ← t.walk recv t.walkDepth [] [⟨base, [], isPtr, false⟩] []
  return (keyTable offers).filterMap (·.2)

/-- The selection of a given method identifier in the method set of a type. -/
def findMethod? (t : TypeTable) (recv : TypeId) (id : String) :
    Except Fault (Option Selection) := do
  (← t.methodSet recv).findM? fun s => return (← t.func s.method).id == id

end TypeTable

end MethodSSA
