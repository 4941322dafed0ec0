import MethodSSA.Draft.Basic

/-!
# Fields

Fields are selected from structs and through pointers to structs. A **path** of
embedded fields is followed without being written in the source: through a
pointer only addresses are taken, and a variable is read on the way only where
the field itself holds a pointer.
-/

namespace MethodSSA

namespace Builder

/-- The fields of the struct type `ty`, or of the struct that it points to. -/
def structFields? (ty : TypeId) : Build (Option (List Field)) := ask (·.structFields? ty)

/-- A field of the struct `v`, or of the struct that `v` points to. -/
def fieldOf (v : ValueId) (index : Nat) : TryBuild Field := do
  let ty ← valueType v
  match ← structFields? ty with
  | none => throw (.notAStruct ty (← typeText ty))
  | some fields =>
    match fields[index]? with
    | some field => return field
    | none => throw (.noSuchField ty (← typeText ty) index)

/-- The address of a field of the struct that `v` points to. -/
def fieldAddr (v : ValueId) (index : Nat) (field : Field) : Build ValueId := do
  let ptr ← intern (.pointer field.ty)
  emitValue (.fieldAddr v index) ptr

/-- A field of `v`. Through a pointer this is the field's address if that is
wanted, and its content otherwise. -/
def selectField (v : ValueId) (index : Nat) (wantAddr : Bool) : TryBuild ValueId := do
  let field ← fieldOf v index
  if ← isPointer (← valueType v) then
    let addr ← fieldAddr v index field
    if wantAddr then return addr else load addr
  else emitValue (.field v index) field.ty

/-- One step along a path of embedded fields. -/
def followField (v : ValueId) (index : Nat) : TryBuild ValueId := do
  let field ← fieldOf v index
  if ← isPointer (← valueType v) then
    let addr ← fieldAddr v index field
    if ← isPointer field.ty then load addr else return addr
  else emitValue (.field v index) field.ty

/-- Follows a path of embedded fields from `v`. -/
def followPath (v : ValueId) (path : List Nat) : TryBuild ValueId :=
  path.foldlM followField v

end Builder

end MethodSSA
