import MethodSSA.Types.Table

/-!
# Selections

A **selection** is a method as it is reached from a receiver type: through no,
one or several embedded fields, and perhaps through pointers. It says everything
that is needed to call the method.
-/

namespace MethodSSA

/-- A method reached from a receiver type. -/
structure Selection where
  /-- the type that the method is selected from -/
  recv : TypeId
  /-- the method -/
  method : FuncId
  /-- the places of the embedded fields on the way, and last the place of the
  method in the type that declares it -/
  path : List Nat
  /-- whether a pointer lies on the way -/
  indirect : Bool
  deriving DecidableEq, Repr

namespace Selection

/-- Whether the method comes from an embedded field. -/
def isPromoted (s : Selection) : Bool := 1 < s.path.length

/-- The embedded fields on the way. -/
def fieldPath (s : Selection) : List Nat := s.path.dropLast

/-- The embedded fields that have to be followed to the method. A path that does not even say
which method it is leads nowhere. -/
def way (s : Selection) : Except Fault (List Nat) :=
  if s.path.isEmpty then .error .outOfRange else .ok s.fieldPath

end Selection

/-- Whether a selection belongs to the method set of its receiver type. A method
with a pointer receiver, reached without a pointer, can be called on a variable
but does not belong. -/
def TypeTable.inMethodSet (t : TypeTable) (s : Selection) : Except Fault Bool := do
  if s.indirect then return true
  return !(← t.hasPointerReceiver s.method)

end MethodSSA
