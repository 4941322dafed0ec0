import MethodSSA.KeyOrder
import MethodSSA.Types.Text

/-!
# What functions under construction share

All functions of a program are built over one type table, in one mode, and note
in one place the types of the values that they box in interfaces: the methods of
those types must be at hand when the program runs.
-/

namespace MethodSSA

/-- What a program is built with. -/
structure Mode where
  /-- whether the making of wrappers is logged; it changes no answer -/
  logSource : Bool
  /-- whether values are related to the source -/
  debugInfo : Bool
  /-- whether every function is checked when it is finished -/
  sanityCheck : Bool
  deriving DecidableEq, Repr

namespace Mode

/-- The mode of a program for release. -/
def release : Mode := ⟨false, false, false⟩

/-- The mode of a program for debugging. -/
def debug : Mode := ⟨true, true, true⟩

end Mode

/-- What functions under construction share. -/
structure Workspace where
  /-- types and declarations -/
  types : TypeTable
  /-- what is built along with the code -/
  mode : Mode
  /-- the types of boxed values, in increasing order -/
  boxed : List TypeId

namespace Workspace

/-- The workspace of a new program. -/
def initial (mode : Mode) : Workspace := ⟨.initial, mode, []⟩

/-- Notes that the methods of a type are needed when the program runs. -/
def needMethods (w : Workspace) (ty : TypeId) : Workspace :=
  { w with boxed := putType ty w.boxed }

end Workspace

end MethodSSA
