/-!
# Identifiers

Types, declared functions, function bodies, values, blocks and instructions are
kept in lists that only grow, and are referred to by their place in them. Each
kind of reference has a type of its own. Nothing here says that an identifier
is in range: whoever looks it up finds out.
-/

namespace MethodSSA

/-- The place of a type in a type table. -/
structure TypeId where
  /-- place in the table, from 0 -/
  index : Nat
  deriving DecidableEq, Repr

/-- The place of a declared function or method. -/
structure FuncId where
  /-- place among the declarations, from 0 -/
  index : Nat
  deriving DecidableEq, Repr

/-- The place of a finished function body in its program. -/
structure BodyId where
  /-- place among the bodies, from 0 -/
  index : Nat
  deriving DecidableEq, Repr

/-- The place of a value in its function. -/
structure ValueId where
  /-- place among the values, from 0 -/
  index : Nat
  deriving DecidableEq, Repr

/-- The place of a block in its function. -/
structure BlockId where
  /-- place among the blocks, from 0 -/
  index : Nat
  deriving DecidableEq, Repr

/-- The place of an instruction in its function. -/
structure InstrId where
  /-- place among the instructions, from 0 -/
  index : Nat
  deriving DecidableEq, Repr

/-- A type identifier as component types are written in short. -/
def TypeId.text (id : TypeId) : String := s!"TypeId({id.index})"

/-- A body as listings refer to it. -/
def BodyId.text (id : BodyId) : String := s!"fn{id.index}"

/-- A value as listings refer to it. -/
def ValueId.text (id : ValueId) : String := s!"v{id.index}"

/-- A block as listings refer to it. -/
def BlockId.text (id : BlockId) : String := s!"bb{id.index}"

/-- An instruction as messages refer to it. -/
def InstrId.text (id : InstrId) : String := s!"i{id.index}"

/-- A position in the source text; offset 0 stands for none. -/
structure SourcePos where
  /-- offset in the source, 0 if unknown -/
  offset : Nat
  deriving DecidableEq, Repr

namespace SourcePos

/-- The absent position. -/
def none : SourcePos := ⟨0⟩

/-- Whether the position lies in a source text. -/
def isKnown (p : SourcePos) : Bool := p.offset != 0

/-- A position after an at sign, or a dash where there is none. -/
def text (p : SourcePos) : String :=
  if p.isKnown then s!"@{p.offset}" else "-"

end SourcePos

end MethodSSA
