import MethodSSA.Ids
import MethodSSA.Kind
import MethodSSA.Text.Uppercase

/-!
# Types and declarations

A type refers to its component types by identifier, so types are flat and two
of them are compared component by component. Named types carry the number of
their declaration: two declarations are different types even under one name.
-/

namespace MethodSSA

/-- The identifier of a named object in method sets. An exported name stands for
itself in every package; a name that does not start with an upper-case letter
belongs to its package and is qualified by it. -/
def objectId (name : String) (pkg : Option String) : String :=
  match pkg with
  | some p => if name.toList.head?.any isUppercase then name else p ++ "." ++ name
  | none => name

/-- A parameter, result or receiver. -/
structure Var where
  /-- its name, empty if it has none -/
  name : String
  /-- its type -/
  ty : TypeId
  deriving DecidableEq, Repr

/-- A field of a struct. -/
structure Field where
  /-- its name; for an embedded field the name of the embedded type -/
  name : String
  /-- the package that qualifies an unexported name -/
  pkg : Option String
  /-- its declared type -/
  ty : TypeId
  /-- whether it is embedded, so that its methods are promoted -/
  embedded : Bool
  deriving DecidableEq, Repr

/-- The identifier by which a field hides methods. -/
def Field.id (f : Field) : String := objectId f.name f.pkg

/-- Parameters and results of a function. In a variadic signature the last
parameter is listed with its element type. -/
structure Signature where
  /-- the receiver of a method -/
  recv : Option Var
  /-- the formal parameters -/
  params : List Var
  /-- the results -/
  results : List Var
  /-- whether the last parameter takes any number of arguments -/
  variadic : Bool
  deriving DecidableEq, Repr

/-- What may be done with a channel. -/
inductive Direction where
  /-- sending and receiving -/
  | both
  /-- sending only -/
  | send
  /-- receiving only -/
  | recv
  deriving DecidableEq, Repr

/-- A declared type's name. -/
structure TypeName where
  /-- the bare name -/
  name : String
  /-- the package it was declared in -/
  pkg : Option String
  /-- the number of the declaration -/
  decl : Nat
  deriving DecidableEq, Repr

/-- A type, its components given by identifier. -/
inductive Ty where
  /-- a predeclared type -/
  | basic (kind : Kind)
  /-- pointers to a type -/
  | pointer (elem : TypeId)
  /-- slices of a type -/
  | slice (elem : TypeId)
  /-- arrays of a fixed length -/
  | array (elem : TypeId) (length : Nat)
  /-- finite maps -/
  | map (key value : TypeId)
  /-- channels -/
  | channel (elem : TypeId) (dir : Direction)
  /-- structs -/
  | struct (fields : List Field)
  /-- interfaces, with all their methods, those of embedded interfaces included -/
  | interface (methods : List FuncId)
  /-- functions -/
  | signature (sig : Signature)
  /-- the results of a call that has several -/
  | tuple (vars : List Var)
  /-- a declared type -/
  | named (name : TypeName)
  deriving DecidableEq, Repr

/-- A name behind its package. -/
def qualifiedName (name : String) : Option String → String
  | some p => p ++ "." ++ name
  | none => name

namespace Ty

/-- The kind of a basic type. -/
def kind? : Ty → Option Kind
  | basic k => some k
  | _ => none

/-- The element type of a pointer type. -/
def pointee? : Ty → Option TypeId
  | pointer elem => some elem
  | _ => none

/-- The fields of a struct type. -/
def fields? : Ty → Option (List Field)
  | struct fields => some fields
  | _ => none

/-- The methods of an interface type. -/
def methods? : Ty → Option (List FuncId)
  | interface methods => some methods
  | _ => none

/-- The signature of a function type. -/
def signature? : Ty → Option Signature
  | signature sig => some sig
  | _ => none

/-- Whether this is a declared type. -/
def isNamed : Ty → Bool
  | named _ => true
  | _ => false

/-- A type in short: one level deep, its components by identifier or number. -/
def brief : Ty → String
  | basic k => k.name
  | pointer elem => "*" ++ elem.text
  | slice elem => "[]" ++ elem.text
  | array elem n => s!"[{n}]" ++ elem.text
  | map key value => "map[" ++ key.text ++ "]" ++ value.text
  | channel elem _ => "chan " ++ elem.text
  | struct fields => s!"struct\x7b{fields.length} fields\x7d"
  | interface methods => s!"interface\x7b{methods.length} methods\x7d"
  | signature sig => s!"func({sig.params.length} params)"
  | tuple vars => s!"({vars.length} values)"
  | named n => qualifiedName n.name n.pkg

end Ty

/-- A declared function or method. A method has its receiver in its signature. -/
structure FuncDecl where
  /-- the bare name -/
  name : String
  /-- the package it was declared in -/
  pkg : Option String
  /-- its signature -/
  sig : TypeId
  /-- where it was declared -/
  pos : SourcePos
  deriving DecidableEq, Repr

/-- The identifier of a method in method sets. -/
def FuncDecl.id (f : FuncDecl) : String := objectId f.name f.pkg

end MethodSSA
