import MethodSSA.Fault
import MethodSSA.Types.Index

/-!
# Type tables

A `TypeTable` hands out identifiers for types. Each type is entered once and
keeps its place, so **identical types have equal identifiers** and no later
entry changes what an identifier stands for. Beside the types stand the
declarations of named types, which are completed later by an underlying type
and by methods, and the declared functions. A table carries the proof that its
two tables of types agree, so whoever changes them has to show that they still do.
-/

namespace MethodSSA

/-- What is known of a declared type. -/
structure TypeDecl where
  /-- the declared type itself -/
  id : TypeId
  /-- its underlying type, itself until it is completed -/
  underlying : TypeId
  /-- the methods attached to it, in order -/
  methods : List FuncId
  deriving DecidableEq, Repr

/-- All types, type declarations and function declarations of a program. -/
@[ext] structure TypeTable extends TypeIndex where
  /-- the type declarations by number -/
  decls : List TypeDecl
  /-- the function declarations by identifier -/
  funcs : List FuncDecl
  /-- what is entered under an identifier is found under it -/
  agrees : toTypeIndex.Agrees

namespace TypeTable

/-- The table that holds the basic kinds only. -/
def initial : TypeTable := ⟨.of (Kind.all.map .basic), [], [], TypeIndex.agrees_of _⟩

/-- They are entered one after another. -/
example : initial.toTypeIndex =
    Kind.all.foldl (fun x k => (x.intern (.basic k)).2) ⟨[], []⟩ := rfl

/-- The identifier of a basic kind, the same in every table. -/
def basic (k : Kind) : TypeId := ⟨k.index⟩

/-- The truth type. -/
def boolean : TypeId := basic .bool

/-! ## Entering types -/

/-- The identifier of a type, entered at the end if the table lacks it. -/
def intern (t : TypeTable) (ty : Ty) : TypeId × TypeTable :=
  ((t.toTypeIndex.intern ty).1,
    { t with toTypeIndex := (t.toTypeIndex.intern ty).2, agrees := t.agrees.intern ty })

/-- Declares a type. Until it is completed it is its own underlying type, so
that its components may refer back to it. -/
def declareType (t : TypeTable) (name : String) (pkg : Option String) : TypeId × TypeTable :=
  let (id, t) := t.intern (.named ⟨name, pkg, t.decls.length⟩)
  (id, { t with decls := t.decls ++ [⟨id, id, []⟩] })

/-- Declares a function or method. -/
def declareFunc (t : TypeTable) (f : FuncDecl) : FuncId × TypeTable :=
  (⟨t.funcs.length⟩, { t with funcs := t.funcs ++ [f] })

/-! ## Looking up -/

/-- The type behind an identifier. -/
def get (t : TypeTable) (id : TypeId) : Except Fault Ty :=
  entry t.types id.index .foreignType

/-- The function declaration behind an identifier. -/
def func (t : TypeTable) (id : FuncId) : Except Fault FuncDecl :=
  entry t.funcs id.index .foreignFunc

/-- The declaration of a given number. -/
def decl (t : TypeTable) (n : Nat) : Except Fault TypeDecl :=
  entry t.decls n .outOfRange

/-- The number of a declared type's declaration. -/
def declNumber (t : TypeTable) (id : TypeId) : Except Fault Nat := do
  match ← t.get id with
  | .named n => return n.decl
  | ty => throw (.notNamed ty)

/-- The identifier of the underlying type: that of the declaration for a
declared type, and every other type is its own. -/
def underlying (t : TypeTable) (id : TypeId) : Except Fault TypeId := do
  match ← t.get id with
  | .named n => return (← t.decl n.decl).underlying
  | _ => return id

/-- The underlying type. -/
def underlyingTy (t : TypeTable) (id : TypeId) : Except Fault Ty := do
  t.get (← t.underlying id)

/-- The methods attached to a declared type; other types have none. -/
def declaredMethods (t : TypeTable) (id : TypeId) : Except Fault (List FuncId) := do
  match ← t.get id with
  | .named n => return (← t.decl n.decl).methods
  | _ => return []

/-- All declared types, in order of declaration. -/
def namedTypes (t : TypeTable) : List TypeId := t.decls.map (·.id)

/-! ## What entering does

Later entries leave an identifier alone, and a type is found under the
identifier that it was entered with. -/

theorem getElem?_of_lookup? {t : TypeTable} {ty : Ty} {id : TypeId} (h : t.lookup? ty = some id) :
    t.types[id.index]? = some ty := t.agrees.found h

theorem lookup?_eq_none_iff {t : TypeTable} {ty : Ty} : t.lookup? ty = none ↔ ty ∉ t.types :=
  t.agrees.lookup?_eq_none_iff

theorem intern_decls (t : TypeTable) (ty : Ty) : (t.intern ty).2.decls = t.decls := rfl

theorem intern_funcs (t : TypeTable) (ty : Ty) : (t.intern ty).2.funcs = t.funcs := rfl

/-- A type that is found is not entered again. -/
theorem intern_of_lookup? {t : TypeTable} {ty : Ty} {id : TypeId} (h : t.lookup? ty = some id) :
    t.intern ty = (id, t) := by
  have hindex : t.toTypeIndex.intern ty = (id, t.toTypeIndex) := by rw [TypeIndex.intern, h]
  have hid : (t.intern ty).1 = id := congrArg Prod.fst hindex
  have htable : (t.intern ty).2.toTypeIndex = t.toTypeIndex := congrArg Prod.snd hindex
  exact Prod.ext hid (TypeTable.ext (congrArg TypeIndex.types htable)
    (congrArg TypeIndex.ids htable) rfl rfl)

/-- Entering a type that is there already changes nothing. -/
theorem intern_of_mem {t : TypeTable} {ty : Ty} (h : ty ∈ t.types) : (t.intern ty).2 = t := by
  rcases hl : t.lookup? ty with _ | id
  · exact absurd h (lookup?_eq_none_iff.mp hl)
  · rw [intern_of_lookup? hl]

/-- A type that is not there is entered in both tables. -/
theorem intern_of_not_mem {t : TypeTable} {ty : Ty} (h : ty ∉ t.types) :
    (t.intern ty).1 = ⟨t.types.length⟩ ∧
      (t.intern ty).2.toTypeIndex = t.toTypeIndex.enter ty := by
  have hindex : t.toTypeIndex.intern ty = (⟨t.types.length⟩, t.toTypeIndex.enter ty) := by
    rw [TypeIndex.intern, lookup?_eq_none_iff.mpr h]
  exact ⟨congrArg Prod.fst hindex, congrArg Prod.snd hindex⟩

/-- Entering a type adds at most that type, at the end. -/
theorem types_intern (t : TypeTable) (ty : Ty) :
    (t.intern ty).2.types = if ty ∈ t.types then t.types else t.types ++ [ty] := by
  split
  · next h => rw [intern_of_mem h]
  · next h => exact congrArg TypeIndex.types (intern_of_not_mem h).2

/-- **What is entered can be found.** -/
theorem get_intern (t : TypeTable) (ty : Ty) : (t.intern ty).2.get (t.intern ty).1 = .ok ty := by
  rw [get, entry_eq_ok_iff]
  rcases h : t.lookup? ty with _ | id
  · obtain ⟨hid, hindex⟩ := intern_of_not_mem (lookup?_eq_none_iff.mp h)
    rw [hid, hindex]
    exact List.getElem?_concat_length
  · rw [intern_of_lookup? h]
    exact getElem?_of_lookup? h

/-- **Entering a type leaves the others where they are.** -/
theorem get_intern_of_get {t : TypeTable} {id : TypeId} {old : Ty} (h : t.get id = .ok old)
    (ty : Ty) : (t.intern ty).2.get id = .ok old := by
  rw [get, entry_eq_ok_iff] at h ⊢
  rw [types_intern]
  split
  · exact h
  · obtain ⟨hlt, -⟩ := List.getElem?_eq_some_iff.mp h
    rw [List.getElem?_append_left hlt, h]

/-! ## Completing declarations -/

/-- Changes the declaration of a given number. -/
def updateDecl (t : TypeTable) (n : Nat) (f : TypeDecl → TypeDecl) : TypeTable :=
  { t with decls := t.decls.modify n f }

/-- Gives a declared type the underlying type of `id`. -/
def setUnderlying (t : TypeTable) (named id : TypeId) : Except Fault TypeTable := do
  let u ← t.underlying id
  let n ← t.declNumber named
  let _ ← t.decl n
  return t.updateDecl n fun d => { d with underlying := u }

/-- Attaches a method to a declared type. -/
def addMethod (t : TypeTable) (named : TypeId) (f : FuncId) : Except Fault TypeTable := do
  let n ← t.declNumber named
  let _ ← t.decl n
  return t.updateDecl n fun d => { d with methods := d.methods ++ [f] }

/-! ## Questions of structure -/

/-- Whether the underlying type is a pointer type. -/
def isPointer (t : TypeTable) (id : TypeId) : Except Fault Bool := do
  return (← t.underlyingTy id).pointee?.isSome

/-- Whether the underlying type is an interface type. -/
def isInterface (t : TypeTable) (id : TypeId) : Except Fault Bool := do
  return (← t.underlyingTy id).methods?.isSome

/-- Whether the underlying type is a basic type of the given class. -/
def isBasic (t : TypeTable) (id : TypeId) (cls : Kind → Bool) : Except Fault Bool := do
  return (← t.underlyingTy id).kind?.any cls

/-- The type that a pointer type points to; every other type itself. -/
def deref (t : TypeTable) (id : TypeId) : Except Fault TypeId := do
  return (← t.underlyingTy id).pointee?.getD id

/-- The type that a constant of an untyped type takes by default. -/
def defaultType (t : TypeTable) (id : TypeId) : Except Fault TypeId := do
  return match (← t.get id).kind? with
  | some k => basic k.default
  | none => id

/-- The fields of a struct, or of the struct that a pointer points to. -/
def structFields? (t : TypeTable) (id : TypeId) : Except Fault (Option (List Field)) := do
  return (← t.underlyingTy (← t.deref id)).fields?

/-- A field of a struct, or of the struct that a pointer points to. -/
def structField? (t : TypeTable) (id : TypeId) (index : Nat) : Except Fault (Option Field) := do
  return (← t.structFields? id).bind (·[index]?)

/-- The signature of a function type. -/
def signatureOf (t : TypeTable) (id : TypeId) : Except Fault Signature := do
  match ← t.underlyingTy id with
  | .signature sig => return sig
  | ty => throw (.notSignature ty)

/-- The receiver type of a method; a plain function has none. -/
def receiver? (t : TypeTable) (f : FuncId) : Except Fault (Option TypeId) := do
  let sig ← t.signatureOf (← t.func f).sig
  return sig.recv.map (·.ty)

/-- Whether a method belongs to an interface, so that it has no body. -/
def isAbstract (t : TypeTable) (f : FuncId) : Except Fault Bool := do
  match ← t.receiver? f with
  | some recv => t.isInterface recv
  | none => return false

/-- Whether a method takes its receiver by pointer. -/
def hasPointerReceiver (t : TypeTable) (f : FuncId) : Except Fault Bool := do
  match ← t.receiver? f with
  | some recv => t.isPointer recv
  | none => return false

end TypeTable

end MethodSSA
