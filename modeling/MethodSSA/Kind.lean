/-!
# Basic kinds

The predeclared types: booleans, integers, floats, complex numbers, strings and
the raw pointer, together with the *untyped* kinds that constants have before a
context gives them a type. Every kind has a fixed place in `Kind.all`, and a
type table starts with the kinds in that order.
-/

namespace MethodSSA

/-- A predeclared type. -/
inductive Kind where
  /-- truth values -/
  | bool
  /-- signed integers of the machine's word -/
  | int
  /-- signed integers of 8 bits -/
  | int8
  /-- signed integers of 16 bits -/
  | int16
  /-- signed integers of 32 bits -/
  | int32
  /-- signed integers of 64 bits -/
  | int64
  /-- unsigned integers of the machine's word -/
  | uint
  /-- unsigned integers of 8 bits -/
  | uint8
  /-- unsigned integers of 16 bits -/
  | uint16
  /-- unsigned integers of 32 bits -/
  | uint32
  /-- unsigned integers of 64 bits -/
  | uint64
  /-- unsigned integers that can hold an address -/
  | uintptr
  /-- floats of 32 bits -/
  | float32
  /-- floats of 64 bits -/
  | float64
  /-- complex numbers of two 32-bit floats -/
  | complex64
  /-- complex numbers of two 64-bit floats -/
  | complex128
  /-- strings -/
  | string
  /-- pointers without an element type -/
  | rawPointer
  /-- boolean constants without a type -/
  | untypedBool
  /-- integer constants without a type -/
  | untypedInt
  /-- character constants without a type -/
  | untypedRune
  /-- float constants without a type -/
  | untypedFloat
  /-- complex constants without a type -/
  | untypedComplex
  /-- string constants without a type -/
  | untypedString
  /-- the constant `nil` without a type -/
  | untypedNil
  deriving DecidableEq, Repr

namespace Kind

/-- Every kind, in the order in which a type table holds them. -/
def all : List Kind :=
  [bool, int, int8, int16, int32, int64, uint, uint8, uint16, uint32, uint64, uintptr,
   float32, float64, complex64, complex128, string, rawPointer,
   untypedBool, untypedInt, untypedRune, untypedFloat, untypedComplex, untypedString, untypedNil]

/-- The place of a kind in `all`. -/
def index (k : Kind) : Nat := all.idxOf k

/-- The name of a kind, as types are written. -/
def name : Kind → String
  | bool => "bool"
  | int => "int"
  | int8 => "int8"
  | int16 => "int16"
  | int32 => "int32"
  | int64 => "int64"
  | uint => "uint"
  | uint8 => "uint8"
  | uint16 => "uint16"
  | uint32 => "uint32"
  | uint64 => "uint64"
  | uintptr => "uintptr"
  | float32 => "float32"
  | float64 => "float64"
  | complex64 => "complex64"
  | complex128 => "complex128"
  | string => "string"
  | rawPointer => "unsafe.Pointer"
  | untypedBool => "untyped bool"
  | untypedInt => "untyped int"
  | untypedRune => "untyped rune"
  | untypedFloat => "untyped float"
  | untypedComplex => "untyped complex"
  | untypedString => "untyped string"
  | untypedNil => "untyped nil"

/-- The kind of a given name, if there is one. -/
def ofName? (text : String) : Option Kind := all.find? (·.name == text)

/-! ## Classes of kinds -/

/-- Truth values, typed or not. -/
def isBoolean : Kind → Bool
  | bool | untypedBool => true
  | _ => false

/-- Unsigned integers. -/
def isUnsigned : Kind → Bool
  | uint | uint8 | uint16 | uint32 | uint64 | uintptr => true
  | _ => false

/-- Integers, signed or not, typed or not. Characters count as integers. -/
def isInteger : Kind → Bool
  | int | int8 | int16 | int32 | int64 | untypedInt | untypedRune => true
  | k => k.isUnsigned

/-- Floats, typed or not. -/
def isFloat : Kind → Bool
  | float32 | float64 | untypedFloat => true
  | _ => false

/-- Complex numbers, typed or not. -/
def isComplex : Kind → Bool
  | complex64 | complex128 | untypedComplex => true
  | _ => false

/-- Strings, typed or not. -/
def isString : Kind → Bool
  | string | untypedString => true
  | _ => false

/-- The kinds of constants that have no type yet, `nil` included. -/
def isUntyped : Kind → Bool
  | untypedBool | untypedInt | untypedRune | untypedFloat | untypedComplex | untypedString
  | untypedNil => true
  | _ => false

/-- The kind that a constant takes where nothing asks for another. Typed kinds
and untyped `nil` keep their own. -/
def default : Kind → Kind
  | untypedBool => bool
  | untypedInt => int
  | untypedRune => int32
  | untypedFloat => float64
  | untypedComplex => complex128
  | untypedString => string
  | k => k

/-- **Defaulting leaves nothing untyped** but `nil`. -/
theorem isUntyped_default (k : Kind) : k.default.isUntyped = true ↔ k = untypedNil := by
  cases k <;> decide

/-- A default is its own default. -/
theorem default_default (k : Kind) : k.default.default = k.default := by
  cases k <;> rfl

/-- The place of a kind leads back to it. -/
theorem getElem?_all_index (k : Kind) : all[k.index]? = some k := by
  cases k <;> decide

end Kind

end MethodSSA
