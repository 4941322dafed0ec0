import MethodSSA.Decimal.Double
import MethodSSA.Ids
import MethodSSA.Text.Quoted

/-!
# Values

A function computes with values. Each has one type and one origin, and neither
ever changes: it is a parameter, a captured variable, a constant or the result
of one instruction.
-/

namespace MethodSSA

/-- What a constant stands for, whatever its type: giving a constant another
type leaves this alone. -/
inductive Literal where
  /-- a truth value -/
  | bool (b : Bool)
  /-- a whole number -/
  | int (n : Int)
  /-- a float -/
  | float (x : Double)
  /-- a complex number -/
  | complex (re im : Double)
  /-- a string -/
  | string (s : String)
  /-- no value: the zero of pointers, interfaces, slices, maps, channels and functions -/
  | nil
  deriving DecidableEq, Repr

/-- A constant as listings write it. -/
def Literal.text : Literal → String
  | bool b => if b then "true" else "false"
  | int n => toString n
  | float x => x.text
  | complex re im => "(" ++ re.text ++ "+" ++ im.text ++ "i)"
  | string s => quoted s
  | nil => "nil"

/-- Where a value comes from. -/
inductive Origin where
  /-- a parameter; the receiver, if any, comes first -/
  | param (place : Nat) (name : String)
  /-- a captured variable of a closure -/
  | free (place : Nat) (name : String)
  /-- a constant -/
  | const (lit : Literal)
  /-- the result of an instruction -/
  | result (instr : InstrId)
  deriving DecidableEq, Repr

/-- A value of a function. -/
structure Value where
  /-- its type -/
  ty : TypeId
  /-- where it comes from -/
  origin : Origin
  deriving DecidableEq, Repr

namespace Value

/-- What a constant stands for; other values have no literal. -/
def literal? (v : Value) : Option Literal :=
  match v.origin with
  | .const lit => some lit
  | _ => none

/-- Whether a value is a constant. -/
def isConst (v : Value) : Bool := v.literal?.isSome

end Value

end MethodSSA
