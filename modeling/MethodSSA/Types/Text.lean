import MethodSSA.Types.Table

/-!
# The text of types

Types are written as in source code, with parameter and field names where they
have any. A declared type is written by its name alone, so the text of a type
that refers to itself through a declaration is finite; a type that contains
itself without one has no text and is a fault.
-/

namespace MethodSSA

/-- A variable: its name, if it has one, and its type. The dots mark the last
parameter of a variadic signature. -/
def varText (text : TypeId → Except Fault String) (dotted : Bool) (v : Var) :
    Except Fault String := do
  let ty ← text v.ty
  let dots := if dotted then "..." else ""
  return if v.name.isEmpty then dots ++ ty else v.name ++ " " ++ dots ++ ty

/-- Variables between parentheses. -/
def varsText (text : TypeId → Except Fault String) (variadic : Bool) (vars : List Var) :
    Except Fault String := do
  let parts ← vars.zipIdx.mapM fun (v, i) => varText text (variadic && i + 1 == vars.length) v
  return "(" ++ ", ".intercalate parts ++ ")"

/-- Parameters and results. A single result without a name stands without
parentheses. -/
def signatureText (text : TypeId → Except Fault String) (sig : Signature) :
    Except Fault String := do
  let params ← varsText text sig.variadic sig.params
  match sig.results with
  | [] => return params
  | [r] =>
    if r.name.isEmpty then return params ++ " " ++ (← text r.ty)
    else return params ++ " " ++ (← varsText text false [r])
  | rs => return params ++ " " ++ (← varsText text false rs)

/-- A struct field; an embedded one is its type alone. -/
def fieldText (text : TypeId → Except Fault String) (f : Field) : Except Fault String := do
  let ty ← text f.ty
  return if f.embedded then ty else f.name ++ " " ++ ty

namespace TypeTable

/-- An interface method: its name and its signature. -/
def methodText (t : TypeTable) (text : TypeId → Except Fault String) (m : FuncId) :
    Except Fault String := do
  let f ← t.func m
  let sig ← t.signatureOf f.sig
  return f.name ++ (← signatureText text sig)

/-- The text of a type in which types nest at most `depth` deep. -/
def nestedText (t : TypeTable) : (depth : Nat) → TypeId → Except Fault String
  | 0, _ => throw .endlessType
  | depth + 1, id => do
    let text := fun id => t.nestedText depth id
    match ← t.get id with
    | .basic k => return k.name
    | .pointer elem => return "*" ++ (← text elem)
    | .slice elem => return "[]" ++ (← text elem)
    | .array elem n => return s!"[{n}]" ++ (← text elem)
    | .map key value =>
      let k ← text key
      let v ← text value
      return "map[" ++ k ++ "]" ++ v
    | .channel elem dir =>
      let e ← text elem
      return match dir with
      | .both => "chan " ++ e
      | .send => "chan<- " ++ e
      | .recv => "<-chan " ++ e
    | .struct fields =>
      let parts ← fields.mapM (fieldText text)
      return "struct\x7b" ++ "; ".intercalate parts ++ "\x7d"
    | .interface methods =>
      let parts ← methods.mapM (t.methodText text)
      return "interface\x7b" ++ "; ".intercalate parts ++ "\x7d"
    | .signature sig => return "func" ++ (← signatureText text sig)
    | .tuple vars => varsText text false vars
    | .named n => return qualifiedName n.name n.pkg

/-- The text of a type. Types that nest deeper than there are types contain
themselves. -/
def typeText (t : TypeTable) (id : TypeId) : Except Fault String :=
  t.nestedText (t.types.length + 1) id

/-- The qualified name of a function: a method stands behind its receiver type
in parentheses, a function behind its package. -/
def funcName (t : TypeTable) (f : FuncId) : Except Fault String := do
  let d ← t.func f
  match ← t.receiver? f with
  | some recv => return "(" ++ (← t.typeText recv) ++ ")." ++ d.name
  | none => return qualifiedName d.name d.pkg

/-- A function as it is declared: its qualified name and its signature. -/
def funcText (t : TypeTable) (f : FuncId) : Except Fault String := do
  let sig ← t.signatureOf (← t.func f).sig
  let name ← t.funcName f
  return "func " ++ name ++ (← signatureText t.typeText sig)

end TypeTable

end MethodSSA
