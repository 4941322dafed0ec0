import MethodSSA.Code.Function
import MethodSSA.Types.Text

/-!
# Listings

A function as text, for reading: a line for its name, parameters and signature,
remarks behind semicolons, and its blocks with one line for each instruction.
Constants are written where they are used, with their type.
-/

namespace MethodSSA

namespace Function

/-- A value with its type. -/
def typedText (f : Function) (t : TypeTable) (text : String) (v : ValueId) :
    Except Fault String := do
  return text ++ (← t.typeText (← f.valueType v))

/-- A value where it is read. -/
def operandText (f : Function) (t : TypeTable) (v : ValueId) : Except Fault String := do
  match (← f.value v).origin with
  | .const lit => f.typedText t (lit.text ++ ":") v
  | _ => return v.text

/-- Values where they are read. -/
def operandsText (f : Function) (t : TypeTable) (vs : List ValueId) : Except Fault String := do
  return ", ".intercalate (← vs.mapM (f.operandText t))

/-- What an instruction does. A new variable is described by its type. -/
def operationText (f : Function) (t : TypeTable) (i : Instr) : Except Fault String := do
  let operand := f.operandText t
  match i.op with
  | .alloc _ =>
    let ty ← match i.result with
      | some r => do t.typeText (← t.deref (← f.valueType r))
      | none => pure ""
    return i.op.mnemonic ++ " " ++ ty
  | .load addr => return "*" ++ (← operand addr)
  | .store addr val => do
    let a ← operand addr
    return "*" ++ a ++ " = " ++ (← operand val)
  | .binary op x y => do
    let x ← operand x
    return x ++ " " ++ op.symbol ++ " " ++ (← operand y)
  | .fieldAddr x field => return "&" ++ (← operand x) ++ s!".#{field}"
  | .field x field => return (← operand x) ++ s!".#{field}"
  | .changeType x | .changeInterface x | .convert x | .makeInterface x =>
    return i.op.mnemonic ++ " " ++ (← operand x)
  | .call ⟨callee, args⟩ => do
    let args ← f.operandsText t args
    match callee with
    | .direct body => return "call " ++ body.text ++ "(" ++ args ++ ")"
    | .invoke recv method => do
      let r ← operand recv
      return "invoke " ++ r ++ "." ++ (← t.func method).name ++ "(" ++ args ++ ")"
  | .extract tuple index => return "extract " ++ (← operand tuple) ++ s!" #{index}"
  | .typeAssert x asserted commaOk => do
    let x ← operand x
    return "typeassert" ++ (if commaOk then ",ok " else " ") ++ x ++ ".(" ++
      (← t.typeText asserted) ++ ")"
  | .debugRef x pos isAddr =>
    return "; " ++ (if isAddr then "&" else "") ++ (← operand x) ++ " @ " ++ pos.text
  | .trace kind start stop =>
    return "trace " ++ kind.word ++ " " ++ start.text ++ ".." ++ stop.text

/-- An instruction, after the value that it defines. -/
def instrText (f : Function) (t : TypeTable) (i : Instr) : Except Fault String := do
  let what ← f.operationText t i
  match i.result with
  | some r => f.typedText t (r.text ++ " = " ++ what ++ " : ") r
  | none => return what

/-- A terminator; the results of a return are written like operands. -/
def terminatorText (f : Function) (t : TypeTable) (term : Terminator) : Except Fault String := do
  match term with
  | .ret (r :: rs) => return "return " ++ (← f.operandsText t (r :: rs))
  | _ => return term.text

/-- The lines of a block. Its instructions are those of the block stored at the
place that its identifier names. -/
def blockLines (f : Function) (t : TypeTable) (b : Block) : Except Fault (List String) := do
  let head := "  " ++ b.id.text ++ ":" ++ (b.label.elim "" (" ; " ++ ·))
  let preds :=
    if b.preds.isEmpty then []
    else ["    ; preds: " ++ ", ".intercalate (b.preds.map BlockId.text)]
  let instrs ← (← f.block b.id).instrs.mapM fun i => do f.instrText t (← f.instr i)
  let term ← f.terminatorText t b.term
  return head :: preds ++ (instrs ++ [term]).map ("    " ++ ·)

/-- The line that opens a function. -/
def headLine (f : Function) (t : TypeTable) : Except Fault String := do
  let params ← f.params.mapM fun p => f.typedText t (p.text ++ " ") p
  let sig ← t.typeText f.signature
  return "fn " ++ f.name ++ "(" ++ ", ".intercalate params ++ ") : " ++ sig ++ " \x7b"

/-- The remark on captured variables. -/
def freeLines (f : Function) (t : TypeTable) : Except Fault (List String) := do
  if f.freeVars.isEmpty then return []
  let vars ← f.freeVars.mapM fun v => do
    match (← f.value v).origin with
    | .free _ name => f.typedText t (v.text ++ " " ++ name ++ " ") v
    | _ => return v.text
  return ["  ; free: " ++ ", ".intercalate vars]

/-- The remarks on local variables and on the recovery block. -/
def remarkLines (f : Function) : List String :=
  (if f.locals.isEmpty then []
   else ["  ; locals: " ++ ", ".intercalate (f.locals.map ValueId.text)]) ++
  f.recover.toList.map ("  ; recover: " ++ ·.text)

/-- A function as text, one line after the other. -/
def listing (f : Function) (t : TypeTable) : Except Fault String := do
  let head ← f.headLine t
  let free ← f.freeLines t
  let blocks ← f.blocks.mapM (f.blockLines t)
  let lines := f.synthetic.toList.map ("; " ++ ·) ++ head :: free ++ f.remarkLines ++
    blocks.flatten ++ ["\x7d"]
  return String.join (lines.map (· ++ "\n"))

end Function

end MethodSSA
