import MethodSSA.Program.Basic

/-!
# Placeholder bodies

A method can be given a body before its source text is read: one that takes the
method's parameters and returns zero values.
-/

namespace MethodSSA

namespace Program

/-- What a placeholder does. -/
def placeholderSteps (method : FuncId) (decl : FuncDecl) (sig : Signature) : TryBuild Unit := do
  Builder.amend fun f => { f with object := some method, pos := decl.pos }
  sig.recv.toList.forM fun recv => do let _ ← Builder.addParam "r" recv.ty
  let _ ← Builder.addFormals
  let zeros ← sig.results.mapM fun r => (Builder.zeroValue r.ty : TryBuild ValueId)
  Builder.ret zeros

/-- Declares a placeholder as the body of a method. -/
def declarePlaceholder (method : FuncId) : Request BodyId := do
  let decl ← (← get).types.func method
  let sig ← (← get).types.signatureOf decl.sig
  let f ← buildFunction decl.name decl.sig (placeholderSteps method decl sig)
  modifyGet (·.declareBody method f)

end Program

end MethodSSA
