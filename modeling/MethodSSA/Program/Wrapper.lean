import MethodSSA.Program.Basic

/-!
# Wrappers

A method access that no source text stands behind gets a function of its own,
whose one block ends in a tail call:

* a **promotion wrapper** for a method that is reached through embedded fields, or
  by pointer where the receiver is a value or the other way round;
* an **interface wrapper**, which makes an interface method callable as a function
  that takes the interface first;
* a **bound wrapper**, the code of a method that is bound to a receiver and called
  later; the receiver is its captured variable.

The last two are made once for each method and remembered.
-/

namespace MethodSSA

namespace Program

/-- Enters a type into the type table. -/
def intern (ty : Ty) : Request TypeId :=
  modifyGet fun p =>
    let (id, types) := p.types.intern ty
    (id, { p with types })

/-- Adds a wrapper to the program. -/
def keepWrapper (f : Function) : Request BodyId := modifyGet (·.addWrapper f)

/-- The answer of the type table to a question. -/
def ask {α : Type} (question : TypeTable → Except Fault α) : Request α := do
  question (← get).types

/-! ## What the wrappers do -/

/-- The body of a promotion wrapper. The receiver is taken by address, a value
receiver from a copy; the embedded fields are followed from there; and the
method is called on the address, or on what it holds where the method takes a
value. -/
def promotionSteps (sel : Selection) (decl : FuncDecl) (text : String) (body? : Option BodyId) :
    TryBuild Unit := do
  Builder.amend fun f =>
    { f with synthetic := some ("wrapper for " ++ text), method := some sel, pos := decl.pos }
  let recv ← Builder.addParam "recv" sel.recv
  let formals ← Builder.addFormals
  let start ← if ← Builder.isPointer sel.recv then pure recv else Builder.spill recv
  let path ← sel.way
  let target ← Builder.followPath start path
  if ← Builder.isAbstract sel.method then
    let iface ← Builder.load target
    Builder.tailCall ⟨.invoke iface sel.method, formals⟩
  else
    let target ←
      if ← Builder.hasPointerReceiver sel.method then pure target else Builder.load target
    let body ← requireBody body? sel.method (Builder.funcText sel.method)
    Builder.tailCall ⟨.direct body, target :: formals⟩

/-- The body of an interface wrapper. -/
def interfaceSteps (recv : TypeId) (method : FuncId) (decl : FuncDecl) (text : String) :
    TryBuild Unit := do
  Builder.amend fun f =>
    { f with
      synthetic := some ("interface method wrapper for " ++ text ++ "." ++ decl.name)
      object := some method
      pos := decl.pos }
  let recv ← Builder.addParam "recv" recv
  let formals ← Builder.addFormals
  Builder.tailCall ⟨.invoke recv method, formals⟩

/-- The body of a bound wrapper. -/
def boundSteps (recv : TypeId) (method : FuncId) (decl : FuncDecl) (text : String)
    (body? : Option BodyId) : TryBuild Unit := do
  Builder.amend fun f =>
    { f with synthetic := some ("bound method wrapper for " ++ text), pos := decl.pos }
  let recvVar ← Builder.addFreeVar "recv" recv
  let formals ← Builder.addFormals
  if ← Builder.isInterface recv then
    Builder.tailCall ⟨.invoke recvVar method, formals⟩
  else
    let body ← requireBody body? method (Builder.funcText method)
    Builder.tailCall ⟨.direct body, recvVar :: formals⟩

/-! ## Making them -/

/-- The promotion wrapper of a selection. -/
def promotionWrapper (sel : Selection) : Request BodyId := do
  let decl ← ask (·.func sel.method)
  let old ← ask (·.signatureOf decl.sig)
  let sig ← intern (.signature { old with recv := some ⟨"recv", sel.recv⟩ })
  let text ← ask (·.funcText sel.method)
  let body? := (← get).declared.lookup sel.method
  let f ← buildFunction decl.name sig (promotionSteps sel decl text body?)
  keepWrapper f

/-- The wrapper of an interface method, made for the interface that asks first. -/
def interfaceWrapper (recv : TypeId) (method : FuncId) : Request BodyId := do
  match (← get).ifaceWrappers.lookup method with
  | some id => return id
  | none =>
    let decl ← ask (·.func method)
    let text ← ask (·.typeText recv)
    let old ← ask (·.signatureOf decl.sig)
    let sig ← intern (.signature { old with recv := some ⟨"recv", recv⟩ })
    let f ← buildFunction decl.name sig (interfaceSteps recv method decl text)
    let id ← keepWrapper f
    modify fun p => { p with ifaceWrappers := (method, id) :: p.ifaceWrappers }
    return id

/-- The wrapper of a bound method. A plain function cannot be bound. -/
def boundWrapper (method : FuncId) : Request BodyId := do
  match (← get).boundWrappers.lookup method with
  | some id => return id
  | none =>
    let decl ← ask (·.func method)
    let old ← ask (·.signatureOf decl.sig)
    let text ← ask (·.funcText method)
    match old.recv with
    | none => throw (.notAMethod method text)
    | some recv =>
      let sig ← intern (.signature { old with recv := none })
      let name ← ask (·.funcName method)
      let body? := (← get).declared.lookup method
      let f ← buildFunction ("bound$" ++ name) sig (boundSteps recv.ty method decl text body?)
      let id ← keepWrapper f
      modify fun p => { p with boundWrappers := (method, id) :: p.boundWrappers }
      return id

end Program

end MethodSSA
