import MethodSSA.Draft.Command

/-!
# Programs

A **program** holds the finished bodies of its functions and remembers which body
answers a request, so that the same request always gets the same body: the
declared body of each method, the resolved methods of each receiver type, and
the wrappers of interface methods and of bound methods. The latest note of a
memory stands first.
-/

namespace MethodSSA

/-- A program. -/
structure Program extends Workspace where
  /-- the finished bodies -/
  bodies : List Function
  /-- the declared body of each method -/
  declared : List (FuncId × BodyId)
  /-- the resolved members of method sets, by receiver type and method identifier -/
  members : List ((TypeId × String) × BodyId)
  /-- resolved methods that can be called on variables of a type but are outside
  its method set, by receiver type and method identifier -/
  addressable : List ((TypeId × String) × BodyId)
  /-- the types whose method sets are resolved completely -/
  complete : List TypeId
  /-- the wrapper of each interface method -/
  ifaceWrappers : List (FuncId × BodyId)
  /-- the wrapper of each bound method -/
  boundWrappers : List (FuncId × BodyId)
  /-- how many wrappers were made -/
  synthesized : Nat

/-- A request to a program. It may fail, and what was done until then stays. -/
abbrev Request := ExceptT BuildError (StateT Program (Except Fault))

namespace Program

/-- A program without bodies. -/
def initial (mode : Mode) : Program :=
  ⟨.initial mode, [], [], [], [], [], [], [], 0⟩

/-- The body behind an identifier. -/
def body (p : Program) (id : BodyId) : Except Fault Function :=
  entry p.bodies id.index .foreignBody

/-- Adds a finished body. -/
def addBody (p : Program) (f : Function) : BodyId × Program :=
  (⟨p.bodies.length⟩, { p with bodies := p.bodies ++ [f] })

/-- Adds the body of a declared method. A later body takes the place of an
earlier one for requests that are not answered yet. -/
def declareBody (p : Program) (m : FuncId) (f : Function) : BodyId × Program :=
  let (id, p) := p.addBody f
  (id, { p with declared := (m, id) :: p.declared })

/-- Adds a wrapper. -/
def addWrapper (p : Program) (f : Function) : BodyId × Program :=
  let (id, p) := p.addBody f
  (id, { p with synthesized := p.synthesized + 1 })

/-- The bodies resolved so far for the method set of a type, in the order of
method identifiers. -/
def membersOf (p : Program) (ty : TypeId) : List (String × BodyId) :=
  keyTable (p.members.filterMap fun ((recv, id), body) =>
    if recv = ty then some (id, body) else none)

/-- Builds on a draft within the program. -/
def onDraft {α : Type} (p : Program) (d : Draft) (step : TryBuild α) :
    Except Fault (Except BuildError α × Draft × Program) := do
  let (result, b) ← step.run.run ⟨p.toWorkspace, d⟩
  return (result, b.toDraft, { p with toWorkspace := b.toWorkspace })

/-- The finished function of a draft. -/
def finishDraft (p : Program) (d : Draft) : Function.Checked Function :=
  Builder.finish ⟨p.toWorkspace, d⟩

/-- Builds a function from its commands and finishes it. -/
def buildFunction (name : String) (signature : TypeId) (steps : TryBuild Unit) :
    Request Function := do
  let (result, d, p) ← (← get).onDraft (.start name signature) steps
  set p
  match result with
  | .error e => throw e
  | .ok _ =>
    match ← (p.finishDraft d).run with
    | .error e => throw e
    | .ok f => return f

/-- The declared body of a method, or the failure to find one. -/
def requireBody {m : Type → Type} [Monad m] [MonadExceptOf BuildError m]
    (body? : Option BodyId) (method : FuncId) (text : m String) : m BodyId := do
  match body? with
  | some id => return id
  | none => throw (.noBody method (← text))

/-- The declared body of a method. -/
def concreteBody (m : FuncId) : Request BodyId := do
  let p ← get
  requireBody (p.declared.lookup m) m (do p.types.funcText m)

end Program

end MethodSSA
