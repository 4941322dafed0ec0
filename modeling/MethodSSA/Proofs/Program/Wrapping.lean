import MethodSSA.Proofs.Draft.Relaying
import MethodSSA.Proofs.Program.Making

/-!
# What wrappers hand on

Every wrapper is one block that hands everything on: it takes what the method takes, leads the
receiver to the method, calls once, and returns all that the call returns (`Wrapper.Relays`).
What the types are does not matter: where the steps of a wrapper end well, they leave such a
function (`promotionSteps_relays`, `interfaceSteps_relays`, `boundSteps_relays`).
-/

namespace MethodSSA

/-- What a wrapper is made for. -/
inductive Wrapper where
  /-- a selection -/
  | promotion (sel : Selection)
  /-- an interface method, for the interface that asked first -/
  | interface (recv : TypeId) (m : FuncId)
  /-- a method that is bound to a receiver -/
  | bound (m : FuncId)

namespace Wrapper

/-- The method that is called. -/
def method : Wrapper → FuncId
  | promotion sel => sel.method
  | interface _ m | bound m => m

/-- The receiver in the signature of the wrapper. -/
def receiver? : Wrapper → Option Var
  | promotion sel => some ⟨"recv", sel.recv⟩
  | interface recv _ => some ⟨"recv", recv⟩
  | bound _ => none

/-- The type of the receiver that the wrapper takes, for a method with a signature. -/
def recvType? (sig : Signature) : Wrapper → Option TypeId
  | promotion sel => some sel.recv
  | interface recv _ => some recv
  | bound _ => sig.recv.map Var.ty

/-- The parameters of the wrapper and its captured variables. -/
def takes (recv : ValueId) (formals : List ValueId) : Wrapper → List ValueId × List ValueId
  | promotion _ | interface _ _ => (recv :: formals, [])
  | bound _ => (formals, [recv])

/-- The receiver, of type `ty`, by address: itself if it is a pointer, else the address of a
copy. -/
inductive Base (t : TypeTable) (vals : List Value) (recv : ValueId) (ty : TypeId) :
    (start : ValueId) → (base : TypeId) → List Instr → Prop
  /-- a pointer stays as it is -/
  | pointer (h : t.isPointer ty = .ok true) : Base t vals recv ty recv ty []
  /-- a value is copied to a variable -/
  | copied {addr : ValueId} {ptr : TypeId} (h : t.isPointer ty = .ok false)
    (hget : t.get ptr = .ok (.pointer ty)) (haddr : TypedAs vals addr ptr) :
    Base t vals recv ty addr ptr
      [.plain (.alloc false) (some addr), .plain (.store addr recv) none]

/-- The way from the receiver of a promotion wrapper to what its selection leads to. -/
inductive Way (t : TypeTable) (vals : List Value) (sel : Selection) (recv : ValueId) :
    (target : ValueId) → (ty : TypeId) → List Instr → Prop
  | intro {start target : ValueId} {base ty : TypeId} {startCode pathCode : List Instr}
    (hstart : Base t vals recv sel.recv start base startCode)
    (hpath : SelectionCode t vals Function.entryBlock start base sel.fieldPath target ty pathCode) :
    Way t vals sel recv target ty (startCode ++ pathCode)

/-- The call of a wrapper, and the code that leads its receiver there. An invocation is passed
the parameters, and a declared body is passed its receiver before them. -/
inductive Calls (declared : List (FuncId × BodyId)) (t : TypeTable) (vals : List Value)
    (recv : ValueId) (formals : List ValueId) : Wrapper → Call → List Instr → Prop
  /-- a selected method of an interface: the interface is read -/
  | selected {sel : Selection} {target iface : ValueId} {ty elem : TypeId} {way : List Instr}
    (hway : Way t vals sel recv target ty way) (habs : t.isAbstract sel.method = .ok true)
    (helem : t.deref ty = .ok elem) (hiface : TypedAs vals iface elem) :
    Calls declared t vals recv formals (.promotion sel) ⟨.invoke iface sel.method, formals⟩
      (way ++ [.plain (.load target) (some iface)])
  /-- a selected method on pointers: the address is passed -/
  | address {sel : Selection} {target : ValueId} {ty : TypeId} {way : List Instr} {body : BodyId}
    (hway : Way t vals sel recv target ty way) (habs : t.isAbstract sel.method = .ok false)
    (hptr : t.hasPointerReceiver sel.method = .ok true) (hbody : (sel.method, body) ∈ declared) :
    Calls declared t vals recv formals (.promotion sel) ⟨.direct body, target :: formals⟩ way
  /-- a selected method on values: the content is read -/
  | content {sel : Selection} {target arg : ValueId} {ty elem : TypeId} {way : List Instr}
    {body : BodyId} (hway : Way t vals sel recv target ty way)
    (habs : t.isAbstract sel.method = .ok false)
    (hptr : t.hasPointerReceiver sel.method = .ok false) (helem : t.deref ty = .ok elem)
    (harg : TypedAs vals arg elem) (hbody : (sel.method, body) ∈ declared) :
    Calls declared t vals recv formals (.promotion sel) ⟨.direct body, arg :: formals⟩
      (way ++ [.plain (.load target) (some arg)])
  /-- an interface method: the parameter is the interface -/
  | interface {ty : TypeId} {m : FuncId} :
    Calls declared t vals recv formals (.interface ty m) ⟨.invoke recv m, formals⟩ []
  /-- a bound interface method: the captured variable is the interface -/
  | boundInvoke {m : FuncId} {ty : TypeId} (hrecv : t.receiver? m = .ok (some ty))
    (hiface : t.isInterface ty = .ok true) :
    Calls declared t vals recv formals (.bound m) ⟨.invoke recv m, formals⟩ []
  /-- any other bound method: the captured variable is passed -/
  | boundDirect {m : FuncId} {ty : TypeId} {body : BodyId} (hrecv : t.receiver? m = .ok (some ty))
    (hiface : t.isInterface ty = .ok false) (hbody : (m, body) ∈ declared) :
    Calls declared t vals recv formals (.bound m) ⟨.direct body, recv :: formals⟩ []

/-- **A wrapper that hands everything on.** Its signature is the method's, with a receiver of its
own or none; its parameters have the method's parameter types in order, the last one being a
slice if the method is variadic. It has one block, which passes the check, and in that block one
call, of the method. The code after the call takes the results apart, and the block returns them
all. Whatever is read is a variable, a constant or the result of an earlier instruction. -/
inductive Relays (w : Wrapper) (declared : List (FuncId × BodyId)) (t : TypeTable)
    (f : Function) : Prop
  | intro {t₀ : TypeTable} {decl : FuncDecl} {sig : Signature} {ty : TypeId} {recv : ValueId}
    {formals results : List ValueId} {call : Call} {before after : List Instr}
    -- the method, as the types were when the wrapper was made
    (ht : t₀.types <+: t.types) (hdecl : t₀.func w.method = .ok decl)
    (hsig : t₀.signatureOf decl.sig = .ok sig)
    -- what the wrapper takes
    (hown : t.get f.signature = .ok (.signature { sig with recv := w.receiver? }))
    (hvars : (f.params, f.freeVars) = w.takes recv formals)
    (hty : w.recvType? sig = some ty) (hrecv : TypedAs f.values recv ty)
    (hformals : List.Forall₂ (FormalTyped t f.values sig) sig.params.zipIdx formals)
    -- what it does
    (hcall : w.Calls declared t₀ f.values recv formals call before)
    (hresults : ResultCode t f.values call sig.results after results)
    (hinstrs : f.instrs = before ++ after) (honly : callsOf f.instrs = [call])
    (hblocks : f.blocks = [closedEntry f.instrs.length results])
    -- and that it is put together well
    (hreads : ∀ k i, f.instrs[k]? = some i → ∀ v ∈ i.op.operands, f.Ready k v)
    (hready : ∀ v ∈ results, f.Ready f.instrs.length v) (hcheck : f.check = pure ()) :
    Relays w declared t f

section Facts

variable {w : Wrapper} {declared : List (FuncId × BodyId)} {t t' : TypeTable}
  {vals vals' : List Value} {sel : Selection} {recv v : ValueId} {formals : List ValueId}
  {ty ty' : TypeId} {call : Call} {code : List Instr}

theorem Base.typed (h : Base t vals recv ty v ty' code) (hrecv : TypedAs vals recv ty) :
    TypedAs vals v ty' := by
  cases h with
  | pointer => exact hrecv
  | copied _ _ haddr => exact haddr

theorem Way.typed (h : Way t vals sel recv v ty code) (hrecv : TypedAs vals recv sel.recv) :
    TypedAs vals v ty := by
  obtain ⟨hstart, hpath⟩ := h
  exact hpath.typed (hstart.typed hrecv)

theorem Way.calls (h : Way t vals sel recv v ty code) : callsOf code = [] := by
  obtain ⟨hstart, hpath⟩ := h
  rw [callsOf_append, hpath.calls]
  cases hstart <;> rfl

/-- No code before the call calls. -/
theorem Calls.calls (h : w.Calls declared t vals recv formals call code) : callsOf code = [] := by
  cases h with
  | selected hway | content hway =>
    rw [callsOf_append, hway.calls]
    rfl
  | address hway => exact hway.calls
  | interface | boundInvoke | boundDirect => rfl

/-- What the call reads are values. -/
theorem Calls.reads (h : w.Calls declared t vals recv formals call code) {sig : Signature}
    (hty : w.recvType? sig = some ty) (hrecv : TypedAs vals recv ty)
    (hformals : ∀ v ∈ formals, ∃ ty, TypedAs vals v ty) :
    ∀ v ∈ (Operation.call call).operands, ∃ ty, TypedAs vals v ty := by
  cases h with
  | selected _ _ _ harg | content _ _ _ _ harg =>
    exact List.forall_mem_cons.mpr ⟨⟨_, harg⟩, hformals⟩
  | address hway =>
    cases hty
    exact List.forall_mem_cons.mpr ⟨⟨_, hway.typed hrecv⟩, hformals⟩
  | interface | boundInvoke | boundDirect =>
    exact List.forall_mem_cons.mpr ⟨⟨_, hrecv⟩, hformals⟩

section Later

variable (ht : t.Extended t') (hvals : ∀ {v ty}, TypedAs vals v ty → TypedAs vals' v ty)
include ht hvals

theorem Base.later (h : Base t vals recv ty v ty' code) : Base t' vals' recv ty v ty' code := by
  cases h with
  | pointer h => exact .pointer (ht.isPointer h)
  | copied h hget haddr => exact .copied (ht.isPointer h) (ht.get hget) (hvals haddr)

theorem Way.later (h : Way t vals sel recv v ty code) : Way t' vals' sel recv v ty code := by
  obtain ⟨hstart, hpath⟩ := h
  exact ⟨hstart.later ht hvals, hpath.later ht hvals⟩

theorem Calls.later (h : w.Calls declared t vals recv formals call code) :
    w.Calls declared t' vals' recv formals call code := by
  cases h with
  | selected hway habs helem hiface =>
    exact .selected (hway.later ht hvals) (ht.isAbstract habs) (ht.deref helem) (hvals hiface)
  | address hway habs hptr hbody =>
    exact .address (hway.later ht hvals) (ht.isAbstract habs) (ht.hasPointerReceiver hptr) hbody
  | content hway habs hptr helem harg hbody =>
    exact .content (hway.later ht hvals) (ht.isAbstract habs) (ht.hasPointerReceiver hptr)
      (ht.deref helem) (hvals harg) hbody
  | interface => exact .interface
  | boundInvoke hrecv hiface => exact .boundInvoke (ht.receiver? hrecv) (ht.isInterface hiface)
  | boundDirect hrecv hiface hbody =>
    exact .boundDirect (ht.receiver? hrecv) (ht.isInterface hiface) hbody

end Later

/-- More bodies are declared. -/
theorem Calls.mono {declared' : List (FuncId × BodyId)} (hdeclared : declared ⊆ declared')
    (h : w.Calls declared t vals recv formals call code) :
    w.Calls declared' t vals recv formals call code := by
  cases h with
  | selected hway habs helem hiface => exact .selected hway habs helem hiface
  | address hway habs hptr hbody => exact .address hway habs hptr (hdeclared hbody)
  | content hway habs hptr helem harg hbody =>
    exact .content hway habs hptr helem harg (hdeclared hbody)
  | interface => exact .interface
  | boundInvoke hrecv hiface => exact .boundInvoke hrecv hiface
  | boundDirect hrecv hiface hbody => exact .boundDirect hrecv hiface (hdeclared hbody)

/-- **A wrapper stays what it is**, whatever is entered, completed or declared later. -/
theorem Relays.later {declared' : List (FuncId × BodyId)} (ht : t.types <+: t'.types)
    (hdeclared : declared ⊆ declared') {f : Function} (h : w.Relays declared t f) :
    w.Relays declared' t' f := by
  obtain ⟨ht₀, hdecl, hsig, hown, hvars, hty, hrecv, hformals, hcall, hresults, hinstrs, honly,
    hblocks, hreads, hready, hcheck⟩ := h
  have hown' := entry_of_prefix ht hown
  exact .intro (ht₀.trans ht) hdecl hsig hown' hvars hty hrecv
    (hformals.imp fun _ _ hv => hv.later ht id) (hcall.mono hdeclared) (hresults.later ht id)
    hinstrs honly hblocks hreads hready hcheck

end Facts

end Wrapper

namespace Program

open Builder Wrapper

variable {w : Wrapper} {declared : List (FuncId × BodyId)} {b b₁ b' : Builder} {sig : Signature}
  {ty : TypeId} {recv : ValueId} {formals : List ValueId} {sel : Selection} {m : FuncId}
  {decl : FuncDecl} {text : String} {body? : Option BodyId}

/-! ## The last step -/

/-- What a wrapper is to be made of: the method as it is declared, and its own signature. -/
structure Planned (w : Wrapper) (decl : FuncDecl) (sig : Signature) (b : Builder) : Prop where
  line : b.Line
  found : b.types.func w.method = .ok decl
  method : b.types.signatureOf decl.sig = .ok sig
  own : b.types.get b.func.signature = .ok (.signature { sig with recv := w.receiver? })

/-- A draft that has the variables of a wrapper, and no code yet. -/
structure Opened (w : Wrapper) (decl : FuncDecl) (sig : Signature) (ty : TypeId) (recv : ValueId)
    (formals : List ValueId) (b : Builder) : Prop extends Planned w decl sig b where
  instrs : b.func.instrs = []
  takes : (b.func.params, b.func.freeVars) = w.takes recv formals
  type : w.recvType? sig = some ty
  recv : TypedAs b.func.values recv ty
  formals : List.Forall₂ (FormalTyped b.types b.func.values sig) sig.params.zipIdx formals

/-- Where a step ends well, its draft is a wrapper that hands everything on. -/
def Relaying (w : Wrapper) (declared : List (FuncId × BodyId)) (r : Except BuildError Unit)
    (b : Builder) : Prop :=
  r = .ok () → w.Relays declared b.types b.func

/-- **A draft that leads to its call becomes a wrapper** by the call. -/
theorem Opened.relays (h : Opened w decl sig ty recv formals b) {call : Call}
    {before : List Instr} (happends : Appends Function.entryBlock before b b₁)
    (hcall : w.Calls declared b₁.types b₁.func.values recv formals call before) :
    Settles (fun _ => True) (liftM (tailCall call) : TryBuild Unit).run b₁
      (Relaying w declared) := by
  have hrecv₁ := happends.typedAs h.recv
  have hformals₁ : ∀ v ∈ formals, ∃ ty, TypedAs b₁.func.values v ty := by
    intro v hv
    obtain ⟨n, hn, rfl⟩ := List.getElem_of_mem hv
    obtain ⟨ty, hty, -⟩ := h.formals.get (h.formals.length_eq ▸ hn) hn
    exact ⟨ty, happends.typedAs hty⟩
  have hown₁ := signatureOf_get (happends.types.extended.get h.own)
  rw [← happends.signature] at hown₁
  refine settles_last (.inl (tailCall_appends (h.line.appends happends)
    (hcall.reads h.type hrecv₁ hformals₁) hown₁)) ?_
  rintro _ b' ⟨b₂, after, results, h₂, rfl, hresults⟩ -
  have hall := happends.trans h₂
  have l₂ := h.line.appends hall
  have ht := hall.types.extended
  have hinstrs : b₂.func.instrs = before ++ after := by
    rw [hall.instrs, h.instrs, List.nil_append]
  refine .intro List.prefix_rfl (ht.func h.found) (ht.signatureOf h.method) ?_ ?_ h.type
    (hall.typedAs h.recv) ?_ (hcall.later h₂.types.extended h₂.typedAs) hresults hinstrs ?_
    (returned_blocks l₂.blocks results) l₂.ordered.reads ?_
    (check_returned l₂.blocks l₂.placed l₂.recover results)
  · change b₂.types.get b₂.func.signature = _
    rw [hall.signature]
    exact ht.get h.own
  · change (b₂.func.params, b₂.func.freeVars) = _
    rw [hall.params, hall.freeVars]
    exact h.takes
  · exact h.formals.imp fun _ _ hv => hv.later ht.types hall.typedAs
  · change callsOf b₂.func.instrs = _
    rw [hinstrs, callsOf_append, hcall.calls, hresults.calls, List.nil_append]
  · intro v hv
    obtain ⟨ty, hty⟩ := hresults.typed v hv
    exact l₂.ordered.ready hty

/-! ## The steps before it -/

/-- Without a declared body there is no wrapper. -/
theorem requireBody_settles {k : BodyId → TryBuild Unit}
    (hk : ∀ body, body? = some body →
      Settles (fun _ => True) (k body).run b (Relaying w declared)) :
    Settles (fun _ => True) ((requireBody body? m (liftM (Builder.funcText m)) : TryBuild BodyId) >>=
      k).run b (Relaying w declared) := by
  cases body? with
  | some body => exact hk body rfl
  | none =>
    rw [requireBody, bind_assoc]
    refine settles_liftAsk (fun _ _ => trivial) fun text _ => .inl (.of_run rfl fun hok => ?_)
    cases hok

theorem followPath_settles {start : ValueId} {base : TypeId} {path : List Nat}
    {k : ValueId → TryBuild Unit} (hopen : b.current = some Function.entryBlock)
    (hstart : TypedAs b.func.values start base)
    (hk : ∀ {b₁ v ty code}, Appends Function.entryBlock code b b₁ →
      SelectionCode b₁.types b₁.func.values Function.entryBlock start base path v ty code →
      Settles (fun _ => True) (k v).run b₁ (Relaying w declared)) :
    Settles (fun _ => True) (Builder.followPath start path >>= k).run b (Relaying w declared) := by
  have hend := followPath_end hopen hstart path
  generalize hrun : (Builder.followPath start path).run.run b = r at hend
  cases hend with
  | done h hcode => exact .stepGiven hrun (hk h hcode)
  | refused => exact .inl (.of_run (run_bind_of_error hrun) nofun)
  | fault => exact .faultGiven hrun trivial

/-- The receiver of a promotion wrapper is taken by address. -/
theorem base_settles {k : ValueId → TryBuild Unit}
    (hopen : b.current = some Function.entryBlock) (hrecv : TypedAs b.func.values recv ty)
    (hk : ∀ {b₁ start base code}, Appends Function.entryBlock code b b₁ →
      Base b₁.types b₁.func.values recv ty start base code →
      Settles (fun _ => True) (k start).run b₁ (Relaying w declared)) :
    Settles (fun _ => True) (do
      if ← Builder.isPointer ty then (do let start ← pure recv; k start)
      else (do let start ← Builder.spill recv; k start) : TryBuild Unit).run b
      (Relaying w declared) := by
  refine settles_liftAsk (fun _ _ => trivial) fun isPtr hptr => ?_
  cases isPtr with
  | true => exact hk (.refl _ b) (.pointer hptr)
  | false =>
    refine settles_lift (.inl (spill_appends hopen hrecv)) ?_
    rintro addr b₁ ⟨h, ptr, haddr, hget⟩
    exact hk h (.copied (h.types.extended.isPointer hptr) hget haddr)

/-- The second part of a promotion wrapper, from what the selection leads to. -/
theorem forwardFrom_relays {way : List Instr} {target : ValueId} {ty' : TypeId}
    (h : Opened (.promotion sel) decl sig ty recv formals b)
    (hbody : ∀ body, body? = some body → (sel.method, body) ∈ declared)
    (happends : Appends Function.entryBlock way b b₁)
    (hway : Way b₁.types b₁.func.values sel recv target ty' way)
    (htarget : TypedAs b₁.func.values target ty') :
    Settles (fun _ => True) (forwardFrom sel body? formals target).run b₁
      (Relaying (.promotion sel) declared) := by
  have hopen : b₁.current = some Function.entryBlock := happends.current.trans h.line.current
  refine settles_liftAsk (fun _ _ => trivial) fun abs habs => ?_
  cases abs with
  | true =>
    refine settles_lift (load_settles hopen htarget) ?_
    rintro iface b₂ ⟨elem, helem, h₂, hiface⟩
    have ht := h₂.types.extended
    exact h.relays (happends.trans h₂)
      (.selected (hway.later ht h₂.typedAs) (ht.isAbstract habs) helem hiface)
  | false =>
    refine settles_liftAsk (fun _ _ => trivial) fun byPtr hptr => ?_
    cases byPtr with
    | true =>
      refine requireBody_settles fun body hsome => ?_
      exact h.relays happends (.address hway habs hptr (hbody body hsome))
    | false =>
      refine settles_lift (load_settles hopen htarget) ?_
      rintro arg b₂ ⟨elem, helem, h₂, harg⟩
      have ht := h₂.types.extended
      refine requireBody_settles fun body hsome => ?_
      exact h.relays (happends.trans h₂) (.content (hway.later ht h₂.typedAs)
        (ht.isAbstract habs) (ht.hasPointerReceiver hptr) helem harg (hbody body hsome))

/-! ## The three wrappers -/

/-- The draft of a wrapper takes its variables. -/
theorem Planned.opened (h : Planned w decl sig b) (hblank : b.Blank)
    {params freeVars : List ValueId} (hbinds : Binds params freeVars b b₁)
    (htakes : (params, freeVars) = w.takes recv formals) (hty : w.recvType? sig = some ty)
    (hrecv : TypedAs b₁.func.values recv ty)
    (hformals : List.Forall₂ (FormalTyped b₁.types b₁.func.values sig) sig.params.zipIdx formals) :
    Opened w decl sig ty recv formals b₁ where
  line := hbinds.line h.line
  found := hbinds.types.extended.func h.found
  method := hbinds.types.extended.signatureOf h.method
  own := by
    rw [Function.signature_eq_of_header hbinds.header]
    exact hbinds.types.extended.get h.own
  instrs := hbinds.instrs.trans hblank.instrs
  takes := by
    rw [hbinds.params, hbinds.freeVars, hblank.params, hblank.freeVars]
    exact htakes
  type := hty
  recv := hrecv
  formals := hformals

/-- The parameters of a method are taken, behind what was taken before. -/
theorem addFormals_settles {params freeVars : List ValueId} {P : Except BuildError Unit → Builder → Prop}
    {k : List ValueId → TryBuild Unit} (h : Planned w decl sig b)
    (hbinds : Binds params freeVars b b₁)
    (hk : ∀ {formals b₂}, Binds (params ++ formals) (freeVars ++ []) b b₂ → Binds formals [] b₁ b₂ →
      List.Forall₂ (FormalTyped b₂.types b₂.func.values sig) sig.params.zipIdx formals →
      Settles (fun _ => True) (k formals).run b₂ P) :
    Settles (fun _ => True) (liftM Builder.addFormals >>= k).run b₁ P := by
  have hown := hbinds.signatureOf (signatureOf_get h.own)
  refine settles_lift (.inl (addFormals_binds hown)) ?_
  rintro formals b₂ ⟨hbinds₂, hformals⟩
  exact hk (hbinds.trans hbinds₂) hbinds₂ hformals

theorem promotionSteps_relays (h : Planned (.promotion sel) decl sig (describe b sel decl text))
    (hblank : (describe b sel decl text).Blank)
    (hbody : ∀ body, body? = some body → (sel.method, body) ∈ declared) :
    Settles (fun _ => True) (promotionSteps sel decl text body?).run b
      (Relaying (.promotion sel) declared) := by
  refine .stepLift rfl (settles_lift (.inl (addParam_binds _ "recv" sel.recv)) ?_)
  rintro recv b₁ ⟨hbinds₁, hrecv, -⟩
  refine addFormals_settles h hbinds₁ fun {formals b₂} hbinds hbinds₂ hformals => ?_
  have hopened : Opened (.promotion sel) decl sig sel.recv recv formals b₂ :=
    h.opened hblank hbinds rfl rfl (hbinds₂.typedAs hrecv) hformals
  refine base_settles hopened.line.current hopened.recv fun happends hbase => ?_
  have hopen := happends.current.trans hopened.line.current
  have hstart := hbase.typed (happends.typedAs hopened.recv)
  refine .answer (fun _ _ => trivial) fun path hfields => ?_
  cases Selection.eq_fieldPath_of_way hfields
  refine followPath_settles hopen hstart fun happends' hpath => ?_
  have hway := Way.intro (hbase.later happends'.types.extended happends'.typedAs) hpath
  refine forwardFrom_relays hopened hbody (happends.trans happends') hway ?_
  exact hpath.typed (happends'.typedAs hstart)

theorem interfaceSteps_relays {recvTy : TypeId}
    (h : Planned (.interface recvTy m) decl sig (introduce b m decl text))
    (hblank : (introduce b m decl text).Blank) :
    Settles (fun _ => True) (interfaceSteps recvTy m decl text).run b
      (Relaying (.interface recvTy m) declared) := by
  refine .stepLift rfl (settles_lift (.inl (addParam_binds _ "recv" recvTy)) ?_)
  rintro recv b₁ ⟨hbinds₁, hrecv, -⟩
  refine addFormals_settles h hbinds₁ fun {formals b₂} hbinds hbinds₂ hformals => ?_
  have hopened : Opened (.interface recvTy m) decl sig recvTy recv formals b₂ :=
    h.opened hblank hbinds rfl rfl (hbinds₂.typedAs hrecv) hformals
  exact hopened.relays (.refl _ b₂) .interface

theorem boundSteps_relays {v : Var} (hv : sig.recv = some v)
    (h : Planned (.bound m) decl sig (describeBound b decl text))
    (hblank : (describeBound b decl text).Blank)
    (hbody : ∀ body, body? = some body → (m, body) ∈ declared) :
    Settles (fun _ => True) (boundSteps v.ty m decl text body?).run b
      (Relaying (.bound m) declared) := by
  refine .stepLift rfl (settles_lift (.inl (addFreeVar_binds _ "recv" v.ty)) ?_)
  rintro recv b₁ ⟨hbinds₁, hrecv, -⟩
  refine addFormals_settles h hbinds₁ fun {formals b₂} hbinds hbinds₂ hformals => ?_
  have hopened : Opened (.bound m) decl sig v.ty recv formals b₂ :=
    h.opened hblank hbinds rfl (congrArg (Option.map Var.ty) hv) (hbinds₂.typedAs hrecv) hformals
  have hreceiver : b₂.types.receiver? m = .ok (sig.recv.map Var.ty) :=
    TypeTable.receiver?_eq hopened.found hopened.method
  rw [hv] at hreceiver
  refine settles_liftAsk (fun _ _ => trivial) fun isIface hiface => ?_
  cases isIface with
  | true => exact hopened.relays (.refl _ b₂) (.boundInvoke hreceiver hiface)
  | false =>
    refine requireBody_settles fun body hsome => ?_
    exact hopened.relays (.refl _ b₂) (.boundDirect hreceiver hiface (hbody body hsome))

end Program

end MethodSSA
