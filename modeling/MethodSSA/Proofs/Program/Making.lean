import MethodSSA.Proofs.Draft.Quiet
import MethodSSA.Proofs.Program.Registry

/-!
# What requests change

What a request comes to can be said without asking whether the types are ready for use: it
is answered from a memory (`Recalls`), or the answer is found (`Found`) or one wrapper is added
(`Adds`), and kept; and a request that fails has entered types at most. Only a request for a
whole method set does more (`Collects`), one member after another, and where it stops at a
member, those before it are kept (`Fills`).
-/

namespace MethodSSA

namespace Program

open Builder Relation

/-! ## The code of wrappers -/

section Code

variable {R : Builder → Builder → Prop} {b b' : Builder} {sel : Selection} {recv : TypeId}
  {m : FuncId} {decl : FuncDecl} {text : String} {body? : Option BodyId}
  {res : Except BuildError Unit}

/-- The parts of the code of wrappers are rows of transitions. -/
structure Parts (R : Builder → Builder → Prop) : Prop where
  amend : ∀ step : Function → Function, (∀ f, (step f).method = f.method) →
    (∀ f, (step f).values = f.values) → (∀ f, (step f).instrs = f.instrs) →
    Makes R (Builder.amend step)
  addParam : ∀ name ty, Makes R (Builder.addParam name ty)
  addFreeVar : ∀ name ty, Makes R (Builder.addFreeVar name ty)
  addFormals : Makes R Builder.addFormals
  spill : ∀ param, Makes R (Builder.spill param)
  load : ∀ addr, Makes R (Builder.load addr)
  followPath : ∀ path v, Makes R (Builder.followPath v path).run
  tailCall : ∀ call, Makes R (Builder.tailCall call)

namespace Parts

variable (h : Parts R)
include h

/-- A call of the declared body, if there is one. -/
theorem callBody (body? : Option BodyId) (m : FuncId) (call : BodyId → Call) :
    Makes R (do
      let body ← requireBody body? m (liftM (Builder.funcText m))
      Builder.tailCall (call body) : TryBuild Unit).run := by
  refine .andThen ?_ fun body => .lift (h.tailCall (call body))
  cases body? with
  | some body => exact .pure _
  | none => exact .liftThen (ask_acts _).makes fun text => .fail _

theorem forwardFrom (sel : Selection) (body? : Option BodyId) (formals : List ValueId)
    (target : ValueId) : Makes R (forwardFrom sel body? formals target).run := by
  refine .liftThen (ask_acts _).makes fun abs =>
    .iteFail ?_ (.liftThen (ask_acts _).makes fun byPtr => ?_)
  · exact .liftThen (h.load target) fun iface => .lift (h.tailCall _)
  · exact .iteFail (h.callBody _ _ _) (.liftThen (h.load target) fun recv => h.callBody _ _ _)

/-- The code of a promotion wrapper, from a draft that says what the wrapper is for. -/
theorem promotionSteps (hrun : (promotionSteps sel decl text body?).run.run b = .ok (res, b')) :
    ReflTransGen R (describe b sel decl text) b' := by
  obtain ⟨u, b₁, hamend, hrest⟩ := exists_of_lift_bind hrun
  cases hamend
  have hway (formals : List ValueId) (start : ValueId) : Makes R (do
      let path ← sel.way
      let target ← Builder.followPath start path
      Program.forwardFrom sel body? formals target : TryBuild Unit).run :=
    .liftThen (.answer _) fun path =>
      .andThen (h.followPath path start) (h.forwardFrom sel body? formals)
  refine (?_ : Makes R _) hrest
  exact .liftThen (h.addParam _ _) fun recv => .liftThen h.addFormals fun formals =>
    .liftThen (ask_acts _).makes fun isPtr =>
      .iteFail (hway formals recv) (.liftThen (h.spill recv) (hway formals))

/-- The code of an interface wrapper. -/
theorem interfaceSteps : Makes R (interfaceSteps recv m decl text).run :=
  .liftThen (h.amend _ (fun _ => rfl) (fun _ => rfl) fun _ => rfl) fun _ =>
    .liftThen (h.addParam _ _) fun _ => .liftThen h.addFormals fun _ => .lift (h.tailCall _)

/-- The code of a bound wrapper. -/
theorem boundSteps : Makes R (boundSteps recv m decl text body?).run :=
  .liftThen (h.amend _ (fun _ => rfl) (fun _ => rfl) fun _ => rfl) fun _ =>
    .liftThen (h.addFreeVar _ _) fun _ => .liftThen h.addFormals fun _ =>
      .liftThen (ask_acts _).makes fun _ => .iteFail (.lift (h.tailCall _)) (h.callBody _ _ _)

end Parts

/-- The code of wrappers enters types at most. -/
theorem quiet_parts : Parts Quiet where
  amend step hmethod _ _ := by
    refine .single fun b u b' hrun => ?_
    cases hrun
    exact ⟨.refl _, rfl, rfl, hmethod b.func⟩
  addParam name ty := quiet_of_strides (addParam_acts name ty)
  addFreeVar name ty := quiet_of_strides (addFreeVar_acts name ty)
  addFormals := quiet_of_strides addFormals_acts
  spill := spill_quiet
  load addr := quiet_of_emits (load_acts addr)
  followPath path v := quiet_of_emits (followPath_acts path v)
  tailCall call := quiet_of_strides (tailCall_acts call)

/-- **The code of a promotion wrapper** stands for its selection. -/
theorem promotionSteps_quiet
    (hrun : (promotionSteps sel decl text body?).run.run b = .ok (res, b')) :
    Quiet { b with func := { b.func with method := some sel } } b' := by
  have h := Quiet.of_row id (quiet_parts.promotionSteps hrun)
  exact ⟨h.types, h.mode, h.boxed, h.method⟩

/-- The code of an interface wrapper. -/
theorem interfaceSteps_quiet (hrun : (interfaceSteps recv m decl text).run.run b = .ok (res, b')) :
    Quiet b b' := Quiet.of_makes hrun quiet_parts.interfaceSteps

/-- The code of a bound wrapper. -/
theorem boundSteps_quiet
    (hrun : (boundSteps recv m decl text body?).run.run b = .ok (res, b')) : Quiet b b' :=
  Quiet.of_makes hrun quiet_parts.boundSteps

end Code

/-! ## Making a function -/

variable {p q : Program} {sel : Selection} {m : FuncId} {recv : TypeId}

/-- Building a function enters types at most, whether it fails or not; and the function
stands for the selection that its draft stood for in the end. -/
theorem of_buildFunction {name : String} {signature : TypeId} {steps : TryBuild Unit}
    {method : Option Selection} {res : Except BuildError Function}
    (hsteps : ∀ {r b'}, steps.run.run (p.draft name signature) = .ok (r, b') →
      ∃ b, b.toWorkspace = p.toWorkspace ∧ b.func.method = method ∧ Quiet b b')
    (hrun : (buildFunction name signature steps).run.run p = .ok (res, q)) :
    ∃ t, p.types.Entered t ∧ q = { p with types := t } ∧ ∀ f, res = .ok f → f.method = method := by
  rw [buildFunction_run] at hrun
  obtain ⟨⟨r, b'⟩, hr, hrest⟩ := bind_eq_ok_iff.mp hrun
  obtain ⟨b, hworkspace, hmethod, h⟩ := hsteps hr
  have hafter : p.types.Entered b'.types ∧ p.after b' = { p with types := b'.types } := by
    have htypes : b.types = p.types := (congrArg Workspace.types hworkspace :)
    have hmode : b'.mode = p.mode := h.mode.trans (congrArg Workspace.mode hworkspace :)
    have hboxed : b'.boxed = p.boxed := h.boxed.trans (congrArg Workspace.boxed hworkspace :)
    refine ⟨htypes ▸ h.types, ?_⟩
    rw [after, ← hmode, ← hboxed]
  cases r with
  | error e =>
    cases hrest
    refine ⟨_, hafter.1, hafter.2, ?_⟩
    rintro f ⟨⟩
  | ok u =>
    obtain ⟨r, hfinish, hend⟩ := bind_eq_ok_iff.mp hrest
    cases hend
    refine ⟨_, hafter.1, hafter.2, ?_⟩
    rintro f rfl
    exact (congrArg Function.method (Builder.func_of_finish hfinish)).trans (h.method.trans hmethod)

/-- A program with a wrapper more. -/
def added (p : Program) (t : TypeTable) (f : Function) : Program :=
  { p with types := t, bodies := p.bodies ++ [f], synthesized := p.synthesized + 1 }

/-- What making a wrapper that stands for `method` comes to. -/
inductive Adds (method : Option Selection) (p : Program) : Except BuildError BodyId → Program → Prop
  /-- it is added -/
  | made {f : Function} {t : TypeTable} (ht : p.types.Entered t) (hf : f.method = method) :
    Adds method p (.ok ⟨p.bodies.length⟩) (p.added t f)
  /-- it cannot be built, and the types that were entered until then stay -/
  | failed {e : BuildError} {t : TypeTable} (ht : p.types.Entered t) :
    Adds method p (.error e) { p with types := t }

theorem of_intern_bind {α : Type} {ty : Ty} {k : TypeId → Request α} {res : Except BuildError α}
    (h : (intern ty >>= k).run.run p = .ok (res, q)) :
    (k (p.types.intern ty).1).run.run { p with types := (p.types.intern ty).2 } = .ok (res, q) := h

theorem adds_of_promotionWrapper {res : Except BuildError BodyId}
    (hrun : (promotionWrapper sel).run.run p = .ok (res, q)) : Adds (some sel) p res q := by
  obtain ⟨decl, -, hrun⟩ := exists_of_ask hrun
  obtain ⟨old, -, hrun⟩ := exists_of_ask hrun
  have hrun := of_intern_bind hrun
  obtain ⟨text, -, hrun⟩ := exists_of_ask hrun
  rw [get_run] at hrun
  have hintern := TypeTable.Entered.intern p.types
  rcases cases_of_bind hrun with ⟨e, hbuild, rfl⟩ | ⟨f, p₁, hbuild, hkeep⟩
  · obtain ⟨t, ht, rfl, -⟩ := of_buildFunction
      (fun hsteps => ⟨_, rfl, rfl, promotionSteps_quiet hsteps⟩) hbuild
    exact .failed ((hintern _).trans ht)
  · obtain ⟨t, ht, rfl, hmethod⟩ := of_buildFunction
      (fun hsteps => ⟨_, rfl, rfl, promotionSteps_quiet hsteps⟩) hbuild
    cases hkeep
    exact .made ((hintern _).trans ht) (hmethod f rfl)

/-! ## Answers from a memory -/

/-- A memory of a program: what it holds, and how something is kept in it. -/
structure Memory (κ : Type) where
  /-- what is held under each key -/
  entries : Program → List (κ × BodyId)
  /-- keeps a body under a key -/
  keep : κ → BodyId → Program → Program

/-- The memory of what belongs to method sets, or of what is called on variables. -/
def selectionMemory (inSet : Bool) : Memory (TypeId × String) :=
  if inSet then ⟨members, keepMember⟩ else ⟨addressable, keepAddressable⟩

/-- The memory of the wrappers of bound methods, or of interface methods. -/
def wrapperMemory (bound : Bool) : Memory FuncId :=
  if bound then ⟨boundWrappers, fun m id p => { p with boundWrappers := (m, id) :: p.boundWrappers }⟩
  else
    ⟨ifaceWrappers, fun m id p => { p with ifaceWrappers := (m, id) :: p.ifaceWrappers }⟩

/-- What becomes of a request that a memory answers, if it can: else an answer is made, and
kept. -/
inductive Recalls {κ : Type} [BEq κ] (memory : Memory κ) (key : κ)
    (make : Program → Except BuildError BodyId → Program → Prop) (p : Program) :
    Except BuildError BodyId → Program → Prop
  /-- the memory holds an answer -/
  | known {id : BodyId} (hid : (memory.entries p).lookup key = some id) :
    Recalls memory key make p (.ok id) p
  /-- an answer is made -/
  | kept {id : BodyId} {q : Program} (hnone : (memory.entries p).lookup key = none)
    (h : make p (.ok id) q) : Recalls memory key make p (.ok id) (memory.keep key id q)
  /-- no answer can be made -/
  | failed {e : BuildError} {q : Program} (hnone : (memory.entries p).lookup key = none)
    (h : make p (.error e) q) : Recalls memory key make p (.error e) q

/-- A wrapper that stands for no selection is built, added and kept. -/
theorem recalls_of_build (memory : Memory FuncId) (hnone : (memory.entries p).lookup m = none)
    {t : TypeTable} (ht : p.types.Entered t) {name : String} {signature : TypeId}
    {steps : TryBuild Unit} {res : Except BuildError BodyId}
    (hsteps : ∀ {b r b'}, steps.run.run b = .ok (r, b') → Quiet b b')
    (hrun : (do
      let f ← buildFunction name signature steps
      let id ← keepWrapper f
      modify (memory.keep m id)
      return id : Request BodyId).run.run { p with types := t } = .ok (res, q)) :
    Recalls memory m (Adds none) p res q := by
  rcases cases_of_bind hrun with ⟨e, hbuild, rfl⟩ | ⟨f, p₁, hbuild, hkeep⟩
  · obtain ⟨t', ht', rfl, -⟩ := of_buildFunction (fun h => ⟨_, rfl, rfl, hsteps h⟩) hbuild
    exact .failed hnone (.failed (ht.trans ht'))
  · obtain ⟨t', ht', rfl, hmethod⟩ := of_buildFunction (fun h => ⟨_, rfl, rfl, hsteps h⟩) hbuild
    cases hkeep
    exact .kept hnone (.made (ht.trans ht') (hmethod f rfl))

theorem recalls_of_interfaceWrapper {res : Except BuildError BodyId}
    (hrun : (interfaceWrapper recv m).run.run p = .ok (res, q)) :
    Recalls (wrapperMemory false) m (Adds none) p res q := by
  rw [interfaceWrapper, get_run] at hrun
  rcases hlookup : p.ifaceWrappers.lookup m with _ | id
  · rw [hlookup] at hrun
    obtain ⟨decl, -, hrun⟩ := exists_of_ask hrun
    obtain ⟨text, -, hrun⟩ := exists_of_ask hrun
    obtain ⟨old, -, hrun⟩ := exists_of_ask hrun
    exact recalls_of_build (wrapperMemory false) hlookup (.intern p.types _) interfaceSteps_quiet
      (of_intern_bind hrun)
  · rw [hlookup] at hrun
    cases hrun
    exact .known hlookup

theorem recalls_of_boundWrapper {res : Except BuildError BodyId}
    (hrun : (boundWrapper m).run.run p = .ok (res, q)) :
    Recalls (wrapperMemory true) m (Adds none) p res q := by
  rw [boundWrapper, get_run] at hrun
  rcases hlookup : p.boundWrappers.lookup m with _ | id
  · rw [hlookup] at hrun
    obtain ⟨decl, -, hrun⟩ := exists_of_ask hrun
    obtain ⟨old, -, hrun⟩ := exists_of_ask hrun
    obtain ⟨text, -, hrun⟩ := exists_of_ask hrun
    rcases hrecv : old.recv with _ | v
    · -- a plain function
      rw [hrecv] at hrun
      cases hrun
      exact .failed hlookup (.failed (.refl p.types))
    · rw [hrecv] at hrun
      obtain ⟨name, -, hrun⟩ := exists_of_ask (of_intern_bind hrun)
      rw [get_run] at hrun
      exact recalls_of_build (wrapperMemory true) hlookup (.intern p.types _) boundSteps_quiet hrun
  · rw [hlookup] at hrun
    cases hrun
    exact .known hlookup

/-! ## Bodies of selections -/

/-- What becomes of a request for the body behind a selection that no memory answers. -/
inductive Found (sel : Selection) (p : Program) : Except BuildError BodyId → Program → Prop
  /-- there is something in between, and a promotion wrapper is made -/
  | promoted {res : Except BuildError BodyId} {q : Program} (h : Adds (some sel) p res q) :
    Found sel p res q
  /-- the method is selected from an interface -/
  | invoked {res : Except BuildError BodyId} {q : Program}
    (hiface : p.types.isInterface sel.recv = .ok true)
    (h : Recalls (wrapperMemory false) sel.method (Adds none) p res q) : Found sel p res q
  /-- the method has a declared body -/
  | declared {id : BodyId} (hid : p.declared.lookup sel.method = some id) : Found sel p (.ok id) p
  /-- the method has no body yet -/
  | missing {e : BuildError} (hnone : p.declared.lookup sel.method = none) :
    Found sel p (.error e) p

theorem of_crossesPointer {res : Except BuildError Bool}
    (hrun : (crossesPointer sel).run.run p = .ok (res, q)) : p = q ∧ ∃ b, res = .ok b := by
  obtain ⟨recv?, -, hrun⟩ := exists_of_ask hrun
  cases recv? with
  | none =>
    cases hrun
    exact ⟨rfl, _, rfl⟩
  | some recv =>
    obtain ⟨declared, -, hrun⟩ := exists_of_ask hrun
    obtain ⟨selected, -, hrun⟩ := exists_of_ask hrun
    cases hrun
    exact ⟨rfl, _, rfl⟩

theorem found_of_concreteBody {res : Except BuildError BodyId}
    (hrun : (concreteBody sel.method).run.run p = .ok (res, q)) : Found sel p res q := by
  rw [concreteBody, get_run] at hrun
  rcases hlookup : p.declared.lookup sel.method with _ | id
  · rw [hlookup] at hrun
    have hrun : (liftM (p.types.funcText sel.method) >>= fun text =>
        throw (.noBody sel.method text) : Request BodyId).run.run p = .ok (res, q) := hrun
    rcases htext : p.types.funcText sel.method with e | text
    · rw [htext] at hrun
      cases hrun
    · rw [htext] at hrun
      cases hrun
      exact .missing hlookup
  · rw [hlookup] at hrun
    cases hrun
    exact .declared hlookup

theorem found_of_resolve {res : Except BuildError BodyId}
    (hrun : (resolve sel).run.run p = .ok (res, q)) : Found sel p res q := by
  rcases cases_of_bind hrun with ⟨e, hcrosses, rfl⟩ | ⟨crosses, p₁, hcrosses, hrest⟩
  · obtain ⟨-, b, ⟨⟩⟩ := of_crossesPointer hcrosses
  obtain ⟨rfl, -⟩ := of_crossesPointer hcrosses
  by_cases hneeded : (sel.isPromoted || crosses) = true
  · rw [if_pos hneeded] at hrest
    exact .promoted (adds_of_promotionWrapper hrest)
  · rw [if_neg hneeded] at hrest
    obtain ⟨isIface, hiface, hrest⟩ := exists_of_ask hrest
    cases isIface with
    | true => exact .invoked hiface (recalls_of_interfaceWrapper hrest)
    | false => exact found_of_concreteBody hrest

/-- What a memory does not hold is found or made, and kept. -/
theorem recalls_of_lookup (memory : Memory (TypeId × String)) {key : TypeId × String}
    {res : Except BuildError BodyId}
    (hrun : (match (memory.entries p).lookup key with
      | some id => return id
      | none => do
        let id ← resolve sel
        modify (memory.keep key id)
        return id : Request BodyId).run.run p = .ok (res, q)) :
    Recalls memory key (Found sel) p res q := by
  rcases hlookup : (memory.entries p).lookup key with _ | id
  · rw [hlookup] at hrun
    rcases cases_of_bind hrun with ⟨e, hfail, rfl⟩ | ⟨id, p₁, hok, hkeep⟩
    · exact .failed hlookup (found_of_resolve hfail)
    · cases hkeep
      exact .kept hlookup (found_of_resolve hok)
  · rw [hlookup] at hrun
    cases hrun
    exact .known hlookup

/-- **A request for the body behind a selection** is answered by the memory that the selection
belongs to. -/
theorem recalls_of_bodyOf {res : Except BuildError BodyId}
    (hrun : (bodyOf sel).run.run p = .ok (res, q)) :
    ∃ decl inSet, p.types.func sel.method = .ok decl ∧ p.types.inMethodSet sel = .ok inSet ∧
      Recalls (selectionMemory inSet) (sel.recv, decl.id) (Found sel) p res q := by
  obtain ⟨decl, hdecl, hrun⟩ := exists_of_ask hrun
  obtain ⟨inSet, hinSet, hrun⟩ := exists_of_ask hrun
  refine ⟨decl, inSet, hdecl, hinSet, ?_⟩
  cases inSet with
  | true => exact recalls_of_lookup (selectionMemory true) hrun
  | false => exact recalls_of_lookup (selectionMemory false) hrun

/-! ## Method sets -/

/-- What becomes of a member of the method set of `ty`. -/
def MemberRecalls (ty : TypeId) (sel : Selection) (p : Program) (res : Except BuildError BodyId)
    (q : Program) : Prop :=
  ∃ decl, p.types.func sel.method = .ok decl ∧
    Recalls (selectionMemory true) (ty, decl.id) (Found sel) p res q

theorem memberRecalls_of_run {ty : TypeId} {res : Except BuildError Unit}
    (hrun : (resolveMember ty sel).run.run p = .ok (res, q)) :
    ∃ r, MemberRecalls ty sel p r q ∧ res = r.map fun _ => () := by
  obtain ⟨decl, hdecl, hrun⟩ := exists_of_ask hrun
  rw [get_run] at hrun
  rcases hlookup : p.members.lookup (ty, decl.id) with _ | id
  · rw [hlookup, if_pos Option.isNone_none] at hrun
    rcases cases_of_bind hrun with ⟨e, hfail, rfl⟩ | ⟨id, p₁, hok, hkeep⟩
    · exact ⟨.error e, ⟨decl, hdecl, .failed hlookup (found_of_resolve hfail)⟩, rfl⟩
    · cases hkeep
      exact ⟨.ok id, ⟨decl, hdecl, .kept hlookup (found_of_resolve hok)⟩, rfl⟩
  · rw [hlookup, Option.isNone_some, if_neg Bool.false_ne_true] at hrun
    cases hrun
    exact ⟨.ok id, ⟨decl, hdecl, .known hlookup⟩, rfl⟩

/-- The members of a list were resolved one after another. -/
inductive Fills (ty : TypeId) (p : Program) : List Selection → Program → Prop
  | nil : Fills ty p [] p
  | snoc {done : List Selection} {sel : Selection} {id : BodyId} {q r : Program}
    (h : Fills ty p done q) (hsel : MemberRecalls ty sel q (.ok id) r) :
    Fills ty p (done ++ [sel]) r

/-- **Members are resolved until one fails.** -/
theorem fills_of_forM {ty : TypeId} {res : Except BuildError Unit} (l : List Selection)
    {done : List Selection} {p₀ : Program} (h : Fills ty p₀ done p)
    (hrun : (l.forM (resolveMember ty)).run.run p = .ok (res, q)) :
    (res = .ok () ∧ Fills ty p₀ (done ++ l) q) ∨
      ∃ more sel rest p₁ e, l = more ++ sel :: rest ∧ Fills ty p₀ (done ++ more) p₁ ∧
        MemberRecalls ty sel p₁ (.error e) q ∧ res = .error e := by
  induction l generalizing done p with
  | nil =>
    cases hrun
    exact .inl ⟨rfl, (List.append_nil done).symm ▸ h⟩
  | cons sel l ih =>
    rcases cases_of_bind (hrun : (resolveMember ty sel >>= fun _ => l.forM (resolveMember ty) :
      Request Unit).run.run p = _) with ⟨e, hfail, rfl⟩ | ⟨u, p₁, hok, hrest⟩
    · obtain ⟨r, hsel, hr⟩ := memberRecalls_of_run hfail
      cases r <;> cases hr
      exact .inr ⟨[], sel, l, p, e, rfl, (List.append_nil done).symm ▸ h, hsel, rfl⟩
    · obtain ⟨r, hsel, hr⟩ := memberRecalls_of_run hok
      cases r <;> cases hr
      have hassoc : ∀ l' : List Selection, done ++ sel :: l' = (done ++ [sel]) ++ l' := by simp
      rcases ih (h.snoc hsel) hrest with ⟨rfl, hfills⟩ | ⟨more, sel', rest, p₂, e, rfl, hfills, h'⟩
      · exact .inl ⟨rfl, hassoc l ▸ hfills⟩
      · exact .inr ⟨sel :: more, sel', rest, p₂, e, rfl, hassoc more ▸ hfills, h'⟩

/-- What becomes of a request for the method set of a type. -/
inductive Collects (ty : TypeId) (p : Program) :
    Except BuildError (List (String × BodyId)) → Program → Prop
  /-- it is complete already -/
  | known (hty : ty ∈ p.complete) : Collects ty p (.ok (p.membersOf ty)) p
  /-- all its members are resolved -/
  | completed {sels : List Selection} {q : Program} (hty : ty ∉ p.complete)
    (hsels : p.types.methodSet ty = .ok sels) (h : Fills ty p sels q) :
    Collects ty p (.ok (q.membersOf ty)) { q with complete := ty :: q.complete }
  /-- a member fails -/
  | failed {done rest : List Selection} {sel : Selection} {e : BuildError} {p₁ q : Program}
    (hty : ty ∉ p.complete) (hsels : p.types.methodSet ty = .ok (done ++ sel :: rest))
    (h : Fills ty p done p₁) (hsel : MemberRecalls ty sel p₁ (.error e) q) :
    Collects ty p (.error e) q

theorem collects_of_methodSet {ty : TypeId} {res : Except BuildError (List (String × BodyId))}
    (hrun : (methodSet ty).run.run p = .ok (res, q)) : Collects ty p res q := by
  rw [methodSet, get_run] at hrun
  by_cases hcomplete : ty ∈ p.complete
  · rw [if_neg (not_not_intro hcomplete)] at hrun
    cases hrun
    exact .known hcomplete
  · rw [if_pos hcomplete] at hrun
    obtain ⟨sels, hsels, hrun⟩ := exists_of_ask hrun
    rcases cases_of_bind hrun with ⟨e, hfail, rfl⟩ | ⟨u, p₁, hok, hend⟩
    · rcases fills_of_forM sels .nil hfail with ⟨⟨⟩, -⟩ | ⟨done, sel, rest, p₁, e, rfl, h, hsel, he⟩
      cases he
      exact .failed hcomplete hsels h hsel
    · rcases fills_of_forM sels .nil hok with ⟨-, h⟩ | ⟨_, _, _, _, _, _, _, _, ⟨⟩⟩
      cases hend
      exact .completed hcomplete hsels h

end Program

end MethodSSA
