import MethodSSA.Proofs.Program.Building

/-!
# Promotion wrappers

What the body of a promotion wrapper is (`PromotionBody`), and that building one gives
such a body for every selection that has a way (`Route`): the code follows the fields that
the walk went by.
-/

namespace MethodSSA

/-- The signature of a promotion wrapper: that of the method, taken by the selection's
receiver type. -/
def Selection.signature (sel : Selection) (sig : Signature) : Signature :=
  { sig with recv := some ⟨"recv", sel.recv⟩ }

/-! ## The body -/

/-- The first part of a promotion wrapper: it takes the receiver and the formal
parameters, and goes from the receiver to the address of the object that has the method. -/
structure Forwarding (t : TypeTable) (sel : Selection) (sig : Signature) (f : Function)
    (recv : ValueId) (formals : List ValueId) (elem : TypeId) (target : ValueId)
    (code : List Instr) : Prop where
  params : f.params = recv :: formals
  freeVars : f.freeVars = []
  receiver : TypedAs f.values recv sel.recv
  formals : List.Forall₂ (FormalTyped t f.values sig) sig.params.zipIdx formals
  way : ∃ base isPtr start startCode pathCode, t.stripPointer sel.recv = .ok (base, isPtr) ∧
    StartCode t f.values sel.recv recv base isPtr start startCode ∧
    PathCode t f.values base start sel.fieldPath elem target pathCode ∧
    code = startCode ++ pathCode
  target : Points t f.values target elem

/-- **The body of a promotion wrapper**: the way to the object, and a tail call on it. -/
inductive PromotionBody (t : TypeTable) (sel : Selection) (sig : Signature) (elem : TypeId)
    (f : Function) : (body? : Option BodyId) → Prop
  /-- the declared body of a concrete method is called with the object or its address -/
  | direct {body : BodyId} {recv target arg : ValueId} {formals results : List ValueId}
    {code receiverCode resultCode : List Instr}
    (hway : Forwarding t sel sig f recv formals elem target code)
    (harg : ReceiverCode t f.values elem sel.method target arg receiverCode)
    (hresults : ResultCode t f.values ⟨.direct body, arg :: formals⟩ sig.results resultCode results)
    (hblock : OneBlock f (code ++ receiverCode ++ resultCode) results) :
    PromotionBody t sel sig elem f (some body)
  /-- an abstract method is invoked on the interface -/
  | invoke {recv target iface : ValueId} {formals results : List ValueId}
    {code resultCode : List Instr}
    (hway : Forwarding t sel sig f recv formals elem target code)
    (hiface : TypedAs f.values iface elem)
    (hresults : ResultCode t f.values ⟨.invoke iface sel.method, formals⟩ sig.results resultCode
      results)
    (hblock : OneBlock f (code ++ [.plain (.load target) (some iface)] ++ resultCode) results) :
    PromotionBody t sel sig elem f none

section Calls

variable {t : TypeTable} {vals : List Value} {i : Instr} {c : Call}

end Calls

/-- The receiver of a concrete method is taken with the type that the method declares: the
type of pointers to `elem` has one identifier. -/
theorem ReceiverCode.typed {t : TypeTable} (w : t.WellFormed) {vals : List Value} {elem : TypeId}
    {m : FuncId} {target arg : ValueId} {code : List Instr}
    (h : ReceiverCode t vals elem m target arg code) (hdecl : t.Declares elem m)
    (htarget : Points t vals target elem) :
    ∃ recv, t.receiver? m = .ok (some recv) ∧ TypedAs vals arg recv := by
  obtain ⟨recv, hrecv, -, hmode⟩ := w.receiver_of_declares hdecl
  refine ⟨recv, hrecv, ?_⟩
  cases h with
  | address hptr =>
    rcases hmode with ⟨-, hval⟩ | ⟨hget, -⟩
    · cases hptr.symm.trans hval
    · obtain ⟨ty, hty, hget'⟩ := htarget
      rw [w.sound.get_inj hget hget']
      exact hty
  | content hval hw =>
    rcases hmode with ⟨rfl, -⟩ | ⟨-, hptr⟩
    · exact hw
    · cases hptr.symm.trans hval

/-- What a promotion wrapper says of itself: it has the name and the place of its method, and
the method's signature with the receiver of the selection. -/
def PromotionHeader (t : TypeTable) (sel : Selection) (sig : Signature) (f : Function) : Prop :=
  ∃ decl own t' text, t.func sel.method = .ok decl ∧ t.signatureOf decl.sig = .ok sig ∧
    t.intern (.signature (sel.signature sig)) = (own, t') ∧
    t'.funcText sel.method = .ok text ∧
    f.header = { Function.empty decl.name own with
      synthetic := some ("wrapper for " ++ text), method := some sel, pos := decl.pos }

theorem Forwarding.emits {b b' : Builder} {sel : Selection} {sig : Signature} {recv : ValueId}
    {formals : List ValueId} {elem : TypeId} {target : ValueId} {code more : List Instr}
    (h : Forwarding b.types sel sig b.func recv formals elem target code) (e : b.Emits more b') :
    Forwarding b'.types sel sig b'.func recv formals elem target code := by
  obtain ⟨vs, hvs, -⟩ := e.values
  obtain ⟨base, isPtr, start, startCode, pathCode, hstrip, hstart, hpath, hcode⟩ := h.way
  refine ⟨e.params.trans h.params, e.freeVars.trans h.freeVars, e.typedAs h.receiver, ?_, ?_,
    e.points h.target⟩
  · rw [hvs]
    exact h.formals.imp fun _ _ hv => hv.append e.types vs
  · rw [hvs]
    exact ⟨base, isPtr, start, startCode, pathCode, e.types.stripPointer hstrip,
      hstart.append e.types vs, hpath.append e.types vs, hcode⟩

/-! ## Building it -/

namespace Program

open Builder

/-- The second part of a promotion wrapper, from the address of the object on. -/
def forwardFrom (sel : Selection) (body? : Option BodyId) (formals : List ValueId)
    (target : ValueId) : TryBuild Unit := do
  if ← Builder.isAbstract sel.method then
    let iface ← Builder.load target
    Builder.tailCall ⟨.invoke iface sel.method, formals⟩
  else
    let target ←
      if ← Builder.hasPointerReceiver sel.method then pure target else Builder.load target
    let body ← requireBody body? sel.method (Builder.funcText sel.method)
    Builder.tailCall ⟨.direct body, target :: formals⟩

/-- A draft that says what a promotion wrapper is for. -/
def describe (b : Builder) (sel : Selection) (decl : FuncDecl) (text : String) : Builder :=
  { b with func := { b.func with
      synthetic := some ("wrapper for " ++ text), method := some sel, pos := decl.pos } }

variable {b : Builder} {sel : Selection} {sig : Signature} {base elem : TypeId} {isPtr ptr : Bool}

/-- The receiver is taken by address, whatever follows. -/
theorem start_settles {E : Fault → Prop} {Q : Except BuildError Unit → Builder → Prop}
    {k : ValueId → TryBuild Unit} (s : b.Straight) {recv : ValueId}
    (hrecv : TypedAs b.func.values recv sel.recv)
    (hstrip : b.types.stripPointer sel.recv = .ok (base, isPtr))
    (hk : ∀ {start code b'}, Emits b code b' → Points b'.types b'.func.values start base →
      StartCode b'.types b'.func.values sel.recv recv base isPtr start code →
      Settles E (k start).run b' Q) :
    Settles E (if isPtr = true then (do let start ← pure recv; k start)
      else (do let start ← Builder.spill recv; k start) : TryBuild Unit).run b Q := by
  obtain ⟨ty, hty, ⟨rfl, rfl⟩ | ⟨-, rfl, rfl⟩⟩ := TypeTable.stripPointer_eq_ok_iff.mp hstrip
  · rw [if_pos rfl, pure_bind]
    exact hk (.refl s) ⟨_, hrecv, hty⟩ (.pointer hty)
  · rw [if_neg Bool.false_ne_true]
    refine .afterGives (Gives.lift (spill_yields s hrecv)) ?_
    rintro a b' ⟨he, ha⟩
    exact hk he ha (.copied ha)

/-- The first part of a promotion wrapper is built, whatever follows. -/
theorem promotionSteps_settles {E : Fault → Prop} {Q : Except BuildError Unit → Builder → Prop}
    {decl : FuncDecl} {text : String} (s : b.Straight) (w : b.types.WellFormed)
    (r : b.types.Route sel base elem isPtr ptr) (hblank : (describe b sel decl text).Blank)
    (hsig : b.types.signatureOf b.func.signature = .ok sig)
    (hheld : ∀ p ∈ sig.params, b.types.Holds p.ty) {body? : Option BodyId}
    (hrest : ∀ {b' recv formals target code}, (describe b sel decl text).Keeps b' →
      Forwarding b'.types sel sig b'.func recv formals elem target code → b'.Numbered code →
      Settles E (forwardFrom sel body? formals target).run b' Q) :
    Settles E (promotionSteps sel decl text body?).run b Q := by
  have hrecv : b.types.Holds sel.recv := by
    obtain ⟨ty, hty, -⟩ := TypeTable.stripPointer_eq_ok_iff.mp r.start
    exact TypeTable.holds_of_get hty
  have s₀ : (describe b sel decl text).Straight :=
    ⟨s.sound, s.current, s.blocks, s.placed, s.held, s.signature, s.recover⟩
  refine .stepLift rfl (.afterGives (Gives.lift (addParam_yields s₀ "recv" hrecv)) ?_)
  rintro recv b₁ ⟨ht₁, hrecv₁, htypes₁⟩
  have hsig₁ : b₁.types.signatureOf b₁.func.signature = .ok sig := by
    rw [htypes₁, ht₁.signature]
    exact hsig
  refine .afterGives (Gives.lift (addFormals_yields ht₁.straight hsig₁ fun p hp =>
    ht₁.types.holds (hheld p hp))) ?_
  rintro formals b₂ ⟨ht₂, hformals⟩
  have ht := ht₁.trans ht₂
  refine .stepLift (Builder.ask_run (ht.types.isPointer (w.isPointer_recv r))) ?_
  refine start_settles ht.straight (ht₂.typedAs hrecv₁) (ht.types.stripPointer r.start) ?_
  intro start startCode b₃ he₃ hpoints hstart
  have g₃ := ht.types.trans he₃.types
  refine .stepLift (answer_run (Selection.way_eq r.place) b₃) ?_
  refine .afterGives (followPath_gives he₃.straight hpoints (g₃.leads r.leads)
    (g₃.isPointer (w.isPointer_of_ends r.ends))) ?_
  rintro target b₄ ⟨pathCode, he₄, htarget, hpath⟩
  have he := he₃.trans he₄
  obtain ⟨vs₄, hvs₄, -⟩ := he₄.values
  obtain ⟨vs, hvs, -⟩ := he.values
  refine @hrest _ _ _ _ (startCode ++ pathCode) (ht.toKeeps.trans he.toKeeps)
    ⟨?_, ?_, he.typedAs (ht₂.typedAs hrecv₁), ?_, ?_, htarget⟩
    (he.numbered (ht.numbered hblank.numbered))
  · rw [he.params, ht.params, hblank.params]
    rfl
  · rw [he.freeVars, ht.freeVars, hblank.freeVars]
  · rw [hvs]
    exact hformals.imp fun _ _ h => h.append he.types vs
  · refine ⟨base, isPtr, start, startCode, pathCode, ?_, ?_, hpath, rfl⟩
    · exact (ht.types.trans he.types).stripPointer r.start
    · rw [hvs₄]
      exact hstart.append he₄.types vs₄

/-- The receiver of a concrete method is taken as the method wants it, whatever follows. -/
theorem receiver_settles {E : Fault → Prop} {Q : Except BuildError Unit → Builder → Prop}
    {k : ValueId → TryBuild Unit} (s : b.Straight) {m : FuncId} {target : ValueId} {byPtr : Bool}
    (htarget : Points b.types b.func.values target elem)
    (hmode : b.types.hasPointerReceiver m = .ok byPtr)
    (hk : ∀ {arg code b'}, Emits b code b' →
      ReceiverCode b'.types b'.func.values elem m target arg code →
      Settles E (k arg).run b' Q) :
    Settles E (do
      if ← Builder.hasPointerReceiver m then (do let arg ← pure target; k arg)
      else (do let arg ← Builder.load target; k arg) : TryBuild Unit).run b Q := by
  refine .stepLift (Builder.ask_run hmode) ?_
  rcases byPtr with _ | _
  · refine .afterGives (Gives.lift (load_yields s htarget)) ?_
    rintro w b' ⟨he, hw, -⟩
    exact hk he (.content (he.types.hasPointerReceiver hmode) hw)
  · exact hk (.refl s) (.address hmode)

section Calls

variable {E : Fault → Prop} {recv target : ValueId} {formals : List ValueId}
  {code receiverCode : List Instr} {body? : Option BodyId} {b₁ : Builder}
  (h : Forwarding b.types sel sig b.func recv formals elem target code)
  (hn : b.Numbered code) (hsig : b.types.signatureOf b.func.signature = .ok sig)
  (hheld : ∀ r ∈ sig.results, b.types.Holds r.ty)
include h hn hsig hheld

/-- The wrapper is closed by the call of a declared body. -/
theorem callBody_settles {body : BodyId} (habs : b.types.isAbstract sel.method = .ok false)
    (he₁ : Emits b receiverCode b₁) {arg : ValueId}
    (harg : ReceiverCode b₁.types b₁.func.values elem sel.method target arg receiverCode) :
    Settles E (liftM (tailCall ⟨.direct body, arg :: formals⟩) : TryBuild Unit).run b₁
      (Closes b (fun t f => ∃ callee, PromotionBody t sel sig elem f callee ∧
        Behind b.types (some body) sel.method callee) (Lacks b.types (some body) sel.method)) := by
  refine .ofGives (tailCall_closes he₁.straight (he₁.numbered hn) ⟨.direct body, arg :: formals⟩
    (he₁.signatureOf hsig) fun r hr => he₁.types.holds (hheld r hr)) ?_
  rintro _ b' ⟨b₂, resultCode, vs, he₂, rfl, hresults, hblock⟩
  obtain ⟨vs₂, hvs₂, -⟩ := he₂.values
  have hway := (h.emits he₁).emits he₂
  have harg₂ := harg.append he₂.types vs₂
  rw [← hvs₂] at harg₂
  refine .closed (he₁.toKeeps.trans he₂.toKeeps) ⟨some body, ?_, .concrete habs rfl⟩
  exact .direct ⟨hway.params, hway.freeVars, hway.receiver, hway.formals, hway.way, hway.target⟩
    harg₂ hresults hblock

/-- The wrapper is closed by an invocation on the interface that the way leads to. -/
theorem invoke_settles (habs : b.types.isAbstract sel.method = .ok true) {iface : ValueId}
    (he₁ : Emits b [.plain (.load target) (some iface)] b₁)
    (hiface : TypedAs b₁.func.values iface elem) :
    Settles E (liftM (tailCall ⟨.invoke iface sel.method, formals⟩) : TryBuild Unit).run b₁
      (Closes b (fun t f => ∃ callee, PromotionBody t sel sig elem f callee ∧
        Behind b.types body? sel.method callee) (Lacks b.types body? sel.method)) := by
  refine .ofGives (tailCall_closes he₁.straight (he₁.numbered hn)
    ⟨.invoke iface sel.method, formals⟩ (he₁.signatureOf hsig)
    fun r hr => he₁.types.holds (hheld r hr)) ?_
  rintro _ b' ⟨b₂, resultCode, vs, he₂, rfl, hresults, hblock⟩
  have hway := (h.emits he₁).emits he₂
  refine .closed (he₁.toKeeps.trans he₂.toKeeps) ⟨none, ?_, .abstract habs⟩
  exact .invoke ⟨hway.params, hway.freeVars, hway.receiver, hway.formals, hway.way, hway.target⟩
    (he₂.typedAs hiface) hresults hblock

end Calls

/-- The second part of a promotion wrapper is built, unless it needs a body that is not
declared. -/
theorem forwardFrom_settles {recv target : ValueId} {formals : List ValueId} {code : List Instr}
    (body? : Option BodyId) (s : b.Straight) (w : b.types.WellFormed)
    (h : Forwarding b.types sel sig b.func recv formals elem target code)
    (hn : b.Numbered code) (hsig : b.types.signatureOf b.func.signature = .ok sig)
    (hheld : ∀ r ∈ sig.results, b.types.Holds r.ty)
    (hends : b.types.Declares elem sel.method ∨ b.types.Lists elem sel.method) :
    Settles b.types.Endless (forwardFrom sel body? formals target).run b
      (Closes b (fun t f => ∃ callee, PromotionBody t sel sig elem f callee ∧
        Behind b.types body? sel.method callee) (Lacks b.types body? sel.method)) := by
  rcases hends with hdecl | hlist
  · obtain ⟨recvTy, hrecv, habs, hmode⟩ := w.receiver_of_declares hdecl
    obtain ⟨byPtr, hmode⟩ : ∃ byPtr, b.types.hasPointerReceiver sel.method = .ok byPtr := by
      rcases hmode with ⟨-, h⟩ | ⟨-, h⟩
      · exact ⟨_, h⟩
      · exact ⟨_, h⟩
    refine .stepLift (Builder.ask_run habs) (receiver_settles s h.target hmode ?_)
    intro arg receiverCode b₁ he₁ harg
    rcases body? with _ | body
    · -- the error names the method by its text
      obtain ⟨f, sig', hf, hsig', -⟩ := TypeTable.exists_signature_of_receiver? hrecv
      have hfaults := TypeTable.funcText_faults he₁.straight.sound
        (w.grown he₁.types).methodsTyped ((he₁.types.func _).trans hf)
        (he₁.types.signatureOf (TypeTable.signatureOf_eq hsig'))
      refine (requireBody_none_settles he₁.straight hfaults (he₁.types.isAbstract habs)).mono
        (fun e => he₁.types.endless s.sound) fun _ _ hend => ?_
      exact hend.after he₁.toKeeps (fun _ _ => False.elim) fun _ he => he.of_grown he₁.types habs
    · exact callBody_settles h hn hsig hheld habs he₁ harg
  · have habs := w.isAbstract_of_lists hlist
    refine .stepLift (Builder.ask_run habs) ?_
    refine .afterGives (Gives.lift (load_yields s h.target)) ?_
    rintro iface b₁ ⟨he₁, hiface, -⟩
    exact invoke_settles h hn hsig hheld habs he₁ hiface

/-! ## Making the wrapper -/

/-- What a request for a promotion wrapper comes to. -/
inductive PromotionAnswer (p : Program) (sel : Selection) (elem : TypeId) :
    Except BuildError BodyId → Program → Prop
  /-- a wrapper is made -/
  | made {f : Function} {callee : Option BodyId} {sig : Signature} {q : Program}
    (hwraps : p.Wraps f q) (hhead : PromotionHeader p.types sel sig f)
    (hbody : PromotionBody q.types sel (sel.signature sig) elem f callee)
    (hbehind : Behind p.types (p.declared.lookup sel.method) sel.method callee) :
    PromotionAnswer p sel elem (.ok ⟨p.bodies.length⟩) q
  /-- a concrete method has no body yet -/
  | missing {e : BuildError} {q : Program} (hq : p.Enters q)
    (he : Lacks p.types (p.declared.lookup sel.method) sel.method e) :
    PromotionAnswer p sel elem (.error e) q

/-- The steps of a promotion wrapper close its block, once its signature is entered. -/
theorem promotionSteps_closes (p : Program) (w : p.types.WellFormed)
    (r : p.types.Route sel base elem isPtr ptr) {own : TypeId}
    (hget : p.types.get own = .ok (.signature (sel.signature sig))) (decl : FuncDecl)
    (text : String) (body? : Option BodyId) :
    Settles p.types.Endless (promotionSteps sel decl text body?).run (p.draft decl.name own)
      (Closes (describe (p.draft decl.name own) sel decl text)
        (fun t f => ∃ callee, PromotionBody t sel (sel.signature sig) elem f callee ∧
          Behind p.types body? sel.method callee) (Lacks p.types body? sel.method)) := by
  obtain ⟨-, -, abs, -, -, habs⟩ := w.exists_signature r
  have hsig := signatureOf_get hget
  have hheld := holds_of_signature w.sound hget
  have hstraight := draft_straight w.sound (TypeTable.holds_of_get hget) decl.name
  refine promotionSteps_settles hstraight w r ⟨rfl, rfl, rfl, rfl⟩ hsig
    (fun v hv => hheld v (List.mem_append_left _ hv)) ?_
  intro b₁ recv formals target code hk hway hn
  have g : p.types.Grown b₁.types := hk.types
  have hsig₁ : b₁.types.signatureOf b₁.func.signature = .ok (sel.signature sig) :=
    hk.signatureOf hsig
  refine (forwardFrom_settles body? hk.straight (w.grown g) hway hn hsig₁
    (fun v hv => g.holds (hheld v (List.mem_append_right _ hv))) (g.route r).ends).mono
    (fun _ he => g.endless w.sound he) fun res b' hend => ?_
  refine hend.after hk ?_ fun _ he => he.of_grown g habs
  rintro t f ⟨callee, hbody, hbehind⟩
  exact ⟨callee, hbody, hbehind.of_grown g habs⟩

/-- **A promotion wrapper comes to what its steps come to**: its signature is entered, the
function is built, and it is kept if the steps do not fail. -/
theorem promotionWrapper_of_steps (p : Program) (hs : p.types.Sound) (hm : p.types.MethodsTyped)
    (hrecv : p.types.Holds sel.recv) {decl : FuncDecl} (hdecl : p.types.func sel.method = .ok decl)
    (hsig : p.types.signatureOf decl.sig = .ok sig) {P : TypeTable → Function → Prop}
    {F : BuildError → Prop}
    (hsteps : ∀ {t own text}, p.types.Grown t → t.get own = .ok (.signature (sel.signature sig)) →
      Settles t.Endless (promotionSteps sel decl text (p.declared.lookup sel.method)).run
        (draft { p with types := t } decl.name own)
        (Closes (describe (draft { p with types := t } decl.name own) sel decl text) P F)) :
    Settles p.types.Endless (promotionWrapper sel).run p fun res q =>
      (∃ f, res = .ok ⟨p.bodies.length⟩ ∧ p.Wraps f q ∧ PromotionHeader p.types sel sig f ∧
        P q.types f) ∨
      ∃ e, res = .error e ∧ p.Enters q ∧ F e := by
  have hadmits : p.types.Admits (.signature (sel.signature sig)) := by
    refine admits_signature hs hsig ?_
    rintro _ ⟨⟩
    exact hrecv
  refine .stepGiven (Program.ask_run hdecl) (.stepGiven (Program.ask_run hsig) ?_)
  -- the signature of the wrapper is entered
  have g : p.types.Grown (p.types.intern (.signature (sel.signature sig))).2 :=
    TypeTable.Grown.refl.internPlain hadmits rfl
  have hget := TypeTable.get_intern p.types (.signature (sel.signature sig))
  generalize hentered : p.types.intern (.signature (sel.signature sig)) = entered at g hget
  obtain ⟨own, t⟩ := entered
  refine .stepGiven (Program.intern_run hentered) ?_
  have hfaults : FaultsOnly t.Endless (t.funcText sel.method) :=
    TypeTable.funcText_faults (g.sound hs) (g.methodsTyped hs hm) ((g.func _).trans hdecl)
      (g.signatureOf hsig)
  rcases htext : t.funcText sel.method with e | text
  · exact .faultGiven (Program.ask_fault htext) (g.endless hs (hfaults e htext))
  refine .stepGiven (Program.ask_run htext) (.stepGiven rfl ?_)
  -- the function is built and kept
  refine .bind ((buildBlock_settles rfl (hsteps g hget)).mono (fun _ he => g.endless hs he)
    fun _ _ => id) ?_
  intro res q hend
  cases hend with
  | @finished f _ hq hhead hp =>
    obtain ⟨t', g', rfl⟩ := hq
    exact .inl (.of_run rfl (.inl ⟨f, rfl, ⟨t', g.trans g', rfl⟩,
      ⟨decl, own, t, text, hdecl, hsig, hentered, htext, hhead⟩, hp⟩))
  | failed hq he =>
    obtain ⟨t', g', rfl⟩ := hq
    exact .inl (.of_run rfl (.inr ⟨_, rfl, ⟨t', g.trans g', rfl⟩, he⟩))

/-- **A promotion wrapper is made** for every selection of a well-formed table, unless the
method is concrete and has no body yet. -/
theorem promotionWrapper_settles (p : Program) (w : p.types.WellFormed)
    (r : p.types.Route sel base elem isPtr ptr) :
    Settles p.types.Endless (promotionWrapper sel).run p (PromotionAnswer p sel elem) := by
  obtain ⟨decl, sig, abs, hdecl, hsig, habs⟩ := w.exists_signature r
  obtain ⟨ty, hty, -⟩ := TypeTable.stripPointer_eq_ok_iff.mp r.start
  refine (promotionWrapper_of_steps p w.sound w.methodsTyped (TypeTable.holds_of_get hty) hdecl hsig
    (P := fun t f => ∃ callee, PromotionBody t sel (sel.signature sig) elem f callee ∧
      Behind p.types (p.declared.lookup sel.method) sel.method callee)
    (F := Lacks p.types (p.declared.lookup sel.method) sel.method) ?_).mono
    (fun _ => id) fun res q hend => ?_
  · intro t own text g hget
    refine (promotionSteps_closes { p with types := t } (w.grown g) (g.route r) hget decl text
      (p.declared.lookup sel.method)).mono (fun _ => id) fun _ _ hend => hend.imp ?_ ?_
    · rintro _ _ ⟨callee, hbody, hbehind⟩
      exact ⟨callee, hbody, hbehind.of_grown g habs⟩
    · exact fun _ he => he.of_grown g habs
  · rcases hend with ⟨f, rfl, hwraps, hhead, callee, hbody, hbehind⟩ | ⟨e, rfl, hq, he⟩
    · exact .made hwraps hhead hbody hbehind
    · exact .missing hq he

end Program

end MethodSSA
