import MethodSSA.Proofs.Program.Building

/-!
# Wrappers of interface methods and of bound methods

Both call at once what they stand for, with the parameters that they take. The first gets
the interface as a parameter (`InterfaceBody`), the second has the receiver captured
(`BoundBody`). Either is made once for each method: a later request is answered from the
memory, whatever receiver type it names.
-/

namespace MethodSSA

/-! ## The bodies -/

/-- **The body of an interface wrapper**: the method is invoked on the first parameter. -/
inductive InterfaceBody (t : TypeTable) (recv : TypeId) (m : FuncId) (sig : Signature)
    (f : Function) : Prop
  | intro {iface : ValueId} {formals results : List ValueId} {code : List Instr}
    (hparams : f.params = iface :: formals) (hfree : f.freeVars = [])
    (hiface : TypedAs f.values iface recv)
    (hformals : List.Forall₂ (FormalTyped t f.values sig) sig.params.zipIdx formals)
    (hresults : ResultCode t f.values ⟨.invoke iface m, formals⟩ sig.results code results)
    (hblock : OneBlock f code results)

/-- What a bound wrapper does with its captured receiver: a declared body takes it first,
on an interface the method is invoked. -/
def boundCall (m : FuncId) (recv : ValueId) (formals : List ValueId) : Option BodyId → Call
  | some body => ⟨.direct body, recv :: formals⟩
  | none => ⟨.invoke recv m, formals⟩

/-- **The body of a bound wrapper**: the method is called on the captured receiver. -/
inductive BoundBody (t : TypeTable) (recv : TypeId) (m : FuncId) (sig : Signature)
    (f : Function) (callee : Option BodyId) : Prop
  | intro {obj : ValueId} {formals results : List ValueId} {code : List Instr}
    (hparams : f.params = formals) (hfree : f.freeVars = [obj])
    (hobj : TypedAs f.values obj recv)
    (hformals : List.Forall₂ (FormalTyped t f.values sig) sig.params.zipIdx formals)
    (hresults : ResultCode t f.values (boundCall m obj formals callee) sig.results code results)
    (hblock : OneBlock f code results)

namespace Program

open Builder

variable {E : Fault → Prop} {b : Builder} {recv : TypeId} {m : FuncId} {decl : FuncDecl}
  {sig : Signature} {text : String}

/-! ## Interface wrappers -/

/-- A draft that says what an interface wrapper is for. -/
def introduce (b : Builder) (m : FuncId) (decl : FuncDecl) (text : String) : Builder :=
  { b with func := { b.func with
      synthetic := some ("interface method wrapper for " ++ text ++ "." ++ decl.name)
      object := some m
      pos := decl.pos } }

theorem interfaceSteps_settles (s : b.Straight) (hblank : b.Blank) (hrecv : b.types.Holds recv)
    (hsig : b.types.signatureOf b.func.signature = .ok sig)
    (hheld : ∀ v ∈ sig.params ++ sig.results, b.types.Holds v.ty) :
    Settles E (interfaceSteps recv m decl text).run b
      (Closes (introduce b m decl text) (fun t f => InterfaceBody t recv m sig f)
        fun _ => False) := by
  have s₀ : (introduce b m decl text).Straight :=
    ⟨s.sound, s.current, s.blocks, s.placed, s.held, s.signature, s.recover⟩
  have hblank₀ : (introduce b m decl text).Blank :=
    ⟨hblank.params, hblank.freeVars, hblank.instrs, hblank.values⟩
  refine .stepLift rfl (.afterGives (Gives.lift (addParam_yields s₀ "recv" hrecv)) ?_)
  rintro iface b₁ ⟨ht₁, hiface, -⟩
  have hsig₀ : (introduce b m decl text).types.signatureOf
      (introduce b m decl text).func.signature = .ok sig := hsig
  refine .afterGives (Gives.lift (addFormals_yields ht₁.straight (ht₁.signatureOf hsig₀)
    fun p hp => ht₁.types.holds (hheld p (List.mem_append_left _ hp)))) ?_
  rintro formals b₂ ⟨ht₂, hformals⟩
  have ht := ht₁.trans ht₂
  refine .ofGives (tailCall_closes ht.straight (ht.numbered hblank₀.numbered)
    ⟨.invoke iface m, formals⟩ (ht.signatureOf hsig₀)
    fun r hr => ht.types.holds (hheld r (List.mem_append_right _ hr))) ?_
  rintro _ b' ⟨b₃, code, vs, he, rfl, hresults, hblock⟩
  obtain ⟨more, hmore, -⟩ := he.values
  refine .closed (ht.toKeeps.trans he.toKeeps) (.intro ?_ ?_ (he.typedAs (ht₂.typedAs hiface)) ?_
    hresults hblock)
  · change b₃.func.params = _
    rw [he.params, ht.params, hblank₀.params]
    rfl
  · change b₃.func.freeVars = _
    rw [he.freeVars, ht.freeVars, hblank₀.freeVars]
  · change List.Forall₂ (FormalTyped b₃.types b₃.func.values sig) _ _
    rw [hmore]
    exact hformals.imp fun _ _ h => h.append he.types more

/-- What an interface wrapper says of itself. -/
def InterfaceHeader (t : TypeTable) (recv : TypeId) (m : FuncId) (sig : Signature)
    (f : Function) : Prop :=
  ∃ decl own text, t.func m = .ok decl ∧ t.signatureOf decl.sig = .ok sig ∧
    t.typeText recv = .ok text ∧
    (t.intern (.signature { sig with recv := some ⟨"recv", recv⟩ })).1 = own ∧
    f.header = { Function.empty decl.name own with
      synthetic := some ("interface method wrapper for " ++ text ++ "." ++ decl.name)
      object := some m
      pos := decl.pos }

/-- What a request for an interface wrapper comes to. -/
inductive InterfaceAnswer (p : Program) (recv : TypeId) (m : FuncId) :
    Except BuildError BodyId → Program → Prop
  /-- the wrapper was made before -/
  | known {id : BodyId} (h : p.ifaceWrappers.lookup m = some id) :
    InterfaceAnswer p recv m (.ok id) p
  /-- the wrapper is made and remembered -/
  | made {f : Function} {sig : Signature} {q : Program} (hnone : p.ifaceWrappers.lookup m = none)
    (hwraps : p.Wraps f q) (hhead : InterfaceHeader p.types recv m sig f)
    (hbody : InterfaceBody q.types recv m { sig with recv := some ⟨"recv", recv⟩ } f) :
    InterfaceAnswer p recv m (.ok ⟨p.bodies.length⟩)
      { q with ifaceWrappers := (m, ⟨p.bodies.length⟩) :: q.ifaceWrappers }

/-- The function of an interface wrapper is built, once its signature is entered. -/
theorem buildInterface_settles (p : Program) (hs : p.types.Sound) (hrecv : p.types.Holds recv)
    {own : TypeId} (hget : p.types.get own = .ok (.signature sig)) :
    Settles E (buildFunction decl.name own (interfaceSteps recv m decl text)).run p
      (Finishes p (introduce (p.draft decl.name own) m decl text)
        (fun t f => InterfaceBody t recv m sig f) fun _ => False) :=
  buildBlock_settles rfl (interfaceSteps_settles
    (draft_straight hs (TypeTable.holds_of_get hget) decl.name) ⟨rfl, rfl, rfl, rfl⟩ hrecv
    (signatureOf_get hget) (holds_of_signature hs hget))

/-- **An interface wrapper is found or made** for every method with a signature. -/
theorem interfaceWrapper_settles (p : Program) (hs : p.types.Sound) (hm : p.types.MethodsTyped)
    (hrecv : p.types.Holds recv) (hdecl : p.types.func m = .ok decl)
    (hsig : p.types.signatureOf decl.sig = .ok sig) :
    Settles p.types.Endless (interfaceWrapper recv m).run p (InterfaceAnswer p recv m) := by
  refine .stepGiven rfl ?_
  rcases hlookup : p.ifaceWrappers.lookup m with _ | id
  · rcases htext : p.types.typeText recv with e | text
    · have he := TypeTable.typeText_faults hs hm hrecv e htext
      exact .stepGiven (Program.ask_run hdecl) (.faultGiven (Program.ask_fault htext) he)
    refine .stepGiven (Program.ask_run hdecl) (.stepGiven (Program.ask_run htext)
      (.stepGiven (Program.ask_run hsig) ?_))
    have hadmits : p.types.Admits (.signature { sig with recv := some ⟨"recv", recv⟩ }) := by
      refine admits_signature hs hsig ?_
      rintro _ ⟨⟩
      exact hrecv
    have g : p.types.Grown
        (p.types.intern (.signature { sig with recv := some ⟨"recv", recv⟩ })).2 :=
      TypeTable.Grown.refl.internPlain hadmits rfl
    have hget := TypeTable.get_intern p.types (.signature { sig with recv := some ⟨"recv", recv⟩ })
    generalize hentered : p.types.intern (.signature { sig with recv := some ⟨"recv", recv⟩ }) =
      entered at g hget
    obtain ⟨own, t⟩ := entered
    refine .stepGiven (Program.intern_run hentered) ?_
    refine .bind (buildInterface_settles { p with types := t } (g.sound hs) (g.holds hrecv) hget) ?_
    intro res q hend
    cases hend with
    | finished hq hhead hbody =>
      obtain ⟨t', g', rfl⟩ := hq
      exact .inl (.of_run rfl (.made hlookup ⟨t', g.trans g', rfl⟩
        ⟨decl, own, text, hdecl, hsig, htext, congrArg Prod.fst hentered, hhead⟩ hbody))
    | failed _ he => cases he
  · exact .inl (.of_run rfl (.known hlookup))

/-! ## Bound wrappers -/

/-- A draft that says what a bound wrapper is for. -/
def describeBound (b : Builder) (decl : FuncDecl) (text : String) : Builder :=
  { b with func := { b.func with
      synthetic := some ("bound method wrapper for " ++ text), pos := decl.pos } }

/-- A bound wrapper that has its variables is closed by its call. -/
theorem boundCall_settles {obj : ValueId} {formals : List ValueId} (s : b.Straight)
    (hn : b.Numbered []) (hsig : b.types.signatureOf b.func.signature = .ok sig)
    (hheld : ∀ r ∈ sig.results, b.types.Holds r.ty) (hparams : b.func.params = formals)
    (hfree : b.func.freeVars = [obj]) (hobj : TypedAs b.func.values obj recv)
    (hformals : List.Forall₂ (FormalTyped b.types b.func.values sig) sig.params.zipIdx formals)
    (callee : Option BodyId) :
    Settles E (liftM (tailCall (boundCall m obj formals callee)) : TryBuild Unit).run b
      (Closes b (fun t f => BoundBody t recv m sig f callee) fun _ => False) := by
  refine .ofGives (tailCall_closes s hn (boundCall m obj formals callee) hsig hheld) ?_
  rintro _ b' ⟨b₁, code, vs, he, rfl, hresults, hblock⟩
  obtain ⟨more, hmore, -⟩ := he.values
  refine .closed he.toKeeps (.intro (he.params.trans hparams) (he.freeVars.trans hfree)
    (he.typedAs hobj) ?_ hresults hblock)
  change List.Forall₂ (FormalTyped b₁.types b₁.func.values sig) _ _
  rw [hmore]
  exact hformals.imp fun _ _ h => h.append he.types more

/-- What a bound wrapper does, unless it needs a body that is not declared. -/
theorem boundSteps_settles (s : b.Straight) (w : b.types.WellFormed) (hblank : b.Blank)
    (hdecl : b.types.func m = .ok decl) {old : Signature}
    (hold : b.types.signatureOf decl.sig = .ok old) {v : Var} (hv : old.recv = some v)
    (hsig : b.types.signatureOf b.func.signature = .ok sig)
    (hheld : ∀ v ∈ sig.params ++ sig.results, b.types.Holds v.ty) (body? : Option BodyId) :
    Settles b.types.Endless (boundSteps v.ty m decl text body?).run b
      (Closes (describeBound b decl text) (fun t f => ∃ callee, BoundBody t v.ty m sig f callee ∧
        Behind b.types body? m callee) (Lacks b.types body? m)) := by
  have s₀ : (describeBound b decl text).Straight :=
    ⟨s.sound, s.current, s.blocks, s.placed, s.held, s.signature, s.recover⟩
  have hblank₀ : (describeBound b decl text).Blank :=
    ⟨hblank.params, hblank.freeVars, hblank.instrs, hblank.values⟩
  have hrecv : b.types.Holds v.ty := TypeTable.holds_receiver s.sound hold hv
  refine .stepLift rfl (.afterGives (Gives.lift (addFreeVar_yields s₀ "recv" hrecv)) ?_)
  rintro obj b₁ ⟨hk₁, hparams₁, hfree₁, hinstrs₁, ⟨x, hvalues₁, hobj₁⟩, hobj, -⟩
  have hn₁ : b₁.Numbered [] := by
    refine ⟨hinstrs₁.trans hblank₀.instrs, ?_⟩
    rw [hfree₁, hparams₁, hvalues₁, hblank₀.freeVars, hblank₀.params, hblank₀.values, hobj₁,
      hblank₀.values]
    rfl
  have hsig₀ : (describeBound b decl text).types.signatureOf
      (describeBound b decl text).func.signature = .ok sig := hsig
  refine .afterGives (Gives.lift (addFormals_yields hk₁.straight (hk₁.signatureOf hsig₀)
    fun p hp => hk₁.types.holds (hheld p (List.mem_append_left _ hp)))) ?_
  rintro formals b₂ ⟨ht, hformals⟩
  have hk₂ := hk₁.trans ht.toKeeps
  have hparams : b₂.func.params = formals := by
    rw [ht.params, hparams₁, hblank₀.params]
    rfl
  have hfree : b₂.func.freeVars = [obj] := by
    rw [ht.freeVars, hfree₁, hblank₀.freeVars]
    rfl
  -- the call, once its callee is known
  have hcall : ∀ callee : Option BodyId, Behind b.types body? m callee →
      Settles b.types.Endless (liftM (tailCall (boundCall m obj formals callee)) :
        TryBuild Unit).run b₂ (Closes (describeBound b decl text)
          (fun t f => ∃ callee, BoundBody t v.ty m sig f callee ∧ Behind b.types body? m callee)
          (Lacks b.types body? m)) := by
    intro callee hbehind
    refine (boundCall_settles ht.straight (ht.numbered hn₁) (hk₂.signatureOf hsig₀)
      (fun r hr => hk₂.types.holds (hheld r (List.mem_append_right _ hr))) hparams hfree
      (ht.typedAs hobj) hformals callee).mono (fun _ => id) fun _ _ hend => ?_
    exact hend.after hk₂ (fun _ _ hbody => ⟨callee, hbody, hbehind⟩) fun _ => False.elim
  have g : b.types.Grown b₂.types := hk₂.types
  have habs : b.types.isAbstract m = b.types.isInterface v.ty :=
    TypeTable.isAbstract_eq (by simp [TypeTable.receiver?_eq hdecl hold, hv])
  obtain ⟨u, hu⟩ := s.sound.exists_underlyingTy hrecv
  have hiface := TypeTable.isInterface_eq hu
  refine .stepLift (Builder.ask_run (g.isInterface hiface)) ?_
  rcases hsome : u.methods?.isSome with _ | _
  · rw [hsome, ← habs] at hiface
    rcases body? with _ | body
    · have hfaults := TypeTable.funcText_faults ht.straight.sound (w.grown g).methodsTyped
        ((g.func m).trans hdecl) (g.signatureOf hold)
      refine (requireBody_none_settles ht.straight hfaults (g.isAbstract hiface)).mono
        (fun _ => g.endless s.sound) fun _ _ hend => ?_
      exact hend.after hk₂ (fun _ _ => False.elim) fun _ he => he.of_grown g hiface
    · exact hcall (some body) (.concrete hiface rfl)
  · rw [hsome, ← habs] at hiface
    exact hcall none (.abstract hiface)

/-- What a bound wrapper says of itself. -/
def BoundHeader (t : TypeTable) (m : FuncId) (sig : Signature) (f : Function) : Prop :=
  ∃ decl own t' name text, t.func m = .ok decl ∧ t.signatureOf decl.sig = .ok sig ∧
    t.funcText m = .ok text ∧ t.intern (.signature { sig with recv := none }) = (own, t') ∧
    t'.funcName m = .ok name ∧
    f.header = { Function.empty ("bound$" ++ name) own with
      synthetic := some ("bound method wrapper for " ++ text), pos := decl.pos }

/-- What a request for a bound wrapper comes to. -/
inductive BoundAnswer (p : Program) (m : FuncId) : Except BuildError BodyId → Program → Prop
  /-- the wrapper was made before -/
  | known {id : BodyId} (h : p.boundWrappers.lookup m = some id) : BoundAnswer p m (.ok id) p
  /-- the wrapper is made and remembered -/
  | made {f : Function} {callee : Option BodyId} {sig : Signature} {v : Var} {q : Program}
    (hnone : p.boundWrappers.lookup m = none) (hrecv : sig.recv = some v) (hwraps : p.Wraps f q)
    (hhead : BoundHeader p.types m sig f)
    (hbody : BoundBody q.types v.ty m { sig with recv := none } f callee)
    (hbehind : Behind p.types (p.declared.lookup m) m callee) :
    BoundAnswer p m (.ok ⟨p.bodies.length⟩)
      { q with boundWrappers := (m, ⟨p.bodies.length⟩) :: q.boundWrappers }
  /-- a concrete method has no body yet -/
  | missing {e : BuildError} {q : Program} (hnone : p.boundWrappers.lookup m = none)
    (hq : p.Enters q) (he : Lacks p.types (p.declared.lookup m) m e) : BoundAnswer p m (.error e) q
  /-- a plain function has no receiver to bind -/
  | plain {text : String} (hnone : p.boundWrappers.lookup m = none)
    (hrecv : p.types.receiver? m = .ok none) : BoundAnswer p m (.error (.notAMethod m text)) p

/-- The function of a bound wrapper is built, once its signature is entered. -/
theorem buildBound_settles (p : Program) (w : p.types.WellFormed)
    (hdecl : p.types.func m = .ok decl) {old : Signature}
    (hold : p.types.signatureOf decl.sig = .ok old) {v : Var} (hv : old.recv = some v)
    {own : TypeId} (hget : p.types.get own = .ok (.signature sig)) (name : String)
    (body? : Option BodyId) :
    Settles p.types.Endless (buildFunction name own (boundSteps v.ty m decl text body?)).run p
      (Finishes p (describeBound (p.draft name own) decl text)
        (fun t f => ∃ callee, BoundBody t v.ty m sig f callee ∧ Behind p.types body? m callee)
        (Lacks p.types body? m)) :=
  buildBlock_settles rfl (boundSteps_settles
    (draft_straight w.sound (TypeTable.holds_of_get hget) name) w ⟨rfl, rfl, rfl, rfl⟩ hdecl hold hv
    (signatureOf_get hget) (holds_of_signature w.sound hget) body?)

/-- **A bound wrapper is found or made** for every method with a signature, unless it is
concrete and has no body yet. -/
theorem boundWrapper_settles (p : Program) (w : p.types.WellFormed)
    (hdecl : p.types.func m = .ok decl) (hsig : p.types.signatureOf decl.sig = .ok sig) :
    Settles p.types.Endless (boundWrapper m).run p (BoundAnswer p m) := by
  refine .stepGiven rfl ?_
  rcases hlookup : p.boundWrappers.lookup m with _ | id
  · refine .stepGiven (Program.ask_run hdecl) (.stepGiven (Program.ask_run hsig) ?_)
    rcases htext : p.types.funcText m with e | text
    · have he := TypeTable.funcText_faults w.sound w.methodsTyped hdecl hsig e htext
      exact .faultGiven (Program.ask_fault htext) he
    refine .stepGiven (Program.ask_run htext) ?_
    rcases hv : sig.recv with _ | v
    · refine .inl (.of_run rfl (.plain hlookup ?_))
      rw [TypeTable.receiver?_eq hdecl hsig, hv]
      rfl
    -- the signature of the wrapper is entered
    have hadmits : p.types.Admits (.signature { sig with recv := none }) :=
      admits_signature w.sound hsig fun _ hv => absurd hv (Option.not_mem_none _)
    have g : p.types.Grown (p.types.intern (.signature { sig with recv := none })).2 :=
      TypeTable.Grown.refl.internPlain hadmits rfl
    have hget := TypeTable.get_intern p.types (.signature { sig with recv := none })
    generalize hentered : p.types.intern (.signature { sig with recv := none }) = entered at g hget
    obtain ⟨own, t⟩ := entered
    refine .stepGiven (Program.intern_run hentered) ?_
    have wt := w.grown g
    have hdecl' := (g.func m).trans hdecl
    -- its name is asked of the table in which the signature stands
    rcases hname : t.funcName m with e | name
    · have he :=
        TypeTable.funcName_faults wt.sound wt.methodsTyped hdecl' (g.signatureOf hsig) e hname
      exact .faultGiven (Program.ask_fault hname) (g.endless w.sound he)
    refine .stepGiven (Program.ask_run hname) (.stepGiven rfl ?_)
    -- the function is built and kept
    obtain ⟨abs, habs⟩ : ∃ abs, p.types.isAbstract m = .ok abs := by
      obtain ⟨u, hu⟩ := w.sound.exists_underlyingTy (TypeTable.holds_receiver w.sound hsig hv)
      have habs : p.types.isAbstract m = p.types.isInterface v.ty :=
        TypeTable.isAbstract_eq (by simp [TypeTable.receiver?_eq hdecl hsig, hv])
      exact ⟨_, habs.trans (TypeTable.isInterface_eq hu)⟩
    refine .bind ((buildBound_settles { p with types := t } wt hdecl' (g.signatureOf hsig) hv hget
      ("bound$" ++ name) (p.declared.lookup m)).mono (fun _ he => g.endless w.sound he)
      fun _ _ => id) ?_
    intro res q hend
    cases hend with
    | finished hq hhead hbody =>
      obtain ⟨t', g', rfl⟩ := hq
      obtain ⟨callee, hbody, hbehind⟩ := hbody
      exact .inl (.of_run rfl (.made hlookup hv ⟨t', g.trans g', rfl⟩
        ⟨decl, own, t, name, text, hdecl, hsig, htext, hentered, hname, hhead⟩ hbody
        (hbehind.of_grown g habs)))
    | failed hq he =>
      obtain ⟨t', g', rfl⟩ := hq
      exact .inl (.of_run rfl (.missing hlookup ⟨t', g.trans g', rfl⟩ (he.of_grown g habs)))
  · exact .inl (.of_run rfl (.known hlookup))

end Program

end MethodSSA
