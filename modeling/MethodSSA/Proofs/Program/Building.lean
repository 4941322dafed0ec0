import MethodSSA.Program.Wrapper
import MethodSSA.Proofs.Draft.TailCall
import MethodSSA.Proofs.Types.Texts

/-!
# Building a function within a program

A request that builds a function ends as the building does: what is entered into the type
table stays, whether the building fails or not.
-/

namespace MethodSSA

/-- What stands behind a method that is called: no body if the method is abstract, and else
its declared one. -/
inductive Behind (t : TypeTable) (declared? : Option BodyId) (m : FuncId) : Option BodyId → Prop
  | abstract (h : t.isAbstract m = .ok true) : Behind t declared? m none
  | concrete {body : BodyId} (h : t.isAbstract m = .ok false) (hbody : declared? = some body) :
    Behind t declared? m (some body)

/-- The error that a concrete method has no declared body. -/
inductive Lacks (t : TypeTable) (declared? : Option BodyId) (m : FuncId) : BuildError → Prop
  | intro {text : String} (h : t.isAbstract m = .ok false) (hnone : declared? = none) :
    Lacks t declared? m (.noBody m text)

theorem Behind.of_grown {t t' : TypeTable} (g : t.Grown t') {m : FuncId} {abs : Bool}
    (habs : t.isAbstract m = .ok abs) {declared? callee : Option BodyId}
    (h : Behind t' declared? m callee) : Behind t declared? m callee := by
  rcases h with h | ⟨h, hbody⟩
  · cases h.symm.trans (g.isAbstract habs)
    exact .abstract habs
  · cases h.symm.trans (g.isAbstract habs)
    exact .concrete habs hbody

theorem Lacks.of_grown {t t' : TypeTable} (g : t.Grown t') {m : FuncId} {abs : Bool}
    (habs : t.isAbstract m = .ok abs) {declared? : Option BodyId} {e : BuildError}
    (h : Lacks t' declared? m e) : Lacks t declared? m e := by
  obtain ⟨h, hnone⟩ := h
  cases h.symm.trans (g.isAbstract habs)
  exact .intro habs hnone

namespace Program

variable {E : Fault → Prop} {p : Program}

/-- The program with the workspace in which a draft was built. -/
def after (p : Program) (b : Builder) : Program := { p with toWorkspace := b.toWorkspace }

/-- A new draft in the workspace of a program. -/
def draft (p : Program) (name : String) (signature : TypeId) : Builder :=
  ⟨p.toWorkspace, Draft.start name signature⟩

theorem draft_straight (hs : p.types.Sound) {signature : TypeId} (h : p.types.Holds signature)
    (name : String) : (p.draft name signature).Straight :=
  ⟨hs, rfl, rfl, fun _ hi => absurd hi List.not_mem_nil, fun _ hv => absurd hv List.not_mem_nil,
    h, rfl⟩

theorem ask_run {α : Type} {question : TypeTable → Except Fault α} {a : α}
    (h : question p.types = .ok a) : (ask question).run.run p = .ok (.ok a, p) := by
  change ((liftM (question p.types) : Request α).run).run p = _
  rw [h]
  rfl

theorem ask_fault {α : Type} {question : TypeTable → Except Fault α} {e : Fault}
    (h : question p.types = .error e) : (ask question).run.run p = .error e := by
  change ((liftM (question p.types) : Request α).run).run p = _
  rw [h]
  rfl

theorem intern_run {ty : Ty} {id : TypeId} {t : TypeTable} (h : p.types.intern ty = (id, t)) :
    (intern ty).run.run p = .ok (.ok id, { p with types := t }) := by
  change Except.ok (Except.ok (p.types.intern ty).1, { p with types := (p.types.intern ty).2 }) = _
  rw [h]

theorem buildFunction_run (p : Program) (name : String) (signature : TypeId)
    (steps : TryBuild Unit) :
    (buildFunction name signature steps).run.run p =
      (steps.run.run (p.draft name signature) >>= fun (r, b') => match r with
        | .error e => .ok (.error e, p.after b')
        | .ok _ => (Builder.finish b').run >>= fun r => .ok (r, p.after b')) := by
  have hdraft : p.onDraft (.start name signature) steps =
      (steps.run.run (p.draft name signature) >>= fun (r, b') =>
        .ok (r, b'.toDraft, p.after b')) := rfl
  change ((liftM (p.onDraft (.start name signature) steps) >>= _ : Request Function).run).run p = _
  rw [hdraft]
  rcases steps.run.run (p.draft name signature) with e | ⟨e | _, b'⟩
  · rfl
  · rfl
  · change ((liftM (Builder.finish b').run >>= _ : Request Function).run).run (p.after b') =
      ((Builder.finish b').run >>= fun r => .ok (r, p.after b'))
    generalize (Builder.finish b').run = x
    rcases x with e | e | f <;> rfl

/-- **A function is built as its steps say**, and is finished if they do not fail. -/
theorem buildFunction_settles {name : String} {signature : TypeId} {steps : TryBuild Unit}
    {Q : Except BuildError Unit → Builder → Prop} {R : Except BuildError Function → Program → Prop}
    (h : Settles E steps.run (p.draft name signature) Q)
    (hok : ∀ b', Q (.ok ()) b' →
      ∃ f, Builder.finish b' = pure f ∧ R (.ok f) (p.after b'))
    (herror : ∀ e b', Q (.error e) b' → R (.error e) (p.after b')) :
    Settles E (buildFunction name signature steps).run p R := by
  have hrun := buildFunction_run p name signature steps
  rcases h with ⟨r, b', hsteps, hq⟩ | ⟨e, hsteps, he⟩
  · rw [hsteps] at hrun
    rcases r with e | _
    · exact .inl ⟨.error e, p.after b', hrun, herror e b' hq⟩
    · obtain ⟨f, hf, hr⟩ := hok b' hq
      refine .inl ⟨.ok f, p.after b', hrun.trans ?_, hr⟩
      change ((Builder.finish b').run >>= _) = _
      rw [hf]
      rfl
  · refine .inr ⟨e, hrun.trans ?_, he⟩
    rw [hsteps]
    rfl

/-! ## What is entered and added -/

/-- A program in which types were entered. -/
def Enters (p p' : Program) : Prop :=
  ∃ t, p.types.Grown t ∧ p' = { p with types := t }

/-- A program to which a wrapper was added. -/
def Wraps (p : Program) (f : Function) (p' : Program) : Prop :=
  ∃ t, p.types.Grown t ∧
    p' = { p with types := t, bodies := p.bodies ++ [f], synthesized := p.synthesized + 1 }

theorem enters_after {b b' : Builder} (hb : b.toWorkspace = p.toWorkspace) (h : b.Keeps b') :
    Enters p (after p b') := by
  have htypes : b.types = p.types := (congrArg Workspace.types hb :)
  have hmode : b.mode = p.mode := (congrArg Workspace.mode hb :)
  have hboxed : b.boxed = p.boxed := (congrArg Workspace.boxed hb :)
  have hworkspace : b'.toWorkspace = ⟨b'.types, p.mode, p.boxed⟩ := by
    rw [← hmode, ← hboxed, ← h.mode, ← h.boxed]
  refine ⟨b'.types, htypes ▸ h.types, ?_⟩
  rw [after, hworkspace]

/-- How the steps of a wrapper end from a draft: its only block is closed by a return and
the function is as `P` has it, or there is an error of kind `F`. -/
inductive Closes (d : Builder) (P : TypeTable → Function → Prop) (F : BuildError → Prop) :
    Except BuildError Unit → Builder → Prop
  | closed {b : Builder} {vs : List ValueId} (hk : d.Keeps b)
    (hp : P b.types (b.returned vs).func) : Closes d P F (.ok ()) (b.returned vs)
  | failed {e : BuildError} {b : Builder} (hk : d.Keeps b) (he : F e) : Closes d P F (.error e) b

theorem Closes.imp {d b : Builder} {P P' : TypeTable → Function → Prop} {F F' : BuildError → Prop}
    {r : Except BuildError Unit} (h : Closes d P F r b) (hp : ∀ t f, P t f → P' t f)
    (hf : ∀ e, F e → F' e) : Closes d P' F' r b := by
  cases h with
  | closed hk h => exact .closed hk (hp _ _ h)
  | failed hk h => exact .failed hk (hf _ h)

theorem Closes.after {d b b' : Builder} {P P' : TypeTable → Function → Prop}
    {F F' : BuildError → Prop} {r : Except BuildError Unit} (h : Closes b P F r b')
    (hk : d.Keeps b) (hp : ∀ t f, P t f → P' t f) (hf : ∀ e, F e → F' e) :
    Closes d P' F' r b' := by
  cases h with
  | closed hk' h => exact .closed (hk.trans hk') (hp _ _ h)
  | failed hk' h => exact .failed (hk.trans hk') (hf _ h)

/-- How the building of a wrapper's function ends: either way, types were entered and
nothing else. -/
inductive Finishes (p : Program) (d : Builder) (P : TypeTable → Function → Prop)
    (F : BuildError → Prop) : Except BuildError Function → Program → Prop
  | finished {f : Function} {q : Program} (hq : p.Enters q) (hhead : f.header = d.func.header)
    (hp : P q.types f) : Finishes p d P F (.ok f) q
  | failed {e : BuildError} {q : Program} (hq : p.Enters q) (he : F e) :
    Finishes p d P F (.error e) q

/-- **A function of one block is finished** if its steps close the block. -/
theorem buildBlock_settles {name : String} {signature : TypeId} {steps : TryBuild Unit}
    {d : Builder} (hd : d.toWorkspace = p.toWorkspace) {P : TypeTable → Function → Prop}
    {F : BuildError → Prop}
    (h : Settles E steps.run (p.draft name signature) (Closes d P F)) :
    Settles E (buildFunction name signature steps).run p (Finishes p d P F) := by
  refine buildFunction_settles h ?_ ?_
  · rintro b' ⟨hk, hp⟩
    exact ⟨_, Builder.finish_returned hk.straight _,
      .finished (enters_after hd hk :) hk.header hp⟩
  · intro e b' hend
    cases hend with
    | failed hk he => exact .failed (enters_after hd hk) he

/-! ## The body that a wrapper calls -/

/-- A body that is not declared is reported, if its method has a text. -/
theorem requireBody_none_settles {b : Builder} {m : FuncId} {k : BodyId → TryBuild Unit}
    (s : b.Straight) (hfaults : FaultsOnly b.types.Endless (b.types.funcText m))
    (habs : b.types.isAbstract m = .ok false) :
    Settles b.types.Endless ((requireBody none m (liftM (Builder.funcText m)) : TryBuild BodyId) >>=
      k).run b (Closes b (fun _ _ => False) (Lacks b.types none m)) := by
  rw [requireBody, bind_assoc]
  rcases ht : b.types.funcText m with e | text
  · exact .faultLift (Builder.ask_fault ht) (hfaults e ht)
  · exact .stepLift (Builder.ask_run ht) (.inl (.of_run rfl (.failed (.refl s) (.intro habs rfl))))

/-! ## The signature of a wrapper

A wrapper takes what a method takes, and perhaps another receiver. -/

/-- The parameters and results of a signature of the table are in the table. -/
theorem holds_of_signature {t : TypeTable} (hs : t.Sound) {id : TypeId} {sig : Signature}
    (h : t.get id = .ok (.signature sig)) : ∀ v ∈ sig.params ++ sig.results, t.Holds v.ty := by
  intro v hv
  refine hs.holds_component h (List.mem_map_of_mem ?_)
  rw [Signature.vars, List.append_assoc]
  exact List.mem_append_right _ hv

/-- A signature of the table with another receiver can be entered. -/
theorem admits_signature {t : TypeTable} (hs : t.Sound) {old : Signature} {id : TypeId}
    (hold : t.signatureOf id = .ok old) {recv : Option Var} (hrecv : ∀ v ∈ recv, t.Holds v.ty) :
    t.Admits (.signature { old with recv := recv }) := by
  obtain ⟨u, hu, hold⟩ := bind_eq_ok_iff.mp hold
  cases u <;> cases hold
  obtain ⟨v, -, hget⟩ := bind_eq_ok_iff.mp hu
  refine TypeTable.admits_of_components (fun c hc => ?_) rfl rfl
  obtain ⟨v, hv, rfl⟩ := List.mem_map.mp hc
  rw [Signature.vars, List.append_assoc] at hv
  rcases List.mem_append.mp hv with hv | hv
  · exact hrecv v (Option.mem_toList.mp hv)
  · exact holds_of_signature hs hget v hv

/-- A type that was entered as a signature is that signature. -/
theorem signatureOf_get {t : TypeTable} {id : TypeId} {sig : Signature}
    (h : t.get id = .ok (.signature sig)) : t.signatureOf id = .ok sig :=
  TypeTable.signatureOf_eq (TypeTable.underlyingTy_plain h rfl)

end Program

end MethodSSA
