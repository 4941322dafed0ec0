import MethodSSA.Proofs.Draft.Boxing
import MethodSSA.Program.Placeholder
import MethodSSA.Proofs.Program.Requests

/-!
# The types of boxed values

Any number of drafts are built side by side in one program, in whatever order commands come:
some are finished and handed in, others fail or are given up, and there are requests in between
(`Workshop`). The program notes each type that a value is boxed with and no other
(`Exact`), since a command registers what it boxes, and all else boxes nothing (`cases_of_step`).

The code that the program makes on its own has no part in that: it boxes nothing
(`OwnSteps.abstains`).
-/

namespace MethodSSA

open Relation

namespace Program

variable {p q r : Program} {a : Action}

/-! ## The program's own code -/

/-- The code of a function that the program makes on its own. -/
inductive OwnSteps : TryBuild Unit → Prop
  | promotion (sel : Selection) (decl : FuncDecl) (text : String) (body? : Option BodyId) :
    OwnSteps (promotionSteps sel decl text body?)
  | interface (recv : TypeId) (m : FuncId) (decl : FuncDecl) (text : String) :
    OwnSteps (interfaceSteps recv m decl text)
  | bound (recv : TypeId) (m : FuncId) (decl : FuncDecl) (text : String)
    (body? : Option BodyId) : OwnSteps (boundSteps recv m decl text body?)
  | placeholder (m : FuncId) (decl : FuncDecl) (sig : Signature) :
    OwnSteps (placeholderSteps m decl sig)

theorem abstains_parts : Parts Builder.Abstains where
  amend _ _ hvalues hinstrs := Builder.amend_abstains hvalues hinstrs
  addParam := Builder.addParam_abstains
  addFreeVar := Builder.addFreeVar_abstains
  addFormals := Builder.addFormals_abstains
  spill := Builder.spill_abstains
  load := Builder.load_abstains
  followPath path v := Builder.followPath_abstains path v
  tailCall := Builder.tailCall_abstains

/-- A placeholder takes parameters and returns zero values. -/
theorem placeholderSteps_abstains (m : FuncId) (decl : FuncDecl) (sig : Signature) :
    Makes Builder.Abstains (placeholderSteps m decl sig).run := by
  have hrecv (recv : List Var) : Makes Builder.Abstains
      (recv.forM fun recv => do let _ ← Builder.addParam "r" recv.ty : TryBuild PUnit).run := by
    induction recv with
    | nil => exact .pure _
    | cons r recv ih =>
      exact .andThen (.liftThen (Builder.addParam_abstains _ _) fun _ => .pure _) fun _ => ih
  have hzeros (results : List Var) : Makes Builder.Abstains
      (results.mapM fun r => (Builder.zeroValue r.ty : TryBuild ValueId)).run := by
    induction results with
    | nil => exact .pure _
    | cons r results ih =>
      rw [List.mapM_cons]
      exact .liftThen (Builder.zeroValue_abstains r.ty) fun v => .andThen ih fun vs => .pure _
  refine .liftThen (Builder.amend_abstains (fun _ => rfl) fun _ => rfl) fun _ =>
    .andThen (hrecv _) fun _ => .liftThen Builder.addFormals_abstains fun _ => ?_
  exact .andThen (hzeros _) fun zeros => .lift (Builder.close_abstains _)

/-- **The program's own code boxes nothing**, whether it ends or fails. -/
theorem OwnSteps.abstains {steps : TryBuild Unit} (h : OwnSteps steps) {b b' : Builder}
    {res : Except BuildError Unit} (hrun : steps.run.run b = .ok (res, b')) :
    b.Abstains b' := by
  cases h with
  | promotion sel decl text body? =>
    have hdescribe : b.Abstains (describe b sel decl text) :=
      .quiet (.refl _) List.prefix_rfl rfl rfl
    exact hdescribe.trans (.of_row (abstains_parts.promotionSteps hrun))
  | interface => exact .of_makes abstains_parts.interfaceSteps hrun
  | bound => exact .of_makes abstains_parts.boundSteps hrun
  | placeholder m decl sig => exact .of_makes (placeholderSteps_abstains m decl sig) hrun

/-! ## Requests box nothing -/

/-- A later state of a program. In between nothing was boxed or noted, and the declarations of
types stayed as they are. -/
structure Abstains (p q : Program) : Prop where
  types : p.types.Extended q.types
  decls : q.types.decls = p.types.decls
  boxed : q.boxed = p.boxed
  bodies : ∀ f ∈ q.bodies, f ∈ p.bodies ∨ f.boxedOperands = []

namespace Abstains

theorem refl (p : Program) : Abstains p p := ⟨.refl _, rfl, rfl, fun _ => .inl⟩

theorem trans (h : Abstains p q) (h' : Abstains q r) : Abstains p r where
  types := h.types.trans h'.types
  decls := h'.decls.trans h.decls
  boxed := h'.boxed.trans h.boxed
  bodies f hf := by
    rcases h'.bodies f hf with hf | hnew
    · exact h.bodies f hf
    · exact .inr hnew

theorem of_row (h : ReflTransGen Abstains p q) : Abstains p q := single_of_row refl trans h

end Abstains

/-- A function is handed in, as the body of a method if one is given. -/
def handIn (p : Program) (f : Function) : Option FuncId → Program
  | none => (p.addBody f).2
  | some m => (p.declareBody m f).2

/-- A function that boxes nothing is added. -/
theorem abstains_of_bodies {f : Function} (htypes : q.types = p.types) (hboxed : q.boxed = p.boxed)
    (hbodies : q.bodies = p.bodies ++ [f]) (hf : f.boxedOperands = []) : Abstains p q where
  types := htypes ▸ .refl _
  decls := by rw [htypes]
  boxed := hboxed
  bodies g hg := by
    rw [hbodies, List.mem_append, List.mem_singleton] at hg
    rcases hg with hg | rfl
    · exact .inl hg
    · exact .inr hf

section Building

variable {name : String} {signature : TypeId} {steps : TryBuild Unit}

theorem abstains_of_buildFunction (hsteps : OwnSteps steps) {res : Except BuildError Function}
    (hrun : (buildFunction name signature steps).run.run p = .ok (res, q)) :
    Abstains p q ∧ ∀ f, res = .ok f → f.boxedOperands = [] := by
  rw [buildFunction_run] at hrun
  obtain ⟨⟨r, b'⟩, hr, hrest⟩ := bind_eq_ok_iff.mp hrun
  have h := hsteps.abstains hr
  have hafter : Abstains p (p.after b') :=
    ⟨h.types.extended, h.types.decls, h.boxed, fun _ => .inl⟩
  cases r with
  | error e =>
    cases hrest
    exact ⟨hafter, nofun⟩
  | ok u =>
    obtain ⟨r, hfinish, hend⟩ := bind_eq_ok_iff.mp hrest
    cases hend
    refine ⟨hafter, ?_⟩
    rintro f rfl
    rw [Builder.func_of_finish hfinish]
    exact h.operands

/-- What is done with a function that the program made on its own. -/
theorem buildFunction_then {α : Type} {k : Function → Request α} (hsteps : OwnSteps steps)
    (hk : ∀ f, f.boxedOperands = [] → Makes Abstains (k f).run) :
    Makes Abstains (buildFunction name signature steps >>= k).run := by
  intro p res q hrun
  rcases cases_of_bind hrun with ⟨e, hbuild, rfl⟩ | ⟨f, p₁, hbuild, hrest⟩
  · exact .single (abstains_of_buildFunction hsteps hbuild).1
  · obtain ⟨h, hf⟩ := abstains_of_buildFunction hsteps hbuild
    exact .head h (hk f (hf f rfl) hrest)

end Building

theorem intern_abstains (ty : Ty) : Makes Abstains (intern ty).run := by
  refine .single fun p res q hrun => ?_
  cases hrun
  have h := TypeTable.Entered.intern p.types ty
  exact ⟨h.extended, h.decls, rfl, fun _ => .inl⟩

theorem keepWrapper_abstains {f : Function} (hf : f.boxedOperands = []) :
    Makes Abstains (keepWrapper f).run := by
  refine .single fun p res q hrun => ?_
  cases hrun
  exact abstains_of_bodies rfl rfl rfl hf

/-- Something is remembered of wrappers and method sets. -/
theorem remember_abstains {step : Program → Program}
    (hworkspace : ∀ p, (step p).toWorkspace = p.toWorkspace)
    (hbodies : ∀ p, (step p).bodies = p.bodies) (p : Program) : Abstains p (step p) := by
  have htypes : (step p).types = p.types := congrArg Workspace.types (hworkspace p)
  have hboxed : (step p).boxed = p.boxed := congrArg Workspace.boxed (hworkspace p)
  exact ⟨htypes ▸ .refl _, by rw [htypes], hboxed, fun f hf => .inl (hbodies p ▸ hf)⟩

theorem promotionWrapper_abstains (sel : Selection) :
    Makes Abstains (promotionWrapper sel).run := by
  refine .andThen (ask_makes _) fun decl => .andThen (ask_makes _) fun old =>
    .andThen (intern_abstains _) fun sig => .andThen (ask_makes _) fun text =>
      .liftThen .get fun p => ?_
  exact buildFunction_then (.promotion ..) fun f hf => keepWrapper_abstains hf

/-- A wrapper is made and remembered for its method. -/
theorem wrapper_abstains (bound : Bool) (m : FuncId) {name : String} {signature : TypeId}
    {steps : TryBuild Unit} (hsteps : OwnSteps steps) :
    Makes Abstains (do
      let f ← buildFunction name signature steps
      let id ← keepWrapper f
      modify ((wrapperMemory bound).keep m id)
      return id : Request BodyId).run := by
  refine buildFunction_then hsteps fun f hf => .andThen (keepWrapper_abstains hf) fun id => ?_
  refine .andThen (modify_makes ?_) fun _ => .pure _
  cases bound <;> exact remember_abstains (fun _ => rfl) fun _ => rfl

theorem interfaceWrapper_abstains (recv : TypeId) (m : FuncId) :
    Makes Abstains (interfaceWrapper recv m).run := by
  refine .liftThen .get fun p => ?_
  cases p.ifaceWrappers.lookup m with
  | some id => exact .pure _
  | none =>
    exact .andThen (ask_makes _) fun decl => .andThen (ask_makes _) fun text =>
      .andThen (ask_makes _) fun old => .andThen (intern_abstains _) fun sig =>
        wrapper_abstains false m (.interface ..)

theorem boundWrapper_abstains (m : FuncId) : Makes Abstains (boundWrapper m).run := by
  refine .liftThen .get fun p => ?_
  cases p.boundWrappers.lookup m with
  | some id => exact .pure _
  | none =>
    refine .andThen (ask_makes _) fun decl => .andThen (ask_makes _) fun old =>
      .andThen (ask_makes _) fun text => ?_
    cases old.recv with
    | none => exact .fail _
    | some recv =>
      exact .andThen (intern_abstains _) fun sig => .andThen (ask_makes _) fun name =>
        .liftThen .get fun p => wrapper_abstains true m (.bound ..)

/-- **Requests box nothing.** -/
theorem abstains_composes : Composes Abstains where
  promotion := promotionWrapper_abstains
  interface := interfaceWrapper_abstains
  bound := boundWrapper_abstains
  keep inSet key id := by cases inSet <;> exact remember_abstains (fun _ => rfl) fun _ => rfl
  complete ty := remember_abstains (fun _ => rfl) fun _ => rfl

theorem declarePlaceholder_abstains (m : FuncId) : Makes Abstains (declarePlaceholder m).run := by
  refine .liftThen .get fun p => .liftThen (.answer _) fun decl => .liftThen .get fun p =>
    .liftThen (.answer _) fun sig => buildFunction_then (.placeholder ..) fun f hf => ?_
  refine .single fun p res q hrun => ?_
  cases hrun
  exact abstains_of_bodies rfl rfl rfl hf

end Program

/-! ## Workshops -/

/-- A program, and all drafts that were begun in it, also those that failed or were given up. -/
structure Workshop where
  program : Program
  drafts : List Draft

/-- What is done in a workshop, one thing at a time. -/
inductive Task where
  /-- types are entered, or functions declared -/
  | enter (types : TypeTable)
  /-- a draft is begun -/
  | start (name : String) (signature : TypeId)
  /-- a command is carried out on a draft, or fails -/
  | command (place : Nat) (c : Command)
  /-- a draft is finished, if it can be, and handed in -/
  | finish (place : Nat) (method : Option FuncId)
  /-- a function that comes from elsewhere is handed in -/
  | handIn (f : Function) (method : Option FuncId)
  /-- something is asked of the program -/
  | request (a : Action)
  /-- a placeholder is declared -/
  | placeholder (m : FuncId)

namespace Workshop

open Program

/-- A workshop without drafts, in a new program. -/
def opened (mode : Mode) (t : TypeTable) : Workshop := ⟨fresh mode t, []⟩

/-- What a task leaves. -/
def perform (w : Workshop) : Task → Except Fault Workshop
  | .enter types => .ok { w with program := { w.program with types } }
  | .start name signature => .ok { w with drafts := w.drafts ++ [.start name signature] }
  | .command place c => do
    let d ← entry w.drafts place .outOfRange
    let (_, d', p) ← w.program.onDraft d (Builder.perform c)
    return ⟨p, w.drafts.set place d'⟩
  | .finish place method => do
    let d ← entry w.drafts place .outOfRange
    match ← (w.program.finishDraft d).run with
    | .ok f => return { w with program := w.program.handIn f method }
    | .error _ => return w
  | .handIn f method => .ok { w with program := w.program.handIn f method }
  | .request a => do return { w with program := ← w.program.perform a }
  | .placeholder m => do return { w with program := ← leaves (declarePlaceholder m) w.program }

variable {w w' : Workshop} {task : Task}

/-- What may be done: the declarations of types stay as they are, and values are boxed by
conversion only. -/
inductive Permits (w : Workshop) : Task → Prop
  | enter {types : TypeTable} (htypes : w.program.types.Extended types)
    (hdecls : types.decls = w.program.types.decls) : Permits w (.enter types)
  | start {name : String} {signature : TypeId} : Permits w (.start name signature)
  | command {place : Nat} {c : Command} (hc : c.boxes = false) : Permits w (.command place c)
  | finish {place : Nat} {method : Option FuncId} : Permits w (.finish place method)
  | handIn {f : Function} {method : Option FuncId} (hf : f.boxedOperands = []) :
    Permits w (.handIn f method)
  | request {a : Action} (ha : a.isRequest = true) : Permits w (.request a)
  | placeholder {m : FuncId} : Permits w (.placeholder m)

/-- One thing that may be done is done, and is no fault. -/
def Step (w w' : Workshop) : Prop := ∃ task, w.Permits task ∧ w.perform task = .ok w'

/-- Any number of things are done. -/
abbrev Run : Workshop → Workshop → Prop := ReflTransGen Step

/-! ### One step -/

theorem handIn_abstains {p : Program} {f : Function} (hf : f.boxedOperands = [])
    (method : Option FuncId) : p.Abstains (p.handIn f method) := by
  cases method <;> exact abstains_of_bodies rfl rfl rfl hf

/-- **What a step does.** It boxes nothing, and may begin a draft; or it registers what it boxes
in one of the drafts; or it hands in a draft. -/
theorem cases_of_step (h : Step w w') :
    (w.program.Abstains w'.program ∧ ∃ begun, w'.drafts = w.drafts ++ begun ∧
      ∀ d ∈ begun, d.func.boxedOperands = []) ∨
    (∃ place d b', w.drafts[place]? = some d ∧
      Builder.Registers ⟨w.program.toWorkspace, d⟩ b' ∧
      w' = ⟨w.program.after b', w.drafts.set place b'.toDraft⟩) ∨
    ∃ d ∈ w.drafts, ∃ method, w' = { w with program := w.program.handIn d.func method } := by
  obtain ⟨task, hpermits, hrun⟩ := h
  have hquiet {q : Program} (hq : w.program.Abstains q) : w.program.Abstains q ∧
      ∃ begun, w.drafts = w.drafts ++ begun ∧ ∀ d ∈ begun, d.func.boxedOperands = [] :=
    ⟨hq, [], (List.append_nil _).symm, nofun⟩
  cases hpermits with
  | enter htypes hdecls =>
    cases hrun
    exact .inl (hquiet ⟨htypes, hdecls, rfl, fun _ => .inl⟩)
  | @start name signature =>
    cases hrun
    refine .inl ⟨.refl _, [.start name signature], rfl, fun d hd => ?_⟩
    rw [List.mem_singleton.mp hd]
    rfl
  | @command place c hc =>
    obtain ⟨d, hd, hrun⟩ := bind_eq_ok_iff.mp hrun
    obtain ⟨⟨res, d', p⟩, hdraft, hend⟩ := bind_eq_ok_iff.mp hrun
    obtain ⟨⟨res, b'⟩, hcommand, hdraft⟩ := bind_eq_ok_iff.mp hdraft
    cases hdraft
    cases hend
    have hregisters := Builder.Registers.of_makes (Builder.perform_registers hc) hcommand
    exact .inr (.inl ⟨place, d, b', entry_eq_ok_iff.mp hd, hregisters, rfl⟩)
  | @finish place method =>
    obtain ⟨d, hd, hrun⟩ := bind_eq_ok_iff.mp hrun
    obtain ⟨res, hfinish, hend⟩ := bind_eq_ok_iff.mp hrun
    have hd := List.mem_of_getElem? (entry_eq_ok_iff.mp hd)
    cases res with
    | error e =>
      cases hend
      exact .inl (hquiet (.refl _))
    | ok f =>
      cases hend
      rw [Builder.func_of_finish hfinish]
      exact .inr (.inr ⟨d, hd, method, rfl⟩)
  | handIn hf =>
    cases hrun
    exact .inl (hquiet (handIn_abstains hf _))
  | request ha =>
    obtain ⟨q, hq, hend⟩ := bind_eq_ok_iff.mp hrun
    cases hend
    exact .inl (hquiet (.of_row (abstains_composes.perform ha hq)))
  | @placeholder m =>
    obtain ⟨q, hq, hend⟩ := bind_eq_ok_iff.mp hrun
    cases hend
    obtain ⟨res, hq⟩ := leaves_eq_ok_iff.mp hq
    exact .inl (hquiet (.of_row (declarePlaceholder_abstains m hq)))

/-- What is noted stays noted. -/
theorem Step.kept (h : Step w w') : w.program.boxed ⊆ w'.program.boxed := by
  rcases cases_of_step h with ⟨habstains, -⟩ | ⟨place, d, b', -, hregisters, rfl⟩ |
    ⟨d, -, method, rfl⟩
  · simp [habstains.boxed]
  · exact hregisters.kept
  · cases method <;> exact List.Subset.refl _

/-! ### Whole runs -/

/-- The program has a note of the types of all boxed values, and of nothing else. -/
structure Exact (w : Workshop) : Prop where
  firm : w.program.types.Firm
  sound : ∀ ty ∈ w.program.boxed, ∃ d ∈ w.drafts, d.func.Boxes ty
  complete : ∀ d ∈ w.drafts, d.func.Registered w.program.boxed
  bodies : ∀ f ∈ w.program.bodies, f.Registered w.program.boxed
  increasing : w.program.boxed.Pairwise fun x y => x.index < y.index
  concrete : ∀ ty ∈ w.program.boxed, w.program.types.Concrete ty

namespace Exact

variable (h : Exact w)
include h

/-- Where nothing is boxed, the notes stay exact. -/
theorem abstains {q : Program} (hq : w.program.Abstains q) {begun : List Draft}
    (hbegun : ∀ d ∈ begun, d.func.boxedOperands = []) : Exact ⟨q, w.drafts ++ begun⟩ where
  firm := h.firm.extended hq.types hq.decls
  sound ty hty := by
    obtain ⟨d, hd, hboxes⟩ := h.sound ty (hq.boxed ▸ hty)
    exact ⟨d, List.mem_append_left _ hd, hboxes⟩
  complete d hd := by
    change d.func.Registered q.boxed
    rw [hq.boxed]
    rcases List.mem_append.mp hd with hd | hd
    · exact h.complete d hd
    · simp [Function.Registered, hbegun d hd]
  bodies f hf := by
    change f.Registered q.boxed
    rw [hq.boxed]
    rcases hq.bodies f hf with hf | hnone
    · exact h.bodies f hf
    · simp [Function.Registered, hnone]
  increasing := hq.boxed ▸ h.increasing
  concrete ty hty := (h.concrete ty (hq.boxed ▸ hty)).later hq.types

/-- A draft that registers what it boxes keeps the notes exact, also for the other drafts. -/
theorem registers {place : Nat} {d : Draft} {b' : Builder} (hd : w.drafts[place]? = some d)
    (hb : Builder.Registers ⟨w.program.toWorkspace, d⟩ b') :
    Exact ⟨w.program.after b', w.drafts.set place b'.toDraft⟩ where
  firm := h.firm.extended hb.types.extended hb.types.decls
  sound ty hty := by
    have hnew : b'.toDraft ∈ w.drafts.set place b'.toDraft :=
      List.mem_set (List.getElem?_eq_some_iff.mp hd).1 _
    rcases hb.sound ty hty with hold | hboxes
    · obtain ⟨d₁, hd₁, hboxes⟩ := h.sound ty hold
      obtain ⟨i, hi⟩ := List.getElem?_of_mem hd₁
      by_cases hplace : place = i
      · -- the draft goes on, and keeps what it has boxed
        subst hplace
        cases hd.symm.trans hi
        exact ⟨b'.toDraft, hnew, hboxes.later hb.values hb.operands⟩
      · refine ⟨d₁, List.mem_of_getElem? (i := i) ?_, hboxes⟩
        rw [List.getElem?_set_ne hplace, hi]
    · exact ⟨b'.toDraft, hnew, hboxes⟩
  complete d₁ hd₁ := by
    rcases List.mem_or_eq_of_mem_set hd₁ with hd₁ | rfl
    · exact (h.complete d₁ hd₁).later List.prefix_rfl rfl hb.kept
    · exact hb.complete (h.complete d (List.mem_of_getElem? hd))
  bodies f hf := (h.bodies f hf).later List.prefix_rfl rfl hb.kept
  increasing := hb.increasing h.increasing
  concrete ty hty := by
    rcases hb.concrete h.firm ty hty with hold | hnew
    · exact (h.concrete ty hold).later hb.types.extended
    · exact hnew

/-- The function of a draft has its boxed types noted. -/
theorem handIn {d : Draft} (hd : d ∈ w.drafts) (method : Option FuncId) :
    Exact { w with program := w.program.handIn d.func method } := by
  have hbodies : ∀ f ∈ w.program.bodies ++ [d.func], f.Registered w.program.boxed := by
    intro f hf
    rcases List.mem_append.mp hf with hf | hf
    · exact h.bodies f hf
    · rw [List.mem_singleton.mp hf]
      exact h.complete d hd
  cases method <;>
    exact ⟨h.firm, h.sound, h.complete, hbodies, h.increasing, h.concrete⟩

/-- **One step keeps the notes exact.** -/
theorem step (hstep : Step w w') : Exact w' := by
  rcases cases_of_step hstep with ⟨habstains, begun, hdrafts, hbegun⟩ |
    ⟨place, d, b', hd, hregisters, rfl⟩ | ⟨d, hd, method, rfl⟩
  · obtain ⟨q, drafts⟩ := w'
    cases hdrafts
    exact h.abstains habstains hbegun
  · exact h.registers hd hregisters
  · exact h.handIn hd method

/-- **A run keeps the notes exact.** -/
theorem run (hrun : Run w w') : Exact w' := by
  induction hrun with
  | refl => exact h
  | tail _ hstep ih => exact ih.step hstep

end Exact

theorem exact_opened (mode : Mode) {t : TypeTable} (firm : t.Firm) : Exact (opened mode t) :=
  ⟨firm, nofun, nofun, nofun, List.Pairwise.nil, nofun⟩

theorem Run.kept (h : Run w w') : w.program.boxed ⊆ w'.program.boxed := by
  induction h with
  | refl => exact List.Subset.refl _
  | tail _ hstep ih => exact List.Subset.trans ih hstep.kept

/-- **The noted types are the types of the boxed values.** In every state of a program over a
table in which no declared type is untyped underneath, and in whatever order drafts are begun,
built, finished, handed in and given up, with whatever errors and requests in between: a type
is noted if and only if some draft has boxed a value of it; no value is boxed without a type;
the notes are in increasing order, each once, and none is an interface or untyped; no note is ever
dropped; the boxed values of all finished bodies have types that are noted; and the program's own
code boxes nothing. An operation that is a fault ends the run and leaves no state, so nothing is
said about what it noted before. -/
theorem boxed_exact {mode : Mode} {t : TypeTable} (hcourse : TypeTable.Course .initial t)
    (htyped : ∀ d ∈ t.decls, ∀ k, t.get d.underlying = .ok (.basic k) → k.isUntyped = false)
    (hrun : Run (opened mode t) w) :
    (∀ ty, ty ∈ w.program.boxed ↔ ∃ d ∈ w.drafts, d.func.Boxes ty) ∧
    (∀ d ∈ w.drafts, d.func.Registered w.program.boxed) ∧
    w.program.boxed.Pairwise (fun x y => x.index < y.index) ∧
    (∀ ty ∈ w.program.boxed, w.program.types.Concrete ty) ∧
    (∀ {w'}, Run w w' → w.program.boxed ⊆ w'.program.boxed) ∧
    (∀ f ∈ w.program.bodies, f.Registered w.program.boxed) ∧
    ∀ {steps : TryBuild Unit}, OwnSteps steps → ∀ {name signature res b'},
      steps.run.run (w.program.draft name signature) = .ok (res, b') →
        b'.func.boxedOperands = [] ∧ b'.boxed = w.program.boxed := by
  have h := (exact_opened mode ((TypeTable.indexed_initial.course hcourse).firm htyped)).run hrun
  refine ⟨fun ty => ⟨h.sound ty, ?_⟩, h.complete, h.increasing, h.concrete, fun hr => hr.kept,
    h.bodies, fun hsteps name signature res b' hown => ?_⟩
  · rintro ⟨d, hd, x, hx, hty⟩
    obtain ⟨ty', hmem, hty'⟩ := h.complete d hd x hx
    cases hty.symm.trans hty'
    exact hmem
  · have habstains := hsteps.abstains hown
    exact ⟨habstains.operands, habstains.boxed⟩

/-! ### A run with two drafts -/

/-- What is left of a list of tasks. -/
def after (w : Workshop) (tasks : List Task) : Except Fault Workshop := tasks.foldlM perform w

theorem run_after {tasks : List Task} (hpermits : ∀ w : Workshop, ∀ task ∈ tasks, w.Permits task)
    (h : w.after tasks = .ok w') : Run w w' := by
  induction tasks generalizing w with
  | nil =>
    cases h
    exact .refl
  | cons task tasks ih =>
    obtain ⟨w₁, htask, hrest⟩ := bind_eq_ok_iff.mp (h : _ >>= _ = _)
    have hstep : Step w w₁ := ⟨task, hpermits w task (List.mem_cons_self ..), htask⟩
    exact .head hstep (ih (fun w t ht => hpermits w t (List.mem_cons_of_mem _ ht)) hrest)

/-- A table with a signature, the empty interface and a declared type, which is not completed. -/
def celsiusDeclared : TypeTable :=
  let signed := (TypeTable.initial.intern (.signature ⟨none, [], [], false⟩)).2
  ((signed.intern (.interface [])).2.declareType "Celsius" none).2

/-- The table with the declared type completed. -/
def celsiusTable : TypeTable :=
  celsiusDeclared.updateDecl 0 fun d => { d with underlying := TypeTable.basic .float64 }

theorem course_celsiusTable : TypeTable.Course .initial celsiusTable := by
  have hcompleted : celsiusDeclared.setUnderlying ⟨27⟩ (TypeTable.basic .float64) =
      .ok celsiusTable := rfl
  have hsigned := TypeTable.Change.intern (t := .initial) (.signature ⟨none, [], [], false⟩) nofun
  exact (((ReflTransGen.single hsigned).tail (.intern (.interface []) nofun)).tail
    (.declareType "Celsius" none)).tail (.setUnderlying ⟨27⟩ (TypeTable.basic .float64) hcompleted)

/-- Two drafts side by side: one boxes a temperature and is given up, the other boxes an untyped
constant, fails at an operator, and is finished. -/
def boxingTasks : List Task :=
  [.start "f" ⟨25⟩, .start "g" ⟨25⟩,
    .command 0 (.constant (.int 1) (TypeTable.basic .untypedInt)),
    .command 1 (.param "c" ⟨27⟩), .command 1 (.convert ⟨0⟩ ⟨26⟩), .command 0 (.convert ⟨0⟩ ⟨26⟩),
    .command 0 (.arith .equal ⟨0⟩ ⟨0⟩ ⟨26⟩), .command 0 (.close (.ret [])), .finish 0 none]

/-- The constant is noted under its default type, and the type that was noted last stands
first. -/
theorem boxed_exact_celsius : ∃ w, Run (opened .debug celsiusTable) w ∧
    w.program.boxed = [TypeTable.basic .int, ⟨27⟩] ∧ w.program.bodies.length = 1 ∧
    (∃ d ∈ w.drafts, d.func.Boxes (TypeTable.basic .int)) ∧
    (∃ d ∈ w.drafts, d.func.Boxes ⟨27⟩) ∧ w.program.types.Concrete ⟨27⟩ ∧
    ∀ f ∈ w.program.bodies, f.Registered [TypeTable.basic .int, ⟨27⟩] := by
  have hafter : ((opened .debug celsiusTable).after boxingTasks).toOption.map
      (fun w => (w.program.boxed, w.program.bodies.length)) =
        some ([TypeTable.basic .int, ⟨27⟩], 1) := by decide +kernel
  obtain ⟨w, hw, hfacts⟩ := Option.map_eq_some_iff.mp hafter
  rw [Prod.mk.injEq] at hfacts
  obtain ⟨hboxed, hbodies⟩ := hfacts
  have hrun : Run (opened .debug celsiusTable) w := by
    have hpermits : ∀ w : Workshop, ∀ task ∈ boxingTasks, w.Permits task := by
      intro w
      simp only [boxingTasks, List.forall_mem_cons]
      exact ⟨.start, .start, .command rfl, .command rfl, .command rfl, .command rfl, .command rfl,
        .command rfl, .finish, nofun⟩
    refine run_after hpermits ?_
    rcases hrest : (opened .debug celsiusTable).after boxingTasks with e | w' <;>
      rw [hrest] at hw <;> cases hw
    rfl
  have htyped : ∀ d ∈ celsiusTable.decls, ∀ k,
      celsiusTable.get d.underlying = .ok (.basic k) → k.isUntyped = false := by
    intro d hd k hk
    obtain rfl : d = ⟨⟨27⟩, TypeTable.basic .float64, []⟩ := List.mem_singleton.mp hd
    cases hk
    rfl
  obtain ⟨hexact, -, -, hconcrete, -, hregistered, -⟩ :=
    boxed_exact course_celsiusTable htyped hrun
  rw [hboxed] at hexact hconcrete hregistered
  exact ⟨w, hrun, hboxed, hbodies, (hexact _).mp (by simp), (hexact _).mp (by simp),
    hconcrete _ (by simp), hregistered⟩

end Workshop

end MethodSSA
