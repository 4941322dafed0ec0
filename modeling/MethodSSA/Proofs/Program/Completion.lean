import MethodSSA.Proofs.Draft.Following
import MethodSSA.Proofs.Program.Resolution

/-!
# Completing method sets

What it takes for a request to succeed, in any table without forged identifiers whose methods
have signatures. The table need not be ready for use: declarations may be missing, and methods
may be attached anywhere. A method set is resolved as a whole if every member that needs a
declared body has one (`methodSet_completes`).
-/

namespace MethodSSA

namespace TypeTable

variable {t t' : TypeTable} {sel : Selection} {recv : TypeId} {key : String}

/-- A selection that can be followed to its method, which has a signature. -/
structure Passable (t : TypeTable) (sel : Selection) : Prop where
  place : sel.path ≠ []
  way : ∃ base isPtr elem ptr, t.stripPointer sel.recv = .ok (base, isPtr) ∧
    t.Leads base sel.fieldPath elem ptr
  typed : ∃ decl sig, t.func sel.method = .ok decl ∧ t.signatureOf decl.sig = .ok sig

/-- Whether the body behind a selection is or calls the declared body of its method. A promotion
wrapper does unless the method is abstract; and where none is needed, the declared body stands
for itself unless the receiver is an interface. -/
def needsBody (t : TypeTable) (sel : Selection) : Except Fault Bool := do
  let crosses ← t.crossesPointer sel
  if sel.isPromoted || crosses then return !(← t.isAbstract sel.method)
  else return !(← t.isInterface sel.recv)

theorem Promotes.passable (hm : t.MethodsTyped) (h : t.Promotes recv key sel) :
    t.Passable sel := by
  obtain ⟨base, isPtr, hstrip, -, hsel⟩ := promotes_iff.mp h
  obtain @⟨elem, ptr, _, path, _, m, _, hx, hb, hcall⟩ := hsel
  obtain ⟨elem', ptr', hb', hhas⟩ := hx.occurs
  obtain ⟨rfl, rfl⟩ := hb.unique hb'
  refine ⟨List.concat_ne_nil _ _, ⟨base, isPtr, elem, ptr, hstrip, ?_⟩, ?_⟩
  · rw [Selection.fieldPath, List.dropLast_concat]
    exact hb
  · cases hcall with
    | method =>
      cases hhas with
      | method hms hmem hf =>
        obtain ⟨sig, hsig⟩ := hm m _ (.inl ⟨elem, _, hms, List.mem_of_getElem? hmem⟩) hf
        exact ⟨_, sig, hf, signatureOf_eq hsig⟩
    | abstract =>
      cases hhas with
      | abstract hms hmem hf =>
        obtain ⟨u, -, hget⟩ := bind_eq_ok_iff.mp hms
        obtain ⟨sig, hsig⟩ := hm m _ (.inr ⟨u, _, hget, List.mem_of_getElem? hmem⟩) hf
        exact ⟨_, sig, hf, signatureOf_eq hsig⟩

namespace Passable

theorem grown (g : t.Grown t') (h : t.Passable sel) : t'.Passable sel := by
  obtain ⟨base, isPtr, elem, ptr, hstrip, hl⟩ := h.way
  obtain ⟨decl, sig, hdecl, hsig⟩ := h.typed
  exact ⟨h.place, ⟨base, isPtr, elem, ptr, g.stripPointer hstrip, g.leads hl⟩, decl, sig,
    (g.func _).trans hdecl, g.signatureOf hsig⟩

section Answers

variable (h : t.Passable sel) (hs : t.Sound)
include h

theorem holds_recv : t.Holds sel.recv := by
  obtain ⟨base, isPtr, -, -, hstrip, -⟩ := h.way
  obtain ⟨ty, hty, -⟩ := stripPointer_eq_ok_iff.mp hstrip
  exact holds_of_get hty

include hs

/-- The method has no receiver, or one that is in the table. -/
theorem exists_receiver? :
    ∃ recv?, t.receiver? sel.method = .ok recv? ∧ ∀ recv, recv? = some recv → t.Holds recv := by
  obtain ⟨decl, sig, hdecl, hsig⟩ := h.typed
  refine ⟨_, receiver?_eq hdecl hsig, fun recv hrecv => ?_⟩
  obtain ⟨v, hv, rfl⟩ := Option.map_eq_some_iff.mp hrecv
  exact holds_receiver hs hsig hv

theorem exists_isAbstract : ∃ abs, t.isAbstract sel.method = .ok abs := by
  obtain ⟨recv?, hrecv?, hheld⟩ := h.exists_receiver? hs
  rw [isAbstract, hrecv?]
  cases recv? with
  | none => exact ⟨_, rfl⟩
  | some recv => exact hs.exists_isInterface (hheld recv rfl)

theorem exists_hasPointerReceiver : ∃ byPtr, t.hasPointerReceiver sel.method = .ok byPtr := by
  obtain ⟨recv?, hrecv?, hheld⟩ := h.exists_receiver? hs
  rw [hasPointerReceiver, hrecv?]
  cases recv? with
  | none => exact ⟨_, rfl⟩
  | some recv => exact hs.exists_isPointer (hheld recv rfl)

theorem exists_crossesPointer : ∃ crosses, t.crossesPointer sel = .ok crosses := by
  obtain ⟨recv?, hrecv?, hheld⟩ := h.exists_receiver? hs
  cases recv? with
  | none => exact ⟨false, by simp [crossesPointer, hrecv?]⟩
  | some recv =>
    obtain ⟨declared, hdeclared⟩ := hs.exists_isPointer (hheld recv rfl)
    obtain ⟨selected, hselected⟩ := hs.exists_isPointer h.holds_recv
    exact ⟨_, crossesPointer_eq hrecv? hdeclared hselected⟩

theorem exists_isInterface_recv : ∃ iface, t.isInterface sel.recv = .ok iface :=
  hs.exists_isInterface h.holds_recv

end Answers

end Passable

section Persistence

variable (g : t.Grown t')
include g

theorem Grown.crossesPointer {crosses : Bool} (h : t.crossesPointer sel = .ok crosses) :
    t'.crossesPointer sel = .ok crosses := by
  obtain ⟨recv?, hrecv?, h⟩ := bind_eq_ok_iff.mp h
  refine bind_eq_ok_iff.mpr ⟨recv?, g.receiver? hrecv?, ?_⟩
  cases recv? with
  | none => exact h
  | some recv =>
    obtain ⟨declared, hdeclared, h⟩ := bind_eq_ok_iff.mp h
    obtain ⟨selected, hselected, h⟩ := bind_eq_ok_iff.mp h
    exact bind_eq_ok_iff.mpr ⟨declared, g.isPointer hdeclared,
      bind_eq_ok_iff.mpr ⟨selected, g.isPointer hselected, h⟩⟩

end Persistence

/-- With something in between, a body is needed unless the method is abstract. -/
theorem needsBody_wrapped {crosses abs : Bool} (hcrosses : t.crossesPointer sel = .ok crosses)
    (hneeded : (sel.isPromoted || crosses) = true) (habs : t.isAbstract sel.method = .ok abs) :
    t.needsBody sel = .ok !abs := by
  refine bind_eq_ok_iff.mpr ⟨crosses, hcrosses, ?_⟩
  rw [if_pos hneeded, habs]
  rfl

/-- With nothing in between, a body is needed unless the receiver is an interface. -/
theorem needsBody_direct {crosses iface : Bool} (hcrosses : t.crossesPointer sel = .ok crosses)
    (hneeded : (sel.isPromoted || crosses) = false) (hiface : t.isInterface sel.recv = .ok iface) :
    t.needsBody sel = .ok !iface := by
  refine bind_eq_ok_iff.mpr ⟨crosses, hcrosses, ?_⟩
  rw [hneeded, if_neg Bool.false_ne_true, hiface]
  rfl

/-- **In a well-formed table just the concrete methods need a body.** -/
theorem WellFormed.needsBody_eq (w : t.WellFormed) {sels : List Selection}
    (hsels : t.methodSet recv = .ok sels) (hsel : sel ∈ sels) :
    ∃ abs, t.isAbstract sel.method = .ok abs ∧ t.needsBody sel = .ok !abs := by
  obtain ⟨rfl, base, elem, isPtr, ptr, h⟩ := w.selected_of_mem hsels hsel
  have r := h.toRoute
  obtain ⟨recv, byPtr, hrecv, hbyPtr, hmode⟩ := Program.exists_receiver w r
  have hptr := w.isPointer_recv r
  obtain ⟨-, -, abs, -, -, habs⟩ := w.exists_signature r
  have hcrosses := crossesPointer_eq hrecv hbyPtr hptr
  refine ⟨abs, habs, ?_⟩
  rcases hneeded : sel.isPromoted || (byPtr != isPtr) with _ | _
  · refine needsBody_direct hcrosses hneeded ?_
    obtain ⟨hpromoted, heq⟩ := Bool.or_eq_false_iff.mp hneeded
    have hpath := Selection.isPromoted_eq_false_iff.mp hpromoted
    rw [bne_eq_false_iff_eq] at heq
    subst heq
    have hleads := r.leads
    rw [hpath] at hleads
    obtain ⟨rfl, rfl⟩ := leads_nil_iff.mp hleads
    rcases r.ends with hdecl | hlists
    · exact (isAbstract_eq (w.receiver_of_direct r hpath hdecl hmode)).symm.trans habs
    · -- the method has an interface as its receiver, and the selection is made from the interface
      have habs' := w.isAbstract_of_lists hlists
      obtain ⟨recv', ms', hrecv', hu'⟩ := exists_receiver_of_isAbstract habs'
      cases hrecv.symm.trans hrecv'
      cases hbyPtr.symm.trans (isPointer_eq hu')
      cases habs.symm.trans habs'
      obtain ⟨ty, hty, ⟨-, ⟨⟩⟩ | ⟨-, rfl, -⟩⟩ := stripPointer_eq_ok_iff.mp r.start
      obtain ⟨ms, hu, -⟩ := hlists
      exact isInterface_eq hu
  · exact needsBody_wrapped hcrosses hneeded habs

/-- The methods of an interface are abstract, and nothing else belongs to its method set. -/
theorem WellFormed.isAbstract_of_isInterface (w : t.WellFormed) {sels : List Selection}
    (hsels : t.methodSet recv = .ok sels) (hsel : sel ∈ sels)
    (hiface : t.isInterface recv = .ok true) : t.isAbstract sel.method = .ok true := by
  obtain ⟨rfl, base, elem, isPtr, ptr, h⟩ := w.selected_of_mem hsels hsel
  obtain ⟨u, hu, hmethods⟩ := bind_eq_ok_iff.mp hiface
  obtain ⟨ty, hty, ⟨rfl, -⟩ | ⟨-, rfl, -⟩⟩ := stripPointer_eq_ok_iff.mp h.start
  · cases hu.symm.trans (underlyingTy_plain hty rfl)
    cases hmethods
  · -- no struct underlies the type, and the path has no field
    have hself : elem = sel.recv := by
      have hfirst : ∀ {path : List Nat} {c : TypeId} {q : Bool}, t.Leads sel.recv path c q →
          c = sel.recv := by
        intro path c q hl
        induction hl with
        | nil => rfl
        | snoc _ he ih =>
          obtain ⟨hu', -, -, -⟩ := he
          rw [ih] at hu'
          cases hu.symm.trans hu'
          cases hmethods
      exact hfirst h.leads
    rcases h.ends with ⟨ms, hms, hm⟩ | hlists
    · obtain ⟨-, -, -, -, hplain⟩ := w.attached hms hm
      rw [hself] at hplain
      cases hplain.symm.trans hiface
    · exact w.isAbstract_of_lists hlists

/-- Whether a body is needed is known, and stays so. -/
theorem Passable.exists_needsBody (h : t.Passable sel) (hs : t.Sound) :
    ∃ needed, ∀ {t'}, t.Grown t' → t'.needsBody sel = .ok needed := by
  obtain ⟨crosses, hcrosses⟩ := h.exists_crossesPointer hs
  obtain ⟨abs, habs⟩ := h.exists_isAbstract hs
  obtain ⟨iface, hiface⟩ := h.exists_isInterface_recv hs
  rcases hneeded : sel.isPromoted || crosses with _ | _
  · exact ⟨_, fun g => needsBody_direct (g.crossesPointer hcrosses) hneeded (g.isInterface hiface)⟩
  · exact ⟨_, fun g => needsBody_wrapped (g.crossesPointer hcrosses) hneeded (g.isAbstract habs)⟩

end TypeTable

namespace Builder

variable {b : Builder} {sel : Selection} {sig : Signature} {base elem : TypeId} {isPtr ptr : Bool}

/-! ## The code of a promotion wrapper -/

/-- A draft was closed by a return. -/
def Ends (b : Builder) (_ : Unit) (b' : Builder) : Prop := ∃ b₁ vs, b.Keeps b₁ ∧ b' = b₁.returned vs

theorem Ends.after {b₀ b' : Builder} {u : Unit} (h : Ends b u b') (hk : b₀.Keeps b) :
    Ends b₀ u b' := by
  obtain ⟨b₁, vs, hk₁, rfl⟩ := h
  exact ⟨b₁, vs, hk.trans hk₁, rfl⟩

theorem tailCall_ends (s : b.Straight) (call : Call)
    (hsig : b.types.signatureOf b.func.signature = .ok sig)
    (hheld : ∀ r ∈ sig.results, b.types.Holds r.ty) :
    Gives (liftM (tailCall call) : TryBuild Unit) b (Ends b) := by
  refine Gives.lift ((tailCall_yields s call hsig hheld).mono ?_)
  rintro _ b' ⟨b₁, code, vs, he, rfl, -⟩
  exact ⟨b₁, vs, he.toKeeps, rfl⟩

/-- The receiver is taken by address, or as the pointer that it is. -/
theorem start_ends {k : ValueId → TryBuild Unit} (s : b.Straight) {recv : ValueId}
    (hrecv : TypedAs b.func.values recv sel.recv)
    (hstrip : b.types.stripPointer sel.recv = .ok (base, isPtr))
    (hk : ∀ {start b'}, b.Keeps b' → Addresses b'.types b'.func.values start base →
      Gives (k start) b' (Ends b')) :
    Gives (do
      if ← Builder.isPointer sel.recv then (do let start ← pure recv; k start)
      else (do let start ← Builder.spill recv; k start) : TryBuild Unit) b (Ends b) := by
  obtain ⟨byPtr, hbyPtr⟩ := s.sound.exists_isPointer (s.holds_typedAs hrecv)
  refine .stepLift (ask_run hbyPtr) ?_
  obtain ⟨ty, hty, hcases⟩ := TypeTable.stripPointer_eq_ok_iff.mp hstrip
  cases byPtr with
  | true =>
    refine hk (.refl s) ⟨_, hrecv, fun hvalue => ?_⟩
    rcases hcases with ⟨rfl, -⟩ | ⟨-, rfl, -⟩
    · exact hty
    · cases hvalue.symm.trans hbyPtr
  | false =>
    rcases hcases with ⟨rfl, -⟩ | ⟨-, rfl, -⟩
    · cases hbyPtr.symm.trans (TypeTable.isPointer_eq (TypeTable.underlyingTy_plain hty rfl))
    · refine (Gives.lift (spill_yields s hrecv)).bind ?_
      rintro start b' ⟨he, hstart⟩
      exact (hk he.toKeeps hstart.addresses).mono fun _ _ hend => hend.after he.toKeeps

end Builder

namespace Program

open Builder

variable {b : Builder} {p : Program} {sel : Selection} {sig : Signature} {base elem : TypeId}

/-- The method is called on what was reached, if there is a body where one is needed. -/
theorem forwardFrom_ends (s : b.Straight) (h : b.types.Passable sel)
    (hsig : b.types.signatureOf b.func.signature = .ok sig)
    (hheld : ∀ r ∈ sig.results, b.types.Holds r.ty) {body? : Option BodyId}
    (hbody : b.types.isAbstract sel.method = .ok false → body?.isSome = true)
    {target : ValueId} {formals : List ValueId} {ty : TypeId}
    (htarget : TypedAs b.func.values target ty) :
    Gives (forwardFrom sel body? formals target) b (Ends b) := by
  -- a call from a later draft
  have hcall : ∀ {b' : Builder} (call : Call), b.Keeps b' →
      Gives (liftM (tailCall call) : TryBuild Unit) b' (Ends b) := fun call hk =>
    (tailCall_ends hk.straight call (hk.signatureOf hsig)
      fun r hr => hk.types.holds (hheld r hr)).mono fun _ _ hend => hend.after hk
  obtain ⟨abs, habs⟩ := h.exists_isAbstract s.sound
  refine .stepLift (Builder.ask_run habs) ?_
  cases abs with
  | true =>
    refine (Gives.lift (load_typed s htarget)).bind ?_
    rintro iface b₁ ⟨hk, -⟩
    exact hcall _ hk
  | false =>
    obtain ⟨byPtr, hbyPtr⟩ := h.exists_hasPointerReceiver s.sound
    obtain ⟨body, rfl⟩ := Option.isSome_iff_exists.mp (hbody habs)
    refine .stepLift (Builder.ask_run hbyPtr) ?_
    cases byPtr with
    | true => exact hcall _ (.refl s)
    | false =>
      refine (Gives.lift (load_typed s htarget)).bind ?_
      rintro arg b₁ ⟨hk, -⟩
      exact hcall _ hk

/-- **The code of a promotion wrapper can be built** for every selection that can be followed,
if there is a body where one is needed. -/
theorem promotionSteps_ends {decl : FuncDecl} {text : String} (s : b.Straight)
    (h : b.types.Passable sel) (hsig : b.types.signatureOf b.func.signature = .ok sig)
    (hheld : ∀ v ∈ sig.params ++ sig.results, b.types.Holds v.ty) {body? : Option BodyId}
    (hbody : b.types.isAbstract sel.method = .ok false → body?.isSome = true) :
    Gives (promotionSteps sel decl text body?) b (Ends (describe b sel decl text)) := by
  have s₀ : (describe b sel decl text).Straight :=
    ⟨s.sound, s.current, s.blocks, s.placed, s.held, s.signature, s.recover⟩
  obtain ⟨base, isPtr, elem, ptr, hstrip, hleads⟩ := h.way
  have hsig₀ : (describe b sel decl text).types.signatureOf
      (describe b sel decl text).func.signature = .ok sig := hsig
  refine .stepLift rfl ((Gives.lift (addParam_yields s₀ "recv" h.holds_recv)).bind ?_)
  rintro recv b₁ ⟨ht₁, hrecv, -⟩
  refine (Gives.lift (addFormals_yields ht₁.straight (ht₁.signatureOf hsig₀)
    fun v hv => ht₁.types.holds (hheld v (List.mem_append_left _ hv)))).bind ?_
  rintro formals b₂ ⟨ht₂, -⟩
  have ht := ht₁.trans ht₂
  have g₂ : b.types.Grown b₂.types := ht.types
  refine (start_ends ht.straight (ht₂.typedAs hrecv) (g₂.stripPointer hstrip) ?_).mono
    fun _ _ hend => hend.after ht.toKeeps
  intro start b₃ hk₃ hstart
  have g₃ : b.types.Grown b₃.types := g₂.trans hk₃.types
  refine .stepLift (answer_run (Selection.way_eq h.place) b₃) ?_
  refine (followPath_addresses hk₃.straight hstart (g₃.leads hleads)).bind ?_
  rintro target b₄ ⟨hk₄, ty, htarget, -⟩
  have g : b.types.Grown b₄.types := g₃.trans hk₄.types
  have hk := (ht.toKeeps.trans hk₃).trans hk₄
  obtain ⟨abs, habs⟩ := h.exists_isAbstract s.sound
  refine (forwardFrom_ends hk₄.straight (h.grown g) (hk.signatureOf hsig₀)
    (fun r hr => g.holds (hheld r (List.mem_append_right _ hr))) (fun hconcrete => ?_)
    htarget).mono fun _ _ hend => hend.after hk₄
  cases hconcrete.symm.trans (g.isAbstract habs)
  exact hbody habs

/-! ## Requests that are answered -/

/-- A request was answered. Types were entered, and the declared bodies stayed. -/
structure Passes {α : Type} (p : Program) (res : Except BuildError α) (q : Program) : Prop where
  ok : ∃ a, res = .ok a
  types : p.types.Grown q.types
  declared : q.declared = p.declared

/-- A selection that a request can be answered for: it can be followed, and there is a declared
body where one is needed. -/
structure Answerable (p : Program) (sel : Selection) : Prop where
  passable : p.types.Passable sel
  body : p.types.needsBody sel = .ok true → (p.declared.lookup sel.method).isSome = true

theorem Passes.answerable {α : Type} {res : Except BuildError α} {q : Program}
    (h : Passes p res q) (hs : p.types.Sound) (ha : p.Answerable sel) : q.Answerable sel := by
  refine ⟨ha.passable.grown h.types, fun hneeded => ?_⟩
  obtain ⟨needed, hknown⟩ := ha.passable.exists_needsBody hs
  cases hneeded.symm.trans (hknown h.types)
  rw [h.declared]
  exact ha.body (hknown .refl)

section Requests

variable (hs : p.types.Sound) (hm : p.types.MethodsTyped)
include hs hm

theorem promotionWrapper_passes (h : p.types.Passable sel)
    (hbody : p.types.isAbstract sel.method = .ok false →
      (p.declared.lookup sel.method).isSome = true) :
    Settles p.types.Endless (promotionWrapper sel).run p (Passes p) := by
  obtain ⟨decl, sig, hdecl, hsig⟩ := h.typed
  obtain ⟨abs, habs⟩ := h.exists_isAbstract hs
  refine (promotionWrapper_of_steps p hs hm h.holds_recv hdecl hsig (P := fun _ _ => True)
    (F := fun _ => False) ?_).mono (fun _ => id) fun res q hend => ?_
  · intro t own text g hget
    have hheld := holds_of_signature (g.sound hs) hget
    have s := draft_straight (p := { p with types := t }) (g.sound hs)
      (TypeTable.holds_of_get hget) decl.name
    refine .ofGives (promotionSteps_ends s (h.grown g) (signatureOf_get hget) hheld
      fun hconcrete => ?_) ?_
    · cases hconcrete.symm.trans (g.isAbstract habs)
      exact hbody habs
    · rintro _ b' ⟨b₁, vs, hk, rfl⟩
      exact .closed hk trivial
  · rcases hend with ⟨f, rfl, ⟨t, g, rfl⟩, -, -⟩ | ⟨e, -, -, ⟨⟩⟩
    exact ⟨⟨_, rfl⟩, g, rfl⟩

/-- **What stands behind a selection is found or made**, if there is a body where one is
needed. -/
theorem resolve_passes (ha : p.Answerable sel) :
    Settles p.types.Endless (resolve sel).run p (Passes p) := by
  obtain ⟨h, hbody⟩ := ha
  obtain ⟨crosses, hcrosses⟩ := h.exists_crossesPointer hs
  refine .stepGiven (crossesPointer_run hcrosses) ?_
  rcases hneeded : sel.isPromoted || crosses with _ | _
  · rw [if_neg Bool.false_ne_true]
    obtain ⟨iface, hiface⟩ := h.exists_isInterface_recv hs
    have hneeds := TypeTable.needsBody_direct hcrosses hneeded hiface
    refine .stepGiven (Program.ask_run hiface) ?_
    cases iface with
    | true =>
      obtain ⟨decl, sig, hdecl, hsig⟩ := h.typed
      refine (interfaceWrapper_settles p hs hm h.holds_recv hdecl hsig).mono (fun _ => id)
        fun res q hend => ?_
      cases hend with
      | known => exact ⟨⟨_, rfl⟩, .refl, rfl⟩
      | made _ hwraps =>
        obtain ⟨t, g, rfl⟩ := hwraps
        exact ⟨⟨_, rfl⟩, g, rfl⟩
    | false =>
      obtain ⟨id, hid⟩ := Option.isSome_iff_exists.mp (hbody hneeds)
      refine .stepGiven rfl ?_
      rw [hid]
      exact .inl (.of_run rfl ⟨⟨_, rfl⟩, .refl, rfl⟩)
  · rw [if_pos rfl]
    refine promotionWrapper_passes hs hm h fun habs => hbody ?_
    exact TypeTable.needsBody_wrapped hcrosses hneeded habs

/-- A member of a method set is resolved. -/
theorem resolveMember_passes (ty : TypeId) (ha : p.Answerable sel) :
    Settles p.types.Endless (resolveMember ty sel).run p (Passes p) := by
  obtain ⟨decl, sig, hdecl, -⟩ := ha.passable.typed
  refine .stepGiven (Program.ask_run hdecl) (.stepGiven rfl ?_)
  rcases hlookup : p.members.lookup (ty, decl.id) with _ | id
  · rw [if_pos Option.isNone_none]
    refine .bind (resolve_passes hs hm ha) ?_
    rintro _ q ⟨⟨id, rfl⟩, g, hdeclared⟩
    exact .inl (.of_run rfl ⟨⟨_, rfl⟩, g, hdeclared⟩)
  · rw [Option.isNone_some, if_neg Bool.false_ne_true]
    exact .inl (.of_run rfl ⟨⟨_, rfl⟩, .refl, rfl⟩)

end Requests

/-- Members are resolved one after another. -/
theorem forM_passes (ty : TypeId) : ∀ (l : List Selection) {p : Program}, p.types.Sound →
    p.types.MethodsTyped → (∀ sel ∈ l, p.Answerable sel) →
    Settles p.types.Endless (l.forM (resolveMember ty)).run p (Passes p)
  | [], p, _, _, _ => .inl (.of_run rfl ⟨⟨_, rfl⟩, .refl, rfl⟩)
  | sel :: l, p, hs, hm, ha => by
    refine .bind (resolveMember_passes hs hm ty (ha sel (List.mem_cons_self ..))) ?_
    intro res q hq
    obtain ⟨u, rfl⟩ := hq.ok
    have g := hq.types
    refine (forM_passes ty l (g.sound hs) (g.methodsTyped hs hm) fun sel' hsel' =>
      hq.answerable hs (ha sel' (List.mem_cons_of_mem _ hsel'))).mono
      (fun _ he => g.endless hs he) ?_
    rintro res' r ⟨hok, g', hdeclared⟩
    exact ⟨hok, g.trans g', hdeclared.trans hq.declared⟩

/-- **A method set is resolved as a whole** if each member that needs a declared body has
one. -/
theorem methodSet_completes (hs : p.types.Sound) (hm : p.types.MethodsTyped) {ty : TypeId}
    (hty : p.types.Holds ty) (hbodies : ∀ sels, p.types.methodSet ty = .ok sels → ∀ sel ∈ sels,
      p.types.needsBody sel = .ok true → (p.declared.lookup sel.method).isSome = true) :
    Settles p.types.Endless (methodSet ty).run p fun res _ => ∃ l, res = .ok l := by
  obtain ⟨sels, hsels, -, hmem⟩ := hs.exists_methodSet hm hty
  refine .stepGiven rfl ?_
  by_cases hcomplete : ty ∈ p.complete
  · rw [if_neg (not_not_intro hcomplete)]
    exact .inl (.of_run rfl ⟨_, rfl⟩)
  · rw [if_pos hcomplete]
    refine .stepGiven (Program.ask_run hsels) ?_
    refine .bind (forM_passes ty sels hs hm fun sel hsel => ⟨?_, hbodies sels hsels sel hsel⟩) ?_
    · obtain ⟨key, hkey⟩ := (hmem sel).mp hsel
      exact hkey.passable hm
    · rintro _ q ⟨⟨u, rfl⟩, -, -⟩
      exact .inl (.of_run rfl ⟨_, rfl⟩)

end Program

end MethodSSA
