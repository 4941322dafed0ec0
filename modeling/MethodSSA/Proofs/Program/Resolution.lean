import Mathlib
import MethodSSA.Program.Registry
import MethodSSA.Proofs.Program.Invocation
import MethodSSA.Proofs.Program.Promotion
import MethodSSA.Proofs.Types.Nesting

/-!
# Requests for one body

What a request for the body behind a selection comes to: the body that was found before,
or the one that is found now and remembered (`BodyAnswer`). The walk over types that lists
the method sets and the construction of the code agree on where a method lies, so that
such a request can fail in one way only: the method is concrete and no body was declared
for it (`ResolveAnswer.lacks`). That it ends at all needs one thing of the table, for it writes
texts of types: the signatures of functions are no declared types (`bodyOf_member_handler`).
-/

namespace MethodSSA

/-- A method is selected from its own receiver type, with no field and no pointer in
between. -/
def TypeTable.Direct (t : TypeTable) (sel : Selection) : Prop :=
  sel.fieldPath = [] ∧ t.hasPointerReceiver sel.method = t.isPointer sel.recv

namespace TypeTable

variable {t : TypeTable} {sel : Selection}

/-- Whether a selection is made from the other side of a pointer than its method is on. -/
def crossesPointer (t : TypeTable) (sel : Selection) : Except Fault Bool := do
  match ← t.receiver? sel.method with
  | none => return false
  | some recv =>
    let declared ← t.isPointer recv
    let selected ← t.isPointer sel.recv
    return declared != selected

theorem crossesPointer_eq {recv : TypeId} {declared selected : Bool}
    (hrecv : t.receiver? sel.method = .ok (some recv)) (hdeclared : t.isPointer recv = .ok declared)
    (hselected : t.isPointer sel.recv = .ok selected) :
    t.crossesPointer sel = .ok (declared != selected) := by
  simp [crossesPointer, hrecv, hdeclared, hselected]

end TypeTable

namespace Program

variable {p : Program} {sel : Selection} {base elem : TypeId} {isPtr ptr : Bool}

/-! ## Finding or making a body -/

/-- What finding or making the body behind a selection comes to, if its way ends at
`elem`. -/
inductive ResolveAnswer (p : Program) (sel : Selection) (elem : TypeId) :
    Except BuildError BodyId → Program → Prop
  /-- what lies in between is done by a promotion wrapper -/
  | promoted {r : Except BuildError BodyId} {q : Program} (hdirect : ¬ p.types.Direct sel)
    (h : PromotionAnswer p sel elem r q) : ResolveAnswer p sel elem r q
  /-- an interface method has a wrapper -/
  | invoked {r : Except BuildError BodyId} {q : Program} (hdirect : p.types.Direct sel)
    (hlists : p.types.Lists sel.recv sel.method) (h : InterfaceAnswer p sel.recv sel.method r q) :
    ResolveAnswer p sel elem r q
  /-- a concrete method has its declared body -/
  | declared {id : BodyId} (hdirect : p.types.Direct sel)
    (hrecv : p.types.receiver? sel.method = .ok (some sel.recv))
    (habs : p.types.isAbstract sel.method = .ok false)
    (hid : p.declared.lookup sel.method = some id) : ResolveAnswer p sel elem (.ok id) p
  /-- a concrete method has no body yet -/
  | missing {e : BuildError} (hdirect : p.types.Direct sel)
    (he : Lacks p.types (p.declared.lookup sel.method) sel.method e) :
    ResolveAnswer p sel elem (.error e) p

/-- The method of a route has a receiver, by pointer or not. -/
theorem exists_receiver {t : TypeTable} (w : t.WellFormed) (r : t.Route sel base elem isPtr ptr) :
    ∃ recv byPtr, t.receiver? sel.method = .ok (some recv) ∧ t.isPointer recv = .ok byPtr ∧
      t.hasPointerReceiver sel.method = .ok byPtr := by
  have hrecv : ∃ recv byPtr, t.receiver? sel.method = .ok (some recv) ∧
      t.isPointer recv = .ok byPtr := by
    rcases r.ends with hd | hl
    · obtain ⟨recv, hrecv, -, ⟨rfl, -⟩ | ⟨hget, -⟩⟩ := w.receiver_of_declares hd
      · exact ⟨recv, _, hrecv, w.isPointer_of_ends (.inl hd)⟩
      · exact ⟨recv, _, hrecv, TypeTable.isPointer_eq (TypeTable.underlyingTy_plain hget rfl)⟩
    · obtain ⟨recv, ms, hrecv, hu⟩ :=
        TypeTable.exists_receiver_of_isAbstract (w.isAbstract_of_lists hl)
      exact ⟨recv, _, hrecv, TypeTable.isPointer_eq hu⟩
  obtain ⟨recv, byPtr, hrecv, hbyPtr⟩ := hrecv
  exact ⟨recv, byPtr, hrecv, hbyPtr, (TypeTable.hasPointerReceiver_eq hrecv).trans hbyPtr⟩

theorem crossesPointer_run {crosses : Bool} (h : p.types.crossesPointer sel = .ok crosses) :
    (crossesPointer sel).run.run p = .ok (.ok crosses, p) := by
  obtain ⟨recv?, hrecv?, h⟩ := bind_eq_ok_iff.mp h
  have hsteps : Yields (crossesPointer sel).run p fun r q => r = .ok crosses ∧ q = p := by
    refine .step (ask_run hrecv?) ?_
    cases recv? with
    | none =>
      cases h
      exact .of_run rfl ⟨rfl, rfl⟩
    | some recv =>
      obtain ⟨declared, hdeclared, h⟩ := bind_eq_ok_iff.mp h
      obtain ⟨selected, hselected, h⟩ := bind_eq_ok_iff.mp h
      cases h
      exact .step (ask_run hdeclared) (.step (ask_run hselected) (.of_run rfl ⟨rfl, rfl⟩))
  obtain ⟨_, _, hrun, rfl, rfl⟩ := hsteps
  exact hrun

/-- The declared body of a concrete method is found, unless there is none. -/
theorem concreteBody_settles (w : p.types.WellFormed) (r : p.types.Route sel base elem isPtr ptr)
    (hdirect : p.types.Direct sel) (hrecv : p.types.receiver? sel.method = .ok (some sel.recv))
    (habs : p.types.isAbstract sel.method = .ok false) :
    Settles p.types.Endless (concreteBody sel.method).run p (ResolveAnswer p sel elem) := by
  refine .stepGiven rfl ?_
  rcases hlookup : p.declared.lookup sel.method with _ | id
  · obtain ⟨decl, sig, -, hdecl, hsig, -⟩ := w.exists_signature r
    have hfaults := TypeTable.funcText_faults w.sound w.methodsTyped hdecl hsig
    change Settles _ ((liftM (p.types.funcText sel.method) >>= _ : Request BodyId).run) p _
    rcases htext : p.types.funcText sel.method with e | text
    · exact .inr ⟨e, rfl, hfaults e htext⟩
    · exact .inl (.of_run rfl (.missing hdirect (.intro habs hlookup)))
  · exact .inl (.of_run rfl (.declared hdirect hrecv habs hlookup))

/-- **A body is found or made** for every selection that has a way. -/
theorem resolve_settles (w : p.types.WellFormed) (r : p.types.Route sel base elem isPtr ptr) :
    Settles p.types.Endless (resolve sel).run p (ResolveAnswer p sel elem) := by
  obtain ⟨recv, byPtr, hrecv, hbyPtr, hmode⟩ := exists_receiver w r
  have hptr := w.isPointer_recv r
  have hdirect : p.types.Direct sel ↔ (sel.isPromoted || (byPtr != isPtr)) = false := by
    rw [TypeTable.Direct, hmode, hptr, Bool.or_eq_false_iff, Selection.isPromoted_eq_false_iff]
    simp
  refine .stepGiven (crossesPointer_run (TypeTable.crossesPointer_eq hrecv hbyPtr hptr)) ?_
  -- a wrapper is needed exactly where the method is not taken directly
  rcases hneeded : sel.isPromoted || (byPtr != isPtr) with _ | _
  · rw [if_neg Bool.false_ne_true]
    have hd := hdirect.mpr hneeded
    have hleads := r.leads
    rw [hd.1] at hleads
    obtain ⟨rfl, rfl⟩ := TypeTable.leads_nil_iff.mp hleads
    have hmode' := hd.2.trans hptr
    rcases r.ends with hdecl | hlists
    · -- the method is attached to the receiver type, or to what that points to
      have hself := w.receiver_of_direct r hd.1 hdecl hmode'
      obtain ⟨-, -, habs, -⟩ := w.receiver_of_declares hdecl
      have hiface : p.types.isInterface sel.recv = .ok false :=
        (TypeTable.isAbstract_eq hself).symm.trans habs
      refine .stepGiven (ask_run hiface) ?_
      exact concreteBody_settles w r hd hself habs
    · -- the receiver type is the interface
      obtain ⟨recv', ms', hrecv', hu'⟩ :=
        TypeTable.exists_receiver_of_isAbstract (w.isAbstract_of_lists hlists)
      cases hrecv.symm.trans hrecv'
      cases hbyPtr.symm.trans (TypeTable.isPointer_eq hu')
      cases hmode.symm.trans hmode'
      obtain ⟨ty, hty, ⟨-, ⟨⟩⟩ | ⟨-, hbase, -⟩⟩ := TypeTable.stripPointer_eq_ok_iff.mp r.start
      subst hbase
      obtain ⟨ms, hu, hm⟩ := hlists
      obtain ⟨decl, sig, -, hdecl, hsig, -⟩ := w.exists_signature r
      refine .stepGiven (ask_run (TypeTable.isInterface_eq hu)) ?_
      exact (interfaceWrapper_settles p w.sound w.methodsTyped
        (TypeTable.holds_of_get hty) hdecl hsig).mono
        (fun _ => id) fun _ _ h => .invoked hd ⟨ms, hu, hm⟩ h
  · rw [if_pos rfl]
    have hd : ¬ p.types.Direct sel := by
      rw [hdirect, hneeded]
      exact Bool.noConfusion
    exact (promotionWrapper_settles p w r).mono (fun _ => id) fun _ _ h => .promoted hd h

/-! ## What an answer says -/

/-- There is something to call behind a selection: its method is abstract, or it has a
declared body. -/
def Ready (p : Program) (sel : Selection) : Prop :=
  p.types.isAbstract sel.method = .ok true ∨ (p.declared.lookup sel.method).isSome = true

theorem Ready.not_lacks (h : Ready p sel) {e : BuildError} :
    ¬ Lacks p.types (p.declared.lookup sel.method) sel.method e := by
  rintro ⟨habs, hnone⟩
  rcases h with habs' | hsome
  · cases habs.symm.trans habs'
  · simp [hnone] at hsome

theorem ready_of_behind {callee : Option BodyId}
    (h : Behind p.types (p.declared.lookup sel.method) sel.method callee) : Ready p sel := by
  rcases h with habs | ⟨-, hbody⟩
  · exact .inl habs
  · exact .inr (by simp [hbody])

/-- The only error is that a body is missing. -/
theorem ResolveAnswer.lacks {e : BuildError} {q : Program}
    (h : ResolveAnswer p sel elem (.error e) q) :
    Lacks p.types (p.declared.lookup sel.method) sel.method e := by
  cases h with
  | promoted _ h =>
    cases h with
    | missing _ he => exact he
  | invoked _ _ h => cases h
  | missing _ he => exact he

/-- A promotion wrapper that was made for a selection in a program whose type table has
grown to `t`. -/
structure WrapperOf (p : Program) (sel : Selection) (elem : TypeId) (t : TypeTable) (f : Function)
    (sig : Signature) (callee : Option BodyId) : Prop where
  grown : p.types.Grown t
  header : PromotionHeader p.types sel sig f
  body : PromotionBody t sel (sel.signature sig) elem f callee
  behind : Behind p.types (p.declared.lookup sel.method) sel.method callee

/-- A function that was added for a selection is its promotion wrapper. -/
theorem ResolveAnswer.wrapperOf {res : Except BuildError BodyId} {q : Program}
    (h : ResolveAnswer p sel elem res q) {f : Function} (hadded : q.bodies = p.bodies ++ [f])
    (hsel : f.method = some sel) :
    res = .ok ⟨p.bodies.length⟩ ∧ ∃ sig callee, WrapperOf p sel elem q.types f sig callee := by
  have hself : ∀ {p' : Program}, p'.bodies = p.bodies → p'.bodies ≠ p.bodies ++ [f] := by
    intro p' hp' hadded'
    simp [hp'] at hadded'
  cases h with
  | promoted _ h =>
    cases h with
    | made hwraps hhead hbody hbehind =>
      obtain ⟨t, g, rfl⟩ := hwraps
      obtain rfl := List.singleton_inj.mp (List.append_cancel_left hadded)
      exact ⟨rfl, _, _, g, hhead, hbody, hbehind⟩
    | missing hq _ =>
      obtain ⟨t, -, rfl⟩ := hq
      exact absurd hadded (hself rfl)
  | invoked _ _ h =>
    cases h with
    | known => exact absurd hadded (hself rfl)
    | made _ hwraps hhead _ =>
      obtain ⟨t, -, rfl⟩ := hwraps
      obtain rfl := List.singleton_inj.mp (List.append_cancel_left hadded)
      -- an interface wrapper stands for no selection
      obtain ⟨decl, own, text, -, -, -, -, hheader⟩ := hhead
      have hmethod := congrArg Function.method hheader
      change _ = none at hmethod
      cases hsel.symm.trans hmethod
  | declared => exact absurd hadded (hself rfl)
  | missing => exact absurd hadded (hself rfl)

/-- A body that was found or made is remembered. -/
inductive BodyAnswer (p : Program) (sel : Selection) (elem : TypeId)
    (keep : BodyId → Program → Program) : Except BuildError BodyId → Program → Prop
  | kept {id : BodyId} {q : Program} (h : ResolveAnswer p sel elem (.ok id) q) :
    BodyAnswer p sel elem keep (.ok id) (keep id q)
  | failed {e : BuildError} {q : Program} (h : ResolveAnswer p sel elem (.error e) q) :
    BodyAnswer p sel elem keep (.error e) q

/-- Remembers a member of a method set. -/
def keepMember (key : TypeId × String) (id : BodyId) (p : Program) : Program :=
  { p with members := (key, id) :: p.members }

/-- Remembers what can be called on variables. -/
def keepAddressable (key : TypeId × String) (id : BodyId) (p : Program) : Program :=
  { p with addressable := (key, id) :: p.addressable }

theorem remember_settles {keep : BodyId → Program → Program} (w : p.types.WellFormed)
    (r : p.types.Route sel base elem isPtr ptr) :
    Settles p.types.Endless (do
      let id ← resolve sel
      modify (keep id)
      return id : Request BodyId).run p (BodyAnswer p sel elem keep) := by
  refine .bind (resolve_settles w r) fun res q h => ?_
  rcases res with e | id
  · exact .inl (.of_run rfl (.failed h))
  · exact .inl (.of_run rfl (.kept h))

/-- The request for a member of a method set that was found before. -/
theorem bodyOf_known (w : p.types.WellFormed) (h : p.types.Selected sel base elem isPtr ptr)
    {id : BodyId} (hid : p.members.lookup (sel.recv, p.types.idOf sel.method) = some id) :
    (bodyOf sel).run.run p = .ok (.ok id, p) := by
  obtain ⟨decl, -, -, hdecl, -, -⟩ := w.exists_signature h.toRoute
  rw [TypeTable.idOf_eq hdecl] at hid
  have hsettles : Settles (fun _ => False) (bodyOf sel).run p fun r q => r = .ok id ∧ q = p := by
    refine .stepGiven (ask_run hdecl) (.stepGiven (ask_run h.inMethodSet) ?_)
    rw [if_pos rfl]
    refine .stepGiven rfl ?_
    rw [hid]
    exact .inl (.of_run rfl ⟨rfl, rfl⟩)
  obtain ⟨_, _, hrun, rfl, rfl⟩ := hsettles.yields fun _ h => h
  exact hrun

/-- The request for a member of a method set that was not found before. -/
theorem bodyOf_unknown (w : p.types.WellFormed) (h : p.types.Selected sel base elem isPtr ptr)
    (hnone : p.members.lookup (sel.recv, p.types.idOf sel.method) = none) :
    Settles p.types.Endless (bodyOf sel).run p
      (BodyAnswer p sel elem (keepMember (sel.recv, p.types.idOf sel.method))) := by
  obtain ⟨decl, -, -, hdecl, -, -⟩ := w.exists_signature h.toRoute
  rw [TypeTable.idOf_eq hdecl] at hnone ⊢
  refine .stepGiven (ask_run hdecl) (.stepGiven (ask_run h.inMethodSet) ?_)
  rw [if_pos rfl]
  refine .stepGiven rfl ?_
  rw [hnone]
  exact remember_settles w h.toRoute

/-- A function that was added by the request for a member of a method set is its promotion
wrapper. -/
theorem wrapperOf_of_added (w : p.types.WellFormed) (h : p.types.Selected sel base elem isPtr ptr)
    {res : Except BuildError BodyId} {q : Program} {f : Function}
    (hrun : (bodyOf sel).run.run p = .ok (res, q)) (hadded : q.bodies = p.bodies ++ [f])
    (hsel : f.method = some sel) :
    res = .ok ⟨p.bodies.length⟩ ∧ ∃ sig callee, WrapperOf p sel elem q.types f sig callee := by
  rcases hlookup : p.members.lookup (sel.recv, p.types.idOf sel.method) with _ | id
  · cases (bodyOf_unknown w h hlookup).elim hrun with
    | kept hans => exact hans.wrapperOf hadded hsel
    | failed hans => exact hans.wrapperOf hadded hsel
  · cases (bodyOf_known w h hlookup).symm.trans hrun
    simp at hadded

/-- A program with a body for one of the two methods of a leaf. -/
def nodeProgram : Program :=
  (declareBody { initial .debug with types := TypeTable.nodeTable } ⟨1⟩ (.empty "Put" ⟨29⟩)).2

/-- The method of the leaf in a node that is reached by pointer, taken by value. -/
def nodeLen : Selection := ⟨⟨31⟩, ⟨0⟩, [1, 0], true⟩

/-- The method of the leaf in a node that is reached by pointer, taken by pointer. -/
def nodePut : Selection := ⟨⟨31⟩, ⟨1⟩, [1, 1], true⟩

end Program

end MethodSSA
