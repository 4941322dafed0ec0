import MethodSSA.Proofs.Program.Resolution

/-!
# What the memories of a program say

Each memory of a program maps a request to a body, and the body has to be the right one
for the request (`MemberEntry`, `AddressableEntry`, `InterfaceEntry`, `BoundEntry`). An
entry that is right stays right: later requests add types, bodies and entries, and change
nothing that is there (`Later`).
-/

namespace MethodSSA

/-! ## Code in a grown table -/

section Growth

variable {t t' : TypeTable} (g : t.Grown t') {f : Function}
include g

theorem FormalTyped.grown {vals : List Value} {sig : Signature} {p : Var × Nat} {v : ValueId}
    (h : FormalTyped t vals sig p v) : FormalTyped t' vals sig p v := by
  simpa using h.append g []

theorem ResultCode.grown {vals : List Value} {call : Call} {rs : List Var} {code : List Instr}
    {vs : List ValueId} (h : ResultCode t vals call rs code vs) :
    ResultCode t' vals call rs code vs :=
  h.later g.extended.types id

theorem Forwarding.grown {sel : Selection} {sig : Signature} {recv target : ValueId}
    {formals : List ValueId} {elem : TypeId} {code : List Instr}
    (h : Forwarding t sel sig f recv formals elem target code) :
    Forwarding t' sel sig f recv formals elem target code := by
  obtain ⟨base, isPtr, start, startCode, pathCode, hstrip, hstart, hpath, hcode⟩ := h.way
  refine ⟨h.params, h.freeVars, h.receiver, h.formals.imp fun _ _ hv => hv.grown g, ?_, ?_⟩
  · refine ⟨base, isPtr, start, startCode, pathCode, g.stripPointer hstrip, ?_, ?_, hcode⟩
    · simpa using hstart.append g []
    · simpa using hpath.append g []
  · simpa using h.target.append g []

theorem PromotionBody.grown {sel : Selection} {sig : Signature} {elem : TypeId}
    {callee : Option BodyId} (h : PromotionBody t sel sig elem f callee) :
    PromotionBody t' sel sig elem f callee := by
  cases h with
  | direct hway harg hresults hblock =>
    refine .direct (hway.grown g) ?_ (hresults.grown g) hblock
    simpa using harg.append g []
  | invoke hway hiface hresults hblock =>
    exact .invoke (hway.grown g) hiface (hresults.grown g) hblock

theorem InterfaceBody.grown {recv : TypeId} {m : FuncId} {sig : Signature}
    (h : InterfaceBody t recv m sig f) : InterfaceBody t' recv m sig f := by
  obtain ⟨hparams, hfree, hiface, hformals, hresults, hblock⟩ := h
  exact .intro hparams hfree hiface (hformals.imp fun _ _ hv => hv.grown g) (hresults.grown g)
    hblock

theorem BoundBody.grown {recv : TypeId} {m : FuncId} {sig : Signature} {callee : Option BodyId}
    (h : BoundBody t recv m sig f callee) : BoundBody t' recv m sig f callee := by
  obtain ⟨hparams, hfree, hobj, hformals, hresults, hblock⟩ := h
  exact .intro hparams hfree hobj (hformals.imp fun _ _ hv => hv.grown g) (hresults.grown g) hblock

end Growth

namespace Program

/-! ## Later states -/

/-- A later state of a program: nothing was forgotten or changed. -/
structure Later (p q : Program) : Prop where
  types : p.types.Grown q.types
  bodies : ∃ more, q.bodies = p.bodies ++ more
  declared : ∀ {m id}, p.declared.lookup m = some id → q.declared.lookup m = some id
  members : ∀ {key id}, p.members.lookup key = some id → q.members.lookup key = some id
  addressable : ∀ {key id}, p.addressable.lookup key = some id → q.addressable.lookup key = some id
  complete : ∀ {ty}, ty ∈ p.complete → ty ∈ q.complete
  ifaceWrappers : ∀ {m id}, p.ifaceWrappers.lookup m = some id → q.ifaceWrappers.lookup m = some id
  boundWrappers : ∀ {m id}, p.boundWrappers.lookup m = some id → q.boundWrappers.lookup m = some id

variable {p q r : Program}

namespace Later

theorem refl (p : Program) : Later p p :=
  ⟨.refl, ⟨[], (List.append_nil _).symm⟩, id, id, id, id, id, id⟩

theorem trans (h : Later p q) (h' : Later q r) : Later p r := by
  obtain ⟨more, hmore⟩ := h.bodies
  obtain ⟨more', hmore'⟩ := h'.bodies
  exact ⟨h.types.trans h'.types, ⟨more ++ more', by rw [hmore', hmore, List.append_assoc]⟩,
    h'.declared ∘ h.declared, h'.members ∘ h.members, h'.addressable ∘ h.addressable,
    h'.complete ∘ h.complete, h'.ifaceWrappers ∘ h.ifaceWrappers,
    h'.boundWrappers ∘ h.boundWrappers⟩

/-- A body stays. -/
theorem body (h : Later p q) {id : BodyId} {f : Function} (hf : p.body id = .ok f) :
    q.body id = .ok f := by
  obtain ⟨more, hmore⟩ := h.bodies
  rw [Program.body, entry_eq_ok_iff] at hf ⊢
  rw [hmore, List.getElem?_append_left (List.getElem?_eq_some_iff.mp hf).1, hf]

end Later

/-- What is noted at a key that was free leaves the other keys alone. -/
theorem lookup_cons_of_none {κ β : Type} [BEq κ] [LawfulBEq κ] {l : List (κ × β)} {key key' : κ}
    {new b : β} (hnone : l.lookup key = none) (h : l.lookup key' = some b) :
    ((key, new) :: l).lookup key' = some b := by
  have hne : (key' == key) = false := by
    refine beq_false_of_ne fun heq => ?_
    rw [heq, hnone] at h
    cases h
  rw [List.lookup_cons, hne]
  exact h

theorem lookup_cons_cases {κ β : Type} [BEq κ] [LawfulBEq κ] {l : List (κ × β)} {key key' : κ}
    {new b : β} (h : ((key, new) :: l).lookup key' = some b) :
    l.lookup key' = some b ∨ key' = key ∧ b = new := by
  rw [List.lookup_cons] at h
  by_cases heq : key' = key
  · subst heq
    rw [beq_self_eq_true] at h
    cases h
    exact .inr ⟨rfl, rfl⟩
  · rw [beq_false_of_ne heq] at h
    exact .inl h

theorem Wraps.later {f : Function} (h : Wraps p f q) : Later p q := by
  obtain ⟨t, g, rfl⟩ := h
  exact ⟨g, ⟨[f], rfl⟩, id, id, id, id, id, id⟩

theorem Enters.later (h : Enters p q) : Later p q := by
  obtain ⟨t, g, rfl⟩ := h
  exact ⟨g, ⟨[], (List.append_nil _).symm⟩, id, id, id, id, id, id⟩

theorem Wraps.body {f : Function} (h : Wraps p f q) : q.body ⟨p.bodies.length⟩ = .ok f := by
  obtain ⟨t, -, rfl⟩ := h
  exact entry_eq_ok_iff.mpr List.getElem?_concat_length

end Program

theorem Behind.later {p q : Program} (l : Program.Later p q) {m : FuncId} {callee : Option BodyId}
    (h : Behind p.types (p.declared.lookup m) m callee) :
    Behind q.types (q.declared.lookup m) m callee := by
  rcases h with habs | ⟨habs, hbody⟩
  · exact .abstract (l.types.isAbstract habs)
  · exact .concrete (l.types.isAbstract habs) (l.declared hbody)

namespace TypeTable

variable {t t' : TypeTable} {sel : Selection} {base elem : TypeId} {isPtr ptr : Bool}

/-- A method with a pointer receiver that is selected from a value and reached without a
pointer. It can be called on variables of the type. -/
structure Addressable (t : TypeTable) (sel : Selection) : Prop where
  route : ∃ elem, t.Route sel sel.recv elem false false
  byPointer : t.hasPointerReceiver sel.method = .ok true
  value : sel.indirect = false

/-- A grown table takes no other methods directly. -/
theorem Grown.direct_iff (g : t.Grown t') (w : t.WellFormed)
    (r : t.Route sel base elem isPtr ptr) : t'.Direct sel ↔ t.Direct sel := by
  obtain ⟨recv, byPtr, -, -, hmode⟩ := Program.exists_receiver w r
  have hptr := w.isPointer_recv r
  simp only [Direct, hmode, hptr, g.hasPointerReceiver hmode, g.isPointer hptr]

theorem Addressable.grown (g : t.Grown t') (h : t.Addressable sel) : t'.Addressable sel := by
  obtain ⟨elem, r⟩ := h.route
  exact ⟨⟨elem, g.route r⟩, g.hasPointerReceiver h.byPointer, h.value⟩

/-- It is no member of a method set. -/
theorem Addressable.inMethodSet (h : t.Addressable sel) : t.inMethodSet sel = .ok false := by
  simp [TypeTable.inMethodSet, h.value, h.byPointer]

/-- It is never taken directly. -/
theorem Addressable.not_direct (w : t.WellFormed) (h : t.Addressable sel) : ¬ t.Direct sel := by
  obtain ⟨elem, r⟩ := h.route
  rintro ⟨-, hmode⟩
  cases h.byPointer.symm.trans (hmode.trans (w.isPointer_recv r))

end TypeTable

namespace Program

variable {A : Selection → Prop} {p q r : Program} {sel : Selection} {key : TypeId × String}
  {m : FuncId} {ty : TypeId} {id : BodyId}

/-! ## What belongs to a request -/

/-- A wrapper that was made for a selection: it goes the way of the selection and calls what
stands behind its method. -/
inductive Wrapped (p : Program) (sel : Selection) (id : BodyId) : Prop
  | intro {base elem : TypeId} {isPtr ptr : Bool} {f : Function} {decl : FuncDecl}
    {sig : Signature} {callee : Option BodyId} (route : p.types.Route sel base elem isPtr ptr)
    (hf : p.body id = .ok f) (hsel : f.method = some sel)
    (hdecl : p.types.func sel.method = .ok decl) (hsig : p.types.signatureOf decl.sig = .ok sig)
    (hbody : PromotionBody p.types sel (sel.signature sig) elem f callee)
    (hbehind : Behind p.types (p.declared.lookup sel.method) sel.method callee)

/-- **The body that belongs to a selection.** -/
inductive Backs (p : Program) (sel : Selection) (id : BodyId) : Prop
  /-- a concrete method of the receiver type itself has its declared body -/
  | declared (hdirect : p.types.Direct sel)
    (hrecv : p.types.receiver? sel.method = .ok (some sel.recv))
    (habs : p.types.isAbstract sel.method = .ok false)
    (hid : p.declared.lookup sel.method = some id)
  /-- a method of an interface type has its interface wrapper -/
  | invoked (hdirect : p.types.Direct sel) (hlists : p.types.Lists sel.recv sel.method)
    (hid : p.ifaceWrappers.lookup sel.method = some id)
  /-- where something lies in between there is a promotion wrapper -/
  | promoted (hdirect : ¬ p.types.Direct sel) (h : Wrapped p sel id)

/-- What is remembered for a member of a method set belongs to the selection of that
identifier. -/
inductive MemberEntry (p : Program) (key : TypeId × String) (id : BodyId) : Prop
  | intro {sels : List Selection} {sel : Selection} (hsels : p.types.methodSet key.1 = .ok sels)
    (hsel : sel ∈ sels) (hkey : p.types.idOf sel.method = key.2) (h : Backs p sel id)

/-- What is remembered for variables of a type is the wrapper of a selection in `A`. -/
inductive AddressableEntry (A : Selection → Prop) (p : Program) (key : TypeId × String)
    (id : BodyId) : Prop
  | intro {sel : Selection} (hsel : A sel) (hcall : p.types.Addressable sel)
    (hrecv : sel.recv = key.1) (hkey : p.types.idOf sel.method = key.2) (h : Wrapped p sel id)

/-- All members of the method set of a type are remembered. -/
def Filled (p : Program) (ty : TypeId) : Prop :=
  ∃ sels, p.types.methodSet ty = .ok sels ∧
    ∀ sel ∈ sels, ∃ id, p.members.lookup (ty, p.types.idOf sel.method) = some id

/-- What is remembered for an interface method invokes it. -/
inductive InterfaceEntry (p : Program) (m : FuncId) (id : BodyId) : Prop
  | intro {recv : TypeId} {f : Function} {decl : FuncDecl} {sig : Signature}
    (hf : p.body id = .ok f) (hobject : f.object = some m) (hdecl : p.types.func m = .ok decl)
    (hsig : p.types.signatureOf decl.sig = .ok sig)
    (hbody : InterfaceBody p.types recv m { sig with recv := some ⟨"recv", recv⟩ } f)

/-- What is remembered for a bound method calls what stands behind it. -/
inductive BoundEntry (p : Program) (m : FuncId) (id : BodyId) : Prop
  | intro {v : Var} {f : Function} {decl : FuncDecl} {sig : Signature} {callee : Option BodyId}
    (hf : p.body id = .ok f) (hdecl : p.types.func m = .ok decl)
    (hsig : p.types.signatureOf decl.sig = .ok sig) (hrecv : sig.recv = some v)
    (hbody : BoundBody p.types v.ty m { sig with recv := none } f callee)
    (hbehind : Behind p.types (p.declared.lookup m) m callee)

section Lasting

variable (l : Later p q)
include l

theorem Wrapped.later (h : Wrapped p sel id) : Wrapped q sel id := by
  obtain ⟨route, hf, hsel, hdecl, hsig, hbody, hbehind⟩ := h
  exact .intro (l.types.route route) (l.body hf) hsel ((l.types.func _).trans hdecl)
    (l.types.signatureOf hsig) (hbody.grown l.types) (hbehind.later l)

theorem Backs.later (w : p.types.WellFormed) {base elem : TypeId} {isPtr ptr : Bool}
    (route : p.types.Route sel base elem isPtr ptr) (h : Backs p sel id) : Backs q sel id := by
  have hiff := l.types.direct_iff w route
  cases h with
  | declared hdirect hrecv habs hid =>
    exact .declared (hiff.mpr hdirect) (l.types.receiver? hrecv) (l.types.isAbstract habs)
      (l.declared hid)
  | invoked hdirect hlists hid =>
    obtain ⟨ms, hms, hm⟩ := hlists
    exact .invoked (hiff.mpr hdirect) ⟨ms, l.types.underlyingTy hms, hm⟩ (l.ifaceWrappers hid)
  | promoted hdirect h => exact .promoted (fun hd => hdirect (hiff.mp hd)) (h.later l)

theorem MemberEntry.later (w : p.types.WellFormed) (h : MemberEntry p key id) :
    MemberEntry q key id := by
  obtain ⟨hsels, hsel, hkey, h⟩ := h
  obtain ⟨-, _, _, _, _, hselected⟩ := w.selected_of_mem hsels hsel
  refine .intro ?_ hsel ((l.types.idOf _).trans hkey) (h.later l w hselected.toRoute)
  rw [l.types.methodSet w (TypeTable.holds_of_methodSet hsels), hsels]

theorem AddressableEntry.later (h : AddressableEntry A p key id) :
    AddressableEntry A q key id := by
  obtain ⟨hsel, hcall, hrecv, hkey, h⟩ := h
  exact .intro hsel (hcall.grown l.types) hrecv ((l.types.idOf _).trans hkey) (h.later l)

theorem Filled.later (w : p.types.WellFormed) (h : Filled p ty) : Filled q ty := by
  obtain ⟨sels, hsels, hall⟩ := h
  refine ⟨sels, ?_, fun sel hsel => ?_⟩
  · rw [l.types.methodSet w (TypeTable.holds_of_methodSet hsels), hsels]
  · obtain ⟨id, hid⟩ := hall sel hsel
    rw [l.types.idOf]
    exact ⟨id, l.members hid⟩

theorem InterfaceEntry.later (h : InterfaceEntry p m id) : InterfaceEntry q m id := by
  obtain ⟨hf, hobject, hdecl, hsig, hbody⟩ := h
  exact .intro (l.body hf) hobject ((l.types.func m).trans hdecl) (l.types.signatureOf hsig)
    (hbody.grown l.types)

theorem BoundEntry.later (h : BoundEntry p m id) : BoundEntry q m id := by
  obtain ⟨hf, hdecl, hsig, hrecv, hbody, hbehind⟩ := h
  exact .intro (l.body hf) ((l.types.func m).trans hdecl) (l.types.signatureOf hsig) hrecv
    (hbody.grown l.types) (hbehind.later l)

end Lasting

/-! ## What a step may add -/

/-- A later state in which every new entry is right. -/
structure Extends (A : Selection → Prop) (p q : Program) : Prop extends Later p q where
  newDeclared : ∀ {m id}, q.declared.lookup m = some id →
    p.declared.lookup m = some id ∨ ∃ f, q.body id = .ok f
  newMember : ∀ {key id}, q.members.lookup key = some id →
    p.members.lookup key = some id ∨ MemberEntry q key id
  newAddressable : ∀ {key id}, q.addressable.lookup key = some id →
    p.addressable.lookup key = some id ∨ AddressableEntry A q key id
  newComplete : ∀ {ty}, ty ∈ q.complete → ty ∈ p.complete ∨ Filled q ty
  newInterface : ∀ {m id}, q.ifaceWrappers.lookup m = some id →
    p.ifaceWrappers.lookup m = some id ∨ InterfaceEntry q m id
  newBound : ∀ {m id}, q.boundWrappers.lookup m = some id →
    p.boundWrappers.lookup m = some id ∨ BoundEntry q m id

namespace Extends

/-- A later state in which nothing more is remembered. -/
theorem of_later (l : Later p q) (hdeclared : q.declared = p.declared)
    (hmembers : q.members = p.members) (haddressable : q.addressable = p.addressable)
    (hcomplete : q.complete = p.complete) (hiface : q.ifaceWrappers = p.ifaceWrappers)
    (hbound : q.boundWrappers = p.boundWrappers) : Extends A p q := by
  refine ⟨l, ?_, ?_, ?_, ?_, ?_, ?_⟩ <;> intros <;> left
  · rwa [← hdeclared]
  · rwa [← hmembers]
  · rwa [← haddressable]
  · rwa [← hcomplete]
  · rwa [← hiface]
  · rwa [← hbound]

theorem refl (p : Program) : Extends A p p := of_later (.refl p) rfl rfl rfl rfl rfl rfl

theorem trans (h : Extends A p q) (h' : Extends A q r) (w : q.types.WellFormed) :
    Extends A p r := by
  have l := h'.toLater
  refine ⟨h.toLater.trans l, ?_, ?_, ?_, ?_, ?_, ?_⟩
  · intro m id hid
    rcases h'.newDeclared hid with hid | hnew
    · exact (h.newDeclared hid).imp_right fun ⟨f, hf⟩ => ⟨f, l.body hf⟩
    · exact .inr hnew
  · intro key id hid
    rcases h'.newMember hid with hid | hnew
    · exact (h.newMember hid).imp_right (.later l w)
    · exact .inr hnew
  · intro key id hid
    rcases h'.newAddressable hid with hid | hnew
    · exact (h.newAddressable hid).imp_right (.later l)
    · exact .inr hnew
  · intro ty hty
    rcases h'.newComplete hty with hty | hnew
    · exact (h.newComplete hty).imp_right (.later l w)
    · exact .inr hnew
  · intro m id hid
    rcases h'.newInterface hid with hid | hnew
    · exact (h.newInterface hid).imp_right (.later l)
    · exact .inr hnew
  · intro m id hid
    rcases h'.newBound hid with hid | hnew
    · exact (h.newBound hid).imp_right (.later l)
    · exact .inr hnew

end Extends

theorem Wraps.extends {f : Function} (h : Wraps p f q) : Extends A p q := by
  have l := h.later
  obtain ⟨t, -, rfl⟩ := h
  exact .of_later l rfl rfl rfl rfl rfl rfl

theorem Enters.extends (h : Enters p q) : Extends A p q := by
  have l := h.later
  obtain ⟨t, -, rfl⟩ := h
  exact .of_later l rfl rfl rfl rfl rfl rfl

end Program

end MethodSSA
