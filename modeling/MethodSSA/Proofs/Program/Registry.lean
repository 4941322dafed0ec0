import MethodSSA.Proofs.Program.Entries

/-!
# What the requests remember

Each request leaves a later state in which every new entry is right (`Extends`), whether it
gives an answer or fails. A request that fails in the middle of a method set leaves the
members that it found until then, and they are right as well.
-/

namespace MethodSSA

namespace Program

variable {A : Selection → Prop} {p q : Program} {sel : Selection} {base elem ty recv : TypeId}
  {isPtr ptr : Bool} {key : TypeId × String} {m : FuncId} {body : BodyId}

/-! ## Wrappers of interface methods and of bound methods -/

theorem InterfaceAnswer.extends {res : Except BuildError BodyId}
    (h : InterfaceAnswer p recv m res q) :
    Extends A p q ∧ q.declared = p.declared ∧ q.members = p.members ∧
      q.addressable = p.addressable ∧
      ∃ id, res = .ok id ∧ q.ifaceWrappers.lookup m = some id := by
  cases h with
  | known hid => exact ⟨.refl p, rfl, rfl, rfl, _, rfl, hid⟩
  | @made f sig q hnone hwraps hhead hbody =>
    have l := hwraps.later
    have hf := hwraps.body
    obtain ⟨t, g, rfl⟩ := hwraps
    obtain ⟨decl, own, text, hdecl, hsig, -, -, hheader⟩ := hhead
    refine ⟨⟨⟨l.types, l.bodies, id, id, id, id, lookup_cons_of_none hnone, id⟩, .inl, .inl, .inl,
      .inl, fun hid => ?_, .inl⟩, rfl, rfl, rfl, _, rfl, by simp⟩
    refine (lookup_cons_cases hid).imp_right ?_
    rintro ⟨rfl, rfl⟩
    exact .intro hf (congrArg Function.object hheader :) ((g.func _).trans hdecl)
      (g.signatureOf hsig) hbody

theorem BoundAnswer.extends {res : Except BuildError BodyId} (h : BoundAnswer p m res q) :
    Extends A p q := by
  cases h with
  | known => exact .refl p
  | @made f callee sig v q hnone hrecv hwraps hhead hbody hbehind =>
    have l := hwraps.later
    have hf := hwraps.body
    obtain ⟨t, g, rfl⟩ := hwraps
    obtain ⟨decl, own, t', name, text, hdecl, hsig, -⟩ := hhead
    refine ⟨⟨l.types, l.bodies, id, id, id, id, id, lookup_cons_of_none hnone⟩, .inl, .inl, .inl,
      .inl, .inl, fun hid => ?_⟩
    refine (lookup_cons_cases hid).imp_right ?_
    rintro ⟨rfl, rfl⟩
    exact .intro hf ((g.func _).trans hdecl) (g.signatureOf hsig) hrecv hbody (hbehind.later l)
  | missing _ hq => exact hq.extends
  | plain => exact .refl p

theorem get_run {α : Type} {k : Program → Request α} :
    ((get >>= k : Request α).run).run p = (k p).run.run p := rfl

/-- A request that is no fault got an answer to what it asked the type table. -/
theorem exists_of_ask {α β : Type} {question : TypeTable → Except Fault α} {k : α → Request β}
    {res : Except BuildError β} (h : (ask question >>= k).run.run p = .ok (res, q)) :
    ∃ a, question p.types = .ok a ∧ (k a).run.run p = .ok (res, q) := by
  rcases hq : question p.types with e | a
  · have hfault : Settles (fun _ => True) (ask question >>= k).run p fun _ _ => False :=
      .faultGiven (Program.ask_fault hq) trivial
    exact (hfault.elim h).elim
  · refine ⟨a, rfl, Eq.trans ?_ h⟩
    change _ = ((ask question).run >>= _).run p
    rw [StateT.run_bind, Program.ask_run hq]
    rfl

/-- A request for an interface wrapper that is no fault has an answer, whatever it names. -/
theorem interfaceAnswer_of_run (w : p.types.WellFormed) {res : Except BuildError BodyId}
    (hrun : (interfaceWrapper recv m).run.run p = .ok (res, q)) :
    InterfaceAnswer p recv m res q := by
  have hrest := hrun
  rw [interfaceWrapper, get_run] at hrest
  rcases hlookup : p.ifaceWrappers.lookup m with _ | id
  · rw [hlookup] at hrest
    obtain ⟨decl, hdecl, hrest⟩ := exists_of_ask hrest
    obtain ⟨text, htext, hrest⟩ := exists_of_ask hrest
    obtain ⟨sig, hsig, -⟩ := exists_of_ask hrest
    obtain ⟨ty, hty, -⟩ := bind_eq_ok_iff.mp htext
    exact (interfaceWrapper_settles p w.sound w.methodsTyped
        (TypeTable.holds_of_get hty) hdecl hsig).elim hrun
  · rw [hlookup] at hrest
    cases hrest
    exact .known hlookup

/-- A request for a bound wrapper that is no fault has an answer, whatever it names. -/
theorem boundAnswer_of_run (w : p.types.WellFormed) {res : Except BuildError BodyId}
    (hrun : (boundWrapper m).run.run p = .ok (res, q)) : BoundAnswer p m res q := by
  have hrest := hrun
  rw [boundWrapper, get_run] at hrest
  rcases hlookup : p.boundWrappers.lookup m with _ | id
  · rw [hlookup] at hrest
    obtain ⟨decl, hdecl, hrest⟩ := exists_of_ask hrest
    obtain ⟨sig, hsig, -⟩ := exists_of_ask hrest
    exact (boundWrapper_settles p w hdecl hsig).elim hrun
  · rw [hlookup] at hrest
    cases hrest
    exact .known hlookup

/-! ## Bodies of selections -/

/-- **What is found or made belongs to the selection**, and no member and no method of a
variable is remembered for it yet. -/
theorem ResolveAnswer.extends (w : p.types.WellFormed)
    (r : p.types.Route sel base elem isPtr ptr) {res : Except BuildError BodyId}
    (h : ResolveAnswer p sel elem res q) :
    Extends A p q ∧ q.declared = p.declared ∧ q.members = p.members ∧
      q.addressable = p.addressable ∧ ∀ id, res = .ok id → Backs q sel id := by
  cases h with
  | promoted hdirect h =>
    cases h with
    | made hwraps hhead hbody hbehind =>
      have l := hwraps.later
      have hf := hwraps.body
      obtain ⟨t, g, rfl⟩ := hwraps
      obtain ⟨decl, own, t', text, hdecl, hsig, -, -, hheader⟩ := hhead
      refine ⟨Wraps.extends ⟨t, g, rfl⟩, rfl, rfl, rfl, ?_⟩
      rintro _ ⟨⟩
      refine .promoted (fun hd => hdirect ((l.types.direct_iff w r).mp hd)) ?_
      exact .intro (g.route r) hf (congrArg Function.method hheader :) ((g.func _).trans hdecl)
        (g.signatureOf hsig) hbody (hbehind.later l)
    | missing hq _ =>
      obtain ⟨t, g, rfl⟩ := hq
      exact ⟨Enters.extends ⟨t, g, rfl⟩, rfl, rfl, rfl, nofun⟩
  | invoked hdirect hlists h =>
    obtain ⟨hext, hdeclared, hmembers, haddressable, id, rfl, hid⟩ := h.extends (A := A)
    refine ⟨hext, hdeclared, hmembers, haddressable, ?_⟩
    rintro _ ⟨⟩
    obtain ⟨ms, hms, hm⟩ := hlists
    exact .invoked ((hext.types.direct_iff w r).mpr hdirect)
      ⟨ms, hext.types.underlyingTy hms, hm⟩ hid
  | declared hdirect hrecv habs hid =>
    refine ⟨.refl p, rfl, rfl, rfl, ?_⟩
    rintro _ ⟨⟩
    exact .declared hdirect hrecv habs hid
  | missing => exact ⟨.refl p, rfl, rfl, rfl, nofun⟩

/-- **A member is remembered** with the body that belongs to its selection. -/
theorem keepMember_extends (w : p.types.WellFormed) (hnone : p.members.lookup key = none)
    (h : MemberEntry p key body) : Extends A p (keepMember key body p) := by
  have l : Later p (keepMember key body p) :=
    ⟨.refl, ⟨[], (List.append_nil _).symm⟩, id, lookup_cons_of_none hnone, id, id, id, id⟩
  refine ⟨l, .inl, fun hid => ?_, .inl, .inl, .inl, .inl⟩
  refine (lookup_cons_cases hid).imp_right ?_
  rintro ⟨rfl, rfl⟩
  exact h.later l w

/-- What can be called on variables is remembered with its wrapper. -/
theorem keepAddressable_extends (hnone : p.addressable.lookup key = none)
    (h : AddressableEntry A p key body) : Extends A p (keepAddressable key body p) := by
  have l : Later p (keepAddressable key body p) :=
    ⟨.refl, ⟨[], (List.append_nil _).symm⟩, id, id, lookup_cons_of_none hnone, id, id, id⟩
  refine ⟨l, .inl, .inl, fun hid => ?_, .inl, .inl, .inl⟩
  refine (lookup_cons_cases hid).imp_right ?_
  rintro ⟨rfl, rfl⟩
  exact h.later l

/-- What a request for the body behind a selection comes to: the body that `memory` holds, or
one that is held from now on, or the error that there is none. -/
structure Answers (A : Selection → Prop) (memory : Program → List ((TypeId × String) × BodyId))
    (p : Program) (sel : Selection) (res : Except BuildError BodyId) (q : Program) : Prop where
  step : Extends A p q
  declared : q.declared = p.declared
  known : ∀ id, (memory p).lookup (sel.recv, p.types.idOf sel.method) = some id →
    res = .ok id ∧ q = p
  found : ∀ id, res = .ok id → (memory q).lookup (sel.recv, p.types.idOf sel.method) = some id
  missing : ∀ e, res = .error e → Lacks p.types (p.declared.lookup sel.method) sel.method e

section Memory

variable {memory : Program → List ((TypeId × String) × BodyId)} {keep : BodyId → Program → Program}
  {res : Except BuildError BodyId}

theorem Answers.of_known (hid : (memory p).lookup (sel.recv, p.types.idOf sel.method) = some body) :
    Answers A memory p sel (.ok body) p := by
  refine ⟨.refl p, rfl, fun id' hid' => ?_, ?_, nofun⟩
  · cases hid.symm.trans hid'
    exact ⟨rfl, rfl⟩
  · rintro _ ⟨⟩
    exact hid

/-- A body that is found or made is held from now on, if it may be. -/
theorem BodyAnswer.answers (w : p.types.WellFormed) (r : p.types.Route sel base elem isPtr ptr)
    (hnone : (memory p).lookup (sel.recv, p.types.idOf sel.method) = none)
    (hkeep : ∀ {id q}, Extends A p q → q.members = p.members → q.addressable = p.addressable →
      Backs q sel id → Extends A q (keep id q) ∧ (keep id q).declared = q.declared ∧
        (memory (keep id q)).lookup (sel.recv, p.types.idOf sel.method) = some id)
    (h : BodyAnswer p sel elem keep res q) : Answers A memory p sel res q := by
  have hunknown : ∀ {id P},
      (memory p).lookup (sel.recv, p.types.idOf sel.method) = some id → P := by
    intro id P hid
    cases hnone.symm.trans hid
  cases h with
  | kept hans =>
    obtain ⟨hext, hdeclared, hmembers, haddressable, hbacks⟩ := hans.extends (A := A) w r
    obtain ⟨hext', hdeclared', hfound⟩ := hkeep hext hmembers haddressable (hbacks _ rfl)
    refine ⟨hext.trans hext' (w.grown hext.types), hdeclared'.trans hdeclared,
      fun _ hid => hunknown hid, ?_, nofun⟩
    rintro _ ⟨⟩
    exact hfound
  | failed hans =>
    obtain ⟨hext, hdeclared, -⟩ := hans.extends (A := A) w r
    refine ⟨hext, hdeclared, fun _ hid => hunknown hid, nofun, ?_⟩
    rintro _ ⟨⟩
    exact hans.lacks

end Memory

/-- A member of a method set that was not known is remembered as what belongs to it. -/
theorem member_answers (w : p.types.WellFormed) {sels : List Selection}
    (hsels : p.types.methodSet sel.recv = .ok sels) (hsel : sel ∈ sels)
    (h : p.types.Selected sel base elem isPtr ptr)
    (hnone : p.members.lookup (sel.recv, p.types.idOf sel.method) = none)
    {res : Except BuildError BodyId}
    (hans : BodyAnswer p sel elem (keepMember (sel.recv, p.types.idOf sel.method)) res q) :
    Answers A members p sel res q := by
  refine hans.answers w h.toRoute hnone fun {id q} hext hmembers _ hbacks => ?_
  have hentry : MemberEntry q (sel.recv, p.types.idOf sel.method) id := by
    refine .intro ?_ hsel (hext.types.idOf _) hbacks
    rw [hext.types.methodSet w (TypeTable.holds_of_methodSet hsels), hsels]
  rw [← hmembers] at hnone
  exact ⟨keepMember_extends (w.grown hext.types) hnone hentry, rfl, by simp [keepMember]⟩

/-- **A request for a member of a method set** remembers what belongs to the selection. -/
theorem bodyOf_member_answers (w : p.types.WellFormed) {sels : List Selection}
    (hsels : p.types.methodSet recv = .ok sels) (hsel : sel ∈ sels) :
    Settles p.types.Endless (bodyOf sel).run p (Answers A members p sel) := by
  obtain ⟨rfl, base, elem, isPtr, ptr, h⟩ := w.selected_of_mem hsels hsel
  rcases hlookup : p.members.lookup (sel.recv, p.types.idOf sel.method) with _ | id
  · exact (bodyOf_unknown w h hlookup).mono (fun _ => id) fun _ _ =>
      member_answers w hsels hsel h hlookup
  · exact .inl (.of_run (bodyOf_known w h hlookup) (.of_known hlookup))

/-- **A request for a method that is called on variables** remembers its wrapper, apart from
the method set. -/
theorem bodyOf_addressable_answers (w : p.types.WellFormed) (hsel : A sel)
    (hcall : p.types.Addressable sel) :
    Settles p.types.Endless (bodyOf sel).run p (Answers A addressable p sel) := by
  obtain ⟨elem, r⟩ := hcall.route
  obtain ⟨decl, -, -, hdecl, -, -⟩ := w.exists_signature r
  refine .stepGiven (ask_run hdecl) (.stepGiven (ask_run hcall.inMethodSet) ?_)
  rw [if_neg Bool.false_ne_true]
  refine .stepGiven rfl ?_
  rw [← TypeTable.idOf_eq hdecl]
  rcases hlookup : p.addressable.lookup (sel.recv, p.types.idOf sel.method) with _ | id
  · refine (remember_settles w r).mono (fun _ => id) fun res q hans => ?_
    refine hans.answers w r hlookup fun {id q} hext _ haddressable hbacks => ?_
    have hcall' := hcall.grown hext.types
    have hentry : AddressableEntry A q (sel.recv, p.types.idOf sel.method) id := by
      refine .intro hsel hcall' rfl (hext.types.idOf _) ?_
      cases hbacks with
      | declared hdirect | invoked hdirect =>
        exact absurd hdirect (hcall'.not_direct (w.grown hext.types))
      | promoted _ h => exact h
    rw [← haddressable] at hlookup
    exact ⟨keepAddressable_extends hlookup hentry, rfl, by simp⟩
  · exact .inl (.of_run rfl (.of_known hlookup))

/-! ## Method sets -/

/-- What resolving some members of the method set of a type comes to. -/
structure Resolves (A : Selection → Prop) (p : Program) (ty : TypeId) (sels : List Selection)
    (res : Except BuildError Unit) (q : Program) : Prop where
  step : Extends A p q
  declared : q.declared = p.declared
  found : ∀ u, res = .ok u → ∀ sel ∈ sels, ∃ id,
    q.members.lookup (ty, p.types.idOf sel.method) = some id
  missing : ∀ e, res = .error e → ∃ sel ∈ sels,
    Lacks p.types (p.declared.lookup sel.method) sel.method e

/-- One member is resolved as it is for a request of its own. -/
theorem Answers.resolves {res : Except BuildError BodyId} (h : Answers A members p sel res q) :
    Resolves A p sel.recv [sel] (res.map fun _ => ()) q := by
  refine ⟨h.step, h.declared, ?_, ?_⟩
  · intro u hu sel' hsel'
    rw [List.mem_singleton.mp hsel']
    rcases res with e | id
    · cases hu
    · exact ⟨id, h.found id rfl⟩
  · intro e he
    rcases res with _ | id
    · cases he
      exact ⟨sel, List.mem_singleton_self sel, h.missing e rfl⟩
    · cases he

theorem resolveMember_resolves (w : p.types.WellFormed) {sels : List Selection}
    (hsels : p.types.methodSet ty = .ok sels) (hsel : sel ∈ sels) :
    Settles p.types.Endless (resolveMember ty sel).run p (Resolves A p ty [sel]) := by
  obtain ⟨rfl, base, elem, isPtr, ptr, h⟩ := w.selected_of_mem hsels hsel
  obtain ⟨decl, -, -, hdecl, -, -⟩ := w.exists_signature h.toRoute
  refine .stepGiven (ask_run hdecl) (.stepGiven rfl ?_)
  rw [← TypeTable.idOf_eq hdecl]
  rcases hlookup : p.members.lookup (sel.recv, p.types.idOf sel.method) with _ | id
  · rw [if_pos Option.isNone_none]
    refine .bind (resolve_settles w h.toRoute) fun res q hans => ?_
    rcases res with e | id
    · exact .inl (.of_run rfl (member_answers w hsels hsel h hlookup (.failed hans)).resolves)
    · exact .inl (.of_run rfl (member_answers w hsels hsel h hlookup (.kept hans)).resolves)
  · rw [Option.isNone_some, if_neg Bool.false_ne_true]
    exact .inl (.of_run rfl (Answers.of_known hlookup).resolves)

/-- **The members of a method set are resolved one after another**, until one fails. -/
theorem resolveMembers_resolves {sels : List Selection} (l : List Selection)
    (hl : ∀ sel ∈ l, sel ∈ sels) :
    ∀ p : Program, p.types.WellFormed → p.types.methodSet ty = .ok sels →
      Settles p.types.Endless (l.forM (resolveMember ty)).run p (Resolves A p ty l) := by
  induction l with
  | nil =>
    intro p _ _
    exact .inl (.of_run rfl ⟨.refl p, rfl, fun _ _ _ h => absurd h List.not_mem_nil, nofun⟩)
  | cons sel l ih =>
    rw [List.forall_mem_cons] at hl
    intro p w hsels
    change Settles _ (resolveMember ty sel >>= fun _ => l.forM (resolveMember ty) :
      Request Unit).run p _
    refine .bind (resolveMember_resolves (A := A) w hsels hl.1) fun res q h => ?_
    rcases res with e | u
    · refine .inl (.of_run rfl ⟨h.step, h.declared, nofun, ?_⟩)
      rintro _ ⟨⟩
      obtain ⟨sel', hsel', hlacks⟩ := h.missing e rfl
      exact ⟨sel', List.mem_cons.mpr (.inl (List.mem_singleton.mp hsel')), hlacks⟩
    · -- the wrapper that was made may have entered types, but the method set stays
      have g := h.step.types
      have wq := w.grown g
      have hsels' : q.types.methodSet ty = .ok sels := by
        rw [g.methodSet w (TypeTable.holds_of_methodSet hsels), hsels]
      refine (ih hl.2 q wq hsels').mono (fun _ => g.endless w.sound) fun res' r h' => ?_
      refine ⟨h.step.trans h'.step wq, h'.declared.trans h.declared, ?_, ?_⟩
      · intro u' hu'
        rw [List.forall_mem_cons]
        obtain ⟨id, hid⟩ := h.found u rfl sel (List.mem_singleton_self sel)
        refine ⟨⟨id, h'.step.members hid⟩, fun sel' hsel' => ?_⟩
        rw [← g.idOf]
        exact h'.found u' hu' sel' hsel'
      · intro e he
        obtain ⟨sel', hsel', hlacks⟩ := h'.missing e he
        refine ⟨sel', List.mem_cons_of_mem _ hsel', ?_⟩
        obtain ⟨-, _, _, _, _, hselected⟩ := w.selected_of_mem hsels (hl.2 sel' hsel')
        obtain ⟨-, -, abs, -, -, habs⟩ := w.exists_signature hselected.toRoute
        rw [h.declared] at hlacks
        exact hlacks.of_grown g habs

/-- What a request for the method set of a type comes to: the members that are remembered,
and then that is all of them, or the error that a body is missing. -/
structure SetAnswer (A : Selection → Prop) (p : Program) (ty : TypeId) (sels : List Selection)
    (res : Except BuildError (List (String × BodyId))) (q : Program) : Prop where
  step : Extends A p q
  declared : q.declared = p.declared
  members : ∀ l, res = .ok l → l = q.membersOf ty ∧ ty ∈ q.complete
  missing : ∀ e, res = .error e → ∃ sel ∈ sels,
    Lacks p.types (p.declared.lookup sel.method) sel.method e

/-- A type whose members are all remembered is complete. -/
theorem complete_extends (w : p.types.WellFormed) (h : Filled p ty) :
    Extends A p { p with complete := ty :: p.complete } := by
  have l : Later p { p with complete := ty :: p.complete } :=
    ⟨.refl, ⟨[], (List.append_nil _).symm⟩, id, id, id, List.mem_cons_of_mem ty, id, id⟩
  refine ⟨l, .inl, .inl, .inl, fun hty => ?_, .inl, .inl⟩
  rcases List.mem_cons.mp hty with rfl | hty
  · exact .inr (h.later l w)
  · exact .inl hty

/-- **A request for a method set** remembers all its members, or it fails. -/
theorem methodSet_answers (w : p.types.WellFormed) {sels : List Selection}
    (hsels : p.types.methodSet ty = .ok sels) :
    Settles p.types.Endless (methodSet ty).run p (SetAnswer A p ty sels) := by
  refine .stepGiven rfl ?_
  by_cases hcomplete : ty ∈ p.complete
  · rw [if_neg (not_not_intro hcomplete)]
    refine .inl (.of_run rfl ⟨.refl p, rfl, ?_, nofun⟩)
    rintro _ ⟨⟩
    exact ⟨rfl, hcomplete⟩
  · rw [if_pos hcomplete]
    refine .stepGiven (ask_run hsels) ?_
    refine .bind (resolveMembers_resolves (A := A) sels (fun _ => id) p w hsels) fun res q h => ?_
    rcases res with e | u
    · refine .inl (.of_run rfl ⟨h.step, h.declared, nofun, ?_⟩)
      rintro _ ⟨⟩
      exact h.missing e rfl
    · have wq := w.grown h.step.types
      have hfilled : Filled q ty := by
        refine ⟨sels, ?_, fun sel hsel => ?_⟩
        · rw [h.step.types.methodSet w (TypeTable.holds_of_methodSet hsels), hsels]
        · rw [h.step.types.idOf]
          exact h.found u rfl sel hsel
      refine .inl (.of_run rfl ⟨h.step.trans (complete_extends wq hfilled) wq, h.declared, ?_,
        nofun⟩)
      rintro _ ⟨⟩
      exact ⟨rfl, List.mem_cons_self ..⟩

end Program

end MethodSSA
