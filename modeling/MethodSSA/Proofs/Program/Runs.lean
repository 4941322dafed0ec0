import MethodSSA.Proofs.Program.Registry

/-!
# Runs of a program

A run mixes declarations and requests in any order, and goes on after a request that failed
(`Run`). Every step of a run leaves what is remembered and adds entries that are right, so
that the registry of methods is sound in every state that a run reaches (`Consistent`), and
complete where it says so: what it answers for a method set is the whole of it
(`Consistent.settles_methodSet`).
-/

namespace MethodSSA

/-! ## Steps and runs -/

/-- What may happen to a program. -/
inductive Action where
  /-- functions are built, and types entered, outside the requests -/
  | work (workspace : Workspace)
  /-- a finished function is added -/
  | add (f : Function)
  /-- a method gets its body -/
  | declare (m : FuncId) (f : Function)
  /-- the body behind a selection is asked for -/
  | bodyOf (sel : Selection)
  /-- the method set of a type is asked for -/
  | methodSet (ty : TypeId)
  /-- the wrapper of an interface method is asked for -/
  | interfaceWrapper (recv : TypeId) (m : FuncId)
  /-- the wrapper of a bound method is asked for -/
  | boundWrapper (m : FuncId)

namespace Program

/-- The state that a request leaves, whether it gives an answer or fails. -/
def leaves {α : Type} (x : Request α) (p : Program) : Except Fault Program := do
  return (← x.run.run p).2

/-- The state that an action leaves. -/
def perform (p : Program) : Action → Except Fault Program
  | .work workspace => .ok { p with toWorkspace := workspace }
  | .add f => .ok (p.addBody f).2
  | .declare m f => .ok (p.declareBody m f).2
  | .bodyOf sel => leaves (bodyOf sel) p
  | .methodSet ty => leaves (methodSet ty) p
  | .interfaceWrapper recv m => leaves (interfaceWrapper recv m) p
  | .boundWrapper m => leaves (boundWrapper m) p

variable {A : Selection → Prop} {p q r : Program} {a : Action}

/-- What a run may do next. The type table grows and its declarations stay; a method is
declared once; and a selection is a member of a method set, or it belongs to the set `A` of
those that are called on variables. -/
inductive Permits (A : Selection → Prop) (p : Program) : Action → Prop
  | work {workspace : Workspace} (g : p.types.Grown workspace.types) : Permits A p (.work workspace)
  | add {f : Function} : Permits A p (.add f)
  | declare {m : FuncId} {f : Function} (hnone : p.declared.lookup m = none) :
    Permits A p (.declare m f)
  | member {recv : TypeId} {sels : List Selection} {sel : Selection}
    (hsels : p.types.methodSet recv = .ok sels) (hsel : sel ∈ sels) : Permits A p (.bodyOf sel)
  | addressable {sel : Selection} (hsel : A sel) (h : p.types.Addressable sel) :
    Permits A p (.bodyOf sel)
  | methodSet {ty : TypeId} : Permits A p (.methodSet ty)
  | interfaceWrapper {recv : TypeId} {m : FuncId} : Permits A p (.interfaceWrapper recv m)
  | boundWrapper {m : FuncId} : Permits A p (.boundWrapper m)

/-- The states that a run from `p` reaches. -/
inductive Run (A : Selection → Prop) (p : Program) : Program → Prop
  | refl : Run A p p
  | step {q r : Program} {a : Action} (h : Run A p q) (ha : Permits A q a)
    (hrun : q.perform a = .ok r) : Run A p r

theorem leaves_eq_ok_iff {α : Type} {x : Request α} :
    leaves x p = .ok q ↔ ∃ res, x.run.run p = .ok (res, q) := by
  rw [leaves, bind_eq_ok_iff]
  constructor
  · rintro ⟨⟨res, _⟩, hrun, ⟨⟩⟩
    exact ⟨res, hrun⟩
  · rintro ⟨res, hrun⟩
    exact ⟨(res, q), hrun, rfl⟩

/-- What is asked of a type that is complete, or has a method set, leaves right entries. -/
theorem methodSet_extends (w : p.types.WellFormed) {ty : TypeId}
    {res : Except BuildError (List (String × BodyId))}
    (hrun : (methodSet ty).run.run p = .ok (res, q)) : Extends A p q := by
  rcases hsels : p.types.methodSet ty with e | sels
  · rw [methodSet, get_run] at hrun
    by_cases hcomplete : ty ∈ p.complete
    · rw [if_neg (not_not_intro hcomplete)] at hrun
      cases hrun
      exact .refl p
    · rw [if_pos hcomplete] at hrun
      obtain ⟨sels, hsels', -⟩ := exists_of_ask hrun
      cases hsels.symm.trans hsels'
  · exact ((methodSet_answers w hsels).elim hrun).step

/-- **One step** leaves what is remembered and adds right entries. -/
theorem perform_extends (w : p.types.WellFormed) (ha : Permits A p a)
    (hrun : p.perform a = .ok q) : Extends A p q := by
  cases ha with
  | work g =>
    cases hrun
    exact .of_later ⟨g, ⟨[], (List.append_nil _).symm⟩, id, id, id, id, id, id⟩ rfl rfl rfl rfl
      rfl rfl
  | @add f =>
    cases hrun
    exact .of_later ⟨.refl, ⟨[f], rfl⟩, id, id, id, id, id, id⟩ rfl rfl rfl rfl rfl rfl
  | @declare m f hnone =>
    cases hrun
    have l : Later p (p.declareBody m f).2 :=
      ⟨.refl, ⟨[f], rfl⟩, lookup_cons_of_none hnone, id, id, id, id, id⟩
    refine ⟨l, fun hid => (lookup_cons_cases hid).imp_right ?_, .inl, .inl, .inl, .inl, .inl⟩
    rintro ⟨-, rfl⟩
    exact ⟨f, entry_eq_ok_iff.mpr List.getElem?_concat_length⟩
  | member hsels hsel =>
    obtain ⟨res, hrun⟩ := leaves_eq_ok_iff.mp hrun
    exact ((bodyOf_member_answers w hsels hsel).elim hrun).step
  | addressable hsel hcall =>
    obtain ⟨res, hrun⟩ := leaves_eq_ok_iff.mp hrun
    exact ((bodyOf_addressable_answers w hsel hcall).elim hrun).step
  | methodSet =>
    obtain ⟨res, hrun⟩ := leaves_eq_ok_iff.mp hrun
    -- the type is any, also one that has no method set
    exact methodSet_extends w hrun
  | interfaceWrapper =>
    obtain ⟨res, hrun⟩ := leaves_eq_ok_iff.mp hrun
    exact (interfaceAnswer_of_run w hrun).extends.1
  | boundWrapper =>
    obtain ⟨res, hrun⟩ := leaves_eq_ok_iff.mp hrun
    exact (boundAnswer_of_run w hrun).extends

/-- **A run** leaves what is remembered and adds right entries. -/
theorem Run.extends (w : p.types.WellFormed) (h : Run A p q) : Extends A p q := by
  induction h with
  | refl => exact .refl p
  | step _ ha hrun ih =>
    have wq := w.grown ih.types
    have hstep := perform_extends wq ha hrun
    exact ih.trans hstep (wq)

/-! ## Consistent programs -/

/-- Everything that is remembered is right. -/
structure Consistent (A : Selection → Prop) (p : Program) : Prop where
  declared : ∀ {m id}, p.declared.lookup m = some id → ∃ f, p.body id = .ok f
  members : ∀ {key id}, p.members.lookup key = some id → MemberEntry p key id
  addressable : ∀ {key id}, p.addressable.lookup key = some id → AddressableEntry A p key id
  complete : ∀ {ty}, ty ∈ p.complete → Filled p ty
  ifaceWrappers : ∀ {m id}, p.ifaceWrappers.lookup m = some id → InterfaceEntry p m id
  boundWrappers : ∀ {m id}, p.boundWrappers.lookup m = some id → BoundEntry p m id

theorem Consistent.extends (c : Consistent A p) (w : p.types.WellFormed) (h : Extends A p q) :
    Consistent A q := by
  have l := h.toLater
  refine ⟨fun hid => ?_, fun hid => ?_, fun hid => ?_, fun hty => ?_, fun hid => ?_, fun hid => ?_⟩
  · refine (h.newDeclared hid).elim (fun hid => ?_) fun hnew => hnew
    obtain ⟨f, hf⟩ := c.declared hid
    exact ⟨f, l.body hf⟩
  · exact (h.newMember hid).elim (fun hid => (c.members hid).later l w) fun hnew => hnew
  · exact (h.newAddressable hid).elim (fun hid => (c.addressable hid).later l) fun hnew => hnew
  · exact (h.newComplete hty).elim (fun hty => (c.complete hty).later l w) fun hnew => hnew
  · exact (h.newInterface hid).elim (fun hid => (c.ifaceWrappers hid).later l) fun hnew => hnew
  · exact (h.newBound hid).elim (fun hid => (c.boundWrappers hid).later l) fun hnew => hnew

/-- A program over a type table, before the first request. -/
def fresh (mode : Mode) (t : TypeTable) : Program := { initial mode with types := t }

theorem consistent_fresh (mode : Mode) (t : TypeTable) : Consistent A (fresh mode t) :=
  ⟨nofun, nofun, nofun, nofun, nofun, nofun⟩

/-! ## What a consistent program answers -/

theorem Wrapped.ready {sel : Selection} {id : BodyId} (h : Wrapped p sel id) : Ready p sel := by
  obtain ⟨-, -, -, -, -, -, hbehind⟩ := h
  exact ready_of_behind hbehind

theorem Backs.ready (w : p.types.WellFormed) {sel : Selection} {id : BodyId}
    (h : Backs p sel id) : Ready p sel := by
  cases h with
  | declared _ _ habs hid => exact ready_of_behind (.concrete habs hid)
  | invoked _ hlists => exact .inl (w.isAbstract_of_lists hlists)
  | promoted _ h => exact h.ready

/-- Of the selections in `A`, each is known by its receiver type and identifier. -/
def Unambiguous (A : Selection → Prop) (t : TypeTable) : Prop :=
  ∀ {a b : Selection}, A a → A b → a.recv = b.recv → t.idOf a.method = t.idOf b.method → a = b

/-- A request makes no more methods ready. -/
theorem Ready.of_extends (h : Extends A p q) (hdeclared : q.declared = p.declared)
    {sel : Selection} {abs : Bool} (habs : p.types.isAbstract sel.method = .ok abs)
    (hq : Ready q sel) : Ready p sel := by
  rcases hq with habs' | hsome
  · cases habs'.symm.trans (h.types.isAbstract habs)
    exact .inl habs
  · rw [hdeclared] at hsome
    exact .inr hsome

/-- **A member of a method set gets the body that belongs to it**, if there is something to
call. -/
theorem Consistent.settles_member (c : Consistent A p) (w : p.types.WellFormed) {recv : TypeId}
    {sels : List Selection} {sel : Selection} (hsels : p.types.methodSet recv = .ok sels)
    (hsel : sel ∈ sels) :
    Settles p.types.Endless (Program.bodyOf sel).run p fun res q =>
      Answers A Program.members p sel res q ∧ ((∃ id, res = .ok id) ↔ Ready p sel) ∧
        ∀ id, res = .ok id → Backs q sel id := by
  obtain ⟨rfl, base, elem, isPtr, ptr, h⟩ := w.selected_of_mem hsels hsel
  obtain ⟨-, -, abs, -, -, habs⟩ := w.exists_signature h.toRoute
  refine (bodyOf_member_answers (A := A) w hsels hsel).mono (fun _ => id) fun res q hans => ?_
  have wq := w.grown hans.step.types
  have hbacks : ∀ id, res = .ok id → Backs q sel id := by
    intro id hid
    obtain ⟨hsels', hsel', hkey, hbacks⟩ := (c.extends w hans.step).members (hans.found id hid)
    rw [hans.step.types.methodSet w (TypeTable.holds_of_methodSet hsels), hsels] at hsels'
    cases hsels'
    rw [hans.step.types.idOf] at hkey
    rwa [← w.eq_of_idOf hsels hsel' hsel hkey]
  refine ⟨hans, ⟨?_, fun hready => ?_⟩, hbacks⟩
  · rintro ⟨id, hid⟩
    exact ((hbacks id hid).ready wq).of_extends hans.step hans.declared habs
  · rcases res with e | id
    · exact absurd (hans.missing e rfl) hready.not_lacks
    · exact ⟨id, rfl⟩

/-- **A method that is called on variables gets its wrapper**, if there is something to call. -/
theorem Consistent.settles_addressable (c : Consistent A p) (w : p.types.WellFormed)
    (hA : Unambiguous A p.types) {sel : Selection} (hsel : A sel)
    (hcall : p.types.Addressable sel) :
    Settles p.types.Endless (Program.bodyOf sel).run p fun res q =>
      Answers A Program.addressable p sel res q ∧ ((∃ id, res = .ok id) ↔ Ready p sel) ∧
        ∀ id, res = .ok id → Wrapped q sel id := by
  obtain ⟨elem, route⟩ := hcall.route
  obtain ⟨-, -, abs, -, -, habs⟩ := w.exists_signature route
  refine (bodyOf_addressable_answers (A := A) w hsel hcall).mono (fun _ => id) fun res q hans => ?_
  have hwrapped : ∀ id, res = .ok id → Wrapped q sel id := by
    intro id hid
    obtain ⟨hsel', -, hrecv, hkey, hwrapped⟩ :=
      (c.extends w hans.step).addressable (hans.found id hid)
    rw [hans.step.types.idOf] at hkey
    rwa [← hA hsel' hsel hrecv hkey]
  refine ⟨hans, ⟨?_, fun hready => ?_⟩, hwrapped⟩
  · rintro ⟨id, hid⟩
    exact (hwrapped id hid).ready.of_extends hans.step hans.declared habs
  · rcases res with e | id
    · exact absurd (hans.missing e rfl) hready.not_lacks
    · exact ⟨id, rfl⟩

theorem lookup_filterMap_recv (ty : TypeId) (key : String) (l : List ((TypeId × String) × BodyId)) :
    (l.filterMap fun ((recv, id), body) =>
      if recv = ty then some (id, body) else none).lookup key = l.lookup (ty, key) := by
  induction l with
  | nil => rfl
  | cons e l ih =>
    obtain ⟨⟨recv, id⟩, body⟩ := e
    rw [List.filterMap_cons, List.lookup_cons]
    by_cases hrecv : recv = ty
    · subst hrecv
      by_cases hkey : key = id
      · simp [hkey]
      · have hpair : ((recv, key) == (recv, id)) = false := beq_false_of_ne (by simp [hkey])
        simp [List.lookup_cons, beq_false_of_ne hkey, hpair, ih]
    · have hpair : ((ty, key) == (recv, id)) = false := beq_false_of_ne (by simp [Ne.symm hrecv])
      simp [hrecv, hpair, ih]

theorem mem_membersOf {ty : TypeId} {key : String} {id : BodyId} :
    (key, id) ∈ p.membersOf ty ↔ p.members.lookup (ty, key) = some id := by
  rw [membersOf, mem_keyTable, lookup_filterMap_recv]

/-- **The members that are remembered for a complete type are its method set**, each with the
body that belongs to it. -/
theorem Consistent.membersOf (c : Consistent A p) (w : p.types.WellFormed) {ty : TypeId}
    {sels : List Selection} (hsels : p.types.methodSet ty = .ok sels) (hty : ty ∈ p.complete) :
    List.Forall₂ (fun sel e => e.1 = p.types.idOf sel.method ∧ Backs p sel e.2) sels
      (p.membersOf ty) := by
  have hentry : ∀ {key id}, (key, id) ∈ p.membersOf ty →
      ∃ sel ∈ sels, p.types.idOf sel.method = key ∧ Backs p sel id := by
    intro key id hmem
    obtain ⟨hsels', hsel, hkey, hbacks⟩ := c.members (mem_membersOf.mp hmem)
    cases hsels.symm.trans hsels'
    exact ⟨_, hsel, hkey, hbacks⟩
  -- both are in the order of identifiers, and have the same ones
  have hkeys : sels.map (fun sel => p.types.idOf sel.method) = (p.membersOf ty).map Prod.fst := by
    refine eq_of_pairwise_lt (f := id) (List.pairwise_map.mpr (w.pairwise_idOf hsels))
      (List.pairwise_map.mpr (increasing_keyTable _)) fun key => ?_
    rw [List.mem_map, List.mem_map]
    constructor
    · rintro ⟨sel, hsel, rfl⟩
      obtain ⟨sels', hsels', hall⟩ := c.complete hty
      cases hsels.symm.trans hsels'
      obtain ⟨id, hid⟩ := hall sel hsel
      exact ⟨(_, id), mem_membersOf.mpr hid, rfl⟩
    · rintro ⟨⟨key, id⟩, hmem, rfl⟩
      obtain ⟨sel, hsel, hkey, -⟩ := hentry hmem
      exact ⟨sel, hsel, hkey⟩
  rw [← List.forall₂_eq_eq_eq, List.forall₂_map_left_iff, List.forall₂_map_right_iff,
    List.forall₂_iff_zip] at hkeys
  refine List.forall₂_iff_zip.mpr ⟨hkeys.1, fun {sel e} hmem => ?_⟩
  obtain ⟨hsel, he⟩ := List.of_mem_zip hmem
  obtain ⟨sel', hsel', hkey', hbacks⟩ := hentry he
  have hkey := hkeys.2 hmem
  obtain rfl := w.eq_of_idOf hsels hsel hsel' (hkey.trans hkey'.symm)
  exact ⟨hkey.symm, hbacks⟩

/-- **A method set is answered as a whole**, if there is something to call behind all its
members. -/
theorem Consistent.settles_methodSet (c : Consistent A p) (w : p.types.WellFormed) {ty : TypeId}
    {sels : List Selection} (hsels : p.types.methodSet ty = .ok sels) :
    Settles p.types.Endless (Program.methodSet ty).run p fun res q =>
      SetAnswer A p ty sels res q ∧ ((∃ l, res = .ok l) ↔ ∀ sel ∈ sels, Ready p sel) ∧
        ∀ l, res = .ok l →
          List.Forall₂ (fun sel e => e.1 = p.types.idOf sel.method ∧ Backs q sel e.2) sels l := by
  refine (methodSet_answers (A := A) w hsels).mono (fun _ => id) fun res q hans => ?_
  have g := hans.step.types
  have wq := w.grown g
  have hall : ∀ l, res = .ok l →
      List.Forall₂ (fun sel e => e.1 = p.types.idOf sel.method ∧ Backs q sel e.2) sels l := by
    intro l hl
    obtain ⟨rfl, hty⟩ := hans.members l hl
    have hsels' : q.types.methodSet ty = .ok sels := by
      rw [g.methodSet w (TypeTable.holds_of_methodSet hsels), hsels]
    simpa only [g.idOf] using (c.extends w hans.step).membersOf wq hsels' hty
  refine ⟨hans, ⟨?_, fun hready => ?_⟩, hall⟩
  · rintro ⟨l, hl⟩ sel hsel
    obtain ⟨-, _, _, _, _, h⟩ := w.selected_of_mem hsels hsel
    obtain ⟨-, -, abs, -, -, habs⟩ := w.exists_signature h.toRoute
    have hboth : List.Forall₂ (fun sel e => Ready q sel ∧ Backs q sel e.2) sels l :=
      (hall l hl).imp fun _ _ h => ⟨h.2.ready wq, h.2⟩
    have hready := ((List.forall₂_and_left sels l).mp hboth).1 sel hsel
    exact hready.of_extends hans.step hans.declared habs
  · rcases res with e | l
    · obtain ⟨sel, hsel, hlacks⟩ := hans.missing e rfl
      exact absurd hlacks (hready sel hsel).not_lacks
    · exact ⟨l, rfl⟩

/-- Every request to a program ends, and with what belongs to it: a request for a member of a
method set, for a whole method set, and for a method that is called on variables. -/
structure Answering (A : Selection → Prop) (p : Program) : Prop where
  member : ∀ {ty sels}, p.types.methodSet ty = .ok sels → ∀ sel ∈ sels,
    Yields (Program.bodyOf sel).run p fun res q =>
      Answers A Program.members p sel res q ∧ ((∃ id, res = .ok id) ↔ Ready p sel) ∧
        ∀ id, res = .ok id → Backs q sel id
  methodSet : ∀ {ty sels}, p.types.methodSet ty = .ok sels →
    Yields (Program.methodSet ty).run p fun res q =>
      SetAnswer A p ty sels res q ∧ ((∃ l, res = .ok l) ↔ ∀ sel ∈ sels, Ready p sel) ∧
        ∀ l, res = .ok l →
          List.Forall₂ (fun sel e => e.1 = p.types.idOf sel.method ∧ Backs q sel e.2) sels l
  addressable : ∀ {sel}, A sel → p.types.Addressable sel →
    Yields (Program.bodyOf sel).run p fun res q =>
      Answers A Program.addressable p sel res q ∧ ((∃ id, res = .ok id) ↔ Ready p sel) ∧
        ∀ id, res = .ok id → Wrapped q sel id

/-- A consistent program answers every request if the signature of no function is a declared
type. -/
theorem Consistent.answering (c : Consistent A p) (w : p.types.WellFormed)
    (hA : Unambiguous A p.types) (hp : p.types.PlainSignatures) : Answering A p where
  member hsels _ hsel := (c.settles_member w hsels hsel).yields hp.not_endless
  methodSet hsels := (c.settles_methodSet w hsels).yields hp.not_endless
  addressable hsel hcall := (c.settles_addressable w hA hsel hcall).yields hp.not_endless

/-- **The registry is sound and complete.** In every state that a run reaches, in whatever
order declarations and requests were mixed and whether they failed or not, each entry of a
memory is the body that belongs to its request: for a member of a method set that of the
selection with its identifier, for a call on variables the wrapper of its selection; and a
complete type has all its members. So a request for a selection gets the body that belongs to
it, and a request for a method set exactly its members, if and only if there is something to
call; and if the signature of no function is a declared type, every such request ends. What is
remembered stays as it is for the rest of the run. -/
theorem registry_consistent (mode : Mode) {t : TypeTable} (w : t.WellFormed)
    {A : Selection → Prop} (hA : Unambiguous A t) {p : Program} (hrun : Run A (fresh mode t) p) :
    Consistent A p ∧
    (∀ {ty sels}, p.types.methodSet ty = .ok sels →
      (∀ sel ∈ sels, Settles p.types.Endless (Program.bodyOf sel).run p fun res q =>
        Answers A Program.members p sel res q ∧ ((∃ id, res = .ok id) ↔ Ready p sel) ∧
          ∀ id, res = .ok id → Backs q sel id) ∧
      Settles p.types.Endless (Program.methodSet ty).run p fun res q =>
        SetAnswer A p ty sels res q ∧ ((∃ l, res = .ok l) ↔ ∀ sel ∈ sels, Ready p sel) ∧
          ∀ l, res = .ok l →
            List.Forall₂ (fun sel e => e.1 = p.types.idOf sel.method ∧ Backs q sel e.2) sels l) ∧
    (∀ {sel}, A sel → p.types.Addressable sel →
      Settles p.types.Endless (Program.bodyOf sel).run p fun res q =>
        Answers A Program.addressable p sel res q ∧ ((∃ id, res = .ok id) ↔ Ready p sel) ∧
          ∀ id, res = .ok id → Wrapped q sel id) ∧
    (t.PlainSignatures → Answering A p) ∧
    ∀ {q}, Run A p q → Later p q := by
  have hext := hrun.extends w
  have wp := w.grown hext.types
  have c := (consistent_fresh mode t).extends w hext
  have hA' : Unambiguous A p.types := by
    intro a b ha hb hrecv hkey
    rw [hext.types.idOf, hext.types.idOf] at hkey
    exact hA ha hb hrecv hkey
  refine ⟨c, fun hsels => ⟨fun sel hsel => ?_, ?_⟩, fun hsel hcall => ?_, fun hp => ?_,
    fun hrun' => ?_⟩
  · exact c.settles_member wp hsels hsel
  · exact c.settles_methodSet wp hsels
  · exact c.settles_addressable wp hA' hsel hcall
  · exact c.answering wp hA' (hp.grown hext.types)
  · exact (hrun'.extends wp).toLater

/-- The state after an action, if that is no fault, and else the state before. -/
def next (p : Program) (a : Action) : Program :=
  match p.perform a with
  | .ok q => q
  | .error _ => p

theorem Run.next (h : Run A p q) (ha : Permits A q a) : Run A p (q.next a) := by
  rw [Program.next]
  split
  · next r hr => exact h.step ha hr
  · exact h

/-- The method of the leaf that takes a pointer, on a variable that holds a node. -/
def nodeVariable : Selection := ⟨⟨30⟩, ⟨1⟩, [1, 1], false⟩

/-- A request for a method set that fails after its first member. -/
def nodePartial : Program :=
  ((fresh .debug TypeTable.nodeTable).next (.declare ⟨0⟩ (.empty "Len" ⟨28⟩))).next
    (.methodSet ⟨31⟩)

/-- A run that goes on after that. -/
def nodeRun : Program :=
  (nodePartial.next (.declare ⟨1⟩ (.empty "Put" ⟨29⟩))).next (.bodyOf nodeVariable)

theorem addressable_nodeVariable : TypeTable.nodeTable.Addressable nodeVariable := by
  have hembeds : TypeTable.nodeTable.Embeds ⟨30⟩ 1 ⟨25⟩ false := .intro rfl rfl rfl rfl
  exact ⟨⟨⟨25⟩, List.cons_ne_nil _ _, rfl, .snoc .nil hembeds, .inl ⟨_, rfl, by decide⟩⟩, rfl, rfl⟩

/-- A run in which one member of a method set was found before the request failed, and a
method that is called on variables later. -/
theorem registry_consistent_node :
    TypeTable.nodeTable.WellFormed ∧
    Unambiguous (fun sel => sel = nodeVariable) TypeTable.nodeTable ∧
    Run (fun sel => sel = nodeVariable) (fresh .debug TypeTable.nodeTable) nodeRun ∧
    nodeRun.complete = [] ∧
    nodeRun.members = [((⟨31⟩, "Len"), ⟨1⟩)] ∧
    nodeRun.addressable = [((⟨30⟩, "Put"), ⟨3⟩)] ∧
    Consistent (fun sel => sel = nodeVariable) nodeRun ∧
    Answering (fun sel => sel = nodeVariable) nodeRun := by
  have w := TypeTable.nodeTable_wellFormed
  have hA : Unambiguous (fun sel => sel = nodeVariable) TypeTable.nodeTable :=
    fun ha hb _ _ => ha.trans hb.symm
  have hpartial : Run (fun sel => sel = nodeVariable) (fresh .debug TypeTable.nodeTable)
      nodePartial := (Run.refl.next (.declare rfl)).next .methodSet
  have hdeclared := hpartial.next (.declare (m := ⟨1⟩) (f := .empty "Put" ⟨29⟩) (by cbv))
  have hcall := addressable_nodeVariable.grown (hdeclared.extends w).types
  have hrun := hdeclared.next (.addressable rfl hcall)
  have hend : (nodeRun.complete, nodeRun.members, nodeRun.addressable) =
      ([], [((⟨31⟩, "Len"), ⟨1⟩)], [((⟨30⟩, "Put"), ⟨3⟩)]) := by cbv
  rw [Prod.mk.injEq, Prod.mk.injEq] at hend
  obtain ⟨hconsistent, -, -, hanswers, -⟩ := registry_consistent .debug w hA hrun
  exact ⟨w, hA, hrun, hend.1, hend.2.1, hend.2.2, hconsistent,
    hanswers TypeTable.nodeTable_plainSignatures⟩

end Program

end MethodSSA
