import MethodSSA.Proofs.Program.Completion
import MethodSSA.Proofs.Program.History

/-!
# Requests that fail

A request for one body that fails leaves the program as it was, but for types that were entered
(`Intact`). A request for a method set that fails leaves a portion behind (`Portion`): what was
resolved before the member that failed is remembered, and nothing else (`Resolved`). So the
request can be made again when the bodies that were missing are declared, and goes on from
there (`failed_requests`). Not so in every table: an interface that lists a method of another
type can keep a wrapper of one of its own, and where identifiers are forged or signatures are
none, a second request can be a fault that the first one did not come to
(`failed_requests_stuck`).
-/

namespace MethodSSA

/-- What the resolution of members of a method set adds to a program. -/
structure Portion where
  /-- the types, with those that were entered -/
  types : TypeTable
  /-- what is remembered for members of method sets -/
  entries : List ((TypeId × String) × BodyId)
  /-- what is remembered for interface methods -/
  wrappers : List (FuncId × BodyId)
  /-- the wrappers that were made -/
  made : List Function

/-- A portion and one that was added later. -/
def Portion.andThen (d d' : Portion) : Portion :=
  ⟨d'.types, d'.entries ++ d.entries, d'.wrappers ++ d.wrappers, d.made ++ d'.made⟩

theorem TypeTable.Entered.idOf {t t' : TypeTable} (h : t.Entered t') (m : FuncId) :
    t'.idOf m = t.idOf m := by
  rw [TypeTable.idOf, TypeTable.func, h.funcs]
  rfl

/-- Entries with different keys are found, in front of whatever others. -/
theorem lookup_of_mem_append {κ β : Type} [BEq κ] [LawfulBEq κ] {l l' : List (κ × β)} {e : κ × β}
    (h : (l.map Prod.fst).Nodup) (he : e ∈ l) : (l ++ l').lookup e.1 = some e.2 := by
  induction l with
  | nil => exact absurd he List.not_mem_nil
  | cons a l ih =>
    rw [List.map_cons, List.nodup_cons] at h
    rcases List.mem_cons.mp he with rfl | he
    · exact List.lookup_cons_self
    · have hne : (e.1 == a.1) = false :=
        beq_eq_false_iff_ne.mpr fun heq => h.1 (heq ▸ List.mem_map_of_mem he)
      rw [List.cons_append, List.lookup_cons, hne]
      exact ih h.2 he

/-- Entries in front with other keys change nothing. -/
theorem lookup_append_of_fresh {κ β : Type} [BEq κ] [LawfulBEq κ] {l l' : List (κ × β)} {key : κ}
    {b : β} (hfresh : ∀ e ∈ l, l'.lookup e.1 = none) (h : l'.lookup key = some b) :
    (l ++ l').lookup key = some b := by
  rcases hl : l.lookup key with _ | b'
  · rw [List.lookup_append, hl]
    exact h
  · cases h.symm.trans (hfresh _ (Program.mem_of_lookup hl))

namespace Program

variable {p q r : Program} {sel : Selection} {m : FuncId} {recv ty : TypeId} {id : BodyId}
  {done : List Selection} {d d' : Portion}

/-! ## Requests for one body -/

/-- A program in which types were entered, and nothing else is different. -/
def Intact (p q : Program) : Prop := ∃ t, p.types.Entered t ∧ q = { p with types := t }

theorem Adds.intact {method : Option Selection} {e : BuildError}
    (h : Adds method p (.error e) q) : Intact p q := by
  cases h with
  | failed ht => exact ⟨_, ht, rfl⟩

/-- What is not found in a memory and cannot be made leaves no trace in it. -/
theorem Recalls.intact {κ : Type} [BEq κ] {memory : Memory κ} {key : κ}
    {make : Program → Except BuildError BodyId → Program → Prop} {e : BuildError}
    (h : Recalls memory key make p (.error e) q) (hmake : make p (.error e) q → Intact p q) :
    Intact p q := by
  cases h with
  | failed _ h => exact hmake h

theorem Found.intact {e : BuildError} (h : Found sel p (.error e) q) : Intact p q := by
  cases h with
  | promoted h => exact h.intact
  | invoked _ h => exact h.intact Adds.intact
  | missing => exact ⟨_, .refl p.types, rfl⟩

/-! ## Portions of a method set -/

/-- A program to which a portion is added. -/
def plus (p : Program) (d : Portion) : Program :=
  { p with
    types := d.types
    bodies := p.bodies ++ d.made
    synthesized := p.synthesized + d.made.length
    members := d.entries ++ p.members
    ifaceWrappers := d.wrappers ++ p.ifaceWrappers }

theorem plus_nothing (p : Program) : p.plus ⟨p.types, [], [], []⟩ = p := by
  rw [plus, List.append_nil]
  rfl

theorem plus_plus (p : Program) (d d' : Portion) : (p.plus d).plus d' = p.plus (d.andThen d') := by
  simp only [plus, Portion.andThen, List.append_assoc, List.length_append, Nat.add_assoc]

/-- A body that stands behind a selection in `q`: the declared body of its method, the wrapper
of the method of an interface, or a promotion wrapper, which was not there in `p`. -/
inductive Serves (p q : Program) (sel : Selection) (id : BodyId) : Prop
  | declared (hid : q.declared.lookup sel.method = some id)
  | invoked (hiface : q.types.isInterface sel.recv = .ok true)
    (hid : q.ifaceWrappers.lookup sel.method = some id)
  | promoted {f : Function} (hbody : q.body id = .ok f) (hf : f.method = some sel)
    (hnew : p.bodies.length ≤ id.index)

theorem Serves.retains (h : Serves p q sel id) (hr : Retains q r)
    (hdeclared : r.declared = q.declared) : Serves p r sel id := by
  cases h with
  | declared hid => exact .declared (hdeclared ▸ hid)
  | invoked hiface hid => exact .invoked (hr.types.isInterface hiface) (hr.wrappers false hid)
  | promoted hbody hf hnew => exact .promoted (hr.body hbody) hf hnew

/-- A body that was not there later was not there before. -/
theorem Serves.earlier (h : Serves q r sel id) (hbodies : p.bodies <+: q.bodies) :
    Serves p r sel id := by
  cases h with
  | declared hid => exact .declared hid
  | invoked hiface hid => exact .invoked hiface hid
  | promoted hbody hf hnew => exact .promoted hbody hf (hbodies.length_le.trans hnew)

/-- The portion that the members `done` of the method set of `ty` are. Each of them has an
entry now; each new entry belongs to one of them, under a key of its own that was free, and each
wrapper that was made is the body of such an entry. -/
structure Resolved (p : Program) (ty : TypeId) (done : List Selection) (d : Portion) : Prop where
  types : p.types.Entered d.types
  fresh : ∀ e ∈ d.entries, p.members.lookup e.1 = none
  nodup : (d.entries.map Prod.fst).Nodup
  entries : ∀ e ∈ d.entries, ∃ sel ∈ done, e.1 = (ty, p.types.idOf sel.method) ∧
    Serves p (p.plus d) sel e.2
  answered : ∀ sel ∈ done, ∃ id, (p.plus d).members.lookup (ty, p.types.idOf sel.method) = some id
  made : ∀ n < d.made.length, ∃ e ∈ d.entries, e.2 = ⟨p.bodies.length + n⟩
  wrappers : ∀ e ∈ d.wrappers, p.ifaceWrappers.lookup e.1 = none ∧ (∃ e' ∈ d.entries, e'.2 = e.2) ∧
    ∃ sel ∈ done, e.1 = sel.method ∧ d.types.isInterface sel.recv = .ok true

namespace Resolved

theorem nothing (p : Program) (ty : TypeId) : Resolved p ty [] ⟨p.types, [], [], []⟩ :=
  ⟨.refl _, nofun, .nil, nofun, nofun, nofun, nofun⟩

/-- A member that was resolved before is no portion. -/
theorem known (hid : p.members.lookup (ty, p.types.idOf sel.method) = some id) :
    Resolved p ty [sel] ⟨p.types, [], [], []⟩ := by
  refine ⟨.refl _, nofun, .nil, nofun, fun sel' hsel' => ?_, nofun, nofun⟩
  rw [List.mem_singleton.mp hsel']
  exact ⟨id, hid⟩

/-- The portion of one member is one entry, under a key that was free; and if a wrapper is made,
it is what the entry holds. -/
theorem single {t : TypeTable} {wrappers : List (FuncId × BodyId)} {made : List Function}
    (ht : p.types.Entered t) (hnone : p.members.lookup (ty, p.types.idOf sel.method) = none)
    (hwrappers : ∀ e ∈ wrappers, e = (sel.method, id) ∧
      p.ifaceWrappers.lookup sel.method = none ∧ p.types.isInterface sel.recv = .ok true)
    (hmade : ∀ n < made.length, id = ⟨p.bodies.length + n⟩)
    (hserves : Serves p (p.plus ⟨t, [((ty, p.types.idOf sel.method), id)], wrappers, made⟩) sel
      id) :
    Resolved p ty [sel] ⟨t, [((ty, p.types.idOf sel.method), id)], wrappers, made⟩ := by
  have hself : sel ∈ [sel] := List.mem_singleton_self sel
  refine ⟨ht, fun e he => ?_, List.nodup_singleton _, fun e he => ?_, fun sel' hsel' => ?_,
    fun n hn => ⟨_, List.mem_singleton_self _, hmade n hn⟩, fun e he => ?_⟩
  · rw [List.mem_singleton.mp he]
    exact hnone
  · rw [List.mem_singleton.mp he]
    exact ⟨sel, hself, rfl, hserves⟩
  · rw [List.mem_singleton.mp hsel']
    exact ⟨id, List.lookup_cons_self⟩
  · obtain ⟨rfl, hfree, hiface⟩ := hwrappers e he
    exact ⟨hfree, ⟨_, List.mem_singleton_self _, rfl⟩, sel, hself, rfl,
      ht.extended.isInterface hiface⟩

/-- What was remembered before a portion is remembered behind it. -/
theorem retains (h : Resolved p ty done d) : Retains p (p.plus d) := by
  refine ⟨h.types.extended, List.prefix_append _ _, fun inSet _ _ hid => ?_,
    fun bound _ _ hid => ?_⟩
  · cases inSet with
    | false => exact hid
    | true => exact lookup_append_of_fresh h.fresh hid
  · cases bound with
    | false => exact lookup_append_of_fresh (fun e he => (h.wrappers e he).1) hid
    | true => exact hid

section Portions

variable {done' : List Selection} (h : Resolved p ty done d)
  (h' : Resolved (p.plus d) ty done' d')
include h'

/-- The keys of a second portion were free before the first, and the first does not take them. -/
theorem free {e : (TypeId × String) × BodyId} (he : e ∈ d'.entries) :
    d.entries.lookup e.1 = none ∧ p.members.lookup e.1 = none := by
  have hfresh : (d.entries ++ p.members).lookup e.1 = none := h'.fresh e he
  rwa [List.lookup_append, Option.or_eq_none_iff] at hfresh

include h

theorem nodup_andThen : ((d.andThen d').entries.map Prod.fst).Nodup := by
  rw [Portion.andThen, List.map_append, List.nodup_append]
  refine ⟨h'.nodup, h.nodup, fun key hkey key' hkey' heq => ?_⟩
  obtain ⟨e, he, rfl⟩ := List.mem_map.mp hkey
  obtain ⟨e', he', rfl⟩ := List.mem_map.mp hkey'
  have hne := List.lookup_eq_none_iff.mp (h'.free he).1 e' he'
  simp [heq] at hne

/-- The wrappers of both portions are the bodies of their entries. -/
theorem made_andThen {n : Nat} (hn : n < (d.andThen d').made.length) :
    ∃ e ∈ (d.andThen d').entries, e.2 = ⟨p.bodies.length + n⟩ := by
  by_cases hold : n < d.made.length
  · obtain ⟨e, he, hid⟩ := h.made n hold
    exact ⟨e, List.mem_append_right _ he, hid⟩
  · obtain ⟨k, rfl⟩ := Nat.exists_eq_add_of_le (Nat.le_of_not_lt hold)
    rw [Portion.andThen, List.length_append, Nat.add_lt_add_iff_left] at hn
    obtain ⟨e, he, hid⟩ := h'.made k hn
    rw [plus, List.length_append, Nat.add_assoc] at hid
    exact ⟨e, List.mem_append_left _ he, hid⟩

/-- **Two portions are one.** -/
theorem andThen : Resolved p ty (done ++ done') (d.andThen d') := by
  have hkey : ∀ m, (p.plus d).types.idOf m = p.types.idOf m := h.types.idOf
  have hr := h'.retains
  rw [plus_plus] at hr
  refine ⟨h.types.trans h'.types, fun e he => ?_, h.nodup_andThen h', fun e he => ?_,
    fun sel hsel => ?_, fun n hn => h.made_andThen h' hn, fun e he => ?_⟩
  · rcases List.mem_append.mp he with he | he
    · exact (h'.free he).2
    · exact h.fresh e he
  · rcases List.mem_append.mp he with he | he
    · obtain ⟨sel, hsel, hkey', hserves⟩ := h'.entries e he
      rw [hkey] at hkey'
      rw [plus_plus] at hserves
      exact ⟨sel, List.mem_append_right _ hsel, hkey',
        hserves.earlier (List.prefix_append _ _)⟩
    · obtain ⟨sel, hsel, hkey', hserves⟩ := h.entries e he
      exact ⟨sel, List.mem_append_left _ hsel, hkey', hserves.retains hr rfl⟩
  · rcases List.mem_append.mp hsel with hsel | hsel
    · obtain ⟨id, hid⟩ := h.answered sel hsel
      exact ⟨id, hr.selections true hid⟩
    · obtain ⟨id, hid⟩ := h'.answered sel hsel
      rw [plus_plus, hkey] at hid
      exact ⟨id, hid⟩
  · rcases List.mem_append.mp he with he | he
    · obtain ⟨hnone, ⟨e', he', hid⟩, sel, hsel, hrest⟩ := h'.wrappers e he
      rw [plus, List.lookup_append, Option.or_eq_none_iff] at hnone
      exact ⟨hnone.2, ⟨e', List.mem_append_left _ he', hid⟩, sel, List.mem_append_right _ hsel,
        hrest⟩
    · obtain ⟨hnone, ⟨e', he', hid⟩, sel, hsel, hm, hiface⟩ := h.wrappers e he
      exact ⟨hnone, ⟨e', List.mem_append_right _ he', hid⟩, sel, List.mem_append_left _ hsel, hm,
        h'.types.extended.isInterface hiface⟩

end Portions

/-- Types that were entered behind it belong to a portion. -/
theorem enter (h : Resolved p ty done d) {t : TypeTable} (ht : d.types.Entered t) :
    Resolved p ty done { d with types := t } := by
  have hr : Retains (p.plus d) (p.plus { d with types := t }) :=
    .of_entries ht.extended List.prefix_rfl rfl rfl rfl rfl
  refine ⟨h.types.trans ht, h.fresh, h.nodup, fun e he => ?_, h.answered, h.made, fun e he => ?_⟩
  · obtain ⟨sel, hsel, hkey, hserves⟩ := h.entries e he
    exact ⟨sel, hsel, hkey, hserves.retains hr rfl⟩
  · obtain ⟨hnone, hentry, sel, hsel, hm, hiface⟩ := h.wrappers e he
    exact ⟨hnone, hentry, sel, hsel, hm, ht.extended.isInterface hiface⟩

/-- Each entry of a portion is found. -/
theorem lookup (h : Resolved p ty done d) {e : (TypeId × String) × BodyId} (he : e ∈ d.entries) :
    (p.plus d).members.lookup e.1 = some e.2 := lookup_of_mem_append h.nodup he

/-- Only the members of an interface leave wrappers of interface methods. -/
theorem wrappers_eq_nil (h : Resolved p ty done d) (hrecv : ∀ sel ∈ done, sel.recv = ty)
    (hplain : p.types.isInterface ty = .ok false) : d.wrappers = [] := by
  refine List.eq_nil_iff_forall_not_mem.mpr fun e he => ?_
  obtain ⟨-, -, sel, hsel, -, hiface⟩ := h.wrappers e he
  rw [hrecv sel hsel] at hiface
  cases hiface.symm.trans (h.types.extended.isInterface hplain)

end Resolved

/-- A member that is resolved is a portion. -/
theorem MemberRecalls.resolved (h : MemberRecalls ty sel p (.ok id) q) :
    ∃ d, q = p.plus d ∧ Resolved p ty [sel] d := by
  obtain ⟨decl, hdecl, h⟩ := h
  rw [← TypeTable.idOf_eq hdecl] at h
  cases h with
  | known hid => exact ⟨_, (plus_nothing p).symm, .known hid⟩
  | kept hnone h =>
    -- nothing is made, and the entry is all
    have hplace : ∀ {id}, Serves p p sel id → ∃ d,
        (selectionMemory true).keep (ty, p.types.idOf sel.method) id p = p.plus d ∧
          Resolved p ty [sel] d := by
      intro id hserves
      have hplus : (selectionMemory true).keep (ty, p.types.idOf sel.method) id p =
          p.plus ⟨p.types, [((ty, p.types.idOf sel.method), id)], [], []⟩ := by
        rw [plus, List.append_nil]
        rfl
      refine ⟨_, hplus, .single (.refl _) hnone nofun nofun ?_⟩
      rw [← hplus]
      exact hserves.retains (keep_selection_retains hnone) rfl
    -- a wrapper is made, and the entry holds it
    have hlast : ∀ {f : Function}, ∀ n < [f].length,
        (⟨p.bodies.length⟩ : BodyId) = ⟨p.bodies.length + n⟩ := by
      intro f n hn
      rw [List.length_singleton, Nat.lt_one_iff] at hn
      rw [hn, Nat.add_zero]
    cases h with
    | declared hid => exact hplace (.declared hid)
    | promoted h =>
      cases h with
      | made ht hf =>
        exact ⟨⟨_, _, [], _⟩, rfl, .single ht hnone nofun hlast
          (.promoted (entry_eq_ok_iff.mpr List.getElem?_concat_length) hf (Nat.le_refl _))⟩
    | invoked hiface h =>
      cases h with
      | known hid => exact hplace (.invoked hiface hid)
      | kept hfree h =>
        cases h with
        | made ht hf =>
          exact ⟨⟨_, _, [(sel.method, _)], _⟩, rfl, .single ht hnone
            (fun e he => ⟨List.mem_singleton.mp he, hfree, hiface⟩) hlast
            (.invoked (ht.extended.isInterface hiface) List.lookup_cons_self)⟩

/-- **What is resolved one after another is a portion.** -/
theorem resolved_of_fills (h : Fills ty p done q) : ∃ d, q = p.plus d ∧ Resolved p ty done d := by
  induction h with
  | nil => exact ⟨_, (plus_nothing p).symm, .nothing p ty⟩
  | snoc _ hsel ih =>
    obtain ⟨d, rfl, hd⟩ := ih
    obtain ⟨d', rfl, hd'⟩ := hsel.resolved
    exact ⟨d.andThen d', plus_plus p d d', hd.andThen hd'⟩

/-- In a well-formed table all members of the method set of an interface are resolved. -/
theorem isInterface_of_failed (w : p.types.WellFormed) {sels : List Selection}
    (hsels : p.types.methodSet ty = .ok sels) {e : BuildError}
    (hrun : (methodSet ty).run.run p = .ok (.error e, q)) : p.types.isInterface ty = .ok false := by
  have hty := TypeTable.holds_of_methodSet hsels
  obtain ⟨iface, hiface⟩ := w.sound.exists_isInterface hty
  cases iface with
  | false => exact hiface
  | true =>
    obtain ⟨l, ⟨⟩⟩ := (methodSet_completes w.sound w.methodsTyped hty
      fun sels hsels sel hsel hneeded => by
        obtain ⟨abs, habs, hneeds⟩ := w.needsBody_eq hsels hsel
        cases habs.symm.trans (w.isAbstract_of_isInterface hsels hsel hiface)
        cases hneeded.symm.trans hneeds).elim hrun

/-- **A request for a method set that fails** leaves the portion of the members before the one
that failed. -/
theorem methodSet_failed {e : BuildError} (hrun : (methodSet ty).run.run p = .ok (.error e, q)) :
    ∃ done sel rest d, p.types.methodSet ty = .ok (done ++ sel :: rest) ∧ q = p.plus d ∧
      Resolved p ty done d ∧ ty ∉ q.complete ∧
      q.members.lookup (ty, p.types.idOf sel.method) = none ∧
      (p.types.WellFormed → d.wrappers = []) := by
  cases collects_of_methodSet hrun with
  | @failed done rest sel _ p₁ _ hty hsels hfills hmember =>
    obtain ⟨d, rfl, hd⟩ := resolved_of_fills hfills
    obtain ⟨decl, hdecl, hrecalls⟩ := hmember
    obtain ⟨t, ht, rfl⟩ := hrecalls.intact Found.intact
    have hkey : decl.id = p.types.idOf sel.method :=
      (TypeTable.idOf_eq hdecl).symm.trans (hd.types.idOf sel.method)
    have hnone : (p.plus d).members.lookup (ty, decl.id) = none := by
      cases hrecalls with
      | failed hnone => exact hnone
    rw [hkey] at hnone
    refine ⟨done, sel, rest, { d with types := t }, hsels, rfl, hd.enter ht, hty, hnone,
      fun w => hd.wrappers_eq_nil (fun sel' hsel' => ?_) ?_⟩
    · exact (w.selected_of_mem hsels (List.mem_append_left _ hsel')).1
    · exact isInterface_of_failed w hsels hrun

/-! ## Trying again -/

/-- A request for the method set of `ty` is answered, and goes on from the entries `held`: they
belong to the answer, and what is resolved now has other keys. -/
def Continues (r : Program) (ty : TypeId) (held : List ((TypeId × String) × BodyId))
    (res : Except BuildError (List (String × BodyId))) (r' : Program) : Prop :=
  ∃ done d, res = .ok (r'.membersOf ty) ∧ Resolved r ty done d ∧
    r' = { r.plus d with complete := r'.complete } ∧ ty ∈ r'.complete ∧
    ∀ e ∈ held, (e.1.2, e.2) ∈ r'.membersOf ty ∧ ∀ e' ∈ d.entries, e'.1 ≠ e.1

/-- **A request for a method set can be made again** in every later state, when no member lacks
a body any more. -/
theorem methodSet_continues (h : Resolved p ty done d) (hr : Retains (p.plus d) r)
    (hs : r.types.Sound) (hm : r.types.MethodsTyped) (hty : r.types.Holds ty)
    (hbodies : ∀ sels, r.types.methodSet ty = .ok sels → ∀ sel ∈ sels,
      r.types.needsBody sel = .ok true → (r.declared.lookup sel.method).isSome = true) :
    Settles r.types.Endless (methodSet ty).run r (Continues r ty d.entries) := by
  refine (methodSet_completes hs hm hty hbodies).withRun.mono (fun _ => id) ?_
  rintro _ r' ⟨hrun, l, rfl⟩
  -- an entry is still there, under the key of a member of `ty`
  have hheld : ∀ e ∈ d.entries, e.1 = (ty, e.1.2) ∧ r.members.lookup e.1 = some e.2 := by
    intro e he
    obtain ⟨sel, -, hkey, -⟩ := h.entries e he
    refine ⟨?_, hr.selections true (h.lookup he)⟩
    rw [hkey]
  cases collects_of_methodSet hrun with
  | known hcomplete =>
    refine ⟨[], _, rfl, .nothing r ty, (plus_nothing r).symm, hcomplete, fun e he => ?_⟩
    obtain ⟨hkey, hid⟩ := hheld e he
    rw [hkey] at hid
    exact ⟨mem_membersOf.mpr hid, nofun⟩
  | completed _ _ hfills =>
    obtain ⟨d', rfl, hd'⟩ := resolved_of_fills hfills
    refine ⟨_, d', rfl, hd', rfl, List.mem_cons_self .., fun e he => ?_⟩
    obtain ⟨hkey, hid⟩ := hheld e he
    refine ⟨mem_membersOf.mpr ?_, fun e' he' heq => ?_⟩
    · rw [← hkey]
      exact hd'.retains.selections true hid
    · cases hid.symm.trans (heq ▸ hd'.fresh e' he')

/-- **A request that fails leaves the program as it was, and can be made again.** A request for
one body enters types at most. A request for a method set also keeps the members that were
resolved before the one that failed, each with the body that stands behind it, and nothing else;
in a well-formed table it keeps no wrapper of an interface method either. The type is not
complete. In every later state, whatever was done in between, the request is answered if each
member that needs a declared body has one, no identifier is forged and the signature of no
function is anything but a signature: the members that were kept are in the answer, and no
wrapper is made for them again. -/
theorem failed_requests (p : Program) :
    (∀ {sel e q}, (bodyOf sel).run.run p = .ok (.error e, q) → Intact p q) ∧
    (∀ {recv m e q}, (interfaceWrapper recv m).run.run p = .ok (.error e, q) → Intact p q) ∧
    (∀ {m e q}, (boundWrapper m).run.run p = .ok (.error e, q) → Intact p q) ∧
    ∀ {ty e q}, (methodSet ty).run.run p = .ok (.error e, q) →
      ∃ done sel rest d, p.types.methodSet ty = .ok (done ++ sel :: rest) ∧ q = p.plus d ∧
        Resolved p ty done d ∧ ty ∉ q.complete ∧
        q.members.lookup (ty, p.types.idOf sel.method) = none ∧
        (p.types.WellFormed → d.wrappers = []) ∧
        ∀ {given r}, History q given r → r.types.Built → r.types.PlainSignatures →
          (∀ sels, r.types.methodSet ty = .ok sels → ∀ sel ∈ sels,
            r.types.needsBody sel = .ok true → (r.declared.lookup sel.method).isSome = true) →
          Yields (methodSet ty).run r (Continues r ty d.entries) := by
  refine ⟨fun hrun => ?_, fun hrun => ?_, fun hrun => ?_, fun hrun => ?_⟩
  · obtain ⟨decl, inSet, -, -, h⟩ := recalls_of_bodyOf hrun
    exact h.intact Found.intact
  · exact (recalls_of_interfaceWrapper hrun).intact Adds.intact
  · exact (recalls_of_boundWrapper hrun).intact Adds.intact
  · obtain ⟨done, sel, rest, d, hsels, rfl, hd, hty, hnone, hwrappers⟩ := methodSet_failed hrun
    refine ⟨done, sel, rest, d, hsels, rfl, hd, hty, hnone, hwrappers, ?_⟩
    intro given r hr hb hp hbodies
    obtain ⟨u, hu⟩ := TypeTable.exists_get_iff.mpr (TypeTable.holds_of_methodSet hsels)
    have hheld := TypeTable.holds_of_get (hr.retains.types.get (hd.types.extended.get hu))
    exact (methodSet_continues hd hr.retains hb.sound hp.methodsTyped hheld hbodies).yields
      hp.not_endless

/-- A program with a body for the first of the two methods of a leaf. -/
def nodeDeclared : Program :=
  (fresh .debug TypeTable.nodeTable).next (.declare ⟨0⟩ (.empty "Len" ⟨28⟩))

/-- The state after a request that fails. -/
theorem next_of_fails
    (hfails : ((methodSet ty).run.run p).toOption.any (fun x => !x.1.toBool) = true) :
    ∃ e, (methodSet ty).run.run p = .ok (.error e, p.next (.methodSet ty)) := by
  rw [Program.next, perform, leaves]
  rcases hrun : (methodSet ty).run.run p with fault | ⟨e | l, q⟩
  · rw [hrun] at hfails
    cases hfails
  · exact ⟨e, rfl⟩
  · rw [hrun] at hfails
    cases hfails

/-- The method set of a pointer to a node: the request fails at the second member and keeps the
first, and it is answered when the body that was missing is declared. -/
theorem failed_requests_node :
    ∃ e d, (methodSet ⟨31⟩).run.run nodeDeclared = .ok (.error e, nodePartial) ∧
      nodePartial = nodeDeclared.plus d ∧ d.entries = [((⟨31⟩, "Len"), ⟨1⟩)] ∧
      Yields (methodSet ⟨31⟩).run (nodePartial.next (.declare ⟨1⟩ (.empty "Put" ⟨29⟩)))
        (Continues (nodePartial.next (.declare ⟨1⟩ (.empty "Put" ⟨29⟩))) ⟨31⟩ d.entries) := by
  obtain ⟨e, hrun⟩ : ∃ e, (methodSet ⟨31⟩).run.run nodeDeclared = .ok (.error e, nodePartial) :=
    next_of_fails (by decide +kernel)
  -- the table has grown by types that were entered
  have w := TypeTable.nodeTable_wellFormed
  have hpartial : Run (fun _ => False) (fresh .debug TypeTable.nodeTable) nodePartial :=
    (Run.refl.next (.declare rfl)).next .methodSet
  have g : TypeTable.nodeTable.Grown nodePartial.types := (hpartial.extends w).types
  have wq := w.grown g
  have hp := TypeTable.nodeTable_plainSignatures.grown g
  obtain ⟨-, -, -, d, -, hq, -, -, -, -, hretry⟩ := (failed_requests nodeDeclared).2.2.2 hrun
  have hmembers : nodePartial.members = d.entries ++ [] := congrArg Program.members hq
  have hentries : nodePartial.members = [((⟨31⟩, "Len"), ⟨1⟩)] := by decide +kernel
  refine ⟨e, d, hrun, hq, (List.append_nil _).symm.trans (hmembers.symm.trans hentries), ?_⟩
  have hlen : (nodePartial.declared.lookup nodeLen.method).isSome = true := by decide +kernel
  have hnode : TypeTable.nodeTable.methodSet ⟨31⟩ = .ok [nodeLen, nodePut] := by cbv
  rw [← g.methodSet w (TypeTable.holds_of_methodSet hnode)] at hnode
  -- what follows is so for every state like this one
  generalize nodePartial = q at hretry wq hp hlen hnode ⊢
  have hlater := History.start.next (p := q) (.declare ⟨1⟩ (.empty "Put" ⟨29⟩))
    (by rintro _ ⟨⟩) rfl
  refine hretry hlater wq.built hp fun sels hsels sel hsel _ => ?_
  cases Except.ok.inj (hnode.symm.trans hsels)
  simp only [List.mem_cons, List.not_mem_nil, or_false] at hsel
  rcases hsel with rfl | rfl
  · exact hlen
  · rfl

/-- The table of a declared interface that lists a method of its own, and one that takes its
receiver by pointer to an integer. -/
def mixedTable : TypeTable where
  toTypeIndex := .of (TypeTable.initial.types ++
    [.named ⟨"T", none, 0⟩, .signature ⟨some ⟨"", ⟨25⟩⟩, [], [], false⟩, .pointer ⟨1⟩,
      .signature ⟨some ⟨"", ⟨27⟩⟩, [], [], false⟩, .interface [⟨0⟩, ⟨1⟩]])
  decls := [⟨⟨25⟩, ⟨29⟩, []⟩]
  funcs := [⟨"A", none, ⟨26⟩, ⟨0⟩⟩, ⟨"B", none, ⟨28⟩, ⟨0⟩⟩]
  agrees := TypeIndex.agrees_of _

/-- The table of a declared struct `T` that embeds a pointer to another one, `E`, which has two
methods. The signature of the second one is a parameter; there is a signature with a parameter of
a foreign type among the types. -/
def stuckTable (sig : TypeId) : TypeTable where
  toTypeIndex := .of (TypeTable.initial.types ++
    [.named ⟨"E", none, 0⟩, .struct [], .signature ⟨some ⟨"", ⟨25⟩⟩, [], [], false⟩,
      .signature ⟨some ⟨"", ⟨25⟩⟩, [⟨"x", ⟨999⟩⟩], [], false⟩, .named ⟨"T", none, 1⟩,
      .pointer ⟨25⟩, .struct [⟨"E", none, ⟨30⟩, true⟩]])
  decls := [⟨⟨25⟩, ⟨26⟩, [⟨0⟩, ⟨1⟩]⟩, ⟨⟨29⟩, ⟨31⟩, []⟩]
  funcs := [⟨"A", none, ⟨27⟩, ⟨0⟩⟩, ⟨"B", none, sig, ⟨0⟩⟩]
  agrees := TypeIndex.agrees_of _

/-- A request for the method set of `T`, after which both methods are declared. -/
def stuckRetry (sig : TypeId) : Program :=
  (((fresh .debug (stuckTable sig)).next (.methodSet ⟨29⟩)).next
    (.declare ⟨0⟩ (.empty "A" ⟨27⟩))).next (.declare ⟨1⟩ (.empty "B" ⟨27⟩))

/-- What the conditions on the table are for. The request for the method set of an interface can
fail and keep the wrapper of a method of the interface, if a method is listed that belongs to no
interface. And a second request can be a fault, also if everything is declared: if the signature
of a method is an integer type, or if it is a signature with a forged identifier in it. -/
theorem failed_requests_stuck :
    (∃ e, (methodSet ⟨25⟩).run.run (fresh .debug mixedTable) =
      .ok (.error e, (fresh .debug mixedTable).next (.methodSet ⟨25⟩))) ∧
    ((fresh .debug mixedTable).next (.methodSet ⟨25⟩)).ifaceWrappers = [(⟨0⟩, ⟨0⟩)] ∧
    (∀ sig ∈ [TypeTable.basic .int, ⟨28⟩],
      (∃ e, (methodSet ⟨29⟩).run.run (fresh .debug (stuckTable sig)) =
        .ok (.error e, (fresh .debug (stuckTable sig)).next (.methodSet ⟨29⟩))) ∧
      (stuckRetry sig).declared.map Prod.fst = [⟨1⟩, ⟨0⟩]) ∧
    (methodSet ⟨29⟩).run.run (stuckRetry (TypeTable.basic .int)) =
      .error (.notSignature (.basic .int)) ∧
    (methodSet ⟨29⟩).run.run (stuckRetry ⟨28⟩) = .error .foreignType := by
  refine ⟨next_of_fails (by decide +kernel), by decide +kernel, fun sig hsig => ?_,
    eq_error_of_map (by decide +kernel), eq_error_of_map (by decide +kernel)⟩
  simp only [List.mem_cons, List.not_mem_nil, or_false] at hsig
  rcases hsig with rfl | rfl
  · exact ⟨next_of_fails (by decide +kernel), by decide +kernel⟩
  · exact ⟨next_of_fails (by decide +kernel), by decide +kernel⟩

end Program

end MethodSSA
