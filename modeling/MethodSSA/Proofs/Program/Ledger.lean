import MethodSSA.Proofs.Program.Making
import MethodSSA.Proofs.Program.Runs

/-!
# The ledger of wrappers

Every body of a program was handed in, or it is a wrapper that was made and is kept in exactly
one place: with its interface method, with its bound method, or with the selection that it was
made for (`Tally`). What a request does is a row of small gains (`Gain`), and none of them
makes a wrapper that is not kept or forgets one that is. So no wrapper is made twice, and an
answer stays the answer for as long as the declarations of the types stay (`Retains`).
-/

namespace MethodSSA

namespace Program

open Relation

variable {p q r : Program} {sel : Selection} {m : FuncId} {recv ty : TypeId} {id : BodyId}

/-! ## Gains -/

/-- What a request may add to a program at once. -/
inductive Gain (p : Program) : Program → Prop
  /-- types -/
  | types {t : TypeTable} (ht : p.types.Entered t) : Gain p { p with types := t }
  /-- a promotion wrapper and its place -/
  | promotion {inSet : Bool} {key : TypeId × String} {t : TypeTable} {f : Function}
    (hnone : ((selectionMemory inSet).entries p).lookup key = none) (ht : p.types.Entered t)
    (hf : f.method.isSome = true) :
    Gain p ((selectionMemory inSet).keep key ⟨p.bodies.length⟩ (p.added t f))
  /-- the wrapper of an interface method or a bound method, and its place -/
  | wrapper {bound : Bool} {m : FuncId} {t : TypeTable} {f : Function}
    (hnone : ((wrapperMemory bound).entries p).lookup m = none) (ht : p.types.Entered t)
    (hf : f.method = none) :
    Gain p ((wrapperMemory bound).keep m ⟨p.bodies.length⟩ (p.added t f))
  /-- one more place of a declared body or of the wrapper of an interface method -/
  | place {inSet : Bool} {key : TypeId × String} {id : BodyId} {m : FuncId}
    (hnone : ((selectionMemory inSet).entries p).lookup key = none)
    (hid : (m, id) ∈ p.declared ∨ (m, id) ∈ p.ifaceWrappers) :
    Gain p ((selectionMemory inSet).keep key id p)
  /-- the note that a method set is complete -/
  | complete (ty : TypeId) : Gain p { p with complete := ty :: p.complete }

theorem mem_of_lookup {κ β : Type} [BEq κ] [LawfulBEq κ] {l : List (κ × β)} {key : κ} {b : β}
    (h : l.lookup key = some b) : (key, b) ∈ l := by
  obtain ⟨before, after, rfl, -⟩ := List.lookup_eq_some_iff.mp h
  exact List.mem_append_right _ (List.mem_cons_self ..)

/-- The wrapper of an interface method or a bound method is found or gained. -/
theorem Recalls.gains_wrapper {bound : Bool} {res : Except BuildError BodyId}
    (h : Recalls (wrapperMemory bound) m (Adds none) p res q) : ReflTransGen Gain p q := by
  cases h with
  | known => exact .refl
  | kept hnone h =>
    cases h with
    | made ht hf => exact .single (.wrapper hnone ht hf)
  | failed _ h =>
    cases h with
    | failed ht => exact .single (.types ht)

/-- What is behind a selection is found or gained. -/
theorem Recalls.gains {inSet : Bool} {key : TypeId × String} {res : Except BuildError BodyId}
    (h : Recalls (selectionMemory inSet) key (Found sel) p res q) : ReflTransGen Gain p q := by
  cases h with
  | known => exact .refl
  | kept hnone h =>
    cases h with
    | promoted h =>
      cases h with
      | made ht hf => exact .single (.promotion hnone ht (by rw [hf]; rfl))
    | declared hid => exact .single (.place hnone (.inl (mem_of_lookup hid)))
    | invoked _ h =>
      cases h with
      | known hid => exact .single (.place hnone (.inr (mem_of_lookup hid)))
      | kept hnone' h =>
        cases h with
        | made ht hf =>
          -- the wrapper has its own place first, and then that of the selection
          refine .tail (.single (.wrapper hnone' ht hf)) (.place ?_ (.inr (List.mem_cons_self ..)))
          cases inSet <;> exact hnone
  | failed _ h =>
    cases h with
    | promoted h =>
      cases h with
      | failed ht => exact .single (.types ht)
    | invoked _ h => exact h.gains_wrapper
    | missing => exact .refl

theorem Fills.gains {l : List Selection} (h : Fills ty p l q) : ReflTransGen Gain p q := by
  induction h with
  | nil => exact .refl
  | snoc _ hsel ih =>
    obtain ⟨decl, -, hsel⟩ := hsel
    exact ih.trans hsel.gains

theorem Collects.gains {res : Except BuildError (List (String × BodyId))}
    (h : Collects ty p res q) : ReflTransGen Gain p q := by
  cases h with
  | known => exact .refl
  | completed _ _ h => exact h.gains.tail (.complete ty)
  | failed _ _ h hsel =>
    obtain ⟨decl, -, hsel⟩ := hsel
    exact h.gains.trans hsel.gains

/-! ## What stays -/

theorem selectionEntries_eq (hmembers : q.members = p.members)
    (haddressable : q.addressable = p.addressable) (inSet : Bool) :
    (selectionMemory inSet).entries q = (selectionMemory inSet).entries p := by
  cases inSet with
  | false => exact haddressable
  | true => exact hmembers

theorem wrapperEntries_eq (hiface : q.ifaceWrappers = p.ifaceWrappers)
    (hbound : q.boundWrappers = p.boundWrappers) (bound : Bool) :
    (wrapperMemory bound).entries q = (wrapperMemory bound).entries p := by
  cases bound with
  | false => exact hiface
  | true => exact hbound

/-- Everything that is remembered stays, in a table that says at least what it said. -/
structure Retains (p q : Program) : Prop where
  types : p.types.Extended q.types
  bodies : p.bodies <+: q.bodies
  selections : ∀ (inSet : Bool) {key id}, ((selectionMemory inSet).entries p).lookup key = some id →
    ((selectionMemory inSet).entries q).lookup key = some id
  wrappers : ∀ (bound : Bool) {m id}, ((wrapperMemory bound).entries p).lookup m = some id →
    ((wrapperMemory bound).entries q).lookup m = some id

namespace Retains

theorem refl (p : Program) : Retains p p := ⟨.refl _, List.prefix_rfl, fun _ => id, fun _ => id⟩

theorem trans (h : Retains p q) (h' : Retains q r) : Retains p r :=
  ⟨h.types.trans h'.types, h.bodies.trans h'.bodies,
    fun inSet => h'.selections inSet ∘ h.selections inSet,
    fun bound => h'.wrappers bound ∘ h.wrappers bound⟩

/-- More types and bodies, and the same entries in the memories. -/
theorem of_entries (ht : p.types.Extended q.types) (hbodies : p.bodies <+: q.bodies)
    (hmembers : q.members = p.members) (haddressable : q.addressable = p.addressable)
    (hiface : q.ifaceWrappers = p.ifaceWrappers) (hbound : q.boundWrappers = p.boundWrappers) :
    Retains p q := by
  refine ⟨ht, hbodies, fun inSet _ _ h => ?_, fun bound _ _ h => ?_⟩
  · rw [selectionEntries_eq hmembers haddressable]
    exact h
  · rw [wrapperEntries_eq hiface hbound]
    exact h

/-- A body stays as it is. -/
theorem body (h : Retains p q) {f : Function} (hf : p.body id = .ok f) : q.body id = .ok f :=
  entry_of_prefix h.bodies hf

end Retains

/-- What is kept for a selection under a key that was free leaves the other entries alone. -/
theorem lookup_keep_selection {inSet inSet' : Bool} {key key' : TypeId × String} {new : BodyId}
    (hnone : ((selectionMemory inSet).entries p).lookup key = none)
    (h : ((selectionMemory inSet').entries p).lookup key' = some id) :
    ((selectionMemory inSet').entries ((selectionMemory inSet).keep key new p)).lookup key' =
      some id := by
  cases inSet <;> cases inSet'
  · exact lookup_cons_of_none hnone h
  · exact h
  · exact h
  · exact lookup_cons_of_none hnone h

theorem lookup_keep_wrapper {bound bound' : Bool} {m' : FuncId} {new : BodyId}
    (hnone : ((wrapperMemory bound).entries p).lookup m = none)
    (h : ((wrapperMemory bound').entries p).lookup m' = some id) :
    ((wrapperMemory bound').entries ((wrapperMemory bound).keep m new p)).lookup m' = some id := by
  cases bound <;> cases bound'
  · exact lookup_cons_of_none hnone h
  · exact h
  · exact h
  · exact lookup_cons_of_none hnone h

/-- What is kept for a selection is no wrapper of an interface method or a bound method. -/
theorem keep_selection_retains {inSet : Bool} {key : TypeId × String} {new : BodyId}
    (hnone : ((selectionMemory inSet).entries p).lookup key = none) :
    Retains p ((selectionMemory inSet).keep key new p) := by
  refine ⟨?_, ?_, fun _ _ _ => lookup_keep_selection hnone, fun bound _ _ h => ?_⟩
  · cases inSet <;> exact .refl _
  · cases inSet <;> exact List.prefix_rfl
  · cases inSet <;> cases bound <;> exact h

theorem keep_wrapper_retains {bound : Bool} {new : BodyId}
    (hnone : ((wrapperMemory bound).entries p).lookup m = none) :
    Retains p ((wrapperMemory bound).keep m new p) := by
  refine ⟨?_, ?_, fun inSet _ _ h => ?_, fun _ _ _ => lookup_keep_wrapper hnone⟩
  · cases bound <;> exact .refl _
  · cases bound <;> exact List.prefix_rfl
  · cases bound <;> cases inSet <;> exact h

theorem added_retains {t : TypeTable} (ht : p.types.Entered t) (f : Function) :
    Retains p (p.added t f) :=
  .of_entries ht.extended (List.prefix_append _ _) rfl rfl rfl rfl

theorem Gain.retains (h : Gain p q) : Retains p q := by
  cases h with
  | types ht => exact .of_entries ht.extended List.prefix_rfl rfl rfl rfl rfl
  | @promotion inSet _ _ f hnone ht =>
    refine (added_retains ht f).trans (keep_selection_retains ?_)
    cases inSet <;> exact hnone
  | @wrapper bound _ _ f hnone ht =>
    refine (added_retains ht f).trans (keep_wrapper_retains ?_)
    cases bound <;> exact hnone
  | place hnone => exact keep_selection_retains hnone
  | complete => exact .of_entries (.refl _) List.prefix_rfl rfl rfl rfl rfl

theorem retains_of_gains (h : ReflTransGen Gain p q) : Retains p q := by
  induction h with
  | refl => exact .refl p
  | tail _ hstep ih => exact ih.trans hstep.retains

/-! ## The count -/

/-- Whether a body is a promotion wrapper: it was not handed in, and it stands for a
selection. -/
def isPromotion (p : Program) (given : List BodyId) (id : BodyId) : Bool :=
  id ∉ given && p.bodies[id.index]?.any (·.method.isSome)

/-- What is remembered for selections and is a promotion wrapper. -/
def promotions (p : Program) (given : List BodyId) : List ((TypeId × String) × BodyId) :=
  (p.members ++ p.addressable).filter fun e => p.isPromotion given e.2

/-- The wrappers that are kept: of interface methods, of bound methods, and of selections. -/
def wrappers (p : Program) (given : List BodyId) : List BodyId :=
  p.ifaceWrappers.map Prod.snd ++ p.boundWrappers.map Prod.snd ++
    (p.promotions given).map Prod.snd

/-- **The ledger.** The bodies are those that were handed in and the wrappers that are kept,
each of them once, and the wrappers are counted; and what else is remembered was handed in, or is
the wrapper of an interface method. -/
structure Tally (given : List BodyId) (p : Program) : Prop where
  bodies : (given ++ p.wrappers given).Perm ((List.range p.bodies.length).map BodyId.mk)
  synthesized : p.synthesized = (p.wrappers given).length
  declared : ∀ e ∈ p.declared, e.2 ∈ given
  ifaceWrappers : ∀ e ∈ p.ifaceWrappers, ∃ f, p.body e.2 = .ok f ∧ f.method = none
  held : ∀ e ∈ p.members ++ p.addressable, e.2.index < p.bodies.length
  selectionKeys : ∀ inSet, (((selectionMemory inSet).entries p).map Prod.fst).Nodup
  wrapperKeys : ∀ bound, (((wrapperMemory bound).entries p).map Prod.fst).Nodup

variable {given more : List BodyId}

theorem tally_fresh (mode : Mode) (t : TypeTable) : Tally [] (fresh mode t) :=
  ⟨.nil, rfl, nofun, nofun, nofun, fun inSet => by cases inSet <;> exact .nil,
    fun bound => by cases bound <;> exact .nil⟩

/-- An old body is what it was, whatever was added and handed in behind it. -/
theorem isPromotion_of_later {l : List Function} (hbodies : q.bodies = p.bodies ++ l)
    (hmore : ∀ x ∈ more, p.bodies.length ≤ x.index) (hid : id.index < p.bodies.length) :
    q.isPromotion (given ++ more) id = p.isPromotion given id := by
  have hnot : id ∉ more := fun hmem => absurd (hmore id hmem) (Nat.not_le.mpr hid)
  rw [isPromotion, isPromotion, hbodies, List.getElem?_append_left hid]
  simp [hnot]

namespace Tally

variable (h : Tally given p)
include h

theorem length_eq : p.bodies.length = given.length + p.synthesized := by
  have hlength := h.bodies.length_eq
  rw [List.length_append, List.length_map, List.length_range, ← h.synthesized] at hlength
  exact hlength.symm

theorem nodup : (given ++ p.wrappers given).Nodup := by
  refine h.bodies.nodup_iff.mpr (List.nodup_range.map fun a b hab => ?_)
  exact BodyId.mk.inj hab

theorem lt_of_mem (hid : id ∈ given ++ p.wrappers given) : id.index < p.bodies.length := by
  obtain ⟨i, hi, rfl⟩ := List.mem_map.mp (h.bodies.mem_iff.mp hid)
  exact List.mem_range.mp hi

/-- What is remembered for selections has the same promotion wrappers after more bodies. -/
theorem filter_isPromotion (more : List BodyId) {l : List Function}
    (hbodies : q.bodies = p.bodies ++ l) (hmore : ∀ x ∈ more, p.bodies.length ≤ x.index) :
    ((p.members ++ p.addressable).filter fun e => q.isPromotion (given ++ more) e.2) =
      p.promotions given :=
  List.filter_congr fun e he => isPromotion_of_later hbodies hmore (h.held e he)

/-- One more body belongs to the ledger. -/
theorem perm_concat {ids : List BodyId} {f : Function} (hbodies : q.bodies = p.bodies ++ [f])
    (hids : ids.Perm (⟨p.bodies.length⟩ :: (given ++ p.wrappers given))) :
    ids.Perm ((List.range q.bodies.length).map BodyId.mk) := by
  rw [hbodies, List.length_append, List.length_singleton, List.range_succ, List.map_append]
  exact (hids.trans (h.bodies.cons _)).trans (List.perm_append_singleton _ _).symm

end Tally

/-- A program in which one more entry is kept for a selection. -/
structure KeepsSelection (e : (TypeId × String) × BodyId) (p q : Program) : Prop where
  bodies : q.bodies = p.bodies
  synthesized : q.synthesized = p.synthesized
  declared : q.declared = p.declared
  ifaceWrappers : q.ifaceWrappers = p.ifaceWrappers
  boundWrappers : q.boundWrappers = p.boundWrappers
  entries : (q.members ++ q.addressable).Perm (e :: (p.members ++ p.addressable))

theorem keepsSelection (inSet : Bool) (key : TypeId × String) (id : BodyId) (p : Program) :
    KeepsSelection (key, id) p ((selectionMemory inSet).keep key id p) := by
  cases inSet with
  | false => exact ⟨rfl, rfl, rfl, rfl, rfl, List.perm_middle⟩
  | true => exact ⟨rfl, rfl, rfl, rfl, rfl, .refl _⟩

/-- A program in which one more wrapper is kept for its method. -/
structure KeepsWrapper (e : FuncId × BodyId) (p q : Program) : Prop where
  bodies : q.bodies = p.bodies
  synthesized : q.synthesized = p.synthesized
  declared : q.declared = p.declared
  members : q.members = p.members
  addressable : q.addressable = p.addressable
  entries : (q.ifaceWrappers.map Prod.snd ++ q.boundWrappers.map Prod.snd).Perm
    (e.2 :: (p.ifaceWrappers.map Prod.snd ++ p.boundWrappers.map Prod.snd))
  ifaceWrappers : ∀ e' ∈ q.ifaceWrappers, e' ∈ p.ifaceWrappers ∨ e' = e

theorem keepsWrapper (bound : Bool) (m : FuncId) (id : BodyId) (p : Program) :
    KeepsWrapper (m, id) p ((wrapperMemory bound).keep m id p) := by
  cases bound with
  | false => exact ⟨rfl, rfl, rfl, rfl, rfl, .refl _, fun e he => (List.mem_cons.mp he).symm⟩
  | true => exact ⟨rfl, rfl, rfl, rfl, rfl, List.perm_middle, fun e => .inl⟩

theorem nodup_keys_cons {κ β : Type} [BEq κ] [LawfulBEq κ] {l : List (κ × β)} {key : κ} {b : β}
    (hnone : l.lookup key = none) (h : (l.map Prod.fst).Nodup) :
    (((key, b) :: l).map Prod.fst).Nodup := by
  rw [List.map_cons, List.nodup_cons]
  refine ⟨fun hmem => ?_, h⟩
  obtain ⟨e, he, heq⟩ := List.mem_map.mp hmem
  have hne := List.lookup_eq_none_iff.mp hnone e he
  simp [heq] at hne

theorem nodup_keys_selection_of_eq
    (h : ∀ inSet, (((selectionMemory inSet).entries p).map Prod.fst).Nodup)
    (hmembers : q.members = p.members) (haddressable : q.addressable = p.addressable)
    (inSet : Bool) :
    (((selectionMemory inSet).entries q).map Prod.fst).Nodup := by
  rw [selectionEntries_eq hmembers haddressable]
  exact h inSet

theorem nodup_keys_wrapper_of_eq
    (h : ∀ bound, (((wrapperMemory bound).entries p).map Prod.fst).Nodup)
    (hiface : q.ifaceWrappers = p.ifaceWrappers) (hbound : q.boundWrappers = p.boundWrappers)
    (bound : Bool) :
    (((wrapperMemory bound).entries q).map Prod.fst).Nodup := by
  rw [wrapperEntries_eq hiface hbound]
  exact h bound

theorem nodup_keys_selection {inSet : Bool} {key : TypeId × String}
    (hnone : ((selectionMemory inSet).entries p).lookup key = none)
    (h : ∀ inSet, (((selectionMemory inSet).entries p).map Prod.fst).Nodup) (inSet' : Bool) :
    (((selectionMemory inSet').entries
      ((selectionMemory inSet).keep key id p)).map Prod.fst).Nodup := by
  cases inSet <;> cases inSet'
  · exact nodup_keys_cons hnone (h false)
  · exact h true
  · exact h false
  · exact nodup_keys_cons hnone (h true)

theorem nodup_keys_wrapper {bound : Bool}
    (hnone : ((wrapperMemory bound).entries p).lookup m = none)
    (h : ∀ bound, (((wrapperMemory bound).entries p).map Prod.fst).Nodup) (bound' : Bool) :
    (((wrapperMemory bound').entries ((wrapperMemory bound).keep m id p)).map Prod.fst).Nodup := by
  cases bound <;> cases bound'
  · exact nodup_keys_cons hnone (h false)
  · exact h true
  · exact h false
  · exact nodup_keys_cons hnone (h true)

namespace Tally

variable (h : Tally given p)
include h

/-- One more entry for a selection counts if it is a promotion wrapper. -/
theorem promotions_perm {e : (TypeId × String) × BodyId} {l : List Function}
    (hbodies : q.bodies = p.bodies ++ l)
    (hperm : (q.members ++ q.addressable).Perm (e :: (p.members ++ p.addressable))) :
    (q.promotions given).Perm
      (if q.isPromotion given e.2 then e :: p.promotions given else p.promotions given) := by
  have hold := h.filter_isPromotion [] hbodies nofun
  rw [List.append_nil] at hold
  have hnew := hperm.filter fun e => q.isPromotion given e.2
  rw [List.filter_cons, hold] at hnew
  exact hnew

/-- A program with one more wrapper that is kept. -/
theorem gain {f : Function} (hbodies : q.bodies = p.bodies ++ [f])
    (hsynthesized : q.synthesized = p.synthesized + 1) (hdeclared : q.declared = p.declared)
    (hwrappers : (q.wrappers given).Perm (⟨p.bodies.length⟩ :: p.wrappers given))
    (hiface : ∀ e ∈ q.ifaceWrappers,
      e ∈ p.ifaceWrappers ∨ e.2 = ⟨p.bodies.length⟩ ∧ f.method = none)
    (hheld : ∀ e ∈ q.members ++ q.addressable,
      e ∈ p.members ++ p.addressable ∨ e.2 = ⟨p.bodies.length⟩)
    (hselections : ∀ inSet, (((selectionMemory inSet).entries q).map Prod.fst).Nodup)
    (hkeys : ∀ bound, (((wrapperMemory bound).entries q).map Prod.fst).Nodup) :
    Tally given q := by
  have hnew : q.body ⟨p.bodies.length⟩ = .ok f := by
    rw [body, hbodies]
    exact entry_eq_ok_iff.mpr List.getElem?_concat_length
  refine ⟨h.perm_concat hbodies ?_, ?_, hdeclared ▸ h.declared, fun e he => ?_, fun e he => ?_,
    hselections, hkeys⟩
  · exact (hwrappers.append_left given).trans List.perm_middle
  · rw [hsynthesized, h.synthesized, hwrappers.length_eq, List.length_cons]
  · rcases hiface e he with hold | ⟨heq, hmethod⟩
    · obtain ⟨g, hg, hmethod⟩ := h.ifaceWrappers e hold
      exact ⟨g, entry_of_prefix (hbodies ▸ List.prefix_append _ _) hg, hmethod⟩
    · exact ⟨f, heq ▸ hnew, hmethod⟩
  · rw [hbodies, List.length_append, List.length_singleton]
    rcases hheld e he with hold | heq
    · exact Nat.lt_succ_of_lt (h.held e hold)
    · rw [heq]
      exact Nat.lt_succ_self _

/-- A new promotion wrapper is kept for its selection. -/
theorem promotion {inSet : Bool} {key : TypeId × String} (t : TypeTable) {f : Function}
    (hnone : ((selectionMemory inSet).entries p).lookup key = none)
    (hf : f.method.isSome = true) :
    Tally given ((selectionMemory inSet).keep key ⟨p.bodies.length⟩ (p.added t f)) := by
  have hnew : (⟨p.bodies.length⟩ : BodyId) ∉ given := fun hmem =>
    absurd (h.lt_of_mem (List.mem_append_left _ hmem)) (Nat.lt_irrefl _)
  have hkeys : ∀ inSet', (((selectionMemory inSet').entries
      ((selectionMemory inSet).keep key ⟨p.bodies.length⟩ (p.added t f))).map Prod.fst).Nodup := by
    rw [← selectionEntries_eq (p := p) (q := p.added t f) rfl rfl] at hnone
    exact nodup_keys_selection hnone (nodup_keys_selection_of_eq h.selectionKeys rfl rfl)
  have k := keepsSelection inSet key ⟨p.bodies.length⟩ (p.added t f)
  generalize (selectionMemory inSet).keep key ⟨p.bodies.length⟩ (p.added t f) = q at k hkeys ⊢
  have hself : q.isPromotion given ⟨p.bodies.length⟩ = true := by
    simp [isPromotion, k.bodies, added, hnew, hf]
  have hpromotions := h.promotions_perm (l := [f]) k.bodies k.entries
  rw [if_pos hself] at hpromotions
  refine h.gain k.bodies k.synthesized k.declared ?_ (fun e he => .inl ?_) (fun e he => ?_) hkeys
    (nodup_keys_wrapper_of_eq h.wrapperKeys k.ifaceWrappers k.boundWrappers)
  · rw [wrappers, k.ifaceWrappers, k.boundWrappers]
    exact ((hpromotions.map Prod.snd).append_left _).trans List.perm_middle
  · rwa [k.ifaceWrappers] at he
  · exact (List.mem_cons.mp (k.entries.mem_iff.mp he)).symm.imp_right (congrArg Prod.snd)

/-- A new wrapper is kept for its method. -/
theorem wrapper {bound : Bool} (t : TypeTable) {f : Function}
    (hnone : ((wrapperMemory bound).entries p).lookup m = none) (hf : f.method = none) :
    Tally given ((wrapperMemory bound).keep m ⟨p.bodies.length⟩ (p.added t f)) := by
  have hkeys : ∀ bound', (((wrapperMemory bound').entries
      ((wrapperMemory bound).keep m ⟨p.bodies.length⟩ (p.added t f))).map Prod.fst).Nodup := by
    rw [← wrapperEntries_eq (p := p) (q := p.added t f) rfl rfl] at hnone
    exact nodup_keys_wrapper hnone (nodup_keys_wrapper_of_eq h.wrapperKeys rfl rfl)
  have k := keepsWrapper bound m ⟨p.bodies.length⟩ (p.added t f)
  generalize (wrapperMemory bound).keep m ⟨p.bodies.length⟩ (p.added t f) = q at k hkeys ⊢
  have hpromotions : q.promotions given = p.promotions given := by
    have hold := h.filter_isPromotion [] (l := [f]) k.bodies nofun
    rw [List.append_nil] at hold
    rw [← hold, promotions, k.members, k.addressable]
    rfl
  refine h.gain k.bodies k.synthesized k.declared ?_ (fun e he => ?_) (fun e he => .inl ?_)
    (nodup_keys_selection_of_eq h.selectionKeys k.members k.addressable) hkeys
  · rw [wrappers, hpromotions]
    exact k.entries.append_right _
  · exact (k.ifaceWrappers e he).imp_right fun heq => ⟨congrArg Prod.snd heq, hf⟩
  · rwa [k.members, k.addressable] at he

/-- The wrapper of an interface method is no promotion wrapper, nor is a declared body. -/
theorem isPromotion_eq_false (hid : (m, id) ∈ p.declared ∨ (m, id) ∈ p.ifaceWrappers) :
    p.isPromotion given id = false := by
  rcases hid with hdeclared | hiface
  · simp [isPromotion, h.declared _ hdeclared]
  · obtain ⟨f, hf, hmethod⟩ := h.ifaceWrappers _ hiface
    have hget : p.bodies[id.index]? = some f := entry_eq_ok_iff.mp hf
    simp [isPromotion, hget, hmethod]

/-- A body is kept for one more selection. -/
theorem place {inSet : Bool} {key : TypeId × String}
    (hnone : ((selectionMemory inSet).entries p).lookup key = none)
    (hid : (m, id) ∈ p.declared ∨ (m, id) ∈ p.ifaceWrappers) :
    Tally given ((selectionMemory inSet).keep key id p) := by
  have hkeys : ∀ inSet', (((selectionMemory inSet').entries
      ((selectionMemory inSet).keep key id p)).map Prod.fst).Nodup :=
    nodup_keys_selection hnone h.selectionKeys
  have hlt : id.index < p.bodies.length := by
    rcases hid with hdeclared | hiface
    · exact h.lt_of_mem (List.mem_append_left _ (h.declared _ hdeclared))
    · obtain ⟨f, hf, -⟩ := h.ifaceWrappers _ hiface
      exact (List.getElem?_eq_some_iff.mp (entry_eq_ok_iff.mp hf)).1
  have k := keepsSelection inSet key id p
  generalize (selectionMemory inSet).keep key id p = q at k hkeys ⊢
  have hbodies : q.bodies = p.bodies ++ [] := k.bodies.trans (List.append_nil _).symm
  have hself : q.isPromotion given id = false := by
    rw [isPromotion, k.bodies]
    exact h.isPromotion_eq_false hid
  have hpromotions := h.promotions_perm hbodies k.entries
  rw [if_neg (by simp [hself])] at hpromotions
  have hwrappers : (q.wrappers given).Perm (p.wrappers given) := by
    rw [wrappers, k.ifaceWrappers, k.boundWrappers]
    exact (hpromotions.map Prod.snd).append_left _
  refine ⟨?_, ?_, k.declared ▸ h.declared, fun e he => ?_, fun e he => ?_, hkeys,
    nodup_keys_wrapper_of_eq h.wrapperKeys k.ifaceWrappers k.boundWrappers⟩
  · rw [k.bodies]
    exact (hwrappers.append_left given).trans h.bodies
  · rw [k.synthesized, h.synthesized, hwrappers.length_eq]
  · rw [k.ifaceWrappers] at he
    obtain ⟨f, hf, hmethod⟩ := h.ifaceWrappers e he
    exact ⟨f, (congrArg (entry · _ _) k.bodies).trans hf, hmethod⟩
  · rw [k.bodies]
    rcases List.mem_cons.mp (k.entries.mem_iff.mp he) with rfl | hold
    · exact hlt
    · exact h.held e hold

/-- Types, notes of completeness and what was built elsewhere are not in the ledger. -/
theorem aside (workspace : Workspace) (complete : List TypeId) :
    Tally given { p with toWorkspace := workspace, complete := complete } :=
  ⟨h.bodies, h.synthesized, h.declared, h.ifaceWrappers, h.held,
    nodup_keys_selection_of_eq h.selectionKeys rfl rfl,
    nodup_keys_wrapper_of_eq h.wrapperKeys rfl rfl⟩

end Tally

/-- **A gain keeps the ledger.** -/
theorem Gain.tally (hgain : Gain p q) (h : Tally given p) : Tally given q := by
  cases hgain with
  | @types t => exact h.aside { p.toWorkspace with types := t } p.complete
  | complete ty => exact h.aside p.toWorkspace (ty :: p.complete)
  | promotion hnone _ hf => exact h.promotion _ hnone hf
  | wrapper hnone _ hf => exact h.wrapper _ hnone hf
  | place hnone hid => exact h.place hnone hid

theorem tally_of_gains (hgains : ReflTransGen Gain p q) (h : Tally given p) : Tally given q := by
  induction hgains with
  | refl => exact h
  | tail _ hstep ih => exact hstep.tally ih

end Program

end MethodSSA
