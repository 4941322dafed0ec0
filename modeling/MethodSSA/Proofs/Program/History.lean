import MethodSSA.Proofs.Program.Ledger

/-!
# Histories of a program

A history is any row of actions, with any selections, methods and types, also after requests
that failed; only what is declared of the types stays as it is (`History`). In all of them the
ledger of wrappers is balanced, and a request that was answered once is answered in the same
way for ever, at no cost (`History.accounts`).
-/

namespace MethodSSA

/-- The body that an action hands in. -/
def Action.given (a : Action) (p : Program) : List BodyId :=
  match a with
  | .add _ | .declare _ _ => [⟨p.bodies.length⟩]
  | _ => []

namespace Program

open Relation

variable {p q r : Program} {sel : Selection} {m : FuncId} {recv : TypeId} {id : BodyId}
  {given more : List BodyId} {a : Action}

/-- The states that actions lead to from `p`, and the bodies that were handed in on the way. -/
inductive History (p : Program) : List BodyId → Program → Prop
  | start : History p [] p
  /-- one more action, which leaves the declarations of types alone -/
  | step {given : List BodyId} {q r : Program} {a : Action} (h : History p given q)
    (ha : ∀ workspace, a = .work workspace → q.types.Extended workspace.types)
    (hrun : q.perform a = .ok r) : History p (given ++ a.given q) r

/-! ## One action -/

/-- What an action does: it goes on with other work, hands in a body, or is a request. -/
theorem perform_cases (hrun : p.perform a = .ok q) :
    (∃ workspace, a = .work workspace ∧ q = { p with toWorkspace := workspace }) ∨
    (a.given p = [⟨p.bodies.length⟩] ∧ ∃ f declared,
      (∀ e ∈ declared, e ∈ p.declared ∨ e.2 = ⟨p.bodies.length⟩) ∧
        q = { p with bodies := p.bodies ++ [f], declared := declared }) ∨
    (a.given p = [] ∧ ReflTransGen Gain p q) := by
  cases a with
  | work workspace =>
    cases hrun
    exact .inl ⟨_, rfl, rfl⟩
  | add f =>
    cases hrun
    exact .inr (.inl ⟨rfl, f, p.declared, fun _ => .inl, rfl⟩)
  | declare m f =>
    cases hrun
    refine .inr (.inl ⟨rfl, f, (m, ⟨p.bodies.length⟩) :: p.declared, fun e he => ?_, rfl⟩)
    exact (List.mem_cons.mp he).symm.imp_right (congrArg Prod.snd)
  | bodyOf sel =>
    obtain ⟨res, hrun⟩ := leaves_eq_ok_iff.mp hrun
    obtain ⟨decl, inSet, -, -, h⟩ := recalls_of_bodyOf hrun
    exact .inr (.inr ⟨rfl, h.gains⟩)
  | methodSet ty =>
    obtain ⟨res, hrun⟩ := leaves_eq_ok_iff.mp hrun
    exact .inr (.inr ⟨rfl, (collects_of_methodSet hrun).gains⟩)
  | interfaceWrapper recv m =>
    obtain ⟨res, hrun⟩ := leaves_eq_ok_iff.mp hrun
    exact .inr (.inr ⟨rfl, (recalls_of_interfaceWrapper hrun).gains_wrapper⟩)
  | boundWrapper m =>
    obtain ⟨res, hrun⟩ := leaves_eq_ok_iff.mp hrun
    exact .inr (.inr ⟨rfl, (recalls_of_boundWrapper hrun).gains_wrapper⟩)

theorem perform_retains (ha : ∀ workspace, a = .work workspace → p.types.Extended workspace.types)
    (hrun : p.perform a = .ok q) : Retains p q := by
  rcases perform_cases hrun with ⟨workspace, rfl, rfl⟩ | ⟨-, f, declared, -, rfl⟩ | ⟨-, hgains⟩
  · exact .of_entries (ha workspace rfl) List.prefix_rfl rfl rfl rfl rfl
  · exact .of_entries (.refl _) (List.prefix_append _ _) rfl rfl rfl rfl
  · exact retains_of_gains hgains

/-- A body that is handed in is entered in the ledger. -/
theorem Tally.handed (h : Tally given p) (f : Function) {declared : List (FuncId × BodyId)}
    (hdeclared : ∀ e ∈ declared, e ∈ p.declared ∨ e.2 = ⟨p.bodies.length⟩) :
    Tally (given ++ [⟨p.bodies.length⟩])
      { p with bodies := p.bodies ++ [f], declared := declared } := by
  have hwrappers : wrappers { p with bodies := p.bodies ++ [f], declared := declared }
      (given ++ [⟨p.bodies.length⟩]) = p.wrappers given := by
    have hpromotions := h.filter_isPromotion [⟨p.bodies.length⟩] (l := [f])
      (q := { p with bodies := p.bodies ++ [f], declared := declared }) rfl
      fun x hx => by rw [List.mem_singleton.mp hx]
    rw [wrappers, wrappers, ← hpromotions, promotions]
  refine ⟨h.perm_concat rfl ?_, ?_, fun e he => ?_, fun e he => ?_, fun e he => ?_, ?_, ?_⟩
  · rw [hwrappers, List.append_assoc]
    exact List.perm_middle
  · rw [hwrappers]
    exact h.synthesized
  · rcases hdeclared e he with hold | heq
    · exact List.mem_append_left _ (h.declared e hold)
    · exact List.mem_append_right _ (List.mem_singleton.mpr heq)
  · obtain ⟨g, hg, hmethod⟩ := h.ifaceWrappers e he
    exact ⟨g, entry_of_prefix (List.prefix_append _ _) hg, hmethod⟩
  · rw [List.length_append]
    exact Nat.lt_add_right _ (h.held e he)
  · exact nodup_keys_selection_of_eq h.selectionKeys rfl rfl
  · exact nodup_keys_wrapper_of_eq h.wrapperKeys rfl rfl

theorem perform_tally (h : Tally given p) (hrun : p.perform a = .ok q) :
    Tally (given ++ a.given p) q := by
  rcases perform_cases hrun with ⟨workspace, rfl, rfl⟩ | ⟨hgiven, f, declared, hdeclared, rfl⟩ |
    ⟨hgiven, hgains⟩
  · change Tally (given ++ []) _
    rw [List.append_nil]
    exact h.aside workspace p.complete
  · rw [hgiven]
    exact h.handed f hdeclared
  · rw [hgiven, List.append_nil]
    exact tally_of_gains hgains h

/-! ## Answers are kept -/

/-- What was answered is in the memory. -/
theorem Recalls.lookup_selection {inSet : Bool} {key : TypeId × String}
    {make : Program → Except BuildError BodyId → Program → Prop}
    (h : Recalls (selectionMemory inSet) key make p (.ok id) q) :
    ((selectionMemory inSet).entries q).lookup key = some id := by
  cases h with
  | known hid => exact hid
  | kept => cases inSet <;> exact List.lookup_cons_self

theorem Recalls.lookup_wrapper {bound : Bool}
    {make : Program → Except BuildError BodyId → Program → Prop}
    (h : Recalls (wrapperMemory bound) m make p (.ok id) q) :
    ((wrapperMemory bound).entries q).lookup m = some id := by
  cases h with
  | known hid => exact hid
  | kept => cases bound <;> exact List.lookup_cons_self

/-- A selection that was answered is answered from the memory. -/
theorem bodyOf_again (hrun : (bodyOf sel).run.run p = .ok (.ok id, q)) (hr : Retains q r) :
    (bodyOf sel).run.run r = .ok (.ok id, r) := by
  obtain ⟨decl, inSet, hdecl, hinSet, h⟩ := recalls_of_bodyOf hrun
  have htypes := ((retains_of_gains h.gains).trans hr).types
  have hid := hr.selections inSet h.lookup_selection
  have hsettles : Settles (fun _ => False) (bodyOf sel).run r fun res r' =>
      res = .ok id ∧ r' = r := by
    refine .stepGiven (ask_run (htypes.func hdecl)) (.stepGiven
      (ask_run (htypes.inMethodSet hinSet)) ?_)
    cases inSet with
    | false =>
      change r.addressable.lookup _ = some id at hid
      refine .stepGiven rfl ?_
      rw [hid]
      exact .inl (.of_run rfl ⟨rfl, rfl⟩)
    | true =>
      change r.members.lookup _ = some id at hid
      refine .stepGiven rfl ?_
      rw [hid]
      exact .inl (.of_run rfl ⟨rfl, rfl⟩)
  obtain ⟨_, _, hagain, rfl, rfl⟩ := hsettles.yields fun _ h => h
  exact hagain

/-- An interface method is answered from the memory, whichever interface asks. -/
theorem interfaceWrapper_again (hrun : (interfaceWrapper recv m).run.run p = .ok (.ok id, q))
    (hr : Retains q r) (recv' : TypeId) :
    (interfaceWrapper recv' m).run.run r = .ok (.ok id, r) := by
  have hid : r.ifaceWrappers.lookup m = some id :=
    hr.wrappers false (recalls_of_interfaceWrapper hrun).lookup_wrapper
  rw [interfaceWrapper, get_run, hid]
  rfl

theorem boundWrapper_again (hrun : (boundWrapper m).run.run p = .ok (.ok id, q))
    (hr : Retains q r) : (boundWrapper m).run.run r = .ok (.ok id, r) := by
  have hid : r.boundWrappers.lookup m = some id :=
    hr.wrappers true (recalls_of_boundWrapper hrun).lookup_wrapper
  rw [boundWrapper, get_run, hid]
  rfl

/-- What is held is a body. -/
theorem Tally.exists_body_selection (h : Tally given p) {inSet : Bool} {key : TypeId × String}
    (hid : ((selectionMemory inSet).entries p).lookup key = some id) : ∃ f, p.body id = .ok f := by
  have hmem : (key, id) ∈ p.members ++ p.addressable := by
    cases inSet with
    | false => exact List.mem_append_right _ (mem_of_lookup hid)
    | true => exact List.mem_append_left _ (mem_of_lookup hid)
  exact ⟨_, entry_eq_ok_iff.mpr (List.getElem?_eq_getElem (h.held _ hmem))⟩

theorem Tally.exists_body_wrapper (h : Tally given p) {bound : Bool}
    (hid : ((wrapperMemory bound).entries p).lookup m = some id) : ∃ f, p.body id = .ok f := by
  have hmem : id ∈ p.wrappers given := by
    refine List.mem_append_left _ (List.mem_append.mpr ?_)
    cases bound with
    | false => exact .inl (List.mem_map.mpr ⟨_, mem_of_lookup hid, rfl⟩)
    | true => exact .inr (List.mem_map.mpr ⟨_, mem_of_lookup hid, rfl⟩)
  have hlt := h.lt_of_mem (List.mem_append_right _ hmem)
  exact ⟨_, entry_eq_ok_iff.mpr (List.getElem?_eq_getElem hlt)⟩

/-! ## The whole history -/

theorem History.retains (h : History p given q) : Retains p q := by
  induction h with
  | start => exact .refl p
  | step _ ha hrun ih => exact ih.trans (perform_retains ha hrun)

theorem History.tally {mode : Mode} {t : TypeTable} (h : History (fresh mode t) given p) :
    Tally given p := by
  induction h with
  | start => exact tally_fresh mode t
  | step _ _ hrun ih => exact perform_tally ih hrun

/-- From `q` on, the answer to a request is `id`, in every later state and without a change of
the state; and the body behind it stays as it is. -/
def Stays (q : Program) (x : Request BodyId) (id : BodyId) : Prop :=
  ∃ f, q.body id = .ok f ∧ ∀ {given r}, History q given r →
    x.run.run r = .ok (.ok id, r) ∧ r.body id = .ok f

/-- **No wrapper is made twice, and no answer changes.** In every state that a history reaches,
the bodies are those that were handed in and those that were made; those that were made are the
wrappers that are kept, each at one key of one memory; no two of them are the same, and none was
handed in, as every declared body was. A request that was answered gets the same answer for ever,
with the same body behind it, and nothing more is made, whatever is declared later. -/
theorem History.accounts {mode : Mode} {t : TypeTable} (h : History (fresh mode t) given p) :
    p.bodies.length = given.length + p.synthesized ∧
    p.synthesized =
      p.ifaceWrappers.length + p.boundWrappers.length + (p.promotions given).length ∧
    (∀ inSet, (((selectionMemory inSet).entries p).map Prod.fst).Nodup) ∧
    (∀ bound, (((wrapperMemory bound).entries p).map Prod.fst).Nodup) ∧
    (p.wrappers given).Nodup ∧
    (∀ id ∈ p.wrappers given, id ∉ given ∧ ∀ m, (m, id) ∉ p.declared) ∧
    (∀ {sel id q}, (bodyOf sel).run.run p = .ok (.ok id, q) → q.Stays (bodyOf sel) id) ∧
    (∀ {recv m id q}, (interfaceWrapper recv m).run.run p = .ok (.ok id, q) →
      ∀ recv', q.Stays (interfaceWrapper recv' m) id) ∧
    (∀ {m id q}, (boundWrapper m).run.run p = .ok (.ok id, q) → q.Stays (boundWrapper m) id) := by
  have c := h.tally
  have hnodup := List.nodup_append.mp c.nodup
  have hapart : ∀ id ∈ p.wrappers given, id ∉ given := fun id hid hgiven =>
    hnodup.2.2 id hgiven id hid rfl
  refine ⟨c.length_eq, ?_, c.selectionKeys, c.wrapperKeys, hnodup.2.1, fun id hid => ?_, ?_, ?_, ?_⟩
  · rw [c.synthesized, wrappers, List.length_append, List.length_append]
    simp only [List.length_map]
  · exact ⟨hapart id hid, fun m hm => hapart id hid (c.declared _ hm)⟩
  · intro sel id q hrun
    obtain ⟨decl, inSet, -, -, hrecalls⟩ := recalls_of_bodyOf hrun
    obtain ⟨f, hf⟩ :=
      (tally_of_gains hrecalls.gains c).exists_body_selection hrecalls.lookup_selection
    exact ⟨f, hf, fun hr => ⟨bodyOf_again hrun hr.retains, hr.retains.body hf⟩⟩
  · intro recv m id q hrun recv'
    have hrecalls := recalls_of_interfaceWrapper hrun
    obtain ⟨f, hf⟩ :=
      (tally_of_gains hrecalls.gains_wrapper c).exists_body_wrapper hrecalls.lookup_wrapper
    exact ⟨f, hf, fun hr => ⟨interfaceWrapper_again hrun hr.retains recv', hr.retains.body hf⟩⟩
  · intro m id q hrun
    have hrecalls := recalls_of_boundWrapper hrun
    obtain ⟨f, hf⟩ :=
      (tally_of_gains hrecalls.gains_wrapper c).exists_body_wrapper hrecalls.lookup_wrapper
    exact ⟨f, hf, fun hr => ⟨boundWrapper_again hrun hr.retains, hr.retains.body hf⟩⟩

theorem History.next (h : History p given q) (a : Action)
    (ha : ∀ workspace, a = .work workspace → q.types.Extended workspace.types)
    (hok : (q.perform a).toBool = true) : History p (given ++ a.given q) (q.next a) := by
  refine h.step ha ?_
  rw [Program.next]
  rcases hrun : q.perform a with e | r
  · rw [hrun] at hok
    cases hok
  · rfl

/-- The run with a request for a method set that failed. -/
theorem history_nodeRun : History (fresh .debug TypeTable.nodeTable) [⟨0⟩, ⟨2⟩] nodeRun := by
  have hdeclared : History (fresh .debug TypeTable.nodeTable) [⟨0⟩]
      ((fresh .debug TypeTable.nodeTable).next (.declare ⟨0⟩ (.empty "Len" ⟨28⟩))) :=
    History.start.next (.declare ⟨0⟩ (.empty "Len" ⟨28⟩)) nofun rfl
  have hpartial : History (fresh .debug TypeTable.nodeTable) [⟨0⟩] nodePartial :=
    hdeclared.next (.methodSet ⟨31⟩) nofun (by decide +kernel)
  have hput : History (fresh .debug TypeTable.nodeTable) [⟨0⟩, ⟨2⟩]
      (nodePartial.next (.declare ⟨1⟩ (.empty "Put" ⟨29⟩))) := by
    have hlength : nodePartial.bodies.length = 2 := by decide +kernel
    have h := hpartial.next (.declare ⟨1⟩ (.empty "Put" ⟨29⟩)) nofun rfl
    rwa [Action.given, hlength] at h
  exact hput.next (.bodyOf nodeVariable) nofun (by decide +kernel)

/-- In that run two bodies were handed in and two wrappers were made, and the last answer is not
made again. -/
theorem History.accounts_node :
    History (fresh .debug TypeTable.nodeTable) [⟨0⟩, ⟨2⟩] nodeRun ∧
    (nodeRun.bodies.length, nodeRun.synthesized) = (4, 2) ∧
    nodeRun.wrappers [⟨0⟩, ⟨2⟩] = [⟨1⟩, ⟨3⟩] ∧
    (bodyOf nodeVariable).run.run nodeRun = .ok (.ok ⟨3⟩, nodeRun) ∧
    nodeRun.Stays (bodyOf nodeVariable) ⟨3⟩ ∧
    nodeRun.bodies.length = ([⟨0⟩, ⟨2⟩] : List BodyId).length + nodeRun.synthesized := by
  have h := history_nodeRun
  have hrun : (bodyOf nodeVariable).run.run nodeRun = .ok (.ok ⟨3⟩, nodeRun) := by cbv
  have haccounts := h.accounts
  refine ⟨h, by decide +kernel, by decide +kernel, hrun, ?_, haccounts.1⟩
  obtain ⟨-, -, -, -, -, -, hstays, -⟩ := haccounts
  exact hstays hrun

end Program

end MethodSSA
