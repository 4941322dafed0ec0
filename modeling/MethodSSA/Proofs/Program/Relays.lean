import MethodSSA.Proofs.Program.History
import MethodSSA.Proofs.Program.Requests
import MethodSSA.Proofs.Program.Wrapping

/-!
# Wrappers in every state

A request that is no fault has added wrappers that hand everything on and nothing else
(`Synthesizes`), whether it gives an answer or not. So in every state of a program the bodies are
those that were handed in and such wrappers (`Staffed`), in whatever order requests and
declarations came (`Chronicle.wrappers_relay`).
-/

namespace MethodSSA

namespace Program

open Builder Wrapper

variable {p q r : Program} {w : Wrapper} {declared : List (FuncId × BodyId)} {b : Builder}
  {sig : Signature} {sel : Selection} {m : FuncId} {decl : FuncDecl}

/-! ## Building and keeping them -/

/-- A function is what its steps have made of the draft. -/
theorem buildFunction_relays {name : String} {own : TypeId} {steps : TryBuild Unit}
    (h : Settles (fun _ => True) steps.run (p.draft name own) (Relaying w declared))
    {f : Function} (hrun : (buildFunction name own steps).run.run p = .ok (.ok f, q)) :
    w.Relays declared q.types f := by
  rw [buildFunction_run] at hrun
  obtain ⟨⟨r, b'⟩, hsteps, hrest⟩ := bind_eq_ok_iff.mp hrun
  have hend := h.elim hsteps
  cases r with
  | error e => cases hrest
  | ok u =>
    obtain ⟨r, hfinish, hrest⟩ := bind_eq_ok_iff.mp hrest
    cases hrest
    rw [Builder.func_of_finish hfinish]
    exact hend rfl

/-- A new draft is a line, whatever it says of itself. -/
theorem planned_of_empty (hcurrent : b.current = some Function.entryBlock)
    (hblocks : b.func.blocks = [openEntry 0]) (hrecover : b.func.recover = none)
    (hblank : b.Blank) (hfound : b.types.func w.method = .ok decl)
    (hmethod : b.types.signatureOf decl.sig = .ok sig)
    (hown : b.types.get b.func.signature = .ok (.signature { sig with recv := w.receiver? })) :
    Planned w decl sig b where
  line := by
    refine ⟨hcurrent, ?_, ?_, hrecover, ⟨?_, ?_⟩⟩
    · rw [hblank.instrs]
      exact hblocks
    · simp [hblank.instrs]
    · simp [Function.value, entry, hblank.values]
    · simp [hblank.instrs]
  found := hfound
  method := hmethod
  own := hown

/-- What is known of a program stays. -/
structure Accrues (p q : Program) : Prop where
  types : p.types.types <+: q.types.types
  declared : p.declared ⊆ q.declared
  bodies : p.bodies <+: q.bodies
  ifaces : p.ifaceWrappers ⊆ q.ifaceWrappers
  bounds : p.boundWrappers ⊆ q.boundWrappers

theorem Accrues.trans (h : Accrues p q) (h' : Accrues q r) : Accrues p r where
  types := h.types.trans h'.types
  declared := List.Subset.trans h.declared h'.declared
  bodies := h.bodies.trans h'.bodies
  ifaces := List.Subset.trans h.ifaces h'.ifaces
  bounds := List.Subset.trans h.bounds h'.bounds

/-- Where a program keeps a wrapper. -/
def Names (p : Program) (id : BodyId) (f : Function) : Wrapper → Prop
  | .promotion sel => f.method = some sel
  | .interface _ m => (m, id) ∈ p.ifaceWrappers
  | .bound m => (m, id) ∈ p.boundWrappers

theorem Names.mono (h : Accrues p q) {id : BodyId} {f : Function} (hw : p.Names id f w) :
    q.Names id f w := by
  cases w with
  | promotion => exact hw
  | interface => exact h.ifaces hw
  | bound => exact h.bounds hw

/-- A body is a wrapper that hands everything on. -/
def Relays (p : Program) (w : Wrapper) (id : BodyId) : Prop :=
  ∃ f, p.body id = .ok f ∧ p.Names id f w ∧ w.Relays p.declared p.types f

theorem Relays.mono (h : Accrues p q) {id : BodyId} (hw : p.Relays w id) : q.Relays w id := by
  obtain ⟨f, hf, hnames, hrelays⟩ := hw
  exact ⟨f, entry_of_prefix h.bodies hf, hnames.mono h, hrelays.later h.types h.declared⟩

/-- The bodies that are added are wrappers, and so are those that are remembered as such. -/
structure Synthesizes (p q : Program) : Prop extends Accrues p q where
  added : ∀ id f, q.body id = .ok f → p.body id = .ok f ∨ ∃ w, q.Relays w id
  iface : ∀ m id, (m, id) ∈ q.ifaceWrappers → (m, id) ∈ p.ifaceWrappers ∨
    ∃ recv, q.Relays (.interface recv m) id
  bound : ∀ m id, (m, id) ∈ q.boundWrappers → (m, id) ∈ p.boundWrappers ∨ q.Relays (.bound m) id

namespace Synthesizes

theorem trans (h : Synthesizes p q) (h' : Synthesizes q r) : Synthesizes p r where
  toAccrues := h.toAccrues.trans h'.toAccrues
  added id f hf := by
    rcases h'.added id f hf with hf | hnew
    · rcases h.added id f hf with hold | ⟨w, hw⟩
      · exact .inl hold
      · exact .inr ⟨w, hw.mono h'.toAccrues⟩
    · exact .inr hnew
  iface m id hid := by
    rcases h'.iface m id hid with hid | hnew
    · rcases h.iface m id hid with hold | ⟨recv, hw⟩
      · exact .inl hold
      · exact .inr ⟨recv, hw.mono h'.toAccrues⟩
    · exact .inr hnew
  bound m id hid := by
    rcases h'.bound m id hid with hid | hnew
    · rcases h.bound m id hid with hold | hw
      · exact .inl hold
      · exact .inr (hw.mono h'.toAccrues)
    · exact .inr hnew

/-- No body is added and no wrapper. -/
theorem of_entries (htypes : p.types.types <+: q.types.types) (hdeclared : q.declared = p.declared)
    (hbodies : q.bodies = p.bodies) (hifaces : q.ifaceWrappers = p.ifaceWrappers)
    (hbounds : q.boundWrappers = p.boundWrappers) : Synthesizes p q where
  types := htypes
  declared := by simp [hdeclared]
  bodies := by simp [hbodies]
  ifaces := by simp [hifaces]
  bounds := by simp [hbounds]
  added id f hf := by
    rw [body, hbodies] at hf
    exact .inl hf
  iface m id hid := .inl (hifaces ▸ hid)
  bound m id hid := .inl (hbounds ▸ hid)

theorem refl (p : Program) : Synthesizes p p := of_entries List.prefix_rfl rfl rfl rfl rfl

/-- A row of such requests is one of them. -/
theorem of_row (h : Relation.ReflTransGen Synthesizes p q) : Synthesizes p q :=
  single_of_row refl trans h

end Synthesizes

/-- One wrapper is added, with its place. -/
theorem synthesizes_of_added {f : Function} (h : Accrues p q) (hbodies : q.bodies = p.bodies ++ [f])
    (hnames : q.Names ⟨p.bodies.length⟩ f w) (hrelays : w.Relays q.declared q.types f)
    (hiface : ∀ m id, (m, id) ∈ q.ifaceWrappers → (m, id) ∈ p.ifaceWrappers ∨
      id = ⟨p.bodies.length⟩ ∧ ∃ recv, w = .interface recv m)
    (hbound : ∀ m id, (m, id) ∈ q.boundWrappers → (m, id) ∈ p.boundWrappers ∨
      id = ⟨p.bodies.length⟩ ∧ w = .bound m) :
    Synthesizes p q ∧ q.Relays w ⟨p.bodies.length⟩ := by
  have hbody : q.body ⟨p.bodies.length⟩ = .ok f := by
    rw [body, hbodies]
    exact entry_eq_ok_iff.mpr List.getElem?_concat_length
  have hnew : q.Relays w ⟨p.bodies.length⟩ := ⟨f, hbody, hnames, hrelays⟩
  refine ⟨⟨h, fun id g hg => ?_, fun m id hid => ?_, fun m id hid => ?_⟩, hnew⟩
  · have hg := entry_eq_ok_iff.mp hg
    rw [hbodies] at hg
    rcases TypeTable.getElem?_concat_cases hg with hold | ⟨hid, -⟩
    · exact .inl (entry_eq_ok_iff.mpr hold)
    · obtain rfl : id = ⟨p.bodies.length⟩ := congrArg BodyId.mk hid
      exact .inr ⟨w, hnew⟩
  · rcases hiface m id hid with hold | ⟨rfl, recv, rfl⟩
    · exact .inl hold
    · exact .inr ⟨recv, hnew⟩
  · rcases hbound m id hid with hold | ⟨rfl, rfl⟩
    · exact .inl hold
    · exact .inr hnew

/-- **What comes of a request for a promotion wrapper**: it is added, or it fails. -/
theorem relays_of_promotionWrapper {res : Except BuildError BodyId}
    (hrun : (promotionWrapper sel).run.run p = .ok (res, q)) :
    Synthesizes p q ∧ ∀ id, res = .ok id → q.Relays (.promotion sel) id := by
  obtain ⟨decl, hdecl, hrun⟩ := exists_of_ask hrun
  obtain ⟨sig, hsig, hrun⟩ := exists_of_ask hrun
  have hrun := of_intern_bind hrun
  obtain ⟨text, -, hrun⟩ := exists_of_ask hrun
  rw [get_run] at hrun
  have hintern := TypeTable.Entered.intern p.types
    (.signature { sig with recv := some ⟨"recv", sel.recv⟩ })
  have hget :=
    TypeTable.get_intern p.types (.signature { sig with recv := some ⟨"recv", sel.recv⟩ })
  generalize p.types.intern (.signature { sig with recv := some ⟨"recv", sel.recv⟩ }) = entered
    at hrun hintern hget
  obtain ⟨own, t⟩ := entered
  have ht := hintern.extended
  rcases cases_of_bind hrun with ⟨e, hbuild, rfl⟩ | ⟨f, p₁, hbuild, hkeep⟩
  · obtain ⟨t', ht', rfl, -⟩ := of_buildFunction
      (fun hsteps => ⟨_, rfl, rfl, promotionSteps_quiet hsteps⟩) hbuild
    exact ⟨.of_entries (hintern.trans ht').types rfl rfl rfl rfl, nofun⟩
  · obtain ⟨t', ht', rfl, hmethod⟩ := of_buildFunction
      (fun hsteps => ⟨_, rfl, rfl, promotionSteps_quiet hsteps⟩) hbuild
    have hplanned : Planned (.promotion sel) decl sig
        (describe (draft { p with types := t } decl.name own) sel decl text) :=
      planned_of_empty rfl rfl rfl ⟨rfl, rfl, rfl, rfl⟩ (ht.func hdecl) (ht.signatureOf hsig) hget
    have hrelays := buildFunction_relays (promotionSteps_relays hplanned ⟨rfl, rfl, rfl, rfl⟩
      fun body hbody => mem_of_lookup hbody) hbuild
    cases hkeep
    have hadded := synthesizes_of_added (p := p) (q := p.added t' f) (w := .promotion sel)
      ⟨(hintern.trans ht').types, fun _ => id, List.prefix_append _ _, fun _ => id, fun _ => id⟩ rfl
      (hmethod f rfl) hrelays (fun _ _ => .inl) fun _ _ => .inl
    refine ⟨hadded.1, ?_⟩
    rintro _ ⟨⟩
    exact hadded.2

/-- A wrapper that is remembered for its method is built, unless that fails. -/
theorem synthesizes_of_build (bound : Bool)
    (hw : bound = false ∧ (∃ recv, w = .interface recv m) ∨ bound = true ∧ w = .bound m)
    {t : TypeTable} (ht : p.types.Entered t) {name : String} {own : TypeId} {steps : TryBuild Unit}
    (hquiet : ∀ {b r b'}, steps.run.run b = .ok (r, b') → Quiet b b')
    (hsteps : Settles (fun _ => True) steps.run (draft { p with types := t } name own)
      (Relaying w p.declared)) {res : Except BuildError BodyId}
    (hrun : (do
      let f ← buildFunction name own steps
      let id ← keepWrapper f
      modify ((wrapperMemory bound).keep m id)
      return id : Request BodyId).run.run { p with types := t } = .ok (res, q)) :
    Synthesizes p q := by
  rcases cases_of_bind hrun with ⟨e, hbuild, rfl⟩ | ⟨f, p₁, hbuild, hkeep⟩
  · obtain ⟨t', ht', rfl, -⟩ := of_buildFunction (fun h => ⟨_, rfl, rfl, hquiet h⟩) hbuild
    exact .of_entries (ht.trans ht').types rfl rfl rfl rfl
  · have hrelays := buildFunction_relays hsteps hbuild
    obtain ⟨t', ht', rfl, -⟩ := of_buildFunction (fun h => ⟨_, rfl, rfl, hquiet h⟩) hbuild
    cases hkeep
    have htypes := (ht.trans ht').types
    have hnew : ∀ {l : List (FuncId × BodyId)} {m' id},
        (m', id) ∈ (m, (⟨p.bodies.length⟩ : BodyId)) :: l →
          (m', id) ∈ l ∨ id = ⟨p.bodies.length⟩ ∧ m = m' := by
      intro l m' id hid
      rcases List.mem_cons.mp hid with heq | hold
      · cases heq
        exact .inr ⟨rfl, rfl⟩
      · exact .inl hold
    rcases hw with ⟨rfl, recv, rfl⟩ | ⟨rfl, rfl⟩
    · refine (synthesizes_of_added (w := .interface recv m)
        (q := { p.added t' f with ifaceWrappers := (m, ⟨p.bodies.length⟩) :: p.ifaceWrappers })
        ⟨htypes, fun _ => id, List.prefix_append _ _, List.subset_cons_self .., fun _ => id⟩ rfl
        (List.mem_cons_self ..) hrelays (fun m' id hid => ?_) fun _ _ => .inl).1
      refine (hnew hid).imp_right ?_
      rintro ⟨rfl, rfl⟩
      exact ⟨rfl, recv, rfl⟩
    · refine (synthesizes_of_added (w := .bound m)
        (q := { p.added t' f with boundWrappers := (m, ⟨p.bodies.length⟩) :: p.boundWrappers })
        ⟨htypes, fun _ => id, List.prefix_append _ _, fun _ => id, List.subset_cons_self ..⟩ rfl
        (List.mem_cons_self ..) hrelays (fun _ _ => .inl) fun m' id hid => ?_).1
      refine (hnew hid).imp_right ?_
      rintro ⟨rfl, rfl⟩
      exact ⟨rfl, rfl⟩

theorem synthesizes_of_interfaceWrapper {recvTy : TypeId} {res : Except BuildError BodyId}
    (hrun : (interfaceWrapper recvTy m).run.run p = .ok (res, q)) : Synthesizes p q := by
  rw [interfaceWrapper, get_run] at hrun
  rcases hlookup : p.ifaceWrappers.lookup m with _ | id
  · rw [hlookup] at hrun
    obtain ⟨decl, hdecl, hrun⟩ := exists_of_ask hrun
    obtain ⟨text, -, hrun⟩ := exists_of_ask hrun
    obtain ⟨sig, hsig, hrun⟩ := exists_of_ask hrun
    have hintern := TypeTable.Entered.intern p.types
      (.signature { sig with recv := some ⟨"recv", recvTy⟩ })
    have hplanned : Planned (.interface recvTy m) decl sig (introduce (draft
        { p with types := (p.types.intern _).2 } decl.name (p.types.intern _).1) m decl text) :=
      planned_of_empty rfl rfl rfl ⟨rfl, rfl, rfl, rfl⟩ (hintern.extended.func hdecl)
        (hintern.extended.signatureOf hsig) (TypeTable.get_intern p.types _)
    exact synthesizes_of_build false (.inl ⟨rfl, recvTy, rfl⟩) hintern interfaceSteps_quiet
      (interfaceSteps_relays hplanned ⟨rfl, rfl, rfl, rfl⟩) (of_intern_bind hrun)
  · rw [hlookup] at hrun
    cases hrun
    exact .refl p

theorem synthesizes_of_boundWrapper {res : Except BuildError BodyId}
    (hrun : (boundWrapper m).run.run p = .ok (res, q)) : Synthesizes p q := by
  rw [boundWrapper, get_run] at hrun
  rcases hlookup : p.boundWrappers.lookup m with _ | id
  · rw [hlookup] at hrun
    obtain ⟨decl, hdecl, hrun⟩ := exists_of_ask hrun
    obtain ⟨sig, hsig, hrun⟩ := exists_of_ask hrun
    obtain ⟨text, -, hrun⟩ := exists_of_ask hrun
    rcases hrecv : sig.recv with _ | v
    · -- a plain function
      rw [hrecv] at hrun
      cases hrun
      exact .refl p
    · rw [hrecv] at hrun
      obtain ⟨name, -, hrun⟩ := exists_of_ask (of_intern_bind hrun)
      rw [get_run] at hrun
      have hintern := TypeTable.Entered.intern p.types (.signature { sig with recv := none })
      have hplanned : Planned (.bound m) decl sig (describeBound (draft
          { p with types := (p.types.intern _).2 } ("bound$" ++ name) (p.types.intern _).1)
          decl text) :=
        planned_of_empty rfl rfl rfl ⟨rfl, rfl, rfl, rfl⟩ (hintern.extended.func hdecl)
          (hintern.extended.signatureOf hsig) (TypeTable.get_intern p.types _)
      exact synthesizes_of_build true (.inr ⟨rfl, rfl⟩) hintern boundSteps_quiet
        (boundSteps_relays hrecv hplanned ⟨rfl, rfl, rfl, rfl⟩ fun body => mem_of_lookup) hrun
  · rw [hlookup] at hrun
    cases hrun
    exact .refl p

/-- **Whatever is asked** adds wrappers that hand everything on. -/
theorem synthesizes_composes : Composes Synthesizes where
  promotion _ := .single fun _ _ _ hrun => (relays_of_promotionWrapper hrun).1
  interface _ _ := .single fun _ _ _ hrun => synthesizes_of_interfaceWrapper hrun
  bound _ := .single fun _ _ _ hrun => synthesizes_of_boundWrapper hrun
  keep inSet _ _ _ := by cases inSet <;> exact .of_entries List.prefix_rfl rfl rfl rfl rfl
  complete _ _ := .of_entries List.prefix_rfl rfl rfl rfl rfl

/-! ## Whole histories -/

/-- All bodies that were not handed in are wrappers, and wrappers are remembered as what they
are. -/
structure Staffed (given : List BodyId) (p : Program) : Prop where
  bodies : ∀ id f, p.body id = .ok f → id ∈ given ∨ ∃ w, p.Relays w id
  ifaces : ∀ m id, (m, id) ∈ p.ifaceWrappers → ∃ recv, p.Relays (.interface recv m) id
  bounds : ∀ m id, (m, id) ∈ p.boundWrappers → p.Relays (.bound m) id

variable {given : List BodyId} {a : Action}

theorem Staffed.synthesized (h : Staffed given p) (hs : Synthesizes p q) : Staffed given q where
  bodies id f hf := by
    rcases hs.added id f hf with hold | hnew
    · refine (h.bodies id f hold).imp_right ?_
      rintro ⟨w, hw⟩
      exact ⟨w, hw.mono hs.toAccrues⟩
    · exact .inr hnew
  ifaces m id hid := by
    rcases hs.iface m id hid with hold | hnew
    · obtain ⟨recv, hw⟩ := h.ifaces m id hold
      exact ⟨recv, hw.mono hs.toAccrues⟩
    · exact hnew
  bounds m id hid := by
    rcases hs.bound m id hid with hold | hnew
    · exact (h.bounds m id hold).mono hs.toAccrues
    · exact hnew

/-- A body is handed in. -/
theorem Staffed.handed (h : Staffed given p) (f : Function) {declared : List (FuncId × BodyId)}
    (hdeclared : p.declared ⊆ declared) :
    Staffed (given ++ [⟨p.bodies.length⟩])
      { p with bodies := p.bodies ++ [f], declared := declared } := by
  have haccrues : Accrues p { p with bodies := p.bodies ++ [f], declared := declared } :=
    ⟨List.prefix_rfl, hdeclared, List.prefix_append _ _, fun _ => id, fun _ => id⟩
  refine ⟨fun id g hg => ?_, fun m id hid => ?_, fun m id hid => ?_⟩
  · rcases TypeTable.getElem?_concat_cases (entry_eq_ok_iff.mp hg) with hold | ⟨hid, -⟩
    · rcases h.bodies id g (entry_eq_ok_iff.mpr hold) with hgiven | ⟨w, hw⟩
      · exact .inl (List.mem_append_left _ hgiven)
      · exact .inr ⟨w, hw.mono haccrues⟩
    · obtain rfl : id = ⟨p.bodies.length⟩ := congrArg BodyId.mk hid
      exact .inl (List.mem_append_right _ (List.mem_singleton_self _))
  · obtain ⟨recv, hw⟩ := h.ifaces m id hid
    exact ⟨recv, hw.mono haccrues⟩
  · exact (h.bounds m id hid).mono haccrues

/-- **One action** hands in a body, or adds wrappers that hand everything on. -/
theorem Staffed.perform (h : Staffed given p)
    (ha : ∀ workspace, a = .work workspace → p.types.types <+: workspace.types.types)
    (hrun : p.perform a = .ok q) : Staffed (given ++ a.given p) q := by
  have hrequest (hreq : a.isRequest = true) : Staffed (given ++ []) q := by
    rw [List.append_nil]
    exact h.synthesized (.of_row (synthesizes_composes.perform hreq hrun))
  cases a with
  | work workspace =>
    cases hrun
    change Staffed (given ++ []) _
    rw [List.append_nil]
    exact h.synthesized (.of_entries (ha workspace rfl) rfl rfl rfl rfl)
  | add f =>
    cases hrun
    exact h.handed f fun _ => id
  | declare m f =>
    cases hrun
    exact h.handed f (List.subset_cons_self ..)
  | bodyOf | methodSet | interfaceWrapper | boundWrapper => exact hrequest rfl

end Program

end MethodSSA
