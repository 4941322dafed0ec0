import MethodSSA.Proofs.Machine.Execution
import MethodSSA.Proofs.Program.Resolution

/-!
# What promotion wrappers do

A selection means a call: the embedded fields are followed from the receiver, in the memory
as it is, and the method is called on the object that is found there (`Follows`,
`Receives`). A promotion wrapper does the same by addresses, a value receiver from a copy.
Both come to the same call with the same results (`PromotionBody.apply_eq`).
-/

namespace MethodSSA

variable {α : Type}

/-! ## The meaning of a selection -/

/-- Where an object is found: it is held as a value, or it stands in the memory. -/
inductive Spot (α : Type) where
  /-- held as a value -/
  | held (d : Datum α)
  /-- in a cell, at the end of a path -/
  | stored (cell : Nat) (path : List Nat)

namespace Spot

/-- The object. -/
def content (mem : Memory α) : Spot α → Option (Datum α)
  | held d => some d
  | stored cell path => mem.read cell path

/-- The object in a field of the object; of a field that holds a pointer, what it leads
to. -/
def field (mem : Memory α) (i : Nat) : (ptr : Bool) → Spot α → Option (Spot α)
  | false, held d => (d.select [i]).map held
  | false, stored cell path => (mem.read cell (path ++ [i])).map fun _ => stored cell (path ++ [i])
  | true, held d => do
    let (cell, path) ← (← d.select [i]).address?
    return stored cell path
  | true, stored cell path => do
    let (cell, path) ← (← mem.read cell (path ++ [i])).address?
    return stored cell path

/-- The memory after the object was copied, if it was held as a value. -/
def copied (mem : Memory α) : Spot α → Memory α
  | held d => mem ++ [d]
  | stored _ _ => mem

end Spot

/-- The object of a receiver: what a pointer leads to, else the receiver itself. -/
inductive StartsAt (t : TypeTable) (recv : TypeId) : (r : Datum α) → (base : TypeId) → Spot α → Prop
  | pointer {base : TypeId} {cell : Nat} {path : List Nat} (h : t.get recv = .ok (.pointer base)) :
    StartsAt t recv (.pointer cell path) base (.stored cell path)
  | value {r : Datum α} {ty : Ty} (h : t.get recv = .ok ty) (hty : ty.pointee? = none) :
    StartsAt t recv r recv (.held r)

/-- The object at the end of a path of embedded fields. The path ends nowhere if there is
no pointer or no field where one should be. -/
inductive Follows (t : TypeTable) (mem : Memory α) (base : TypeId) (start : Spot α) :
    List Nat → TypeId → Spot α → Prop
  | nil : Follows t mem base start [] base start
  | snoc {path : List Nat} {b c : TypeId} {s s' : Spot α} {i : Nat} {ptr : Bool}
    (h : Follows t mem base start path b s) (he : t.Embeds b i c ptr)
    (hs : s.field mem i ptr = some s') : Follows t mem base start (path ++ [i]) c s'

/-- What a method gets for a receiver: the address of the object, where it stands, or the
object. -/
inductive Receives (mem : Memory α) : (byPtr : Bool) → Spot α → Datum α → Prop
  | address {cell : Nat} {path : List Nat} :
    Receives mem true (.stored cell path) (.pointer cell path)
  | content {s : Spot α} {d : Datum α} (h : s.content mem = some d) : Receives mem false s d

theorem Follows.leads {t : TypeTable} {mem : Memory α} {base b : TypeId} {start s : Spot α}
    {path : List Nat} (h : Follows t mem base start path b s) : ∃ ptr, t.Leads base path b ptr := by
  induction h with
  | nil => exact ⟨false, .nil⟩
  | snoc _ he _ ih =>
    obtain ⟨ptr, hl⟩ := ih
    exact ⟨_, .snoc hl he⟩

theorem follows_snoc {t : TypeTable} {mem : Memory α} {base c : TypeId} {start s' : Spot α}
    {path : List Nat} {i : Nat} (h : Follows t mem base start (path ++ [i]) c s') :
    ∃ b s ptr, Follows t mem base start path b s ∧ t.Embeds b i c ptr ∧
      s.field mem i ptr = some s' := by
  generalize hpath : path ++ [i] = path' at h
  cases h with
  | nil => simp at hpath
  | snoc h he hs =>
    obtain ⟨rfl, hi⟩ := List.append_inj' hpath rfl
    cases hi
    exact ⟨_, _, _, h, he, hs⟩

/-- A path that crosses a pointer ends in the memory. -/
theorem Follows.stored {t : TypeTable} {mem : Memory α} {base b : TypeId} {start s : Spot α}
    {path : List Nat} {ptr : Bool} (h : Follows t mem base start path b s)
    (hl : t.Leads base path b ptr)
    (hptr : ptr = true ∨ ∃ cell path, start = .stored cell path) :
    ∃ cell path, s = .stored cell path := by
  induction h generalizing ptr with
  | nil =>
    obtain ⟨-, rfl⟩ := TypeTable.leads_nil_iff.mp hl
    exact hptr.resolve_left Bool.false_ne_true
  | @snoc path b c s s' i p h he hs ih =>
    obtain ⟨b', q, r, hl', he', rfl⟩ := TypeTable.leads_snoc_iff.mp hl
    obtain ⟨p', hl''⟩ := h.leads
    obtain ⟨rfl, -⟩ := hl'.unique hl''
    obtain ⟨-, rfl⟩ := he.unique he'
    rcases p with _ | _
    · -- a value in a field stands where the struct stands
      obtain ⟨cell, path', rfl⟩ := ih hl' (by simpa using hptr)
      obtain ⟨_, -, hs⟩ := Option.map_eq_some_iff.mp hs
      exact ⟨_, _, hs.symm⟩
    · -- what a pointer leads to stands in the memory, wherever the pointer does
      rcases s with d | ⟨cell, path'⟩
      · obtain ⟨x, -, hs⟩ := Option.bind_eq_some_iff.mp hs
        obtain ⟨⟨c', p'⟩, -, hs⟩ := Option.bind_eq_some_iff.mp hs
        cases hs
        exact ⟨_, _, rfl⟩
      · obtain ⟨x, -, hs⟩ := Option.bind_eq_some_iff.mp hs
        obtain ⟨⟨c', p'⟩, -, hs⟩ := Option.bind_eq_some_iff.mp hs
        cases hs
        exact ⟨_, _, rfl⟩

/-! ## The meaning of the code -/

/-- An address at which the object of a spot is found. -/
inductive Shows (mem : Memory α) : Spot α → Datum α → Prop
  | held {cell : Nat} {path : List Nat} {d : Datum α} (h : mem.read cell path = some d) :
    Shows mem (.held d) (.pointer cell path)
  | stored {cell : Nat} {path : List Nat} :
    Shows mem (.stored cell path) (.pointer cell path)

/-- The address of a field that holds a value. -/
theorem Shows.value {mem mem' : Memory α} {s s' : Spot α} {d : Datum α} {i : Nat}
    (h : Shows mem' s d) (hs : s.field mem i false = some s') :
    ∃ cell path, d = .pointer cell path ∧ Shows mem' s' (.pointer cell (path ++ [i])) := by
  rcases h with ⟨hread⟩ | _
  · obtain ⟨x, hx, rfl⟩ := Option.map_eq_some_iff.mp hs
    exact ⟨_, _, rfl, .held ((Memory.read_snoc hread i).trans hx)⟩
  · obtain ⟨x, -, rfl⟩ := Option.map_eq_some_iff.mp hs
    exact ⟨_, _, rfl, .stored⟩

/-- The address of a field that holds a pointer. -/
theorem Shows.pointer {mem mem' : Memory α} {s s' : Spot α} {d : Datum α} {i : Nat}
    (hmem : ∀ {cell path d}, mem.read cell path = some d → mem'.read cell path = some d)
    (h : Shows mem' s d) (hs : s.field mem i true = some s') :
    ∃ cell path d', d = .pointer cell path ∧ mem'.read cell (path ++ [i]) = some d' ∧
      Shows mem' s' d' := by
  have haddr : ∀ {x : Datum α} {s' : Spot α}, (do
      let (cell, path) ← x.address?
      return Spot.stored cell path) = some s' → Shows mem' s' x := by
    intro x s' hs
    cases x with
    | pointer cell path =>
      cases hs
      exact .stored
    | _ => cases hs
  rcases h with ⟨hread⟩ | _
  · obtain ⟨x, hx, hs⟩ := Option.bind_eq_some_iff.mp hs
    exact ⟨_, _, x, rfl, (Memory.read_snoc hread i).trans hx, haddr hs⟩
  · obtain ⟨x, hx, hs⟩ := Option.bind_eq_some_iff.mp hs
    exact ⟨_, _, x, rfl, hmem hx, haddr hs⟩

section Code

open Machine

variable {w : World α} {f : Function} {s : Machine α} {t : TypeTable} {mem : Memory α}

/-- The receiver is taken by address. -/
theorem StartCode.exec {recv base base' : TypeId} {v start : ValueId} {isPtr : Bool}
    {code : List Instr} {r : Datum α} {spot : Spot α}
    (h : StartCode t f.values recv v base isPtr start code)
    (hstrip : t.stripPointer recv = .ok (base, isPtr)) (hr : StartsAt t recv r base' spot)
    (hv : s.vals v = some r) (hfresh : v ∉ code.filterMap Instr.result) :
    ∃ s' d, exec w f code s = some s' ∧ s'.vals start = some d ∧ s'.mem = spot.copied s.mem ∧
      Shows s'.mem spot d ∧ base' = base := by
  cases h with
  | pointer h =>
    cases hr with
    | pointer h' =>
      cases h.symm.trans h'
      exact ⟨s, _, rfl, hv, rfl, .stored, rfl⟩
    | value h' hty =>
      cases h.symm.trans h'
      cases hty
  | copied ha =>
    obtain ⟨ty, ⟨origin, hval⟩, hget⟩ := ha
    have hne : v ≠ start := fun heq => hfresh (by simp [heq, Instr.plain])
    cases hr with
    | pointer h' =>
      obtain ⟨ty, hty, ⟨-, ⟨⟩⟩ | ⟨hnone, -, -⟩⟩ := TypeTable.stripPointer_eq_ok_iff.mp hstrip
      cases h'.symm.trans hty
      cases hnone
    | value h' hty =>
      -- the copy is the newest cell
      refine ⟨_, _, exec_copy hval hne hv, vals_set_self .., rfl, ?_, rfl⟩
      exact .held (Memory.read_new s.mem r)

/-- **The code goes where the path goes.** -/
theorem PathCode.exec {base b b' : TypeId} {start v : ValueId} {path : List Nat} {code : List Instr}
    {spot spot' : Spot α} {d : Datum α} (h : PathCode t f.values base start path b v code)
    (hf : Follows t mem base spot path b' spot')
    (hmem : ∀ {cell path d}, mem.read cell path = some d → s.mem.read cell path = some d)
    (hd : s.vals start = some d) (hshows : Shows s.mem spot d) :
    b' = b ∧ ∃ s' d', exec w f code s = some s' ∧ s'.vals v = some d' ∧ s'.mem = s.mem ∧
      Shows s.mem spot' d' := by
  -- the code is built like the path, and none of it writes to the memory
  induction h generalizing b' spot' with
  | nil =>
    generalize hpath : ([] : List Nat) = path at hf
    cases hf with
    | nil => exact ⟨rfl, s, d, rfl, hd, rfl, hshows⟩
    | snoc => simp at hpath
  | @value path b c v w' i code _ he _ ih =>
    obtain ⟨b₁, spot₁, ptr, hf₁, he₁, hs₁⟩ := follows_snoc hf
    obtain ⟨rfl, s₁, d₁, hexec, hv, hsame, hshows₁⟩ := ih hf₁
    obtain ⟨rfl, rfl⟩ := he₁.unique he
    obtain ⟨cell, path', rfl, hshows'⟩ := hshows₁.value hs₁
    refine ⟨rfl, s₁.set w' (.pointer cell (path' ++ [i])), _, ?_, vals_set_self .., hsame, hshows'⟩
    rw [exec_append, hexec, Option.bind_some, exec_cons, step_fieldAddr hv, Option.bind_some,
      exec_nil]
  | @pointer path b c ptrTy v u w' i code _ he _ _ _ ih =>
    obtain ⟨b₁, spot₁, ptr, hf₁, he₁, hs₁⟩ := follows_snoc hf
    obtain ⟨rfl, s₁, d₁, hexec, hv, hsame, hshows₁⟩ := ih hf₁
    obtain ⟨rfl, rfl⟩ := he₁.unique he
    obtain ⟨cell, path', d', rfl, hread, hshows'⟩ := hshows₁.pointer hmem hs₁
    rw [← hsame] at hread
    refine ⟨rfl, (s₁.set u (.pointer cell (path' ++ [i]))).set w' d', d', ?_, vals_set_self ..,
      hsame, hshows'⟩
    rw [exec_append, hexec, Option.bind_some, exec_cons, step_fieldAddr hv, Option.bind_some,
      exec_cons, step_load (vals_set_self ..) hread, Option.bind_some, exec_nil]

/-- The receiver is taken as the method wants it. -/
theorem ReceiverCode.exec {elem : TypeId} {m : FuncId} {target arg : ValueId} {code : List Instr}
    {byPtr : Bool} {spot : Spot α} {d r : Datum α}
    (h : ReceiverCode t f.values elem m target arg code)
    (hmode : t.hasPointerReceiver m = .ok byPtr)
    (hmem : ∀ {cell path d}, mem.read cell path = some d → s.mem.read cell path = some d)
    (hd : s.vals target = some d) (hshows : Shows s.mem spot d) (hr : Receives mem byPtr spot r) :
    ∃ s', exec w f code s = some s' ∧ s'.vals arg = some r ∧ s'.mem = s.mem := by
  cases h with
  | address hptr =>
    cases hmode.symm.trans hptr
    cases hr with
    | address =>
      cases hshows
      exact ⟨s, rfl, hd, rfl⟩
  | content hval _ =>
    cases hmode.symm.trans hval
    cases hr with
    | content hcontent =>
      obtain ⟨cell, path, rfl, hread⟩ : ∃ cell path, d = .pointer cell path ∧
          s.mem.read cell path = some r := by
        rcases hshows with ⟨hread⟩ | _
        · cases hcontent
          exact ⟨_, _, rfl, hread⟩
        · exact ⟨_, _, rfl, hmem hcontent⟩
      refine ⟨s.set arg r, ?_, vals_set_self .., rfl⟩
      rw [exec_cons, step_load hd hread, Option.bind_some, exec_nil]

/-- The results in a value of several are taken apart. -/
theorem exec_extract {tuple : ValueId} {ds : List (Datum α)} :
    ∀ {vs : List ValueId} {n : Nat} {s : Machine α}, s.vals tuple = some (.tuple ds) →
      vs.Nodup → tuple ∉ vs → vs.length = (ds.drop n).length →
      ∃ s', exec w f ((vs.zipIdx n).map fun (v, i) => .plain (.extract tuple i) (some v)) s =
        some s' ∧ vs.mapM s'.vals = some (ds.drop n) ∧ s'.mem = s.mem
  | [], n, s, _, _, _, hlen => by
    refine ⟨s, rfl, ?_, rfl⟩
    rw [List.length_eq_zero_iff.mp hlen.symm]
    rfl
  | v :: vs, n, s, htuple, hnodup, hmem, hlen => by
    obtain ⟨hv, hvs⟩ := List.nodup_cons.mp hnodup
    rw [List.mem_cons, not_or] at hmem
    obtain ⟨htv, htvs⟩ := hmem
    have hn : n < ds.length := by
      simp at hlen
      omega
    obtain ⟨d, hd⟩ : ∃ d, ds[n]? = some d := ⟨ds[n], List.getElem?_eq_getElem hn⟩
    have hdrop : ds.drop n = d :: ds.drop (n + 1) := by
      obtain ⟨hlt, rfl⟩ := List.getElem?_eq_some_iff.mp hd
      exact List.drop_eq_getElem_cons hlt
    have htuple' : (s.set v d).vals tuple = some (.tuple ds) := by
      rw [vals_set_ne s htv]
      exact htuple
    rw [hdrop] at hlen ⊢
    obtain ⟨s', hexec, hvals, hsame⟩ := exec_extract htuple' hvs htvs (Nat.succ.inj hlen)
    refine ⟨s', ?_, ?_, hsame⟩
    · rw [List.zipIdx_cons, List.map_cons, exec_cons, step_extract htuple hd, Option.bind_some]
      exact hexec
    · -- what is taken later leaves the first value alone
      have hlast : s'.vals v = some d := by
        rw [exec_vals hexec, vals_set_self]
        rw [List.filterMap_map]
        simpa [Function.comp_def, Instr.plain] using hv
      rw [List.mapM_cons, hlast, hvals]
      rfl

/-- **What a call gives back is handed on**, if its results are as many as expected. -/
theorem ResultCode.exec {call : Call} {rs : List Var} {code : List Instr} {vs : List ValueId}
    (h : ResultCode t f.values call rs code vs) (hnodup : (code.filterMap Instr.result).Nodup)
    (hlen : ∀ {ds mem'}, s.call w call = some (ds, mem') → ds.length = rs.length) :
    ((exec w f code s).bind fun s' => (vs.mapM s'.vals).map fun ds => (ds, s'.mem)) =
      s.call w call := by
  rcases hcall : s.call w call with _ | ⟨ds, mem'⟩
  · -- a call that gives nothing back stops the code
    cases h <;> simp [exec_cons, step_call, hcall]
  · have hds := hlen hcall
    cases h with
    | none =>
      obtain rfl := List.length_eq_zero_iff.mp hds
      simp [exec_cons, step_call, hcall]
    | one =>
      obtain ⟨d, rfl⟩ := List.length_eq_one_iff.mp hds
      simp [exec_cons, step_call, hcall, Datum.pack]
    | @many _ tuple _ _ hmany _ _ hvs =>
      have hpack : Datum.pack ds = .tuple ds := by
        rcases ds with _ | ⟨d, _ | ⟨d', ds⟩⟩
        · rfl
        · rw [← hds] at hmany
          simp at hmany
        · rfl
      have hresults : (vs.zipIdx.map fun (v, i) =>
          Instr.plain (.extract tuple i) (some v)).filterMap Instr.result = vs := by
        rw [List.filterMap_map]
        simp [Function.comp_def, Instr.plain]
      obtain ⟨htuple, hrest⟩ : tuple ∉ vs ∧ vs.Nodup := by
        rw [List.filterMap_cons_some (f := Instr.result) (b := tuple) rfl, hresults] at hnodup
        exact List.nodup_cons.mp hnodup
      obtain ⟨s', hexec, hvals, hsame⟩ := exec_extract (w := w) (f := f) (n := 0)
        (vals_set_self { s with mem := mem' } tuple (.tuple ds)) hrest htuple
        (hvs.length_eq.trans hds.symm)
      have hstep : step w f s (.plain (.call call) (some tuple)) =
          some (set { s with mem := mem' } tuple (.tuple ds)) := by
        rw [step_call, hcall, ← hpack]
        rfl
      rw [exec_cons, hstep, Option.bind_some, hexec]
      simp [hvals, hsame]

/-- A copy changes nothing that was there before. -/
theorem Spot.read_copied (spot : Spot α) {cell : Nat} {path : List Nat} {d : Datum α}
    (h : mem.read cell path = some d) : Memory.read (spot.copied mem) cell path = some d := by
  cases spot with
  | held => exact Memory.read_append h _
  | stored => exact h

/-- **The way of a wrapper leads to the object of the selection**, in the memory or in the
copy of the receiver. -/
theorem Forwarding.exec {sel : Selection} {sig : Signature} {recv target : ValueId}
    {fs : List ValueId} {elem elem' base : TypeId} {code : List Instr} {start spot : Spot α}
    {r : Datum α} (h : Forwarding t sel sig f recv fs elem target code)
    (hstart : StartsAt t sel.recv r base start)
    (hf : Follows t s.mem base start sel.fieldPath elem' spot) (hv : s.vals recv = some r)
    (hfresh : recv ∉ code.filterMap Instr.result) :
    ∃ s' d, Machine.exec w f code s = some s' ∧ s'.vals target = some d ∧
      s'.mem = start.copied s.mem ∧ Shows s'.mem spot d := by
  obtain ⟨base', isPtr, startV, startCode, pathCode, hstrip, hstartCode, hpath, rfl⟩ := h.way
  rw [List.filterMap_append, List.mem_append, not_or] at hfresh
  obtain ⟨s₁, d₁, hexec₁, hd₁, hmem₁, hshows₁, rfl⟩ := hstartCode.exec hstrip hstart hv hfresh.1
  have hkept : ∀ {cell path d}, s.mem.read cell path = some d →
      s₁.mem.read cell path = some d := by
    intro cell path d hd
    rw [hmem₁]
    exact start.read_copied hd
  obtain ⟨rfl, s₂, d₂, hexec₂, hd₂, hmem₂, hshows₂⟩ := hpath.exec hf hkept hd₁ hshows₁
  refine ⟨s₂, d₂, ?_, hd₂, hmem₂.trans hmem₁, hmem₂ ▸ hshows₂⟩
  rw [exec_append, hexec₁, Option.bind_some, hexec₂]

theorem nodup_valuesFrom (n k : Nat) : (valuesFrom n k).Nodup := by
  refine List.Nodup.map (fun i j h => ?_) List.nodup_range'
  cases h
  rfl

/-- **A promotion wrapper of a concrete method does what the direct call does.** -/
theorem PromotionBody.apply_eq {sel : Selection} {sig : Signature} {elem elem' base : TypeId}
    {body : BodyId} {start spot : Spot α} {r r' : Datum α} {formals : List (Datum α)} {byPtr : Bool}
    (h : PromotionBody t sel sig elem f (some body)) (hstart : StartsAt t sel.recv r base start)
    (hf : Follows t mem base start sel.fieldPath elem' spot)
    (hmode : t.hasPointerReceiver sel.method = .ok byPtr) (hr : Receives mem byPtr spot r')
    (hformals : formals.length = sig.params.length)
    (hlen : ∀ {args mem ds mem'}, w.run body args mem = some (ds, mem') →
      ds.length = sig.results.length) :
    f.apply w (r :: formals) mem = w.run body (r' :: formals) (start.copied mem) := by
  cases h with
  | @direct _ recv target arg fs results code receiverCode resultCode hway harg hresults hblock =>
  have hfs : fs.length = formals.length := by
    rw [hformals, ← hway.formals.length_eq, List.length_zipIdx]
  -- parameters and results are different values
  have hnodup : (recv :: fs ++
      (code ++ receiverCode ++ resultCode).filterMap Instr.result).Nodup := by
    have hvalues := hblock.values
    rw [hway.freeVars, hway.params, List.nil_append] at hvalues
    rw [hvalues]
    exact nodup_valuesFrom _ _
  obtain ⟨hparams, hcode, hdisjoint⟩ := List.nodup_append.mp hnodup
  rw [List.filterMap_append] at hcode
  have hfresh : ∀ {v code'}, v ∈ recv :: fs →
      code' ⊆ code ++ receiverCode ++ resultCode →
      v ∉ code'.filterMap Instr.result := by
    intro v code' hv hsub hmem
    obtain ⟨i, hi, hres⟩ := List.mem_filterMap.mp hmem
    exact hdisjoint v hv v (List.mem_filterMap.mpr ⟨i, hsub hi, hres⟩) rfl
  -- the parameters are bound
  have hbound : (recv :: fs).mapM (Machine.start f (r :: formals) mem).vals =
      some (r :: formals) := by
    rw [Machine.start, hway.params]
    exact mapM_lookup_zip hparams (congrArg Nat.succ hfs)
  rw [mapM_eq_some_iff, List.forall₂_cons] at hbound
  obtain ⟨hrecv, hbound⟩ := hbound
  -- the code is run piece by piece
  obtain ⟨s₁, d, hexec₁, hd, hmem₁, hshows⟩ := hway.exec hstart hf hrecv
    (hfresh (List.mem_cons_self ..) (by simp))
  have hkept : ∀ {cell path d}, mem.read cell path = some d → s₁.mem.read cell path = some d := by
    intro cell path d hd
    rw [hmem₁]
    exact start.read_copied hd
  obtain ⟨s₂, hexec₂, harg₂, hmem₂⟩ := harg.exec hmode hkept hd hshows hr
  have hexec : exec w f (code ++ receiverCode) (.start f (r :: formals) mem) = some s₂ := by
    rw [exec_append, hexec₁, Option.bind_some, hexec₂]
  have hformals₂ : fs.mapM s₂.vals = some formals := by
    rw [mapM_eq_some_iff, List.forall₂_iff_zip]
    refine ⟨hfs, fun {v d} hvd => ?_⟩
    have hv : v ∈ recv :: fs := List.mem_cons_of_mem _ (List.of_mem_zip hvd).1
    rw [exec_vals hexec (hfresh hv (List.subset_append_left _ _))]
    exact (List.forall₂_iff_zip.mp hbound).2 hvd
  have hcall : s₂.call w ⟨.direct body, arg :: fs⟩ =
      w.run body (r' :: formals) (start.copied mem) := by
    rw [Machine.call, List.mapM_cons, harg₂, hformals₂, hmem₂, hmem₁]
    rfl
  have hargs : f.params.length = (r :: formals).length := by
    rw [hway.params, List.length_cons, hfs, List.length_cons]
  rw [hblock.apply_eq w mem hargs, exec_append, hexec, Option.bind_some, ← hcall]
  exact hresults.exec (List.nodup_append.mp hcode).2.1 fun hds => hlen (hcall.symm.trans hds)

end Code

/-! ## The meaning lasts -/

theorem StartsAt.grown {t t' : TypeTable} (g : t.Grown t') {recv base : TypeId} {r : Datum α}
    {spot : Spot α} (h : StartsAt t recv r base spot) : StartsAt t' recv r base spot := by
  cases h with
  | pointer h => exact .pointer (g.get h)
  | value h hty => exact .value (g.get h) hty

theorem Follows.grown {t t' : TypeTable} (g : t.Grown t') {mem : Memory α} {base b : TypeId}
    {start s : Spot α} {path : List Nat} (h : Follows t mem base start path b s) :
    Follows t' mem base start path b s := by
  induction h with
  | nil => exact .nil
  | snoc _ he hs ih => exact .snoc ih (g.embeds he) hs

/-- **A method with a pointer receiver acts on the object itself**, not on a copy: its
selection crosses a pointer, and what is found behind a pointer stands in the memory. -/
theorem TypeTable.Selected.exists_receives {t : TypeTable} {sel : Selection}
    {base base' elem elem' : TypeId} {isPtr ptr byPtr : Bool} {mem : Memory α} {r : Datum α}
    {start spot : Spot α} (w : t.WellFormed) (h : t.Selected sel base elem isPtr ptr)
    (habs : t.isAbstract sel.method = .ok false)
    (hmode : t.hasPointerReceiver sel.method = .ok byPtr)
    (hstart : StartsAt t sel.recv r base' start)
    (hf : Follows t mem base' start sel.fieldPath elem' spot)
    (hcontent : byPtr = false → ∃ d, spot.content mem = some d) :
    ∃ r', Receives mem byPtr spot r' := by
  rcases byPtr with _ | _
  · obtain ⟨d, hd⟩ := hcontent rfl
    exact ⟨d, .content hd⟩
  · -- the method could not be called if no pointer was crossed
    have hcrossed : (isPtr || ptr) = true := by
      rcases h.callable with ⟨hl, -⟩ | ⟨-, hind, htrue | hval⟩
      · cases habs.symm.trans (w.isAbstract_of_lists hl)
      · exact hind.symm.trans htrue
      · cases hmode.symm.trans hval
    obtain ⟨ptr', hl⟩ := hf.leads
    obtain ⟨cell, path, rfl⟩ : ∃ cell path, spot = .stored cell path := by
      refine hf.stored hl ?_
      cases hstart with
      | pointer => exact .inr ⟨_, _, rfl⟩
      | value hget hty =>
        obtain ⟨ty, hget', ⟨rfl, -⟩ | ⟨-, rfl, rfl⟩⟩ := TypeTable.stripPointer_eq_ok_iff.mp h.start
        · cases hget.symm.trans hget'
          cases hty
        · left
          rw [(hl.unique h.leads).2]
          exact hcrossed
    exact ⟨_, .address⟩

namespace Program

/-- The program of the nodes after the request for one wrapper. -/
def nodeAfter : Program :=
  match (bodyOf nodePut).run.run nodeProgram with
  | .ok (_, q) => q
  | .error _ => nodeProgram

/-- The wrapper. -/
def nodeWrapper : Function := (nodeAfter.bodies[1]?).getD (.empty "" ⟨0⟩)

/-- A node in memory, the last of its kind. -/
def nodeMemory : Memory Nat := [.struct [.nil, .struct []]]

/-- A world in which bodies note their arguments in the memory. -/
def nodeWorld : World Nat :=
  ⟨fun _ => .nil, fun _ args mem => some ([], mem ++ args), fun _ _ _ _ => none⟩

/-- **A promotion wrapper is the direct call it stands for.** When a request for a member of
a method set makes a wrapper of a concrete method, then for every memory and every receiver
from which the selected fields and embedded pointers can be followed, running the wrapper is
running the declared body once, with the receiver as the method wants it: the address of
the selected object, in the memory as it was, or what that object holds. The formal
parameters and the results are handed on in order. The body runs in the same memory, with
one new cell more that holds a copy of the receiver if that is no pointer. -/
theorem promotion_apply_eq (p : Program) (w : p.types.WellFormed) {recv : TypeId}
    {sels : List Selection} {sel : Selection} (hsels : p.types.methodSet recv = .ok sels)
    (hsel : sel ∈ sels) {res : Except BuildError BodyId} {q : Program} {f : Function}
    (hrun : (bodyOf sel).run.run p = .ok (res, q)) (hadded : q.bodies = p.bodies ++ [f])
    (hmade : f.method = some sel) (habs : p.types.isAbstract sel.method = .ok false) :
    ∃ body decl sig byPtr, res = .ok ⟨p.bodies.length⟩ ∧
      p.declared.lookup sel.method = some body ∧ p.types.func sel.method = .ok decl ∧
      p.types.signatureOf decl.sig = .ok sig ∧ p.types.hasPointerReceiver sel.method = .ok byPtr ∧
      ∀ {α : Type} (world : World α) {mem : Memory α} {r : Datum α} {formals : List (Datum α)}
        {base elem : TypeId} {start spot : Spot α},
        (∀ {args mem ds mem'}, world.run body args mem = some (ds, mem') →
          ds.length = sig.results.length) →
        formals.length = sig.params.length → StartsAt p.types recv r base start →
        Follows p.types mem base start sel.fieldPath elem spot →
        (byPtr = false → ∃ d, spot.content mem = some d) →
        ∃ r', Receives mem byPtr spot r' ∧
          f.apply world (r :: formals) mem =
            world.run body (r' :: formals) (start.copied mem) := by
  obtain ⟨rfl, base, elem, isPtr, ptr, h⟩ := w.selected_of_mem hsels hsel
  obtain ⟨rfl, sig, callee, hwrapper⟩ := wrapperOf_of_added w h hrun hadded hmade
  obtain ⟨decl, own, t', text, hdecl, hsig, -⟩ := hwrapper.header
  obtain ⟨body, rfl, hbody⟩ : ∃ body, callee = some body ∧
      p.declared.lookup sel.method = some body := by
    rcases hwrapper.behind with habs' | ⟨-, hbody⟩
    · cases habs.symm.trans habs'
    · exact ⟨_, rfl, hbody⟩
  obtain ⟨-, byPtr, -, -, hmode⟩ := exists_receiver w h.toRoute
  refine ⟨body, decl, sig, byPtr, rfl, hbody, hdecl, hsig, hmode, ?_⟩
  intro α world mem r formals base' elem' start spot hlen hformals hstart hf hcontent
  obtain ⟨r', hr⟩ := h.exists_receives w habs hmode hstart hf hcontent
  refine ⟨r', hr, hwrapper.body.apply_eq (hstart.grown hwrapper.grown) (hf.grown hwrapper.grown)
    (hwrapper.grown.hasPointerReceiver hmode) hr hformals hlen⟩

/-- A method with a pointer receiver is promoted to a pointer to a node, and gets the
address of the leaf in the node. -/
theorem promotion_apply_eq_node :
    nodeProgram.types.WellFormed ∧
    nodeProgram.types.methodSet ⟨31⟩ = .ok [nodeLen, nodePut] ∧
    nodePut ∈ [nodeLen, nodePut] ∧
    (bodyOf nodePut).run.run nodeProgram = .ok (.ok ⟨1⟩, nodeAfter) ∧
    nodeAfter.bodies = nodeProgram.bodies ++ [nodeWrapper] ∧
    nodeWrapper.method = some nodePut ∧
    nodeProgram.types.isAbstract nodePut.method = .ok false ∧
    nodeWrapper.apply nodeWorld [.pointer 0 [], .atom 7] nodeMemory =
      nodeWorld.run ⟨0⟩ [.pointer 0 [1], .atom 7] nodeMemory := by
  have hsels : nodeProgram.types.methodSet ⟨31⟩ = .ok [nodeLen, nodePut] := by cbv
  have hrun : (bodyOf nodePut).run.run nodeProgram = .ok (.ok ⟨1⟩, nodeAfter) := by cbv
  have hadded : nodeAfter.bodies = nodeProgram.bodies ++ [nodeWrapper] := by cbv
  have hmade : nodeWrapper.method = some nodePut := by cbv
  have hembeds : nodeProgram.types.Embeds ⟨30⟩ 1 ⟨25⟩ false := .intro rfl rfl rfl rfl
  refine ⟨TypeTable.nodeTable_wellFormed, hsels, by decide, hrun, hadded, hmade, rfl, ?_⟩
  obtain ⟨body, decl, sig, byPtr, -, hbody, hdecl, hsig, hmode, happly⟩ :=
    promotion_apply_eq nodeProgram TypeTable.nodeTable_wellFormed hsels (by decide) hrun hadded
      hmade rfl
  cases hbody
  cases hdecl
  cases hsig
  cases hmode
  have hformals : [(.atom 7 : Datum Nat)].length = 1 := rfl
  have hstart : StartsAt nodeProgram.types ⟨31⟩ (.pointer 0 [] : Datum Nat) ⟨30⟩ (.stored 0 []) :=
    .pointer rfl
  have hfollows : Follows nodeProgram.types nodeMemory ⟨30⟩ (.stored 0 []) nodePut.fieldPath ⟨25⟩
      (.stored 0 [1]) := .snoc .nil hembeds rfl
  obtain ⟨r', hr, heq⟩ := happly nodeWorld (fun h => by cases h; rfl) hformals hstart hfollows
    Bool.noConfusion
  cases hr
  exact heq

end Program

end MethodSSA
