import MethodSSA.Proofs.Draft.TailCall
import MethodSSA.Proofs.Machine.Memory

/-!
# Running a function of one block

The meaning of the instructions that wrappers consist of, over a memory. What a declared
body or an interface method does when it is called is not looked into: a `World` says for
each of them what it gives back and what it leaves in the memory, if it ends.
-/

namespace MethodSSA

variable {α : Type}

/-- What happens outside of the function that is run. -/
structure World (α : Type) where
  /-- what a new variable holds, by the type of its address -/
  zero : TypeId → Datum α
  /-- what a body gives back and leaves in the memory -/
  run : BodyId → List (Datum α) → Memory α → Option (List (Datum α) × Memory α)
  /-- what a method gives back and leaves in the memory when it is invoked on an interface -/
  invoke : FuncId → Datum α → List (Datum α) → Memory α → Option (List (Datum α) × Memory α)

/-- The values of a function so far, and the memory. -/
structure Machine (α : Type) where
  vals : ValueId → Option (Datum α)
  mem : Memory α

/-- The results of a call as one value: a single result is the value itself. -/
def Datum.pack : List (Datum α) → Datum α
  | [d] => d
  | ds => .tuple ds

/-- Where a pointer leads to. -/
def Datum.address? : Datum α → Option (Nat × List Nat)
  | .pointer cell path => some (cell, path)
  | _ => none

/-- The results in a value of several. -/
def Datum.results? : Datum α → Option (List (Datum α))
  | .tuple ds => some ds
  | _ => none

namespace Machine

/-- Defines a value. -/
def set (s : Machine α) (v : ValueId) (d : Datum α) : Machine α :=
  { s with vals := fun u => if u = v then some d else s.vals u }

@[simp] theorem vals_set_self (s : Machine α) (v : ValueId) (d : Datum α) :
    (s.set v d).vals v = some d := if_pos rfl

theorem vals_set_ne (s : Machine α) {u v : ValueId} (h : u ≠ v) (d : Datum α) :
    (s.set v d).vals u = s.vals u := if_neg h

@[simp] theorem mem_set (s : Machine α) (v : ValueId) (d : Datum α) : (s.set v d).mem = s.mem := rfl

/-- What a call gives back and leaves in the memory. -/
def call (w : World α) (s : Machine α) (c : Call) : Option (List (Datum α) × Memory α) := do
  let args ← c.args.mapM s.vals
  match c.callee with
  | .direct body => w.run body args s.mem
  | .invoke recv m => w.invoke m (← s.vals recv) args s.mem

/-- The value that an instruction makes, if it makes one, and what it leaves in the memory.
A variable gets a new cell, reading and writing go through a pointer, the address of a
field is one step further into the cell. Instructions that wrappers do not use are left
out. -/
def act (w : World α) (f : Function) (s : Machine α) (i : Instr) :
    Option (Option (Datum α) × Memory α) :=
  match i.op with
  | .alloc _ => do
    let val ← f.values[(← i.result).index]?
    return (some (.pointer s.mem.length []), s.mem ++ [w.zero val.ty])
  | .load a => do
    let (cell, path) ← (← s.vals a).address?
    return (some (← s.mem.read cell path), s.mem)
  | .store a x => do
    let (cell, path) ← (← s.vals a).address?
    return (none, ← s.mem.write cell path (← s.vals x))
  | .fieldAddr a n => do
    let (cell, path) ← (← s.vals a).address?
    return (some (.pointer cell (path ++ [n])), s.mem)
  | .call c => do
    let (ds, mem) ← s.call w c
    return (some (.pack ds), mem)
  | .extract tuple n => do
    let ds ← (← s.vals tuple).results?
    return (some (← ds[n]?), s.mem)
  | _ => none

/-- What an instruction does: its result is the value that it makes. -/
def step (w : World α) (f : Function) (s : Machine α) (i : Instr) : Option (Machine α) := do
  let (made, mem) ← s.act w f i
  return match i.result, made with
    | some v, some d => set { s with mem := mem } v d
    | _, _ => { s with mem := mem }

/-- What a row of instructions does. -/
def exec (w : World α) (f : Function) (code : List Instr) (s : Machine α) : Option (Machine α) :=
  code.foldlM (step w f) s

/-- A machine before the first instruction. -/
def start (f : Function) (args : List (Datum α)) (mem : Memory α) : Machine α :=
  ⟨fun v => (f.params.zip args).lookup v, mem⟩

end Machine

/-- What a function of one block gives back and leaves in the memory. -/
def Function.apply (w : World α) (f : Function) (args : List (Datum α)) (mem : Memory α) :
    Option (List (Datum α) × Memory α) := do
  if f.params.length ≠ args.length then none
  let block ← f.blocks.head?
  let code ← block.instrs.mapM fun i => f.instrs[i.index]?
  let s ← Machine.exec w f code (.start f args mem)
  match block.term with
  | .ret vs => return (← vs.mapM s.vals, s.mem)
  | _ => none

namespace Machine

variable {w : World α} {f : Function} {s s' : Machine α}

@[simp] theorem exec_nil : exec w f [] s = some s := rfl

theorem exec_cons {i : Instr} {code : List Instr} :
    exec w f (i :: code) s = (step w f s i).bind (exec w f code) := List.foldlM_cons

theorem exec_append {code code' : List Instr} :
    exec w f (code ++ code') s = (exec w f code s).bind (exec w f code') := List.foldlM_append

/-- An instruction changes no value but its result. -/
theorem step_vals {i : Instr} (h : step w f s i = some s') {u : ValueId} (hu : i.result ≠ some u) :
    s'.vals u = s.vals u := by
  obtain ⟨⟨made, mem⟩, -, hs'⟩ := Option.bind_eq_some_iff.mp h
  cases hs'
  rcases hres : i.result with _ | v
  · rfl
  · rcases made with _ | d
    · rfl
    · refine vals_set_ne _ (fun huv => hu ?_) d
      rw [hres, huv]

/-- A row of instructions changes no value but their results. -/
theorem exec_vals {u : ValueId} : ∀ {code : List Instr} {s : Machine α}, exec w f code s = some s' →
    u ∉ code.filterMap Instr.result → s'.vals u = s.vals u
  | [], s, h, _ => by
    cases h
    rfl
  | i :: code, s, h, hu => by
    rw [exec_cons] at h
    obtain ⟨s₁, hstep, hrest⟩ := Option.bind_eq_some_iff.mp h
    have hhead : i.result ≠ some u := fun hi => hu (List.mem_filterMap.mpr
      ⟨i, List.mem_cons_self .., hi⟩)
    have htail : u ∉ code.filterMap Instr.result := fun hi => by
      obtain ⟨j, hj, hres⟩ := List.mem_filterMap.mp hi
      exact hu (List.mem_filterMap.mpr ⟨j, List.mem_cons_of_mem _ hj, hres⟩)
    rw [exec_vals hrest htail, step_vals hstep hhead]

/-! ## One instruction -/

section Steps

variable {a v : ValueId} {cell : Nat} {path : List Nat} {d : Datum α}

theorem step_load (ha : s.vals a = some (.pointer cell path)) (hd : s.mem.read cell path = some d) :
    step w f s (.plain (.load a) (some v)) = some (s.set v d) := by
  simp [step, act, Instr.plain, ha, hd, Datum.address?]

theorem step_fieldAddr (ha : s.vals a = some (.pointer cell path)) (n : Nat) :
    step w f s (.plain (.fieldAddr a n) (some v)) =
      some (s.set v (.pointer cell (path ++ [n]))) := by
  simp [step, act, Instr.plain, ha, Datum.address?]

theorem step_extract {ds : List (Datum α)} {n : Nat} (ha : s.vals a = some (.tuple ds))
    (hd : ds[n]? = some d) : step w f s (.plain (.extract a n) (some v)) = some (s.set v d) := by
  simp [step, act, Instr.plain, ha, hd, Datum.results?]

theorem step_call (c : Call) (result : Option ValueId) :
    step w f s (.plain (.call c) result) = (s.call w c).map fun (ds, mem) => match result with
      | none => { s with mem := mem }
      | some v => set { s with mem := mem } v (.pack ds) := by
  rcases hc : s.call w c with _ | ⟨ds, mem⟩
  · simp [step, act, Instr.plain, hc]
  · rcases result with _ | v <;> simp [step, act, Instr.plain, hc]

/-- A value is copied to a new variable. -/
theorem exec_copy {x : ValueId} {val : Value} (ha : f.values[a.index]? = some val) (hxa : x ≠ a)
    (hx : s.vals x = some d) :
    exec w f [.plain (.alloc false) (some a), .plain (.store a x) none] s =
      some (set { s with mem := s.mem ++ [d] } a (.pointer s.mem.length [])) := by
  have halloc : step w f s (.plain (.alloc false) (some a)) =
      some (set { s with mem := s.mem ++ [w.zero val.ty] } a (.pointer s.mem.length [])) := by
    simp [step, act, Instr.plain, ha]
  rw [exec_cons, halloc, Option.bind_some, exec_cons]
  simp [step, act, Instr.plain, hxa, hx, Datum.address?, Memory.write_new, set]

end Steps

/-! ## From the first instruction to the return -/

/-- A list of answers that are all found. -/
theorem mapM_eq_some_iff {β γ : Type} {g : β → Option γ} : ∀ {l : List β} {r : List γ},
    l.mapM g = some r ↔ List.Forall₂ (fun a b => g a = some b) l r
  | [], r => by
    cases r <;> simp
  | a :: l, r => by
    rw [List.mapM_cons, List.forall₂_cons_left_iff]
    simp only [← mapM_eq_some_iff]
    constructor
    · intro h
      obtain ⟨b, hb, h⟩ := Option.bind_eq_some_iff.mp h
      obtain ⟨bs, hbs, h⟩ := Option.bind_eq_some_iff.mp h
      cases h
      exact ⟨b, bs, hb, hbs, rfl⟩
    · rintro ⟨b, bs, hb, hbs, rfl⟩
      rw [hb, hbs]
      rfl

/-- The parameters are the arguments in order. -/
theorem mapM_lookup_zip {vs : List ValueId} {ds : List (Datum α)} (hnodup : vs.Nodup)
    (hlen : vs.length = ds.length) : vs.mapM (fun v => (vs.zip ds).lookup v) = some ds := by
  rw [mapM_eq_some_iff]
  induction vs generalizing ds with
  | nil =>
    cases ds with
    | nil => exact .nil
    | cons => cases hlen
  | cons v vs ih =>
    cases ds with
    | nil => cases hlen
    | cons d ds =>
      obtain ⟨hv, hvs⟩ := List.nodup_cons.mp hnodup
      refine .cons List.lookup_cons_self ?_
      refine (List.forall₂_iff_zip.mpr ⟨Nat.succ.inj hlen, fun {u d'} hmem => ?_⟩)
      have hne : (u == v) = false := beq_false_of_ne fun h => hv (h ▸ (List.of_mem_zip hmem).1)
      rw [List.zip_cons_cons, List.lookup_cons, hne]
      exact (List.forall₂_iff_zip.mp (ih hvs (Nat.succ.inj hlen))).2 hmem

end Machine

/-- **A function of one block** runs its code and gives back what it returns. -/
theorem OneBlock.apply_eq {f : Function} {code : List Instr} {results : List ValueId}
    (h : OneBlock f code results) (w : World α) {args : List (Datum α)} (mem : Memory α)
    (hargs : f.params.length = args.length) :
    f.apply w args mem = (Machine.exec w f code (.start f args mem)).bind fun s =>
      (results.mapM s.vals).map fun ds => (ds, s.mem) := by
  have hcode : ((List.range code.length).map InstrId.mk).mapM (fun i => f.instrs[i.index]?) =
      some code := by
    rw [h.instrs, Machine.mapM_eq_some_iff, List.forall₂_iff_get]
    simp
  rw [Function.apply, if_neg (not_not_intro hargs), h.blocks]
  change Option.bind (((List.range code.length).map InstrId.mk).mapM
    fun i => f.instrs[i.index]?) _ = _
  rw [hcode, Option.bind_some]
  refine congrArg (Option.bind _) (funext fun s => ?_)
  exact Option.map_eq_bind.symm

end MethodSSA
