import MethodSSA.Proofs.Draft.Edges

/-!
# Single assignment and placement

A value is noted in one place only: among the parameters, among the captured variables or as
the result of an instruction, and there at the place that its origin names; a constant is
noted nowhere. That is said three times by the same relation, `Numbers`, between a list and
what the origins say of it; both grow together by one fresh value.

An instruction is listed by one block only, the one that it was emitted into, and in the
order of emission (`Placed`). The local variables are results of allocations that are not on
the heap.
-/

namespace MethodSSA

open Relation

/-- What stands in a list with one entry more. -/
theorem getElem?_concat_eq_some_iff {α : Type} {l : List α} {a b : α} {i : Nat} :
    (l ++ [a])[i]? = some b ↔ l[i]? = some b ∨ i = l.length ∧ a = b := by
  constructor
  · intro h
    exact (TypeTable.getElem?_concat_cases h).imp_right fun ⟨hi, hb⟩ => ⟨hi, hb.symm⟩
  · rintro (h | ⟨rfl, rfl⟩)
    · rw [List.getElem?_append_left (List.getElem?_eq_some_iff.mp h).1, h]
    · exact List.getElem?_concat_length

/-! ## Lists that are numbered by what they list -/

/-- The list has a value at a place exactly where `place` says so. -/
def Numbers (l : List (Option ValueId)) (place : ValueId → Option Nat) : Prop :=
  ∀ i v, l[i]? = some (some v) ↔ place v = some i

namespace Numbers

variable {l : List (Option ValueId)} {place place' : ValueId → Option Nat} {v : ValueId}

/-- A fresh value that is not listed. -/
theorem skip (h : Numbers l place) (hfresh : place v = none)
    (hplace : ∀ w, place' w = if w = v then none else place w) : Numbers l place' := by
  intro i w
  rw [h i w, hplace]
  by_cases hw : w = v
  · simp [hw, hfresh]
  · rw [if_neg hw]

/-- A fresh value that is listed at the end. -/
theorem concat (h : Numbers l place) (hfresh : place v = none)
    (hplace : ∀ w, place' w = if w = v then some l.length else place w) :
    Numbers (l ++ [some v]) place' := by
  intro i w
  rw [getElem?_concat_eq_some_iff, h i w, hplace]
  by_cases hw : w = v
  · simp [hw, hfresh, eq_comm]
  · simp [hw, Ne.symm hw]

/-- An entry without a value at the end. -/
theorem concat_none (h : Numbers l place) : Numbers (l ++ [none]) place := by
  intro i w
  simp [getElem?_concat_eq_some_iff, h i w]

end Numbers

/-! ## Lists of instructions -/

/-- Every instruction is in one list, that of its owner, and every list is in the order of
emission. -/
structure Placed (lists : List (List InstrId)) (owners : List BlockId) : Prop where
  owned : ∀ block ∈ owners, block.index < lists.length
  listed : ∀ {k : Nat} {l : List InstrId}, lists[k]? = some l →
    ∀ i : InstrId, i ∈ l ↔ owners[i.index]? = some ⟨k⟩
  increasing : ∀ l ∈ lists, l.Pairwise (·.index < ·.index)

namespace Placed

variable {lists : List (List InstrId)} {owners : List BlockId}

theorem addBlock (h : Placed lists owners) : Placed (lists ++ [[]]) owners := by
  refine ⟨fun block hblock => ?_, fun {k l} hl i => ?_, fun l hl => ?_⟩
  · rw [List.length_append, List.length_singleton]
    exact Nat.lt_succ_of_lt (h.owned block hblock)
  · rcases TypeTable.getElem?_concat_cases hl with hl | ⟨rfl, rfl⟩
    · exact h.listed hl i
    · -- no instruction belongs to a block that was not there
      refine iff_of_false List.not_mem_nil fun hi => ?_
      exact Nat.lt_irrefl _ (h.owned _ (List.mem_of_getElem? hi))
  · rcases List.mem_append.mp hl with hl | hl
    · exact h.increasing l hl
    · rw [List.mem_singleton.mp hl]
      exact .nil

theorem lt_length (h : Placed lists owners) {l : List InstrId} (hl : l ∈ lists) {i : InstrId}
    (hi : i ∈ l) : i.index < owners.length := by
  obtain ⟨k, hk⟩ := List.getElem?_of_mem hl
  exact (List.getElem?_eq_some_iff.mp ((h.listed hk i).mp hi)).1

/-- The next instruction is listed last by its block. -/
theorem addInstr (h : Placed lists owners) {block : BlockId} (hblock : block.index < lists.length) :
    Placed (lists.modify block.index (· ++ [⟨owners.length⟩])) (owners ++ [block]) := by
  refine ⟨fun b hb => ?_, fun {k l} hl i => ?_, fun l hl => ?_⟩
  · rw [List.length_modify]
    rcases List.mem_append.mp hb with hb | hb
    · exact h.owned b hb
    · rwa [List.mem_singleton.mp hb]
  · rw [List.getElem?_modify] at hl
    obtain ⟨old, hold, rfl⟩ := Option.map_eq_some_iff.mp hl
    rw [getElem?_concat_eq_some_iff, ← h.listed hold i]
    obtain ⟨n⟩ := i
    obtain ⟨m⟩ := block
    by_cases hk : m = k <;> simp [hk]
  · obtain ⟨k, hk⟩ := List.getElem?_of_mem hl
    rw [List.getElem?_modify] at hk
    obtain ⟨old, hold, rfl⟩ := Option.map_eq_some_iff.mp hk
    have hincreasing := h.increasing old (List.mem_of_getElem? hold)
    split
    · rw [List.pairwise_append]
      refine ⟨hincreasing, List.pairwise_singleton _ _, fun i hi j hj => ?_⟩
      rw [List.mem_singleton.mp hj]
      exact h.lt_length (List.mem_of_getElem? hold) hi
    · exact hincreasing

end Placed

/-! ## Functions -/

namespace Origin

/-- The place of a parameter. -/
def param? : Origin → Option Nat
  | param place _ => some place
  | _ => none

/-- The place of a captured variable. -/
def free? : Origin → Option Nat
  | free place _ => some place
  | _ => none

/-- The place of the instruction that a value is the result of. -/
def result? : Origin → Option Nat
  | result instr => some instr.index
  | _ => none

end Origin

namespace Function

variable {f f' : Function}

/-- The origin of a value, if there is such a value. -/
def origin? (f : Function) (v : ValueId) : Option Origin := f.values[v.index]?.map (·.origin)

/-- Every value is noted where its origin says, and only there; every instruction is listed by
the block that it was emitted into; and the local variables are known by their addresses. -/
structure Assigned (f : Function) : Prop where
  params : Numbers (f.params.map some) fun v => (f.origin? v).bind Origin.param?
  freeVars : Numbers (f.freeVars.map some) fun v => (f.origin? v).bind Origin.free?
  results : Numbers (f.instrs.map Instr.result) fun v => (f.origin? v).bind Origin.result?
  placed : Placed (f.blocks.map Block.instrs) (f.instrs.map Instr.block)
  locals : ∀ v ∈ f.locals, ∃ i ∈ f.instrs, i.op = .alloc false ∧ i.result = some v
  nodup : f.locals.Nodup
  named : ∀ v ∈ f.namedResults, v ∈ f.locals

theorem origin?_fresh (f : Function) : f.origin? ⟨f.values.length⟩ = none := by
  simp [origin?]

/-- What is said of the places of values when there is one value more. -/
theorem origin?_bind_of_values {x : Value} (h : f'.values = f.values ++ [x])
    (kind : Origin → Option Nat) (v : ValueId) :
    (f'.origin? v).bind kind =
      if v = ⟨f.values.length⟩ then kind x.origin else (f.origin? v).bind kind := by
  obtain ⟨i⟩ := v
  rw [origin?, h]
  by_cases hi : i = f.values.length
  · simp [hi]
  · rw [if_neg (by simpa using hi), origin?]
    rcases Nat.lt_or_gt_of_ne hi with hi | hi
    · rw [List.getElem?_append_left hi]
    · rw [List.getElem?_eq_none (by simp; omega), List.getElem?_eq_none (by simp; omega)]

section Growing

variable {x : Value} {kind : Origin → Option Nat} {l : List (Option ValueId)}

/-- A new value of another kind is not listed. -/
theorem numbers_skip (hn : Numbers l fun v => (f.origin? v).bind kind)
    (h : f'.values = f.values ++ [x]) (hkind : kind x.origin = none) :
    Numbers l fun v => (f'.origin? v).bind kind := by
  refine hn.skip (v := ⟨f.values.length⟩) (by rw [origin?_fresh, Option.bind_none]) fun w => ?_
  rw [origin?_bind_of_values h, hkind]

/-- A new value of this kind is listed at the end. -/
theorem numbers_concat (hn : Numbers l fun v => (f.origin? v).bind kind)
    (h : f'.values = f.values ++ [x]) (hkind : kind x.origin = some l.length) :
    Numbers (l ++ [some ⟨f.values.length⟩]) fun v => (f'.origin? v).bind kind := by
  refine hn.concat (by rw [origin?_fresh, Option.bind_none]) fun w => ?_
  rw [origin?_bind_of_values h, hkind]

end Growing

theorem map_instrs_modify (blocks : List Block) (k : Nat) (id : InstrId) :
    (blocks.modify k fun b => { b with instrs := b.instrs ++ [id] }).map Block.instrs =
      (blocks.map Block.instrs).modify k (· ++ [id]) := by
  apply List.ext_getElem?
  intro j
  simp only [List.getElem?_map, List.getElem?_modify]
  rcases blocks[j]? with _ | b
  · rfl
  · by_cases h : k = j <;> simp [h]

theorem map_instrs_closeBlock (f : Function) (block : BlockId) (term : Terminator) :
    (f.closeBlock block term).blocks.map Block.instrs = f.blocks.map Block.instrs := by
  apply List.ext_getElem?
  intro j
  rw [List.getElem?_map, getElem?_closeBlock, Option.map_map, List.getElem?_map]
  rfl

namespace Assigned

theorem start (name : String) (signature : TypeId) (label : Option String) :
    Assigned ((empty name signature).addBlock label).2 := by
  refine ⟨?_, ?_, ?_, ?_, nofun, .nil, nofun⟩
  · intro i v
    simp [addBlock, empty, origin?]
  · intro i v
    simp [addBlock, empty, origin?]
  · intro i v
    simp [addBlock, empty, origin?]
  · have hempty : Placed [] [] := ⟨nofun, nofun, nofun⟩
    exact hempty.addBlock

variable (a : f.Assigned)
include a

/-- The address of a local variable is a value. -/
theorem lt_of_local {v : ValueId} (hv : v ∈ f.locals) : v.index < f.values.length := by
  obtain ⟨instr, hinstr, -, hresult⟩ := a.locals v hv
  obtain ⟨i, hi⟩ := List.getElem?_of_mem hinstr
  have hplace := (a.results i v).mp (by rw [List.getElem?_map, hi, ← hresult]; rfl)
  obtain ⟨origin, horigin, -⟩ := Option.bind_eq_some_iff.mp hplace
  obtain ⟨x, hx, -⟩ := Option.map_eq_some_iff.mp horigin
  exact (List.getElem?_eq_some_iff.mp hx).1

theorem addConstant (lit : Literal) (ty : TypeId) : (f.addValue ⟨ty, .const lit⟩).2.Assigned where
  params := numbers_skip a.params rfl rfl
  freeVars := numbers_skip a.freeVars rfl rfl
  results := numbers_skip a.results rfl rfl
  placed := a.placed
  locals := a.locals
  nodup := a.nodup
  named := a.named

theorem addParam (name : String) (ty : TypeId) :
    Assigned { (f.addValue ⟨ty, .param f.params.length name⟩).2 with
      params := f.params ++ [⟨f.values.length⟩] } where
  params := by
    rw [List.map_append]
    exact numbers_concat a.params rfl (congrArg some (List.length_map ..).symm)
  freeVars := numbers_skip a.freeVars rfl rfl
  results := numbers_skip a.results rfl rfl
  placed := a.placed
  locals := a.locals
  nodup := a.nodup
  named := a.named

theorem addFreeVar (name : String) (ty : TypeId) :
    Assigned { (f.addValue ⟨ty, .free f.freeVars.length name⟩).2 with
      freeVars := f.freeVars ++ [⟨f.values.length⟩] } where
  params := numbers_skip a.params rfl rfl
  freeVars := by
    rw [List.map_append]
    exact numbers_concat a.freeVars rfl (congrArg some (List.length_map ..).symm)
  results := numbers_skip a.results rfl rfl
  placed := a.placed
  locals := a.locals
  nodup := a.nodup
  named := a.named

/-- One instruction more is listed by its block. -/
theorem placed_addInstr {block : BlockId} (hblock : block.index < f.blocks.length) (i : Instr)
    (hi : i.block = block) :
    Placed ((f.addInstr i).2.blocks.map Block.instrs) ((f.instrs ++ [i]).map Instr.block) := by
  subst hi
  change Placed ((f.blocks.modify _ _).map Block.instrs) _
  rw [map_instrs_modify, List.map_append]
  have hlt : i.block.index < (f.blocks.map Block.instrs).length := by rwa [List.length_map]
  have hplaced := a.placed.addInstr hlt
  rwa [List.length_map] at hplaced

theorem addStep {block : BlockId} (hblock : block.index < f.blocks.length) (op : Operation)
    (pos : SourcePos) : (f.addStep block op pos).2.Assigned where
  params := a.params
  freeVars := a.freeVars
  results := by
    change Numbers ((f.instrs ++ [_]).map Instr.result) _
    rw [List.map_append]
    exact a.results.concat_none
  placed := a.placed_addInstr hblock _ rfl
  locals := fun v hv => (a.locals v hv).imp fun _ h => ⟨List.mem_append_left _ h.1, h.2⟩
  nodup := a.nodup
  named := a.named

theorem addDefinition {block : BlockId} (hblock : block.index < f.blocks.length) (op : Operation)
    (ty : TypeId) (pos : SourcePos) : (f.addDefinition block op ty pos).2.Assigned where
  params := numbers_skip a.params rfl rfl
  freeVars := numbers_skip a.freeVars rfl rfl
  results := by
    change Numbers ((f.instrs ++ [_]).map Instr.result) _
    rw [List.map_append]
    exact numbers_concat a.results rfl (congrArg some (List.length_map ..).symm)
  placed := a.placed_addInstr hblock _ rfl
  locals := fun v hv => (a.locals v hv).imp fun _ h => ⟨List.mem_append_left _ h.1, h.2⟩
  nodup := a.nodup
  named := a.named

theorem addVariable {block : BlockId} (hblock : block.index < f.blocks.length) (ptr : TypeId) :
    (f.addVariable block ptr).Assigned := by
  have h := a.addDefinition hblock (.alloc false) ptr .none
  refine ⟨h.params, h.freeVars, h.results, h.placed, fun v hv => ?_, ?_, fun v hv => ?_⟩
  · rcases List.mem_append.mp hv with hv | hv
    · exact h.locals v hv
    · rw [List.mem_singleton.mp hv]
      exact ⟨_, List.mem_append_right _ (List.mem_singleton_self _), rfl, rfl⟩
  · -- the address is a new value, and those of the other variables are older
    refine List.nodup_append.mpr ⟨a.nodup, by simp, ?_⟩
    rintro v hv w hw rfl
    rw [List.mem_singleton.mp hw] at hv
    exact Nat.lt_irrefl _ (a.lt_of_local hv)
  · exact List.mem_append_left _ (a.named v hv)

theorem addBlock (label : Option String) : (f.addBlock label).2.Assigned where
  params := a.params
  freeVars := a.freeVars
  results := a.results
  placed := by
    change Placed ((f.blocks ++ [_]).map Block.instrs) _
    rw [List.map_append]
    exact a.placed.addBlock
  locals := a.locals
  nodup := a.nodup
  named := a.named

theorem closeBlock (block : BlockId) (term : Terminator) :
    (f.closeBlock block term).Assigned := by
  have hplaced := a.placed
  rw [← map_instrs_closeBlock f block term] at hplaced
  rw [closeBlock_eq]
  exact ⟨a.params, a.freeVars, a.results, hplaced, a.locals, a.nodup, a.named⟩

end Assigned

end Function

namespace Builder

variable {b b' : Builder}

/-! ## What moves keep -/

/-- The open block is one of the blocks. -/
def InRange (b : Builder) : Prop :=
  ∀ {block}, b.current = some block → block.index < b.func.blocks.length

theorem Shaped.inRange (s : Shaped b) : InRange b := by
  intro block hc
  obtain ⟨stored, hstored, -⟩ := s.current hc
  exact (List.getElem?_eq_some_iff.mp hstored).1

theorem SameShape.inRange (h : SameShape b b') (hb : InRange b) : InRange b' := by
  intro block hc
  have hlength : b'.func.blocks.length = b.func.blocks.length := by
    simpa using congrArg List.length h.shells
  rw [h.current] at hc
  rw [hlength]
  exact hb hc

theorem Emission.assigned (h : Emission b b') (hb : InRange b) (a : b.func.Assigned) :
    b'.func.Assigned := by
  cases h with
  | intern => exact a
  | constant lit ty => exact a.addConstant lit ty
  | step hopen op pos => exact a.addStep (hb hopen) op pos
  | definition hopen op ty pos => exact a.addDefinition (hb hopen) op ty pos
  | localVar hopen ptr => exact a.addVariable (hb hopen) ptr

theorem assigned_of_emissions (h : ReflTransGen Emission b b') (hb : InRange b)
    (a : b.func.Assigned) : b'.func.Assigned := by
  induction h with
  | refl => exact a
  | tail hrow hstep ih => exact hstep.assigned ((sameShape_of_emissions hrow).inRange hb) ih

theorem Advance.assigned (h : Advance b b') (s : Shaped b) (a : b.func.Assigned) :
    b'.func.Assigned := by
  cases h with
  | emission h => exact h.assigned s.inRange a
  | constTrue | setCurrent => exact a
  | param name ty => exact a.addParam name ty
  | freeVar name ty => exact a.addFreeVar name ty
  | nameResult haddr =>
    refine ⟨a.params, a.freeVars, a.results, a.placed, a.locals, a.nodup, fun v hv => ?_⟩
    rcases List.mem_append.mp hv with hv | hv
    · exact a.named v hv
    · rwa [List.mem_singleton.mp hv]
  | newBlock label => exact a.addBlock label
  | close => exact a.closeBlock _ _
  | recover _ hemits =>
    have hlanding : InRange b.landing := by
      rintro _ ⟨⟩
      exact List.length_append ▸ Nat.lt_succ_self _
    have ha : b.landing.func.Assigned := by
      have hblock := a.addBlock (some "recover")
      exact ⟨hblock.params, hblock.freeVars, hblock.results, hblock.placed, hblock.locals,
        hblock.nodup, hblock.named⟩
    exact (assigned_of_emissions hemits hlanding ha).closeBlock _ _

/-- **One move keeps single assignment and placement.** -/
theorem Move.assigned (h : Move b b') (s : Shaped b) (a : b.func.Assigned) : b'.func.Assigned := by
  cases h with
  | advance h => exact h.assigned s a
  | share => exact a
  | describe => exact ⟨a.params, a.freeVars, a.results, a.placed, a.locals, a.nodup, a.named⟩

/-- **Single assignment and placement in every draft.** -/
theorem Reached.assigned (h : Reached b) : b.func.Assigned := by
  have hboth : Shaped b ∧ b.func.Assigned := by
    refine h.invariant (P := fun b => Shaped b ∧ b.func.Assigned) (fun w name signature => ?_)
      fun b b' hb hmove => ?_
    · exact ⟨shaped_start w name signature, .start name signature _⟩
    · exact ⟨hmove.shaped hb.1, hmove.assigned hb.1 hb.2⟩
  exact hboth.2

end Builder

/-! ## What that comes to -/

namespace Function

variable {f : Function} {v : ValueId}

/-- Where a value is noted, by its origin. It is noted once, and nowhere else. -/
inductive Noted (f : Function) (v : ValueId) : Origin → Prop
  /-- a parameter is listed at its place -/
  | param {place : Nat} {name : String} (hlisted : ∀ i, f.params[i]? = some v ↔ i = place)
    (hfree : v ∉ f.freeVars) (hresult : ∀ instr ∈ f.instrs, instr.result ≠ some v) :
    Noted f v (.param place name)
  /-- a captured variable is listed at its place -/
  | free {place : Nat} {name : String} (hparam : v ∉ f.params)
    (hlisted : ∀ i, f.freeVars[i]? = some v ↔ i = place)
    (hresult : ∀ instr ∈ f.instrs, instr.result ≠ some v) : Noted f v (.free place name)
  /-- a constant is not noted -/
  | const {lit : Literal} (hparam : v ∉ f.params) (hfree : v ∉ f.freeVars)
    (hresult : ∀ instr ∈ f.instrs, instr.result ≠ some v) : Noted f v (.const lit)
  /-- a result is that of its instruction -/
  | result {instr : InstrId} (hparam : v ∉ f.params) (hfree : v ∉ f.freeVars)
    (hlisted : ∀ i, (∃ other, f.instrs[i]? = some other ∧ other.result = some v) ↔
      i = instr.index) : Noted f v (.result instr)

/-- Single assignment and exact placement. -/
structure SingleAssignment (f : Function) : Prop where
  /-- every value is noted where its origin says, and only there -/
  noted : ∀ {v x}, f.value v = .ok x → f.Noted v x.origin
  /-- a value is the result of an instruction exactly if the instruction defines it -/
  defined : ∀ {v i}, (∃ ty, f.value v = .ok ⟨ty, .result i⟩) ↔
    ∃ instr, f.instr i = .ok instr ∧ instr.result = some v
  /-- what is listed as a parameter is that parameter -/
  params : ∀ {i v}, f.params[i]? = some v → ∃ ty name, f.value v = .ok ⟨ty, .param i name⟩
  /-- what is listed as a captured variable is that variable -/
  freeVars : ∀ {i v}, f.freeVars[i]? = some v → ∃ ty name, f.value v = .ok ⟨ty, .free i name⟩
  /-- every instruction is listed once by its block -/
  owned : ∀ {i instr}, f.instr i = .ok instr →
    ∃ owner, f.block instr.block = .ok owner ∧ owner.instrs.count i = 1
  /-- and a block lists no other instructions than its own -/
  listed : ∀ {b block i}, f.block b = .ok block → i ∈ block.instrs →
    ∃ instr, f.instr i = .ok instr ∧ instr.block = b
  /-- blocks list their instructions in the order of emission -/
  increasing : ∀ {b block}, f.block b = .ok block → block.instrs.Pairwise (·.index < ·.index)
  /-- local variables are known by their addresses, without repetition -/
  locals : ∀ {v}, v ∈ f.locals →
    ∃ instr, f.definition? v = .ok (some instr) ∧ instr.op = .alloc false
  nodup : f.locals.Nodup
  /-- the variables of named results are among them -/
  named : ∀ {v}, v ∈ f.namedResults → v ∈ f.locals

theorem origin?_of_value {x : Value} (h : f.value v = .ok x) : f.origin? v = some x.origin := by
  rw [origin?, entry_eq_ok_iff.mp h]
  rfl

theorem exists_value {o : Origin} (h : f.origin? v = some o) : ∃ ty, f.value v = .ok ⟨ty, o⟩ := by
  obtain ⟨⟨ty, _⟩, hx, rfl⟩ := Option.map_eq_some_iff.mp h
  exact ⟨ty, entry_eq_ok_iff.mpr hx⟩

namespace Assigned

variable (a : f.Assigned) {kind : Origin → Option Nat} {l : List ValueId}

theorem getElem?_eq_some_iff (hn : Numbers (l.map some) fun v => (f.origin? v).bind kind)
    {o : Origin} (ho : f.origin? v = some o) (i : Nat) : l[i]? = some v ↔ kind o = some i := by
  have hiff := hn i v
  simp only [ho, List.getElem?_map] at hiff
  simpa using hiff

theorem not_mem_of_kind (hn : Numbers (l.map some) fun v => (f.origin? v).bind kind)
    {o : Origin} (ho : f.origin? v = some o) (hkind : kind o = none) : v ∉ l := by
  intro hv
  obtain ⟨i, hi⟩ := List.getElem?_of_mem hv
  have hplace := (getElem?_eq_some_iff hn ho i).mp hi
  rw [hkind] at hplace
  cases hplace

include a

theorem exists_result_iff {o : Origin} (ho : f.origin? v = some o) (i : Nat) :
    (∃ instr, f.instrs[i]? = some instr ∧ instr.result = some v) ↔ o.result? = some i := by
  have hiff := a.results i v
  simp only [ho, List.getElem?_map, Option.map_eq_some_iff] at hiff
  exact hiff

theorem result_ne {o : Origin} (ho : f.origin? v = some o) (hkind : o.result? = none) :
    ∀ instr ∈ f.instrs, instr.result ≠ some v := by
  intro instr hinstr hresult
  obtain ⟨i, hi⟩ := List.getElem?_of_mem hinstr
  have hplace := (a.exists_result_iff ho i).mp ⟨instr, hi, hresult⟩
  rw [hkind] at hplace
  cases hplace

theorem noted {x : Value} (h : f.value v = .ok x) : f.Noted v x.origin := by
  have ho := origin?_of_value h
  rcases horigin : x.origin with ⟨place, name⟩ | ⟨place, name⟩ | lit | instr <;> rw [horigin] at ho
  · refine .param (fun i => ?_) (not_mem_of_kind a.freeVars ho rfl) (a.result_ne ho rfl)
    rw [getElem?_eq_some_iff a.params ho]
    simp [Origin.param?, eq_comm]
  · refine .free (not_mem_of_kind a.params ho rfl) (fun i => ?_) (a.result_ne ho rfl)
    rw [getElem?_eq_some_iff a.freeVars ho]
    simp [Origin.free?, eq_comm]
  · exact .const (not_mem_of_kind a.params ho rfl) (not_mem_of_kind a.freeVars ho rfl)
      (a.result_ne ho rfl)
  · refine .result (not_mem_of_kind a.params ho rfl) (not_mem_of_kind a.freeVars ho rfl)
      fun i => ?_
    rw [a.exists_result_iff ho]
    simp [Origin.result?, eq_comm]

theorem defined {i : InstrId} : (∃ ty, f.value v = .ok ⟨ty, .result i⟩) ↔
    ∃ instr, f.instr i = .ok instr ∧ instr.result = some v := by
  simp only [instr, entry_eq_ok_iff]
  constructor
  · rintro ⟨ty, hv⟩
    exact (a.exists_result_iff (origin?_of_value hv) i.index).mpr rfl
  · rintro ⟨instr, hinstr, hresult⟩
    have hplace := (a.results i.index v).mp (by rw [List.getElem?_map, hinstr, ← hresult]; rfl)
    obtain ⟨o, ho, hkind⟩ := Option.bind_eq_some_iff.mp hplace
    cases o with
    | result j =>
      obtain rfl : j = i := congrArg InstrId.mk (Option.some.inj hkind)
      exact exists_value ho
    | _ => cases hkind

theorem exists_param {i : Nat} (h : f.params[i]? = some v) :
    ∃ ty name, f.value v = .ok ⟨ty, .param i name⟩ := by
  obtain ⟨o, ho, hkind⟩ := Option.bind_eq_some_iff.mp
    ((a.params i v).mp (by rw [List.getElem?_map, h]; rfl))
  cases o with
  | param place name =>
    obtain rfl : place = i := Option.some.inj hkind
    obtain ⟨ty, hv⟩ := exists_value ho
    exact ⟨ty, name, hv⟩
  | _ => cases hkind

theorem exists_freeVar {i : Nat} (h : f.freeVars[i]? = some v) :
    ∃ ty name, f.value v = .ok ⟨ty, .free i name⟩ := by
  obtain ⟨o, ho, hkind⟩ := Option.bind_eq_some_iff.mp
    ((a.freeVars i v).mp (by rw [List.getElem?_map, h]; rfl))
  cases o with
  | free place name =>
    obtain rfl : place = i := Option.some.inj hkind
    obtain ⟨ty, hv⟩ := exists_value ho
    exact ⟨ty, name, hv⟩
  | _ => cases hkind

theorem increasing {block : BlockId} {stored : Block} (h : f.block block = .ok stored) :
    stored.instrs.Pairwise (·.index < ·.index) :=
  a.placed.increasing _ (List.mem_map_of_mem (List.mem_of_getElem? (entry_eq_ok_iff.mp h)))

/-- A block lists its own instructions. -/
theorem mem_instrs_iff {block : BlockId} {stored : Block} (h : f.block block = .ok stored)
    (i : InstrId) : i ∈ stored.instrs ↔ ∃ instr, f.instr i = .ok instr ∧ instr.block = block := by
  have hlist : (f.blocks.map Block.instrs)[block.index]? = some stored.instrs := by
    rw [List.getElem?_map, entry_eq_ok_iff.mp h]
    rfl
  rw [a.placed.listed hlist i, List.getElem?_map, Option.map_eq_some_iff]
  simp [instr, entry_eq_ok_iff]

theorem owned {i : InstrId} {instr : Instr} (h : f.instr i = .ok instr) :
    ∃ owner, f.block instr.block = .ok owner ∧ owner.instrs.count i = 1 := by
  have hmem : instr.block ∈ f.instrs.map Instr.block :=
    List.mem_map_of_mem (List.mem_of_getElem? (entry_eq_ok_iff.mp h))
  have hlt := a.placed.owned _ hmem
  rw [List.length_map] at hlt
  have howner : f.block instr.block = .ok f.blocks[instr.block.index] :=
    entry_eq_ok_iff.mpr (List.getElem?_eq_getElem hlt)
  -- what is listed in order is listed once
  have hnodup : (f.blocks[instr.block.index]).instrs.Nodup := by
    refine (a.increasing howner).imp fun {j k} hjk heq => ?_
    rw [heq] at hjk
    exact Nat.lt_irrefl _ hjk
  refine ⟨_, howner, ?_⟩
  rw [hnodup.count, if_pos ((a.mem_instrs_iff howner i).mpr ⟨_, h, rfl⟩)]

theorem definition_of_local (hv : v ∈ f.locals) :
    ∃ instr, f.definition? v = .ok (some instr) ∧ instr.op = .alloc false := by
  obtain ⟨instr, hinstr, hop, hresult⟩ := a.locals v hv
  obtain ⟨i, hi⟩ := List.getElem?_of_mem hinstr
  have hi : f.instr ⟨i⟩ = .ok instr := entry_eq_ok_iff.mpr hi
  obtain ⟨ty, hvalue⟩ := a.defined.mpr ⟨instr, hi, hresult⟩
  refine ⟨instr, ?_, hop⟩
  simp [definition?, hvalue, hi]

end Assigned

end Function

/-- **Single assignment and exact placement in every draft that commands reach**, whatever
they do and in whatever order. -/
theorem Builder.Reached.singleAssignment {b : Builder} (h : Reached b) :
    b.func.SingleAssignment where
  noted := h.assigned.noted
  defined := h.assigned.defined
  params := h.assigned.exists_param
  freeVars := h.assigned.exists_freeVar
  owned := h.assigned.owned
  listed hb hi := (h.assigned.mem_instrs_iff hb _).mp hi
  increasing := h.assigned.increasing
  locals := h.assigned.definition_of_local
  nodup := h.assigned.nodup
  named := h.assigned.named _

/-- The draft with a loop: its last block is closed and its recovery block is there. -/
theorem Builder.Reached.singleAssignment_loop : ∃ b, loopStart.after loopCommands = .ok b ∧
    (b.func.values.length, b.func.instrs.length, b.func.blocks.length) = (6, 4, 4) ∧
    Reached b ∧ b.func.SingleAssignment := by
  obtain ⟨b, hafter, hlengths⟩ := exists_after (b := loopStart) loopCommands
    (g := fun b => (b.func.values.length, b.func.instrs.length, b.func.blocks.length))
    (x := (6, 4, 4)) (by decide +kernel)
  have hreached : Reached b := .after (.start _ _ _) hafter
  exact ⟨b, hafter, hlengths, hreached, hreached.singleAssignment⟩

end MethodSSA
