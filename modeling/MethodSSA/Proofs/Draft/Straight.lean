import MethodSSA.Draft.Calls
import MethodSSA.Draft.Conversion
import MethodSSA.Draft.Fields
import MethodSSA.Proofs.Promotion.Stability
import MethodSSA.Proofs.Steps

/-!
# Functions of one block

A wrapper is built in one go: its entry block stays open until the end, and all that is
emitted goes there. Such a draft is **straight** (`Straight`), and what a step of its
construction does is said by what it adds: parameters (`Takes`) or code (`Emits`), with
the values that they define numbered in order. Each step of construction that wrappers
use has one lemma that says what it adds.
-/

namespace MethodSSA

/-- An instruction of a function of one block. -/
def Instr.plain (op : Operation) (result : Option ValueId) : Instr :=
  ⟨Function.entryBlock, op, result, .none⟩

/-- The values numbered from `n` on, `k` of them. -/
def valuesFrom (n k : Nat) : List ValueId := (List.range' n k).map ValueId.mk

theorem valuesFrom_append (n k j : Nat) :
    valuesFrom n k ++ valuesFrom (n + k) j = valuesFrom n (k + j) := by
  rw [valuesFrom, valuesFrom, valuesFrom, ← List.map_append, List.range'_append_1]

/-- A value has a type. -/
def TypedAs (vals : List Value) (v : ValueId) (ty : TypeId) : Prop :=
  ∃ origin, vals[v.index]? = some ⟨ty, origin⟩

theorem TypedAs.append {vals : List Value} {v : ValueId} {ty : TypeId} (h : TypedAs vals v ty)
    (more : List Value) : TypedAs (vals ++ more) v ty := by
  obtain ⟨origin, h⟩ := h
  exact ⟨origin, (List.getElem?_append_left (List.getElem?_eq_some_iff.mp h).1).trans h⟩

/-- The type of the parameter at a place of a signature: the last one of a variadic
signature is a slice. -/
def FormalTyped (t : TypeTable) (vals : List Value) (sig : Signature) (p : Var × Nat)
    (v : ValueId) : Prop :=
  ∃ ty, TypedAs vals v ty ∧
    if sig.variadic && p.2 + 1 == sig.params.length then t.get ty = .ok (.slice p.1.ty)
    else ty = p.1.ty

/-- A parameter stays as it is typed. -/
theorem FormalTyped.later {t t' : TypeTable} (ht : t.types <+: t'.types) {vals vals' : List Value}
    (hvals : ∀ {v ty}, TypedAs vals v ty → TypedAs vals' v ty) {sig : Signature} {p : Var × Nat}
    {v : ValueId} (h : FormalTyped t vals sig p v) : FormalTyped t' vals' sig p v := by
  obtain ⟨ty, hty, h⟩ := h
  refine ⟨ty, hvals hty, ?_⟩
  split
  · next hlast =>
    rw [if_pos hlast] at h
    exact entry_of_prefix ht h
  · next hlast =>
    rw [if_neg hlast] at h
    exact h

theorem FormalTyped.append {t t' : TypeTable} {vals : List Value} {sig : Signature} {p : Var × Nat}
    {v : ValueId} (h : FormalTyped t vals sig p v) (g : t.Grown t') (more : List Value) :
    FormalTyped t' (vals ++ more) sig p v :=
  h.later g.extended.types fun hv => hv.append more

/-- The entry block of a draft after `n` instructions. -/
def openEntry (n : Nat) : Block :=
  ⟨Function.entryBlock, some "entry", (List.range n).map InstrId.mk, .unreachable, [], []⟩

/-- What a function says of itself, without its variables and its code. -/
def Function.header (f : Function) : Function :=
  { f with params := [], freeVars := [], locals := [], blocks := [], values := [], instrs := [] }

theorem Function.signature_eq_of_header {f g : Function} (h : f.header = g.header) :
    f.signature = g.signature := (congrArg Function.signature h :)

theorem Function.recover_eq_of_header {f g : Function} (h : f.header = g.header) :
    f.recover = g.recover := (congrArg Function.recover h :)

namespace Builder

/-- A draft whose only block is open and lists all its instructions, over a sound type
table. -/
structure Straight (b : Builder) : Prop where
  sound : b.types.Sound
  current : b.current = some Function.entryBlock
  blocks : b.func.blocks = [openEntry b.func.instrs.length]
  placed : ∀ i ∈ b.func.instrs, i.block = Function.entryBlock
  held : ∀ v ∈ b.func.values, b.types.Holds v.ty
  signature : b.types.Holds b.func.signature
  recover : b.func.recover = none

/-- What every step of the construction of a straight draft keeps. -/
structure Keeps (b b' : Builder) : Prop where
  straight : b'.Straight
  types : b.types.Grown b'.types
  mode : b'.mode = b.mode
  boxed : b'.boxed = b.boxed
  header : b'.func.header = b.func.header

/-- A step adds code, and values that are its results in order. -/
structure Emits (b : Builder) (code : List Instr) (b' : Builder) : Prop extends Keeps b b' where
  params : b'.func.params = b.func.params
  freeVars : b'.func.freeVars = b.func.freeVars
  instrs : b'.func.instrs = b.func.instrs ++ code
  values : ∃ vs, b'.func.values = b.func.values ++ vs ∧
    code.filterMap Instr.result = valuesFrom b.func.values.length vs.length

/-- A step adds parameters. -/
structure Takes (b : Builder) (added : List ValueId) (b' : Builder) : Prop extends Keeps b b' where
  params : b'.func.params = b.func.params ++ added
  freeVars : b'.func.freeVars = b.func.freeVars
  instrs : b'.func.instrs = b.func.instrs
  values : ∃ vs, b'.func.values = b.func.values ++ vs ∧
    added = valuesFrom b.func.values.length vs.length

variable {b b' b'' : Builder}

namespace Keeps

theorem refl (s : b.Straight) : Keeps b b := ⟨s, .refl, rfl, rfl, rfl⟩

theorem trans (h : Keeps b b') (h' : Keeps b' b'') : Keeps b b'' :=
  ⟨h'.straight, h.types.trans h'.types, h'.mode.trans h.mode, h'.boxed.trans h.boxed,
    h'.header.trans h.header⟩

theorem signature (h : Keeps b b') : b'.func.signature = b.func.signature :=
  Function.signature_eq_of_header h.header

/-- The function keeps its signature. -/
theorem signatureOf (h : Keeps b b') {sig : Signature}
    (hsig : b.types.signatureOf b.func.signature = .ok sig) :
    b'.types.signatureOf b'.func.signature = .ok sig := by
  rw [h.signature]
  exact h.types.signatureOf hsig

end Keeps

namespace Emits

variable {code code' : List Instr}

theorem refl (s : b.Straight) : Emits b [] b :=
  ⟨.refl s, rfl, rfl, (List.append_nil _).symm, [], (List.append_nil _).symm, rfl⟩

theorem trans (h : Emits b code b') (h' : Emits b' code' b'') : Emits b (code ++ code') b'' := by
  obtain ⟨vs, hvs, hres⟩ := h.values
  obtain ⟨vs', hvs', hres'⟩ := h'.values
  refine ⟨h.toKeeps.trans h'.toKeeps, h'.params.trans h.params, h'.freeVars.trans h.freeVars, ?_,
    vs ++ vs', ?_, ?_⟩
  · rw [h'.instrs, h.instrs, List.append_assoc]
  · rw [hvs', hvs, List.append_assoc]
  · rw [List.filterMap_append, hres, hres', hvs, List.length_append, List.length_append,
      valuesFrom_append]

theorem typedAs (h : Emits b code b') {v : ValueId} {ty : TypeId}
    (hv : TypedAs b.func.values v ty) : TypedAs b'.func.values v ty := by
  obtain ⟨vs, hvs, -⟩ := h.values
  rw [hvs]
  exact hv.append vs

end Emits

namespace Takes

variable {added added' : List ValueId}

theorem refl (s : b.Straight) : Takes b [] b :=
  ⟨.refl s, (List.append_nil _).symm, rfl, rfl, [], (List.append_nil _).symm, rfl⟩

theorem trans (h : Takes b added b') (h' : Takes b' added' b'') :
    Takes b (added ++ added') b'' := by
  obtain ⟨vs, hvs, hadd⟩ := h.values
  obtain ⟨vs', hvs', hadd'⟩ := h'.values
  refine ⟨h.toKeeps.trans h'.toKeeps, ?_, h'.freeVars.trans h.freeVars, h'.instrs.trans h.instrs,
    vs ++ vs', ?_, ?_⟩
  · rw [h'.params, h.params, List.append_assoc]
  · rw [hvs', hvs, List.append_assoc]
  · rw [hadd, hadd', hvs, List.length_append, List.length_append, valuesFrom_append]

theorem typedAs (h : Takes b added b') {v : ValueId} {ty : TypeId}
    (hv : TypedAs b.func.values v ty) : TypedAs b'.func.values v ty := by
  obtain ⟨vs, hvs, -⟩ := h.values
  rw [hvs]
  exact hv.append vs

end Takes

/-- The type of a value of a straight draft is in the table. -/
theorem Straight.holds_typedAs (s : b.Straight) {v : ValueId} {ty : TypeId}
    (hv : TypedAs b.func.values v ty) : b.types.Holds ty := by
  obtain ⟨origin, hv⟩ := hv
  exact s.held _ (List.mem_of_getElem? hv)

/-! ## Steps that add nothing -/

theorem ask_run {α : Type} {question : TypeTable → Except Fault α} {a : α}
    (h : question b.types = .ok a) : (ask question).run b = .ok (a, b) := by
  change (question b.types >>= fun a => Except.ok (a, b)) = _
  rw [h]
  rfl

theorem ask_fault {α : Type} {question : TypeTable → Except Fault α} {e : Fault}
    (h : question b.types = .error e) : (ask question).run b = .error e := by
  change (question b.types >>= fun a => Except.ok (a, b)) = _
  rw [h]
  rfl

theorem valueType_run {v : ValueId} {ty : TypeId} (h : TypedAs b.func.values v ty) :
    (valueType v).run b = .ok (ty, b) := by
  obtain ⟨origin, h⟩ := h
  have hv : b.func.value v = .ok ⟨ty, origin⟩ := entry_eq_ok_iff.mpr h
  change (b.func.valueType v >>= fun ty => Except.ok (ty, b)) = _
  rw [Function.valueType, hv]
  rfl

theorem ownSignature_run {sig : Signature}
    (h : b.types.signatureOf b.func.signature = .ok sig) :
    ownSignature.run b = .ok (sig, b) := by
  change (b.types.signatureOf b.func.signature >>= fun a => Except.ok (a, b)) = _
  rw [h]
  rfl

/-! ## Steps that enter types -/

theorem Straight.withTypes (s : b.Straight) {t : TypeTable} (g : b.types.Grown t) (hs : t.Sound) :
    Straight { b with types := t } :=
  ⟨hs, s.current, s.blocks, s.placed, fun v hv => g.holds (s.held v hv), g.holds s.signature,
    s.recover⟩

/-- A type that is no interface is entered. -/
theorem intern_yields (s : b.Straight) {ty : Ty} (hty : b.types.Admits ty)
    (hplain : ty.methods? = none) :
    Yields (intern ty) b fun id b' =>
      Emits b [] b' ∧ b'.types.get id = .ok ty ∧ b'.func = b.func := by
  have g : b.types.Grown (b.types.intern ty).2 := TypeTable.Grown.refl.internPlain hty hplain
  refine ⟨_, { b with types := (b.types.intern ty).2 }, rfl, ?_, ?_, rfl⟩
  · have s' := s.withTypes g (s.sound.intern hty)
    exact ⟨⟨s', g, rfl, rfl, rfl⟩, rfl, rfl, (List.append_nil _).symm, [],
      (List.append_nil _).symm, rfl⟩
  · exact TypeTable.get_intern b.types ty

/-! ## Steps that emit -/

/-- The draft with one instruction more. -/
theorem Straight.emitted (s : b.Straight) {op : Operation} {result : Option ValueId}
    {vs : List Value} (hvs : ∀ v ∈ vs, b.types.Holds v.ty) {f : Function}
    (hblocks : f.blocks = [openEntry (b.func.instrs.length + 1)])
    (hinstrs : f.instrs = b.func.instrs ++ [Instr.plain op result])
    (hvalues : f.values = b.func.values ++ vs) (hheader : f.header = b.func.header) :
    Straight { b with func := f } where
  sound := s.sound
  current := s.current
  blocks := by
    change f.blocks = [openEntry f.instrs.length]
    rw [hblocks, hinstrs, List.length_append, List.length_singleton]
  placed := by
    change ∀ i ∈ f.instrs, _
    rw [hinstrs]
    intro i hi
    rcases List.mem_append.mp hi with hi | hi
    · exact s.placed i hi
    · rw [List.mem_singleton.mp hi]
      rfl
  held := by
    change ∀ v ∈ f.values, _
    rw [hvalues]
    intro v hv
    rcases List.mem_append.mp hv with hv | hv
    · exact s.held v hv
    · exact hvs v hv
  signature := by
    change b.types.Holds f.signature
    rw [Function.signature_eq_of_header hheader]
    exact s.signature
  recover := (Function.recover_eq_of_header hheader).trans s.recover

/-- The open block of a straight draft with one instruction more. -/
theorem Straight.modify_blocks (s : b.Straight) :
    b.func.blocks.modify Function.entryBlock.index (fun block =>
      { block with instrs := block.instrs ++ [⟨b.func.instrs.length⟩] }) =
      [openEntry (b.func.instrs.length + 1)] := by
  rw [s.blocks, openEntry, openEntry, List.range_succ, List.map_append]
  rfl

theorem Straight.openBlock_run (s : b.Straight) :
    openBlock.run b = .ok (Function.entryBlock, b) := by
  simp [openBlock, s.current]

theorem emit_yields (s : b.Straight) (op : Operation) :
    Yields (emit op) b fun _ b' => Emits b [.plain op none] b' ∧ b'.types = b.types := by
  have hrun : (emit op).run b = .ok (⟨b.func.instrs.length⟩,
      { b with func := (b.func.addStep Function.entryBlock op .none).2 }) := by
    change (openBlock >>= _).run b = _
    rw [StateT.run_bind, s.openBlock_run]
    rfl
  refine .of_run hrun ⟨⟨⟨?_, .refl, rfl, rfl, rfl⟩, rfl, rfl, rfl, [], ?_, rfl⟩, rfl⟩
  · have hnone : ∀ v ∈ ([] : List Value), b.types.Holds v.ty := fun v hv =>
      absurd hv List.not_mem_nil
    exact s.emitted hnone s.modify_blocks rfl (List.append_nil _).symm rfl
  · exact (List.append_nil _).symm

theorem emitValue_yields (s : b.Straight) (op : Operation) {ty : TypeId} (hty : b.types.Holds ty) :
    Yields (emitValue op ty) b fun v b' =>
      Emits b [.plain op (some v)] b' ∧ TypedAs b'.func.values v ty ∧ b'.types = b.types := by
  have hrun : (emitValue op ty).run b = .ok (⟨b.func.values.length⟩,
      { b with func := (b.func.addDefinition Function.entryBlock op ty .none).2 }) := by
    change (openBlock >>= _).run b = _
    rw [StateT.run_bind, s.openBlock_run]
    rfl
  have hone : ∀ v ∈ [(⟨ty, .result ⟨b.func.instrs.length⟩⟩ : Value)], b.types.Holds v.ty := by
    intro v hv
    rw [List.mem_singleton.mp hv]
    exact hty
  have hstraight := s.emitted (f := (b.func.addDefinition Function.entryBlock op ty .none).2)
    hone s.modify_blocks rfl rfl rfl
  refine .of_run hrun ⟨⟨⟨hstraight, .refl, rfl, rfl, rfl⟩, rfl, rfl, rfl, _, rfl, rfl⟩, ?_, rfl⟩
  exact ⟨_, List.getElem?_concat_length⟩

/-! ## Parameters -/

theorem addParam_yields (s : b.Straight) (name : String) {ty : TypeId} (hty : b.types.Holds ty) :
    Yields (addParam name ty) b fun v b' =>
      Takes b [v] b' ∧ TypedAs b'.func.values v ty ∧ b'.types = b.types := by
  refine .of_run rfl ⟨⟨⟨?_, .refl, rfl, rfl, rfl⟩, rfl, rfl, rfl, _, rfl, rfl⟩, ?_, rfl⟩
  · refine ⟨s.sound, s.current, s.blocks, s.placed, ?_, s.signature, s.recover⟩
    intro v hv
    rcases List.mem_append.mp hv with hv | hv
    · exact s.held v hv
    · rw [List.mem_singleton.mp hv]
      exact hty
  · exact ⟨_, List.getElem?_concat_length⟩

theorem addFormal_yields (s : b.Straight) (sig : Signature) (p : Var) (place : Nat)
    (hp : b.types.Holds p.ty) :
    Yields (addFormal sig p place) b fun v b' =>
      Takes b [v] b' ∧ FormalTyped b'.types b'.func.values sig (p, place) v := by
  rcases hlast : sig.variadic && place + 1 == sig.params.length with _ | _
  · rw [addFormal, hlast, if_neg Bool.false_ne_true]
    refine (addParam_yields s p.name hp).mono ?_
    rintro v b' ⟨ht, hv, -⟩
    refine ⟨ht, p.ty, hv, ?_⟩
    simp [hlast]
  · rw [addFormal, hlast, if_pos rfl]
    have hslice : b.types.Admits (.slice p.ty) :=
      TypeTable.admits_of_components (fun c hc => List.mem_singleton.mp hc ▸ hp) rfl rfl
    refine (intern_yields s hslice rfl).bind ?_
    rintro ty b₁ ⟨he, hget, hfunc⟩
    refine (addParam_yields he.straight p.name (TypeTable.holds_of_get hget)).mono ?_
    rintro v b' ⟨ht, hv, htypes⟩
    have hstart : Takes b [] b₁ := by
      refine ⟨he.toKeeps, ?_, he.freeVars, ?_, [], ?_, rfl⟩
      · rw [hfunc, List.append_nil]
      · rw [hfunc]
      · rw [hfunc, List.append_nil]
    refine ⟨hstart.trans ht, ty, hv, ?_⟩
    simp only [hlast, if_true]
    rw [htypes]
    exact hget

/-- The parameters of a signature, one by one. -/
theorem mapM_addFormal_yields (sig : Signature) :
    ∀ (ps : List (Var × Nat)) {b : Builder}, b.Straight → (∀ p ∈ ps, b.types.Holds p.1.ty) →
      Yields (ps.mapM fun (p, place) => addFormal sig p place) b fun vs b' =>
        Takes b vs b' ∧ List.Forall₂ (FormalTyped b'.types b'.func.values sig) ps vs
  | [], b, s, _ => .pure ⟨.refl s, .nil⟩
  | (p, place) :: ps, b, s, hps => by
    rw [List.mapM_cons]
    refine (addFormal_yields s sig p place (hps _ (List.mem_cons_self ..))).bind ?_
    rintro v b₁ ⟨ht, hv⟩
    refine (mapM_addFormal_yields sig ps ht.straight fun q hq =>
      ht.types.holds (hps q (List.mem_cons_of_mem _ hq))).bind ?_
    rintro vs b₂ ⟨ht', hvs⟩
    obtain ⟨more, hmore, -⟩ := ht'.values
    exact .pure ⟨ht.trans ht', .cons (hmore ▸ hv.append ht'.types more) hvs⟩

/-- The formal parameters of a signature. -/
theorem addFormals_yields (s : b.Straight) {sig : Signature}
    (hsig : b.types.signatureOf b.func.signature = .ok sig)
    (hheld : ∀ p ∈ sig.params, b.types.Holds p.ty) :
    Yields addFormals b fun vs b' =>
      Takes b vs b' ∧
        List.Forall₂ (FormalTyped b'.types b'.func.values sig) sig.params.zipIdx vs :=
  .step (ownSignature_run hsig) (mapM_addFormal_yields sig sig.params.zipIdx s fun _ hp =>
    hheld _ (List.fst_mem_of_mem_zipIdx hp))

/-- A captured variable. -/
theorem addFreeVar_yields (s : b.Straight) (name : String) {ty : TypeId} (hty : b.types.Holds ty) :
    Yields (addFreeVar name ty) b fun v b' => Keeps b b' ∧ b'.func.params = b.func.params ∧
      b'.func.freeVars = b.func.freeVars ++ [v] ∧ b'.func.instrs = b.func.instrs ∧
      (∃ x, b'.func.values = b.func.values ++ [x] ∧ [v] = valuesFrom b.func.values.length 1) ∧
      TypedAs b'.func.values v ty ∧ b'.types = b.types := by
  refine .of_run rfl ⟨⟨?_, .refl, rfl, rfl, rfl⟩, rfl, rfl, rfl, ⟨_, rfl, rfl⟩, ?_, rfl⟩
  · refine ⟨s.sound, s.current, s.blocks, s.placed, ?_, s.signature, s.recover⟩
    intro v hv
    rcases List.mem_append.mp hv with hv | hv
    · exact s.held v hv
    · rw [List.mem_singleton.mp hv]
      exact hty
  · exact ⟨_, List.getElem?_concat_length⟩

end Builder

end MethodSSA
