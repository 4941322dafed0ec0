import MethodSSA.Proofs.Draft.Quiet
import MethodSSA.Proofs.Types.Course

/-!
# Typed instructions

An instruction is **fitting** if its operands have the types that it asks for and its result the
type that follows from them (`Fitting`). What that is depends on the command that emitted it
only for operators: arithmetic asks for operands of the type that was wanted, and a comparison
for operands that were matched. All that counts are answers of the type table and types of
values, and neither ever changes: so instructions stay fitting (`Fitting.later`).

A step **writes** for a command if all instructions that it emits are fitting for that command.
What is known at its end is at hand for the steps after it (`Writes`).
-/

namespace MethodSSA

open Relation

variable {t t' : TypeTable} {f f' : Function}

/-! ## What instructions ask for -/

/-- The operands of a comparison of `x` and `y`. -/
inductive Matched (t : TypeTable) (f : Function) (x y : ValueId) : ValueId → ValueId → Prop
  /-- of one underlying type, at most one of them converted -/
  | alike {x' y' : ValueId} {xt yt u : TypeId} (hone : x' = x ∨ y' = y)
    (hx : f.valueType x' = .ok xt) (hy : f.valueType y' = .ok yt) (hux : t.underlying xt = .ok u)
    (huy : t.underlying yt = .ok u) : Matched t f x y x' y'
  /-- as they are, neither of them constant or of interface type -/
  | apart {xt yt ux uy : TypeId} {vx vy : Value} (hx : f.valueType x = .ok xt)
    (hy : f.valueType y = .ok yt) (hux : t.underlying xt = .ok ux)
    (huy : t.underlying yt = .ok uy) (hix : t.isInterface ux = .ok false)
    (hiy : t.isInterface uy = .ok false) (hvx : f.value x = .ok vx) (hvy : f.value y = .ok vy)
    (hcx : vx.isConst = false) (hcy : vy.isConst = false) : Matched t f x y x y

/-- An operation that the command emits, with the type of its result, is fitting. -/
inductive Fitting (t : TypeTable) (f : Function) (c : Command) : Operation → Option TypeId → Prop
  /-- a variable: its address is a pointer -/
  | alloc {ptr elem : TypeId} (heap : Bool) (hptr : t.get ptr = .ok (.pointer elem)) :
    Fitting t f c (.alloc heap) (some ptr)
  /-- a load: the result is what the address points to -/
  | load {addr : ValueId} {pt elem : TypeId} (haddr : f.valueType addr = .ok pt)
    (hptr : t.underlyingTy pt = .ok (.pointer elem)) : Fitting t f c (.load addr) (some elem)
  /-- a store: the value is of the type that the address points to -/
  | store {addr v : ValueId} {pt elem : TypeId} (haddr : f.valueType addr = .ok pt)
    (hptr : t.underlyingTy pt = .ok (.pointer elem)) (hv : f.valueType v = .ok elem) :
    Fitting t f c (.store addr v) none
  /-- the address of a field: through a pointer to a struct that has it -/
  | fieldAddr {x : ValueId} {xt elem ptr : TypeId} {fields : List Field} {index : Nat}
    {field : Field} (hx : f.valueType x = .ok xt) (hptr : t.underlyingTy xt = .ok (.pointer elem))
    (hstruct : t.underlyingTy elem = .ok (.struct fields)) (hfield : fields[index]? = some field)
    (hresult : t.get ptr = .ok (.pointer field.ty)) : Fitting t f c (.fieldAddr x index) (some ptr)
  /-- a field: of a struct that has it -/
  | field {x : ValueId} {xt : TypeId} {fields : List Field} {index : Nat} {field : Field}
    (hx : f.valueType x = .ok xt) (hstruct : t.underlyingTy xt = .ok (.struct fields))
    (hfield : fields[index]? = some field) : Fitting t f c (.field x index) (some field.ty)
  /-- arithmetic: the operands are of the type of the result, which is the one wanted -/
  | arithmetic {op : Operator} {x₀ y₀ x y : ValueId} {ty : TypeId}
    (hc : c = .arith op x₀ y₀ ty) (hop : op.isArithmetic = true) (hx : f.valueType x = .ok ty)
    (hy : f.valueType y = .ok ty) : Fitting t f c (.binary op x y) (some ty)
  /-- a shift: the count is of 64 bits unsigned, or of no basic type that is not unsigned -/
  | shift {op : Operator} {x₀ y₀ x y : ValueId} {ty yt : TypeId} (hc : c = .arith op x₀ y₀ ty)
    (hop : op.isShift = true) (hx : f.valueType x = .ok ty) (hy : f.valueType y = .ok yt)
    (hcount : yt = TypeTable.basic .uint64 ∨ t.isBasic yt (!·.isUnsigned) = .ok false) :
    Fitting t f c (.binary op x y) (some ty)
  /-- a comparison: the result is a truth value, whatever the operator -/
  | comparison {op : Operator} {x₀ y₀ x y : ValueId} (hc : c = .compare op x₀ y₀)
    (hmatched : Matched t f x₀ y₀ x y) : Fitting t f c (.binary op x y) (some TypeTable.boolean)
  /-- another name for a type: both are represented alike -/
  | changeType {x : ValueId} {xt target ux ut : TypeId} (hx : f.valueType x = .ok xt)
    (hux : t.underlying xt = .ok ux) (hut : t.underlying target = .ok ut)
    (hsame : t.sameRepresentation ux ut = .ok true) : Fitting t f c (.changeType x) (some target)
  /-- another interface: the value is in one already -/
  | changeInterface {x : ValueId} {xt target ux ut : TypeId} (hx : f.valueType x = .ok xt)
    (hux : t.underlying xt = .ok ux) (hut : t.underlying target = .ok ut)
    (hix : t.isInterface ux = .ok true) (hit : t.isInterface ut = .ok true) :
    Fitting t f c (.changeInterface x) (some target)
  /-- boxing: the value is in no interface, and its type is not untyped -/
  | makeInterface {x : ValueId} {xt target ux ut : TypeId} (hx : f.valueType x = .ok xt)
    (hux : t.underlying xt = .ok ux) (hut : t.underlying target = .ok ut)
    (hix : t.isInterface ux = .ok false) (htyped : t.isBasic ux Kind.isUntyped = .ok false)
    (hit : t.isInterface ut = .ok true) : Fitting t f c (.makeInterface x) (some target)
  /-- a conversion: of a value that is no constant to another representation -/
  | convert {x : ValueId} {xt target ux ut : TypeId} {v : Value} (hx : f.valueType x = .ok xt)
    (hv : f.value x = .ok v) (hconst : v.isConst = false) (hux : t.underlying xt = .ok ux)
    (hut : t.underlying target = .ok ut) (hsame : t.sameRepresentation ux ut = .ok false)
    (hit : t.isInterface ut = .ok false) : Fitting t f c (.convert x) (some target)
  /-- a component: of a tuple that has it -/
  | extract {x : ValueId} {xt : TypeId} {vars : List Var} {index : Nat} {var : Var}
    (hx : f.valueType x = .ok xt) (htuple : t.get xt = .ok (.tuple vars))
    (hvar : vars[index]? = some var) : Fitting t f c (.extract x index) (some var.ty)
  /-- a type assertion: the result is of the type asserted -/
  | typeAssert (x : ValueId) (ty : TypeId) : Fitting t f c (.typeAssert x ty false) (some ty)
  /-- a type test: there is a truth value beside the result -/
  | typeTest {tuple : TypeId} (x : ValueId) (ty : TypeId)
    (htuple : t.get tuple = .ok (.tuple [⟨"value", ty⟩, ⟨"ok", TypeTable.boolean⟩])) :
    Fitting t f c (.typeAssert x ty true) (some tuple)
  /-- a call that gives nothing, in a function that gives nothing -/
  | callNone {sig : Signature} (call : Call) (hsig : t.signatureOf f.signature = .ok sig)
    (hresults : sig.results = []) : Fitting t f c (.call call) none
  /-- a call that gives the one result of the function -/
  | callOne {sig : Signature} {r : Var} (call : Call)
    (hsig : t.signatureOf f.signature = .ok sig) (hresults : sig.results = [r]) :
    Fitting t f c (.call call) (some r.ty)
  /-- a call that gives the results of the function, if there are more, as a tuple -/
  | callTuple {sig : Signature} {tuple : TypeId} (call : Call)
    (hsig : t.signatureOf f.signature = .ok sig) (hmany : 2 ≤ sig.results.length)
    (htuple : t.get tuple = .ok (.tuple sig.results)) : Fitting t f c (.call call) (some tuple)
  /-- a mark on a value -/
  | debugRef (x : ValueId) (pos : SourcePos) (isAddr : Bool) :
    Fitting t f c (.debugRef x pos isAddr) none
  /-- a mark on a step -/
  | trace (kind : StepKind) (start stop : SourcePos) : Fitting t f c (.trace kind start stop) none

/-- An instruction that the command emits is fitting. -/
inductive Instr.Fitting (t : TypeTable) (f : Function) (c : Command) (i : Instr) : Prop
  /-- it defines nothing -/
  | step (hresult : i.result = none) (h : MethodSSA.Fitting t f c i.op none)
  /-- it defines a value -/
  | definition {v : ValueId} {ty : TypeId} (hresult : i.result = some v)
    (hty : f.valueType v = .ok ty) (h : MethodSSA.Fitting t f c i.op (some ty))

/-! ## Answers last -/

theorem TypeTable.Extended.sameRepresentation (h : t.Extended t') {a b : TypeId} {same : Bool}
    (hsame : t.sameRepresentation a b = .ok same) : t'.sameRepresentation a b = .ok same := by
  rw [TypeTable.sameRepresentation] at hsame ⊢
  split
  · next heq => rwa [if_pos heq] at hsame
  · next hne =>
    rw [if_neg hne] at hsame
    obtain ⟨x, hx, hsame⟩ := bind_eq_ok_iff.mp hsame
    obtain ⟨y, hy, hsame⟩ := bind_eq_ok_iff.mp hsame
    exact bind_eq_ok_iff.mpr ⟨x, h.get hx, bind_eq_ok_iff.mpr ⟨y, h.get hy, hsame⟩⟩

section Later

variable (ht : t.Extended t') (hf : f.values <+: f'.values)
include ht hf

theorem Matched.later {x y x' y' : ValueId} (h : Matched t f x y x' y') :
    Matched t' f' x y x' y' := by
  cases h with
  | alike hone hx hy hux huy =>
    exact .alike hone (Builder.valueType_later hf hx) (Builder.valueType_later hf hy)
      (ht.underlying hux) (ht.underlying huy)
  | apart hx hy hux huy hix hiy hvx hvy hcx hcy =>
    exact .apart (Builder.valueType_later hf hx) (Builder.valueType_later hf hy)
      (ht.underlying hux) (ht.underlying huy) (ht.isInterface hix) (ht.isInterface hiy)
      (Builder.value_later hf hvx) (Builder.value_later hf hvy) hcx hcy

/-- **What is fitting stays fitting**, whatever types are entered and values are added. -/
theorem Fitting.later (hsig : f'.signature = f.signature) {c : Command} {op : Operation}
    {result : Option TypeId} (h : Fitting t f c op result) : Fitting t' f' c op result := by
  have hty {v : ValueId} {ty : TypeId} (hv : f.valueType v = .ok ty) : f'.valueType v = .ok ty :=
    Builder.valueType_later hf hv
  have hown {sig : Signature} (hs : t.signatureOf f.signature = .ok sig) :
      t'.signatureOf f'.signature = .ok sig := hsig ▸ ht.signatureOf hs
  cases h with
  | alloc heap hptr => exact .alloc heap (ht.get hptr)
  | load haddr hptr => exact .load (hty haddr) (ht.underlyingTy hptr)
  | store haddr hptr hv => exact .store (hty haddr) (ht.underlyingTy hptr) (hty hv)
  | fieldAddr hx hptr hstruct hfield hresult =>
    exact .fieldAddr (hty hx) (ht.underlyingTy hptr) (ht.underlyingTy hstruct) hfield
      (ht.get hresult)
  | field hx hstruct hfield => exact .field (hty hx) (ht.underlyingTy hstruct) hfield
  | arithmetic hc hop hx hy => exact .arithmetic hc hop (hty hx) (hty hy)
  | shift hc hop hx hy hcount =>
    exact .shift hc hop (hty hx) (hty hy) (hcount.imp_right ht.isBasic)
  | comparison hc hmatched => exact .comparison hc (hmatched.later ht hf)
  | changeType hx hux hut hsame =>
    exact .changeType (hty hx) (ht.underlying hux) (ht.underlying hut) (ht.sameRepresentation hsame)
  | changeInterface hx hux hut hix hit =>
    exact .changeInterface (hty hx) (ht.underlying hux) (ht.underlying hut) (ht.isInterface hix)
      (ht.isInterface hit)
  | makeInterface hx hux hut hix htyped hit =>
    exact .makeInterface (hty hx) (ht.underlying hux) (ht.underlying hut) (ht.isInterface hix)
      (ht.isBasic htyped) (ht.isInterface hit)
  | convert hx hv hconst hux hut hsame hit =>
    exact .convert (hty hx) (Builder.value_later hf hv) hconst (ht.underlying hux)
      (ht.underlying hut) (ht.sameRepresentation hsame) (ht.isInterface hit)
  | extract hx htuple hvar => exact .extract (hty hx) (ht.get htuple) hvar
  | typeAssert x ty => exact .typeAssert x ty
  | typeTest x ty htuple => exact .typeTest x ty (ht.get htuple)
  | callNone call hs hresults => exact .callNone call (hown hs) hresults
  | callOne call hs hresults => exact .callOne call (hown hs) hresults
  | callTuple call hs hmany htuple => exact .callTuple call (hown hs) hmany (ht.get htuple)
  | debugRef x pos isAddr => exact .debugRef x pos isAddr
  | trace kind start stop => exact .trace kind start stop

theorem Instr.Fitting.later (hsig : f'.signature = f.signature) {c : Command} {i : Instr}
    (h : i.Fitting t f c) : i.Fitting t' f' c := by
  cases h with
  | step hresult h => exact .step hresult (h.later ht hf hsig)
  | definition hresult hty h =>
    exact .definition hresult (Builder.valueType_later hf hty) (h.later ht hf hsig)

end Later

namespace Builder

variable {α β : Type} {b b' b'' : Builder} {c : Command}

/-! ## Steps that write fitting instructions -/

/-- The value is the address of a variable. -/
def IsAddress (b : Builder) (v : ValueId) : Prop :=
  ∃ ty elem, b.func.valueType v = .ok ty ∧ b.types.underlyingTy ty = .ok (.pointer elem)

/-- A later state of a draft, to which the command added fitting instructions only. -/
structure Onward (c : Command) (b b' : Builder) : Prop where
  types : b.types.Extended b'.types
  decls : b'.types.decls = b.types.decls
  values : b.func.values <+: b'.func.values
  signature : b'.func.signature = b.func.signature
  named : ∀ v ∈ b'.func.namedResults, v ∈ b.func.namedResults ∨ b'.IsAddress v
  instrs : ∃ more, b'.func.instrs = b.func.instrs ++ more ∧
    ∀ i ∈ more, i.Fitting b'.types b'.func c

namespace Onward

/-- Something is done that emits nothing. -/
theorem quiet (htypes : b.types.Entered b'.types) (hvalues : b.func.values <+: b'.func.values)
    (hsig : b'.func.signature = b.func.signature)
    (hnamed : b'.func.namedResults = b.func.namedResults)
    (hinstrs : b'.func.instrs = b.func.instrs) : Onward c b b' where
  types := htypes.extended
  decls := htypes.decls
  values := hvalues
  signature := hsig
  named v hv := .inl (hnamed ▸ hv)
  instrs := ⟨[], by rw [hinstrs, List.append_nil], nofun⟩

theorem refl (b : Builder) : Onward c b b := quiet (.refl _) List.prefix_rfl rfl rfl rfl

section Facts

variable (h : Onward c b b')
include h

theorem valueType {v : ValueId} {ty : TypeId} (hv : b.func.valueType v = .ok ty) :
    b'.func.valueType v = .ok ty := valueType_later h.values hv

theorem isAddress {v : ValueId} (hv : b.IsAddress v) : b'.IsAddress v := by
  obtain ⟨ty, elem, hty, hptr⟩ := hv
  exact ⟨ty, elem, h.valueType hty, h.types.underlyingTy hptr⟩

theorem trans (h' : Onward c b' b'') : Onward c b b'' where
  types := h.types.trans h'.types
  decls := h'.decls.trans h.decls
  values := h.values.trans h'.values
  signature := h'.signature.trans h.signature
  named v hv := by
    rcases h'.named v hv with hv | hv
    · exact (h.named v hv).imp_right h'.isAddress
    · exact .inr hv
  instrs := by
    obtain ⟨more, hmore, hfit⟩ := h.instrs
    obtain ⟨more', hmore', hfit'⟩ := h'.instrs
    refine ⟨more ++ more', by rw [hmore', hmore, List.append_assoc], fun i hi => ?_⟩
    rcases List.mem_append.mp hi with hi | hi
    · exact (hfit i hi).later h'.types h'.values h'.signature
    · exact hfit' i hi

end Facts

end Onward

/-- Whatever the step ends with, it emits fitting instructions only, and ends as `Q` has it. -/
def Writes (c : Command) (x : Build α) (b : Builder) (Q : α → Builder → Prop) : Prop :=
  ∀ ⦃a b'⦄, x.run b = .ok (a, b') → Onward c b b' ∧ Q a b'

/-- The same of a step that may fail; nothing is said of its end if it does. -/
def WritesTry (c : Command) (x : TryBuild α) (b : Builder) (Q : α → Builder → Prop) : Prop :=
  Writes c x.run b fun r b' => ∀ a, r = .ok a → Q a b'

namespace Writes

variable {x : Build α} {f : α → Build β} {Q Q' : α → Builder → Prop} {R : β → Builder → Prop}

theorem mono (h : Writes c x b Q) (hq : ∀ a b', Onward c b b' → Q a b' → Q' a b') :
    Writes c x b Q' := by
  intro a b' hrun
  obtain ⟨h', ha⟩ := h hrun
  exact ⟨h', hq a b' h' ha⟩

theorem pure {a : α} (h : Q a b) : Writes c (pure a) b Q := by
  rintro _ _ ⟨⟩
  exact ⟨.refl b, h⟩

theorem throw (e : Fault) : Writes c (throw e : Build α) b Q := by
  rintro _ _ ⟨⟩

theorem bind (h : Writes c x b Q)
    (hf : ∀ a b', Onward c b b' → Q a b' → Writes c (f a) b' R) : Writes c (x >>= f) b R := by
  intro y b' hrun
  obtain ⟨a, b₁, hx, hrest⟩ := exists_of_bind hrun
  obtain ⟨h₁, ha⟩ := h hx
  obtain ⟨h₂, hy⟩ := hf a b₁ h₁ ha hrest
  exact ⟨h₁.trans h₂, hy⟩

theorem ite {p : Prop} [Decidable p] {y : Build α} (hx : p → Writes c x b Q)
    (hy : ¬ p → Writes c y b Q) : Writes c (if p then x else y) b Q := by
  split
  · next hp => exact hx hp
  · next hp => exact hy hp

/-! ### Questions -/

theorem getThen {f : Builder → Build β} (hf : Writes c (f b) b R) : Writes c (get >>= f) b R := hf

theorem answerThen {y : Except Fault α} (hf : ∀ a, y = .ok a → Writes c (f a) b R) :
    Writes c (liftM y >>= f) b R := by
  intro z b' hrun
  obtain ⟨a, ha, hrest⟩ := exists_of_answer_bind hrun
  exact hf a ha hrest

theorem askThen {question : TypeTable → Except Fault α}
    (hf : ∀ a, question b.types = .ok a → Writes c (f a) b R) :
    Writes c (ask question >>= f) b R := by
  intro z b' hrun
  obtain ⟨a, b₁, hask, hrest⟩ := exists_of_bind hrun
  obtain ⟨ha, rfl⟩ := of_ask hask
  exact hf a ha hrest

theorem valueTypeThen {v : ValueId} {f : TypeId → Build β}
    (hf : ∀ ty, b.func.valueType v = .ok ty → Writes c (f ty) b R) :
    Writes c (valueType v >>= f) b R := by
  intro z b' hrun
  obtain ⟨ty, b₁, hread, hrest⟩ := exists_of_bind hrun
  obtain ⟨hty, rfl⟩ := of_valueType hread
  exact hf ty hty hrest

theorem valueThen {v : ValueId} {f : Value → Build β}
    (hf : ∀ x, b.func.value v = .ok x → Writes c (f x) b R) : Writes c (value v >>= f) b R := by
  intro z b' hrun
  obtain ⟨x, b₁, hread, hrest⟩ := exists_of_bind hrun
  obtain ⟨x', hx, ⟨⟩⟩ := bind_eq_ok_iff.mp (hread : (b.func.value v >>= fun x => .ok (x, b)) = _)
  exact hf x hx hrest

theorem ownSignatureThen {f : Signature → Build β}
    (hf : ∀ sig, b.types.signatureOf b.func.signature = .ok sig → Writes c (f sig) b R) :
    Writes c (ownSignature >>= f) b R := by
  intro z b' hrun
  obtain ⟨sig, b₁, hread, hrest⟩ := exists_of_bind hrun
  obtain ⟨hsig, rfl⟩ := of_ownSignature hread
  exact hf sig hsig hrest

/-! ### Lists of steps -/

/-- Each step of a list writes if what it asks for outlasts the steps before it. -/
theorem mapM {f : α → Build β} {P : α → Builder → Prop}
    (hlater : ∀ {a b b'}, P a b → Onward c b b' → P a b')
    (hf : ∀ {a b}, P a b → Writes c (f a) b fun _ _ => True) (l : List α) (h : ∀ a ∈ l, P a b) :
    Writes c (l.mapM f) b fun _ _ => True := by
  induction l generalizing b with
  | nil =>
    rw [List.mapM_nil]
    exact pure trivial
  | cons a l ih =>
    rw [List.mapM_cons]
    obtain ⟨ha, hl⟩ := List.forall_mem_cons.mp h
    refine (hf ha).bind fun y b₁ h₁ _ => ?_
    exact (ih fun a' ha' => hlater (hl a' ha') h₁).bind fun ys b₂ _ _ => pure trivial

/-- The same of steps that ask for nothing. -/
theorem mapMAll {f : α → Build β} (hf : ∀ a b, Writes c (f a) b fun _ _ => True) (l : List α) :
    Writes c (l.mapM f) b fun _ _ => True :=
  mapM (P := fun _ _ => True) (fun _ _ => trivial) (fun _ => hf _ _) l fun _ _ => trivial

theorem forM {f : α → Build PUnit} (hf : ∀ a b, Writes c (f a) b fun _ _ => True) (l : List α) :
    Writes c (l.forM f) b fun _ _ => True := by
  induction l generalizing b with
  | nil => exact pure trivial
  | cons a l ih => exact (hf a b).bind fun _ _ _ _ => ih

end Writes

namespace WritesTry

variable {x : Build α} {y : TryBuild α} {f : α → TryBuild β} {Q : α → Builder → Prop}
  {R : β → Builder → Prop}

theorem pure {a : α} (h : Q a b) : WritesTry c (pure a) b Q :=
  Writes.pure fun a' ha => by
    cases ha
    exact h

theorem fail (e : BuildError) : WritesTry c (throw e : TryBuild α) b Q := Writes.pure nofun

/-- What follows a step that may fail. -/
theorem andThen (h : WritesTry c y b Q)
    (hf : ∀ a b', Onward c b b' → Q a b' → WritesTry c (f a) b' R) : WritesTry c (y >>= f) b R := by
  refine Writes.bind h fun r b' hb' hr => ?_
  cases r with
  | error e => exact Writes.pure nofun
  | ok a => exact hf a b' hb' (hr a rfl)

theorem lift (h : Writes c x b Q) : WritesTry c (liftM x) b Q :=
  h.bind fun a b' _ ha => Writes.pure fun a' heq => by
    cases heq
    exact ha

/-- What follows a step that cannot fail. -/
theorem liftThen (h : Writes c x b Q)
    (hf : ∀ a b', Onward c b b' → Q a b' → WritesTry c (f a) b' R) :
    WritesTry c (liftM x >>= f) b R :=
  (lift h).andThen hf

/-! ### Questions -/

theorem askThen {question : TypeTable → Except Fault α}
    (hf : ∀ a, question b.types = .ok a → WritesTry c (f a) b R) :
    WritesTry c (liftM (ask question) >>= f) b R := by
  intro z b' hrun
  obtain ⟨a, b₁, hask, hrest⟩ := exists_of_lift_bind hrun
  obtain ⟨ha, rfl⟩ := of_ask hask
  exact hf a ha hrest

theorem valueTypeThen {v : ValueId} {f : TypeId → TryBuild β}
    (hf : ∀ ty, b.func.valueType v = .ok ty → WritesTry c (f ty) b R) :
    WritesTry c (liftM (valueType v) >>= f) b R := by
  intro z b' hrun
  obtain ⟨ty, b₁, hread, hrest⟩ := exists_of_lift_bind hrun
  obtain ⟨hty, rfl⟩ := of_valueType hread
  exact hf ty hty hrest

theorem ite {p : Prop} [Decidable p] {z : TryBuild α} (hy : p → WritesTry c y b Q)
    (hz : ¬ p → WritesTry c z b Q) : WritesTry c (if p then y else z) b Q := by
  split
  · next hp => exact hy hp
  · next hp => exact hz hp

end WritesTry

end Builder

end MethodSSA
