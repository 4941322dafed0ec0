import Mathlib.Data.List.Induction
import MethodSSA.Proofs.Draft.Appending
import MethodSSA.Proofs.Draft.Following
import MethodSSA.Proofs.Draft.Writing
import MethodSSA.Proofs.Types.Nesting

/-!
# Embedded fields

A path of embedded fields is followed step by step, as if each field of it were selected by
itself: its address if it holds no pointer, and its content if it does (`selectEmbedded`). What
the steps emit depends on the value that each starts from and on the field (`StepCode`). A value
that is no pointer stays one until a field holds a pointer; from then on only addresses are
taken (`SelectionCode.split`).

`followPath_eq_foldlM` is the whole account: which code stands there if the path is followed to
its end, and which field is at fault if it is not. The error for a field at fault names a type by
its text, and there need not be one if the signature of a function is a declared type or no
signature at all (`followPath_eq_foldlM_unsigned`).
-/

namespace MethodSSA

/-- The code that selects the embedded field `index` of `v`, of type `ty`; and what it gives. -/
inductive StepCode (t : TypeTable) (vals : List Value) (block : BlockId) (v : ValueId)
    (ty : TypeId) (index : Nat) : ValueId → TypeId → List Instr → Prop
  /-- a field of a value -/
  | field {f : Field} {w : ValueId} (hfield : t.structField? ty index = .ok (some f))
    (hptr : t.isPointer ty = .ok false) (hw : TypedAs vals w f.ty) :
    StepCode t vals block v ty index w f.ty [⟨block, .field v index, some w, .none⟩]
  /-- through a pointer, a field that holds no pointer: its address -/
  | addr {f : Field} {w : ValueId} {ptr : TypeId}
    (hfield : t.structField? ty index = .ok (some f)) (hptr : t.isPointer ty = .ok true)
    (hplain : t.isPointer f.ty = .ok false) (hget : t.get ptr = .ok (.pointer f.ty))
    (hw : TypedAs vals w ptr) :
    StepCode t vals block v ty index w ptr [⟨block, .fieldAddr v index, some w, .none⟩]
  /-- through a pointer, a field that holds a pointer: its content -/
  | content {f : Field} {u w : ValueId} {ptr : TypeId}
    (hfield : t.structField? ty index = .ok (some f)) (hptr : t.isPointer ty = .ok true)
    (hpointer : t.isPointer f.ty = .ok true) (hget : t.get ptr = .ok (.pointer f.ty))
    (hu : TypedAs vals u ptr) (hw : TypedAs vals w f.ty) :
    StepCode t vals block v ty index w f.ty
      [⟨block, .fieldAddr v index, some u, .none⟩, ⟨block, .load u, some w, .none⟩]

/-- The code that follows a path from `start`, of type `base`: one step for each field, each
from where the one before it led. -/
inductive SelectionCode (t : TypeTable) (vals : List Value) (block : BlockId) (start : ValueId)
    (base : TypeId) : List Nat → ValueId → TypeId → List Instr → Prop
  /-- nothing to follow -/
  | nil : SelectionCode t vals block start base [] start base []
  /-- one field more -/
  | snoc {path : List Nat} {v w : ValueId} {ty ty' : TypeId} {index : Nat}
    {code more : List Instr} (h : SelectionCode t vals block start base path v ty code)
    (hstep : StepCode t vals block v ty index w ty' more) :
    SelectionCode t vals block start base (path ++ [index]) w ty' (code ++ more)

/-- The error for a field `index` that a type does not have. It gives the text of the type. -/
inductive Refuses (t : TypeTable) (ty : TypeId) (index : Nat) : BuildError → Prop
  /-- it is no struct, nor a pointer to one -/
  | notAStruct {text : String} (hfields : t.structFields? ty = .ok none)
    (htext : t.typeText ty = .ok text) : Refuses t ty index (.notAStruct ty text)
  /-- the struct has fewer fields -/
  | noSuchField {text : String} {fields : List Field}
    (hfields : t.structFields? ty = .ok (some fields)) (hindex : fields[index]? = none)
    (htext : t.typeText ty = .ok text) : Refuses t ty index (.noSuchField ty text index)

section Growth

variable {t t' : TypeTable} {vals vals' : List Value} {block : BlockId}

theorem TypeTable.Extended.structFields? (h : t.Extended t') {ty : TypeId}
    {fields? : Option (List Field)} (hf : t.structFields? ty = .ok fields?) :
    t'.structFields? ty = .ok fields? := by
  obtain ⟨elem, helem, hf⟩ := bind_eq_ok_iff.mp hf
  obtain ⟨u, hu, hf⟩ := bind_eq_ok_iff.mp hf
  exact bind_eq_ok_iff.mpr ⟨elem, h.deref helem, bind_eq_ok_iff.mpr ⟨u, h.underlyingTy hu, hf⟩⟩

theorem TypeTable.Extended.structField? (h : t.Extended t') {ty : TypeId} {index : Nat}
    {f? : Option Field} (hf : t.structField? ty index = .ok f?) :
    t'.structField? ty index = .ok f? := by
  obtain ⟨fields?, hfields, hf⟩ := bind_eq_ok_iff.mp hf
  exact bind_eq_ok_iff.mpr ⟨fields?, h.structFields? hfields, hf⟩

variable (ht : t.Extended t') (hvals : ∀ {v ty}, TypedAs vals v ty → TypedAs vals' v ty)
include ht hvals

/-- Code stays as it is described. -/
theorem StepCode.later {v w : ValueId} {ty ty' : TypeId} {index : Nat} {code : List Instr}
    (h : StepCode t vals block v ty index w ty' code) :
    StepCode t' vals' block v ty index w ty' code := by
  cases h with
  | field hfield hptr hw => exact .field (ht.structField? hfield) (ht.isPointer hptr) (hvals hw)
  | addr hfield hptr hplain hget hw =>
    exact .addr (ht.structField? hfield) (ht.isPointer hptr) (ht.isPointer hplain) (ht.get hget)
      (hvals hw)
  | content hfield hptr hpointer hget hu hw =>
    exact .content (ht.structField? hfield) (ht.isPointer hptr) (ht.isPointer hpointer)
      (ht.get hget) (hvals hu) (hvals hw)

theorem SelectionCode.later {start v : ValueId} {base ty : TypeId} {path : List Nat}
    {code : List Instr} (h : SelectionCode t vals block start base path v ty code) :
    SelectionCode t' vals' block start base path v ty code := by
  induction h with
  | nil => exact .nil
  | snoc _ hstep ih => exact .snoc ih (hstep.later ht hvals)

end Growth

section Facts

variable {t : TypeTable} {vals : List Value} {block : BlockId}

theorem StepCode.typed {v w : ValueId} {ty ty' : TypeId} {index : Nat} {code : List Instr}
    (h : StepCode t vals block v ty index w ty' code) : TypedAs vals w ty' := by
  cases h with
  | field _ _ hw | addr _ _ _ _ hw | content _ _ _ _ _ hw => exact hw

theorem SelectionCode.typed {start v : ValueId} {base ty : TypeId} {path : List Nat}
    {code : List Instr} (h : SelectionCode t vals block start base path v ty code)
    (hstart : TypedAs vals start base) : TypedAs vals v ty := by
  cases h with
  | nil => exact hstart
  | snoc _ hstep => exact hstep.typed

/-- **From a pointer on, only addresses are taken.** The code starts with fields of values, and
after the first pointer there are none. -/
theorem SelectionCode.split {start v : ValueId} {base ty : TypeId} {path : List Nat}
    {code : List Instr} (h : SelectionCode t vals block start base path v ty code) :
    ∃ fields addrs, code = fields ++ addrs ∧ (∀ i ∈ fields, ∃ x index, i.op = .field x index) ∧
      (∀ i ∈ addrs, ∀ x index, i.op ≠ .field x index) ∧
      (addrs ≠ [] → t.isPointer ty = .ok true) := by
  induction h with
  | nil => exact ⟨[], [], rfl, nofun, nofun, nofun⟩
  | @snoc path v w ty ty' index code more _ hstep ih =>
    obtain ⟨fields, addrs, rfl, hfields, haddrs, hpointer⟩ := ih
    -- through a pointer, the new step takes no field
    have hthrough : (∀ i ∈ more, ∀ x index, i.op ≠ .field x index) → t.isPointer ty' = .ok true →
        ∃ fields' addrs', fields ++ addrs ++ more = fields' ++ addrs' ∧
          (∀ i ∈ fields', ∃ x index, i.op = .field x index) ∧
          (∀ i ∈ addrs', ∀ x index, i.op ≠ .field x index) ∧
          (addrs' ≠ [] → t.isPointer ty' = .ok true) := by
      intro hmore hptr
      refine ⟨fields, addrs ++ more, List.append_assoc .., hfields, fun i hi => ?_, fun _ => hptr⟩
      rcases List.mem_append.mp hi with hi | hi
      · exact haddrs i hi
      · exact hmore i hi
    cases hstep with
    | field hfield hptr hw =>
      -- a field of a value: no pointer was met before
      have hnone : addrs = [] := by
        by_contra hne
        cases (hpointer hne).symm.trans hptr
      subst hnone
      refine ⟨_, [], (List.append_nil _).symm, fun i hi => ?_, nofun, nofun⟩
      rw [List.append_nil] at hi
      rcases List.mem_append.mp hi with hi | hi
      · exact hfields i hi
      · obtain rfl := List.mem_singleton.mp hi
        exact ⟨v, index, rfl⟩
    | addr hfield hptr hplain hget hw =>
      apply hthrough
      · simp
      · exact TypeTable.isPointer_eq (TypeTable.underlyingTy_plain hget rfl)
    | content hfield hptr hpointer' hget hu hw =>
      apply hthrough
      · simp
      · exact hpointer'

end Facts

namespace TypeTable

variable {t : TypeTable}

/-- A type of the table has fields or it has none. -/
theorem Sound.exists_structFields? (hs : t.Sound) {ty : TypeId} (h : t.Holds ty) :
    ∃ fields?, t.structFields? ty = .ok fields? := by
  obtain ⟨elem, helem, hheld⟩ := hs.exists_deref h
  obtain ⟨u, hu⟩ := hs.exists_underlyingTy hheld
  exact ⟨u.fields?, bind_eq_ok_iff.mpr ⟨elem, helem, bind_eq_ok_iff.mpr ⟨u, hu, rfl⟩⟩⟩

/-- The type of a field is in the table. -/
theorem Sound.holds_structField? (hs : t.Sound) {ty : TypeId} {index : Nat} {f : Field}
    (h : t.structField? ty index = .ok (some f)) : t.Holds f.ty := by
  obtain ⟨fields?, hfields, hf⟩ := bind_eq_ok_iff.mp h
  obtain ⟨fields, rfl, hmem⟩ := Option.bind_eq_some_iff.mp (Except.ok.inj hf)
  obtain ⟨elem, helem, hfields⟩ := bind_eq_ok_iff.mp hfields
  obtain ⟨u, hu, hfields⟩ := bind_eq_ok_iff.mp hfields
  obtain ⟨id, hid, hget⟩ := bind_eq_ok_iff.mp hu
  cases u <;> cases hfields
  exact (hs.holds_field hget (List.mem_of_getElem? hmem)).1

theorem structField?_eq {ty : TypeId} {fields? : Option (List Field)}
    (h : t.structFields? ty = .ok fields?) (index : Nat) :
    t.structField? ty index = .ok (fields?.bind (·[index]?)) := by
  rw [structField?, h]
  rfl

/-- A type with a text is refused exactly if it has no such field. -/
theorem structField?_eq_none_iff {ty : TypeId} {index : Nat} {text : String}
    (htext : t.typeText ty = .ok text) :
    t.structField? ty index = .ok none ↔ ∃ e, Refuses t ty index e := by
  constructor
  · intro h
    obtain ⟨fields?, hfields, hnone⟩ := bind_eq_ok_iff.mp h
    cases fields? with
    | none => exact ⟨_, .notAStruct hfields htext⟩
    | some fields => exact ⟨_, .noSuchField hfields (Except.ok.inj hnone) htext⟩
  · rintro ⟨e, h⟩
    cases h with
    | notAStruct hfields => exact structField?_eq hfields index
    | noSuchField hfields hindex =>
      rw [structField?_eq hfields index]
      exact congrArg Except.ok hindex

end TypeTable

namespace Builder

variable {b b' : Builder} {block : BlockId}

/-! ## One field -/

/-- What a fault can be when a field is selected from a value of type `ty` in a table without
foreign identifiers: there is no such field, and the text of the type has no end. -/
def Wordless (b : Builder) (ty : TypeId) (index : Nat) (e : Fault) : Prop :=
  b.types.Sound → b.types.Holds ty →
    b.types.structField? ty index = .ok none ∧ b.types.typeText ty = .error e

theorem fieldOf_settles {v : ValueId} {ty : TypeId} (hv : TypedAs b.func.values v ty)
    (index : Nat) :
    Settles (b.Wordless ty index) (fieldOf v index).run b fun r b' => b' = b ∧
      ((∃ f, r = .ok f ∧ b.types.structField? ty index = .ok (some f)) ∨
        ∃ e, r = .error e ∧ Refuses b.types ty index e) := by
  refine .stepLift (valueType_run hv) (settles_liftAsk ?_ fun fields? hfields => ?_)
  · intro e he hs hheld
    obtain ⟨fields?, hfields⟩ := hs.exists_structFields? hheld
    cases hfields.symm.trans he
  have hfield := TypeTable.structField?_eq hfields index
  cases fields? with
  | none =>
    refine settles_liftAsk (fun e he _ _ => ⟨hfield, he⟩) fun text htext => ?_
    exact .inl (.pure ⟨rfl, .inr ⟨_, rfl, .notAStruct hfields htext⟩⟩)
  | some fields =>
    change b.types.structField? ty index = .ok fields[index]? at hfield
    simp only
    rcases hf : fields[index]? with _ | f
    · rw [hf] at hfield
      refine settles_liftAsk (fun e he _ _ => ⟨hfield, he⟩) fun text htext => ?_
      exact .inl (.pure ⟨rfl, .inr ⟨_, rfl, .noSuchField hfields hf htext⟩⟩)
    · rw [hf] at hfield
      exact .inl (.pure ⟨rfl, .inl ⟨f, rfl, hfield⟩⟩)

/-- How the selection of one field ends. -/
inductive Selected (block : BlockId) (b : Builder) (v : ValueId) (ty : TypeId) (index : Nat) :
    Except BuildError ValueId → Builder → Prop
  /-- with the field -/
  | field {b' : Builder} {w : ValueId} {ty' : TypeId} {code : List Instr}
    (h : Appends block code b b')
    (hstep : StepCode b'.types b'.func.values block v ty index w ty' code)
    (hsound : b.types.Sound → b'.types.Sound ∧ b'.types.Holds ty') :
    Selected block b v ty index (.ok w) b'
  /-- with an error, and nothing was done -/
  | refused {e : BuildError} (h : Refuses b.types ty index e) :
    Selected block b v ty index (.error e) b

/-- **One embedded field is selected**, or it is refused. -/
theorem followField_settles (hopen : b.current = some block) {v : ValueId} {ty : TypeId}
    (hv : TypedAs b.func.values v ty) (index : Nat) :
    Settles (b.Wordless ty index) (followField v index).run b (Selected block b v ty index) := by
  refine Settles.bind (fieldOf_settles hv index) fun r b' hr => ?_
  obtain ⟨rfl, ⟨f, rfl, hfield⟩ | ⟨e, rfl, hrefuses⟩⟩ := hr
  swap
  · exact .inl (.pure (.refused hrefuses))
  -- with the field, the only faults left are those of foreign identifiers
  have hnever {t : TypeTable} {ty' : TypeId} {e : Fault} (ht : b'.types.Extended t)
      (hheld : b'.types.Sound → b'.types.Holds ty → ∃ p, b'.types.isPointer ty' = .ok p)
      (he : t.isPointer ty' = .error e) : b'.Wordless ty index e := by
    intro hs hty
    obtain ⟨p, hp⟩ := hheld hs hty
    cases (ht.isPointer hp).symm.trans he
  refine .stepLift (valueType_run hv) (settles_liftAsk ?_ fun p hp => ?_)
  · intro e he
    exact hnever (.refl _) (fun hs hty => hs.exists_isPointer hty) he
  cases p with
  | false =>
    refine settles_last (.inl (emitValue_appends hopen f.ty fun x hx => ?_)) ?_
    · obtain rfl := List.mem_singleton.mp hx
      exact ⟨ty, hv⟩
    rintro w b₁ ⟨h₁, hw, htypes⟩
    refine .field h₁ (.field (h₁.types.extended.structField? hfield)
      (h₁.types.extended.isPointer hp) hw) fun hs => ?_
    rw [htypes]
    exact ⟨hs, hs.holds_structField? hfield⟩
  | true =>
    have haddr : Yields (fieldAddr v index f) b' fun u b₁ =>
        Appends block [⟨block, .fieldAddr v index, some u, .none⟩] b' b₁ ∧
          (∃ ptr, TypedAs b₁.func.values u ptr ∧ b₁.types.get ptr = .ok (.pointer f.ty)) ∧
          (b'.types.Sound → b₁.types.Sound) := by
      refine (intern_appends block _).bind ?_
      rintro ptr b₁ ⟨h₁, hptr, -, hsound⟩
      have hopen₁ : b₁.current = some block := h₁.current.trans hopen
      refine (emitValue_appends hopen₁ ptr fun x hx => ?_).mono ?_
      · obtain rfl := List.mem_singleton.mp hx
        exact ⟨ty, h₁.typedAs hv⟩
      rintro u b₂ ⟨h₂, hu, htypes⟩
      refine ⟨h₁.trans h₂, ⟨ptr, hu, h₂.types.extended.get hptr⟩, fun hs => ?_⟩
      rw [htypes]
      apply hsound hs
      refine TypeTable.admits_of_components (fun c hc => ?_) rfl rfl
      obtain rfl := List.mem_singleton.mp hc
      exact hs.holds_structField? hfield
    refine settles_lift (.inl haddr) ?_
    rintro u b₁ ⟨h₁, ⟨ptr, hu, hget⟩, hsound⟩
    have hfield₁ := h₁.types.extended.structField? hfield
    have hp₁ := h₁.types.extended.isPointer hp
    refine settles_liftAsk ?_ fun q hq => ?_
    · intro e he
      have hknown : b'.types.Sound → b'.types.Holds ty → ∃ p, b'.types.isPointer f.ty = .ok p :=
        fun hs _ => hs.exists_isPointer (hs.holds_structField? hfield)
      exact hnever h₁.types.extended hknown he
    cases q with
    | false =>
      refine .inl (.pure (.field h₁ (.addr hfield₁ hp₁ hq hget hu) fun hs => ?_))
      exact ⟨hsound hs, TypeTable.holds_of_get hget⟩
    | true =>
      have hopen₁ : b₁.current = some block := h₁.current.trans hopen
      have hderef := TypeTable.deref_eq (TypeTable.underlyingTy_plain hget rfl)
      refine settles_last (.inl (load_appends hopen₁ hu hderef)) ?_
      rintro w b₂ ⟨h₂, hw, htypes⟩
      have ht := h₂.types.extended
      refine .field (h₁.trans h₂) (.content (ht.structField? hfield₁) (ht.isPointer hp₁)
        (ht.isPointer hq) (ht.get hget) (h₂.typedAs hu) hw) fun hs => ?_
      rw [htypes]
      exact ⟨hsound hs, (hsound hs).holds_structField? hfield₁⟩

/-! ## A path of fields -/

section Runs

variable {α β : Type} {x : TryBuild α} {f : α → TryBuild β}

/-- What follows a step that gave an answer. -/
theorem run_bind_of_ok {a : α} (h : x.run.run b = .ok (.ok a, b')) :
    (x >>= f).run.run b = (f a).run.run b' := by
  change (x.run >>= _).run b = _
  rw [StateT.run_bind, h]
  rfl

/-- Nothing follows an error. -/
theorem run_bind_of_error {e : BuildError} (h : x.run.run b = .ok (.error e, b')) :
    (x >>= f).run.run b = .ok (.error e, b') := by
  change (x.run >>= _).run b = _
  rw [StateT.run_bind, h]
  rfl

/-- Nothing follows a fault. -/
theorem run_bind_of_fault {e : Fault} (h : x.run.run b = .error e) :
    (x >>= f).run.run b = .error e := by
  change (x.run >>= _).run b = _
  rw [StateT.run_bind, h]
  rfl

variable {y : Build α}

/-- What follows a step that cannot fail. -/
theorem run_lift_bind_of_ok {a : α} (h : y.run b = .ok (a, b')) :
    (liftM y >>= f).run.run b = (f a).run.run b' := by
  apply run_bind_of_ok
  change (y >>= fun a => pure (Except.ok a)).run b = _
  rw [StateT.run_bind, h]
  rfl

theorem run_lift_bind_of_fault {e : Fault} (h : y.run b = .error e) :
    (liftM y >>= f).run.run b = .error e := by
  apply run_bind_of_fault
  change (y >>= fun a => pure (Except.ok a)).run b = _
  rw [StateT.run_bind, h]
  rfl

end Runs

theorem followPath_append (v : ValueId) (path rest : List Nat) :
    followPath v (path ++ rest) = followPath v path >>= fun u => followPath u rest := by
  rw [followPath, List.foldlM_append]
  rfl

theorem followPath_snoc (v : ValueId) (path : List Nat) (index : Nat) :
    followPath v (path ++ [index]) = followPath v path >>= fun u => followField u index := by
  rw [followPath_append]
  congr 1
  funext u
  simp [followPath]

/-- How a path ends. -/
inductive PathEnd (block : BlockId) (b : Builder) (start : ValueId) (base : TypeId)
    (path : List Nat) : Except Fault (Except BuildError ValueId × Builder) → Prop
  /-- with the last field -/
  | done {b' : Builder} {v : ValueId} {ty : TypeId} {code : List Instr}
    (h : Appends block code b b')
    (hcode : SelectionCode b'.types b'.func.values block start base path v ty code)
    (hsound : b.types.Sound → b.types.Holds base → b'.types.Sound ∧ b'.types.Holds ty) :
    PathEnd block b start base path (.ok (.ok v, b'))
  /-- at a field that is refused, after the steps before it -/
  | refused {b' : Builder} {done rest : List Nat} {index : Nat} {v : ValueId} {ty : TypeId}
    {e : BuildError} (hpath : path = done ++ index :: rest)
    (hdone : (followPath start done).run.run b = .ok (.ok v, b'))
    (hv : TypedAs b'.func.values v ty) (h : Refuses b'.types ty index e) :
    PathEnd block b start base path (.ok (.error e, b'))
  /-- at a field that is refused, for a text without end, or at a foreign identifier -/
  | fault {b' : Builder} {done rest : List Nat} {index : Nat} {v : ValueId} {ty : TypeId}
    {e : Fault} (hpath : path = done ++ index :: rest)
    (hdone : (followPath start done).run.run b = .ok (.ok v, b'))
    (hv : TypedAs b'.func.values v ty)
    (hsound : b.types.Sound → b.types.Holds base → b'.types.Sound ∧ b'.types.Holds ty)
    (h : b'.Wordless ty index e) : PathEnd block b start base path (.error e)

/-- **A path is followed to its end**, or to the first field that is refused. -/
theorem followPath_end (hopen : b.current = some block) {start : ValueId} {base : TypeId}
    (hstart : TypedAs b.func.values start base) (path : List Nat) :
    PathEnd block b start base path ((followPath start path).run.run b) := by
  induction path using List.reverseRecOn with
  | nil => exact .done (.refl block b) .nil fun hs hheld => ⟨hs, hheld⟩
  | append_singleton path index ih =>
    rw [followPath_snoc]
    generalize hrun : (followPath start path).run.run b = r at ih
    cases ih with
    | @done b₁ v ty code h hcode hsound =>
      rw [run_bind_of_ok hrun]
      have hopen₁ : b₁.current = some block := h.current.trans hopen
      have hv := hcode.typed (h.typedAs hstart)
      rcases followField_settles hopen₁ hv index with ⟨r, b₂, hfield, hr⟩ | ⟨e, hfield, he⟩
      · rw [hfield]
        cases hr with
        | field h' hstep hsound' =>
          refine .done (h.trans h') (.snoc (hcode.later h'.types.extended h'.typedAs) hstep) ?_
          intro hs hheld
          exact hsound' (hsound hs hheld).1
        | refused hrefuses => exact .refused rfl hrun hv hrefuses
      · rw [hfield]
        exact .fault rfl hrun hv hsound he
    | refused hpath hdone hv hrefuses =>
      have hlonger := congrArg (· ++ [index]) hpath
      simp only [List.append_assoc, List.cons_append] at hlonger
      rw [run_bind_of_error hrun]
      exact .refused hlonger hdone hv hrefuses
    | fault hpath hdone hv hsound h =>
      have hlonger := congrArg (· ++ [index]) hpath
      simp only [List.append_assoc, List.cons_append] at hlonger
      rw [run_bind_of_fault hrun]
      exact .fault hlonger hdone hv hsound h

/-- A refused field ends the path. -/
theorem run_of_refused {done rest : List Nat} {index : Nat} {start v : ValueId} {ty : TypeId}
    {e : BuildError} (hdone : (followPath start done).run.run b = .ok (.ok v, b'))
    (hv : TypedAs b'.func.values v ty) (h : Refuses b'.types ty index e) :
    (followPath start (done ++ index :: rest)).run.run b = .ok (.error e, b') := by
  have hfield : (fieldOf v index).run.run b' = .ok (.error e, b') := by
    have hread : (valueType v).run b' = .ok (ty, b') := valueType_run hv
    cases h with
    | @notAStruct text hfields htext =>
      have hask : (typeText ty).run b' = .ok (text, b') := ask_run htext
      have hfields' : (structFields? ty).run b' = .ok (none, b') := ask_run hfields
      rw [fieldOf, run_lift_bind_of_ok hread, run_lift_bind_of_ok hfields',
        run_lift_bind_of_ok hask]
      rfl
    | @noSuchField text fields hfields hindex htext =>
      have hask : (typeText ty).run b' = .ok (text, b') := ask_run htext
      have hfields' : (structFields? ty).run b' = .ok (some fields, b') := ask_run hfields
      rw [fieldOf, run_lift_bind_of_ok hread, run_lift_bind_of_ok hfields']
      simp only [hindex]
      rw [run_lift_bind_of_ok hask]
      rfl
  rw [followPath_append, run_bind_of_ok hdone, followPath, List.foldlM_cons]
  apply run_bind_of_error
  rw [followField]
  exact run_bind_of_error hfield

/-! ## Selection by selection -/

/-- A field that is selected by itself: its address if it holds no pointer, else its content. -/
def selectEmbedded (v : ValueId) (index : Nat) : TryBuild ValueId := do
  let field ← fieldOf v index
  selectField v index (!(← isPointer field.ty))

/-- **To follow one field is to select it.** -/
theorem followField_eq (hs : b.types.Sound) (v : ValueId) (index : Nat) :
    (followField v index).run.run b = (selectEmbedded v index).run.run b := by
  rw [followField, selectEmbedded]
  rcases hfield : (fieldOf v index).run.run b with e | ⟨e | f, b'⟩
  · rw [run_bind_of_fault hfield, run_bind_of_fault hfield]
  · rw [run_bind_of_error hfield, run_bind_of_error hfield]
  -- the field is found twice, and its type is in the table
  obtain ⟨-, hf⟩ := fieldOf_writes (c := .constTrue) v index hfield
  obtain ⟨rfl, hf⟩ := hf f rfl
  obtain ⟨q, hq⟩ : ∃ q, b'.types.isPointer f.ty = .ok q := by
    obtain ⟨ty, base, fields, -, -, hstruct, hmem⟩ := hf
    obtain ⟨u, -, hget⟩ := bind_eq_ok_iff.mp hstruct
    exact hs.exists_isPointer (hs.holds_field hget (List.mem_of_getElem? hmem)).1
  have hasked : (isPointer f.ty).run b' = .ok (q, b') := ask_run hq
  rw [run_bind_of_ok hfield, run_bind_of_ok hfield, run_lift_bind_of_ok hasked, selectField,
    run_bind_of_ok hfield]
  obtain ⟨ty, base, fields, hty, -, -, -⟩ := hf
  have hread := valueType_run_of_eq hty
  rw [run_lift_bind_of_ok hread, run_lift_bind_of_ok hread]
  rcases hp : b'.types.isPointer ty with e | p
  · have hasked : (isPointer ty).run b' = .error e := ask_fault hp
    rw [run_lift_bind_of_fault hasked, run_lift_bind_of_fault hasked]
  have hasked : (isPointer ty).run b' = .ok (p, b') := ask_run hp
  rw [run_lift_bind_of_ok hasked, run_lift_bind_of_ok hasked]
  cases p with
  | false => rfl
  | true =>
    simp only [if_true]
    rcases haddr : (fieldAddr v index f).run b' with e | ⟨addr, b₁⟩
    · rw [run_lift_bind_of_fault haddr, run_lift_bind_of_fault haddr]
    · -- the address does not change what is known of the field
      have hquiet := Quiet.of_makes haddr (quiet_of_emits (fieldAddr_acts v index f))
      have hasked : (isPointer f.ty).run b₁ = .ok (q, b₁) :=
        ask_run (hquiet.types.extended.isPointer hq)
      rw [run_lift_bind_of_ok haddr, run_lift_bind_of_ok haddr, run_lift_bind_of_ok hasked]
      cases q <;> rfl

/-- To follow a path is to select its fields one after another. -/
theorem followPath_eq (hs : b.types.Sound) (hopen : b.current = some block) {start : ValueId}
    {base : TypeId} (hstart : TypedAs b.func.values start base) (hheld : b.types.Holds base)
    (path : List Nat) :
    (followPath start path).run.run b = (path.foldlM selectEmbedded start).run.run b := by
  induction path using List.reverseRecOn with
  | nil => rfl
  | append_singleton path index ih =>
    rw [followPath_snoc, List.foldlM_append]
    have hend := followPath_end hopen hstart path
    generalize hrun : (followPath start path).run.run b = r at ih hend
    cases hend with
    | @done b₁ v ty code h hcode hsound =>
      rw [run_bind_of_ok hrun, run_bind_of_ok ih.symm, followField_eq (hsound hs hheld).1]
      simp
    | refused => rw [run_bind_of_error hrun, run_bind_of_error ih.symm]
    | fault => rw [run_bind_of_fault hrun, run_bind_of_fault ih.symm]

/-- A value that a path leads to has a type of the table, and the type has a text. -/
theorem exists_text_of_followPath (hs : b.types.Sound) (hp : b.types.PlainSignatures)
    (hopen : b.current = some block) {start v : ValueId} {base ty : TypeId}
    (hstart : TypedAs b.func.values start base) (hheld : b.types.Holds base) {path : List Nat}
    (hrun : (followPath start path).run.run b = .ok (.ok v, b'))
    (hv : TypedAs b'.func.values v ty) : ∃ text, b'.types.typeText ty = .ok text := by
  have hquiet := Quiet.of_makes hrun (quiet_of_emits (followPath_acts path start))
  have hend := followPath_end hopen hstart path
  rw [hrun] at hend
  cases hend with
  | @done _ _ ty' code h hcode hsound =>
    have hv' := typedAs_iff.mp (hcode.typed (h.typedAs hstart))
    cases hv'.symm.trans (typedAs_iff.mp hv)
    obtain ⟨hs', hheld'⟩ := hsound hs hheld
    exact TypeTable.exists_ok_of_never_faults
      ((hp.entered hquiet.types).typeText_never_faults hs' hheld')

/-- **A path of embedded fields is followed selection by selection.** In a draft with an open
block, over a table without foreign identifiers where the signature of every function is a
signature itself:

* to follow the path comes to the same as to select its fields one after another, each one's
  address unless it holds a pointer;
* it always ends, with a value or an error;
* if the path is followed to its end, one step of code was emitted for each field, first fields
  of values, and only addresses from the first pointer on; and what it gives is of the type that
  the steps lead to;
* it fails exactly if one of the values on the way is of a type that has no such field, after the
  steps before that were made;
* and the error says whether that type is no struct or has fewer fields. -/
theorem followPath_eq_foldlM (hs : b.types.Sound) (hp : b.types.PlainSignatures)
    (hopen : b.current = some block) {start : ValueId} {base : TypeId}
    (hstart : b.func.valueType start = .ok base) (hheld : b.types.Holds base) (path : List Nat) :
    (followPath start path).run.run b = (path.foldlM selectEmbedded start).run.run b ∧
    (∃ r b', (followPath start path).run.run b = .ok (r, b')) ∧
    (∀ v b', (followPath start path).run.run b = .ok (.ok v, b') → ∃ ty code,
      Appends block code b b' ∧ b'.func.valueType v = .ok ty ∧
      SelectionCode b'.types b'.func.values block start base path v ty code ∧
      ∃ fields addrs, code = fields ++ addrs ∧ (∀ i ∈ fields, ∃ x index, i.op = .field x index) ∧
        ∀ i ∈ addrs, ∀ x index, i.op ≠ .field x index) ∧
    (∀ b', (∃ e, (followPath start path).run.run b = .ok (.error e, b')) ↔
      ∃ done index rest v ty, path = done ++ index :: rest ∧
        (followPath start done).run.run b = .ok (.ok v, b') ∧ b'.func.valueType v = .ok ty ∧
        b'.types.structField? ty index = .ok none) ∧
    (∀ e b', (followPath start path).run.run b = .ok (.error e, b') ↔
      ∃ done index rest v ty, path = done ++ index :: rest ∧
        (followPath start done).run.run b = .ok (.ok v, b') ∧ b'.func.valueType v = .ok ty ∧
        Refuses b'.types ty index e) := by
  have hstart := typedAs_iff.mpr hstart
  have hend := followPath_end hopen hstart path
  have hfails : ∀ e b', (followPath start path).run.run b = .ok (.error e, b') ↔
      ∃ done index rest v ty, path = done ++ index :: rest ∧
        (followPath start done).run.run b = .ok (.ok v, b') ∧ b'.func.valueType v = .ok ty ∧
        Refuses b'.types ty index e := by
    intro e b'
    constructor
    · intro hrun
      rw [hrun] at hend
      cases hend with
      | refused hpath hdone hv hrefuses =>
        exact ⟨_, _, _, _, _, hpath, hdone, typedAs_iff.mp hv, hrefuses⟩
    · rintro ⟨done, index, rest, v, ty, rfl, hdone, hv, hrefuses⟩
      exact run_of_refused hdone (typedAs_iff.mpr hv) hrefuses
  refine ⟨followPath_eq hs hopen hstart hheld path, ?_, fun v b' hrun => ?_, fun b' => ?_, hfails⟩
  · generalize (followPath start path).run.run b = result at hend
    cases hend with
    | done | refused => exact ⟨_, _, rfl⟩
    | fault hpath hdone hv hsound hwordless =>
      obtain ⟨hs', hheld'⟩ := hsound hs hheld
      obtain ⟨text, htext⟩ := exists_text_of_followPath hs hp hopen hstart hheld hdone hv
      cases htext.symm.trans (hwordless hs' hheld').2
  · rw [hrun] at hend
    cases hend with
    | @done _ _ ty code h hcode =>
      obtain ⟨fields, addrs, hcode', hfields, haddrs, -⟩ := hcode.split
      have hv := typedAs_iff.mp (hcode.typed (h.typedAs hstart))
      exact ⟨ty, code, h, hv, hcode, fields, addrs, hcode', hfields, haddrs⟩
  · constructor
    · rintro ⟨e, hrun⟩
      obtain ⟨done, index, rest, v, ty, hpath, hdone, hv, hrefuses⟩ := (hfails e b').mp hrun
      obtain ⟨text, htext⟩ :=
        exists_text_of_followPath hs hp hopen hstart hheld hdone (typedAs_iff.mpr hv)
      exact ⟨done, index, rest, v, ty, hpath, hdone, hv,
        (TypeTable.structField?_eq_none_iff htext).mpr ⟨e, hrefuses⟩⟩
    · rintro ⟨done, index, rest, v, ty, hpath, hdone, hv, hnone⟩
      obtain ⟨text, htext⟩ :=
        exists_text_of_followPath hs hp hopen hstart hheld hdone (typedAs_iff.mpr hv)
      obtain ⟨e, hrefuses⟩ := (TypeTable.structField?_eq_none_iff htext).mp hnone
      exact ⟨e, (hfails e b').mpr ⟨done, index, rest, v, ty, hpath, hdone, hv, hrefuses⟩⟩

/-- A draft with a parameter of the declared struct type `Node`. -/
def nodeParameter : Builder :=
  let d := Draft.start "follow" ⟨28⟩
  ⟨⟨TypeTable.nodeTable, .release, []⟩, { d with func := { d.func with
    params := [⟨0⟩], values := [⟨⟨30⟩, .param 0 "n"⟩] } }⟩

/-- From a node its inner node is taken as a field, and what that holds by address: the pointer
in it is read, and its leaf has no sixth field. -/
theorem followPath_eq_foldlM_node :
    (∃ v b' ty code, (followPath ⟨0⟩ [0, 0, 1]).run.run nodeParameter = .ok (.ok v, b') ∧
      ([0, 0, 1].foldlM selectEmbedded ⟨0⟩).run.run nodeParameter = .ok (.ok v, b') ∧
      SelectionCode b'.types b'.func.values ⟨0⟩ ⟨0⟩ ⟨30⟩ [0, 0, 1] v ty code ∧
      code.map (·.op.mnemonic) = ["field", "fieldaddr", "load", "fieldaddr"]) ∧
    ∃ b' done v, (followPath ⟨0⟩ [0, 1, 5]).run.run nodeParameter =
        .ok (.error (.noSuchField ⟨27⟩ "*Leaf" 5), b') ∧
      done <+: [0, 1, 5] ∧ (followPath ⟨0⟩ done).run.run nodeParameter = .ok (.ok v, b') ∧
      b'.func.instrs.map (·.op.mnemonic) = ["field", "fieldaddr"] := by
  have hsound : nodeParameter.types.Sound := TypeTable.nodeTable_built.sound
  have hfollowed (path : List Nat) := followPath_eq_foldlM hsound
    TypeTable.nodeTable_plainSignatures (rfl : nodeParameter.current = some ⟨0⟩)
    (rfl : nodeParameter.func.valueType ⟨0⟩ = .ok ⟨30⟩) (by decide) path
  have hrun {β : Type} (path : List Nat) {g : Except BuildError ValueId × Builder → β} {x : β}
      (h : ((followPath ⟨0⟩ path).run.run nodeParameter).toOption.map g = some x) :
      ∃ r, (followPath ⟨0⟩ path).run.run nodeParameter = .ok r ∧ g r = x := by
    generalize (followPath ⟨0⟩ path).run.run nodeParameter = result at h ⊢
    obtain ⟨r, hr, hx⟩ := Option.map_eq_some_iff.mp h
    cases result <;> cases hr
    exact ⟨_, rfl, hx⟩
  constructor
  · obtain ⟨⟨r, b'⟩, hr, hx⟩ := hrun [0, 0, 1]
      (g := fun p => (p.1.toOption, p.2.func.instrs.map (·.op.mnemonic)))
      (x := (some ⟨4⟩, ["field", "fieldaddr", "load", "fieldaddr"])) (by decide +kernel)
    obtain ⟨hv, hcode⟩ := Prod.mk.inj hx
    obtain ⟨v, rfl⟩ : ∃ v, r = .ok v := by
      cases r <;> cases hv
      exact ⟨_, rfl⟩
    obtain ⟨hfold, -, hdone, -⟩ := hfollowed [0, 0, 1]
    obtain ⟨ty, code, happends, -, hselected, -⟩ := hdone v b' hr
    have hinstrs : b'.func.instrs = code := happends.instrs
    exact ⟨v, b', ty, code, hr, hfold ▸ hr, hselected, hinstrs ▸ hcode⟩
  · obtain ⟨⟨r, b'⟩, hr, hx⟩ := hrun [0, 1, 5]
      (g := fun p => (decide (p.1 = .error (.noSuchField ⟨27⟩ "*Leaf" 5)),
        p.2.func.instrs.map (·.op.mnemonic)))
      (x := (true, ["field", "fieldaddr"])) (by decide +kernel)
    obtain ⟨he, hcode⟩ := Prod.mk.inj hx
    obtain rfl := of_decide_eq_true he
    obtain ⟨-, -, -, -, hfails⟩ := hfollowed [0, 1, 5]
    obtain ⟨done, index, rest, v, ty, hpath, hdone, -⟩ := (hfails _ b').mp hr
    exact ⟨b', done, v, hr, hpath ▸ List.prefix_append _ _, hdone, hcode⟩

/-- The table of an interface with a method whose signature is a declared integer type. -/
def unsignedTable : TypeTable where
  toTypeIndex := .of (TypeTable.initial.types ++
    [.named ⟨"Key", none, 0⟩, .signature ⟨none, [], [], false⟩, .interface [⟨0⟩]])
  decls := [⟨⟨25⟩, TypeTable.basic .int, []⟩]
  funcs := [⟨"m", none, ⟨25⟩, ⟨0⟩⟩]
  agrees := TypeIndex.agrees_of _

theorem unsignedTable_built : unsignedTable.Built := by
  have hkey := TypeTable.Built.initial.declareType "Key" none
  have hsig := hkey.intern (.signature ⟨none, [], [], false⟩) (by decide)
  have hfunc := hsig.declareFunc ⟨"m", none, ⟨25⟩, ⟨0⟩⟩ (by decide)
  have hiface := hfunc.intern (.interface [⟨0⟩]) (by decide)
  exact hiface.setUnderlying ⟨25⟩ (TypeTable.basic .int) rfl

/-- A draft with a parameter of that interface type. -/
def unsignedParameter : Builder :=
  let d := Draft.start "follow" ⟨26⟩
  ⟨⟨unsignedTable, .release, []⟩, { d with func := { d.func with
    params := [⟨0⟩], values := [⟨⟨27⟩, .param 0 "x"⟩] } }⟩

/-- An interface has no fields, but there is no error that says so: the text of the type asks for
the signature of the method. -/
theorem followPath_eq_foldlM_unsigned :
    unsignedParameter.types.Built ∧ unsignedParameter.current = some ⟨0⟩ ∧
    unsignedParameter.func.valueType ⟨0⟩ = .ok ⟨27⟩ ∧
    unsignedParameter.types.structFields? ⟨27⟩ = .ok none ∧
    (followPath ⟨0⟩ [0]).run.run unsignedParameter = .error (.notSignature (.basic .int)) :=
  ⟨unsignedTable_built, rfl, rfl, rfl, rfl⟩

end Builder

end MethodSSA
