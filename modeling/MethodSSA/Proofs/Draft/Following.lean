import MethodSSA.Proofs.Draft.TailCall

/-!
# Paths in any sound table

A path of embedded fields can be followed in every sound table, also where the type at its
end is a declared pointer type: then the value there is the pointer itself, and no address of
it (`Addresses`). What the code is does not matter here, only that there is one.
-/

namespace MethodSSA

/-- A value leads to an object of type `c`: it is the address of one, unless `c` is a pointer
type. -/
def Addresses (t : TypeTable) (vals : List Value) (v : ValueId) (c : TypeId) : Prop :=
  ∃ ty, TypedAs vals v ty ∧ (t.isPointer c = .ok false → t.get ty = .ok (.pointer c))

theorem Points.addresses {t : TypeTable} {vals : List Value} {v : ValueId} {c : TypeId}
    (h : Points t vals v c) : Addresses t vals v c := by
  obtain ⟨ty, hty, hget⟩ := h
  exact ⟨ty, hty, fun _ => hget⟩

theorem Addresses.points {t : TypeTable} {vals : List Value} {v : ValueId} {c : TypeId}
    (h : Addresses t vals v c) (hc : t.isPointer c = .ok false) : Points t vals v c := by
  obtain ⟨ty, hty, hget⟩ := h
  exact ⟨ty, hty, hget hc⟩

namespace TypeTable

variable {t : TypeTable}

theorem Sound.exists_isPointer (hs : t.Sound) {id : TypeId} (h : t.Holds id) :
    ∃ b, t.isPointer id = .ok b := by
  obtain ⟨u, hu⟩ := hs.exists_underlyingTy h
  exact ⟨_, isPointer_eq hu⟩

theorem Sound.exists_isInterface (hs : t.Sound) {id : TypeId} (h : t.Holds id) :
    ∃ b, t.isInterface id = .ok b := by
  obtain ⟨u, hu⟩ := hs.exists_underlyingTy h
  exact ⟨_, isInterface_eq hu⟩

/-- What a type of the table points to is in the table. -/
theorem Sound.exists_deref (hs : t.Sound) {id : TypeId} (h : t.Holds id) :
    ∃ elem, t.deref id = .ok elem ∧ t.Holds elem := by
  obtain ⟨v, hv, hheld⟩ := hs.exists_underlying h
  obtain ⟨u, hu⟩ := exists_get_iff.mpr hheld
  refine ⟨_, deref_eq (bind_eq_ok_iff.mpr ⟨v, hv, hu⟩), ?_⟩
  cases u with
  | pointer elem => exact hs.holds_component hu (List.mem_singleton_self elem)
  | _ => exact h

end TypeTable

namespace Builder

variable {b : Builder}

/-- Every value can be read. -/
theorem load_typed (s : b.Straight) {v : ValueId} {ty : TypeId} (hv : TypedAs b.func.values v ty) :
    Yields (load v) b fun w b' => b.Keeps b' ∧ ∃ elem, TypedAs b'.func.values w elem := by
  obtain ⟨elem, hderef, hheld⟩ := s.sound.exists_deref (s.holds_typedAs hv)
  refine .step (valueType_run hv) (.step (ask_run hderef) ?_)
  refine (emitValue_yields s (.load v) hheld).mono ?_
  rintro w b' ⟨he, hw, -⟩
  exact ⟨he.toKeeps, elem, hw⟩

/-- One embedded field is followed, whatever it holds. -/
theorem followField_addresses (s : b.Straight) {a c : TypeId} {v : ValueId} {i : Nat} {p : Bool}
    (hv : Addresses b.types b.func.values v a) (he : b.types.Embeds a i c p) :
    Gives (followField v i) b fun w b' => b.Keeps b' ∧ Addresses b'.types b'.func.values w c := by
  obtain ⟨ptr, hptr, hget⟩ := hv.points (TypeTable.isPointer_of_embeds he)
  obtain ⟨hu, hf, -, hstrip⟩ := he
  obtain ⟨u, -, hstruct⟩ := bind_eq_ok_iff.mp hu
  have hheld := (s.sound.holds_field hstruct (List.mem_of_getElem? hf)).1
  have hself : b.types.isPointer ptr = .ok true :=
    TypeTable.isPointer_eq (TypeTable.underlyingTy_plain hget rfl)
  refine .step (fieldOf_run hptr hget hu hf) (.stepLift (valueType_run hptr)
    (.stepLift (ask_run hself) ?_))
  refine (Gives.lift (fieldAddr_yields s hheld v i)).bind ?_
  rintro w b₁ ⟨he₁, hw⟩
  obtain ⟨byPtr, hbyPtr⟩ := s.sound.exists_isPointer hheld
  have hbyPtr₁ := he₁.types.isPointer hbyPtr
  refine .stepLift (ask_run hbyPtr₁) ?_
  obtain ⟨ty, hty, ⟨rfl, rfl⟩ | ⟨hnone, rfl, rfl⟩⟩ := TypeTable.stripPointer_eq_ok_iff.mp hstrip
  · -- the field holds a pointer, which is read
    cases hbyPtr.symm.trans (TypeTable.isPointer_eq (TypeTable.underlyingTy_plain hty rfl))
    refine Gives.lift ((load_yields he₁.straight hw).mono ?_)
    rintro w' b₂ ⟨he₂, hw', -⟩
    exact ⟨he₁.toKeeps.trans he₂.toKeeps, _, hw', fun _ => he₂.types.get (he₁.types.get hty)⟩
  · cases byPtr with
    | false => exact .pure ⟨he₁.toKeeps, hw.addresses⟩
    | true =>
      -- a declared pointer type ends the path
      refine Gives.lift ((load_yields he₁.straight hw).mono ?_)
      rintro w' b₂ ⟨he₂, hw', -⟩
      refine ⟨he₁.toKeeps.trans he₂.toKeeps, _, hw', fun hvalue => ?_⟩
      cases hvalue.symm.trans (he₂.types.isPointer hbyPtr₁)

/-- **Every path of embedded fields can be followed.** -/
theorem followPath_addresses (s : b.Straight) {base c : TypeId} {start : ValueId} {path : List Nat}
    {p : Bool} (hstart : Addresses b.types b.func.values start base)
    (hl : b.types.Leads base path c p) :
    Gives (followPath start path) b fun v b' =>
      b.Keeps b' ∧ Addresses b'.types b'.func.values v c := by
  induction hl with
  | nil => exact .pure ⟨.refl s, hstart⟩
  | snoc _ he ih =>
    rw [followPath, List.foldlM_append]
    refine ih.bind ?_
    rintro v b₁ ⟨hk₁, hv⟩
    rw [List.foldlM_cons]
    refine (followField_addresses hk₁.straight hv (hk₁.types.embeds he)).bind ?_
    rintro w b₂ ⟨hk₂, hw⟩
    exact .pure ⟨hk₁.trans hk₂, hw⟩

end Builder

end MethodSSA
