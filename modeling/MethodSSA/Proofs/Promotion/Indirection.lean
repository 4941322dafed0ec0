import MethodSSA.Proofs.Promotion.Route

/-!
# The methods of a type and of the pointer to it

A type and the pointer to it are walked along the same paths, and an identifier occurs
below both at the same places. What differs is what can be called there: the way from the
pointer always crosses one. So whatever a type has in its method set the pointer to it has
too (`Chosen.across`), and what only the pointer has are the methods that need one, at the
end of paths that cross none (`Chosen.of_across`).
-/

namespace MethodSSA

/-- The selection of the same method by the same way, from a pointer. -/
def Selection.across (sel : Selection) (p : TypeId) : Selection :=
  { sel with recv := p, indirect := true }

namespace TypeTable

variable {t t' : TypeTable} {recv p base : TypeId} {key : String} {sel : Selection}

/-! ## What is chosen from either -/

/-- What can be called at all can be called across a pointer. -/
theorem Callable.across {crossed indirect : Bool} {x : Feature} {m : FuncId} {place : Nat}
    (h : t.Callable crossed x m place indirect) : t.Callable true x m place true := by
  cases h with
  | method => exact .method (.inl rfl)
  | abstract => exact .abstract

/-- **What is chosen from a value is chosen from a pointer to it.** The paths are the same, so
that nothing else can be in its way. -/
theorem Chosen.across (h : t.Chosen recv base false key sel) (p : TypeId) :
    t.Chosen p base true key (sel.across p) := by
  obtain ⟨hx, hb, hcall⟩ := h
  exact .intro hx hb hcall.across

/-- A method that needs a pointer, at the end of a path that crosses none. -/
structure PointerOnly (t : TypeTable) (base : TypeId) (sel : Selection) : Prop where
  byPointer : t.hasPointerReceiver sel.method = .ok true
  direct : ∃ elem, t.Leads base sel.fieldPath elem false ∧ t.Declares elem sel.method

/-- **What is chosen from a pointer is chosen from a value**, or needs the pointer. -/
theorem Chosen.of_across (hs : t.Sound) (hm : t.MethodsTyped) (h : t.Chosen p base true key sel)
    (recv : TypeId) :
    (∃ indirect, t.Chosen recv base false key ⟨recv, sel.method, sel.path, indirect⟩) ∨
      t.PointerOnly base sel := by
  obtain @⟨elem, ptr, _, path, x, m, place, hx, hb, hcall⟩ := h
  cases hcall with
  | abstract => exact .inl ⟨true, .intro hx hb .abstract⟩
  | method =>
    rcases ptr with _ | _
    · -- no pointer is crossed, and the receiver of the method decides
      obtain ⟨elem', ptr', hb', hhas⟩ := hx.occurs
      obtain ⟨rfl, -⟩ := hb.unique hb'
      cases hhas with
      | method hms hmem hf hkey =>
        have hmem := List.mem_of_getElem? hmem
        obtain ⟨hheld, hmeth⟩ := hs.isMethod_of_attached hms hmem
        have hmode := hs.hasPointerReceiver_eq hm hheld hmeth
        rcases hby : t.byPointer m with _ | _
        · exact .inl ⟨false, .intro hx hb (.method (.inr (hby ▸ hmode)))⟩
        · refine .inr ⟨hby ▸ hmode, elem, ?_, _, hms, hmem⟩
          rwa [Selection.fieldPath, List.dropLast_concat]
    · exact .inl ⟨true, .intro hx hb (.method (.inl rfl))⟩

/-- Every selection from a pointer counts as being across it. -/
theorem Chosen.indirect_eq (h : t.Chosen p base true key sel) :
    sel.recv = p ∧ sel.indirect = true := by
  obtain ⟨-, -, hcall⟩ := h
  cases hcall with
  | method => exact ⟨rfl, rfl⟩
  | abstract => exact ⟨rfl, rfl⟩

/-- Where the walk starts from no interface, what is promoted is what is chosen. -/
theorem promotes_iff_of_concrete {isPtr : Bool} (hstrip : t.stripPointer recv = .ok (base, isPtr))
    (hiface : t.isInterface base = .ok false) :
    t.Promotes recv key sel ↔ t.Chosen recv base isPtr key sel := by
  rw [promotes_iff]
  constructor
  · rintro ⟨base', isPtr', hstrip', -, hsel⟩
    cases hstrip.symm.trans hstrip'
    exact hsel
  · exact fun hsel => ⟨base, isPtr, hstrip, fun _ => hiface, hsel⟩

/-! ## The two method sets -/

/-- How the selections from a type and those from the pointer to it go together. -/
structure Indirection (t : TypeTable) (recv p : TypeId) (own crossing : List Selection) :
    Prop where
  /-- the selections from the type are selections from the pointer -/
  across : ∀ sel ∈ own, sel.recv = recv ∧ sel.across p ∈ crossing
  /-- from the pointer everything is selected across it -/
  through : ∀ sel ∈ crossing, sel.recv = p ∧ sel.indirect = true
  /-- what is selected from nothing but the pointer needs it, and does not belong to the
  method set of the type -/
  rest : ∀ sel ∈ crossing, (∀ s ∈ own, s.method = sel.method → s.path ≠ sel.path) →
    t.PointerOnly recv sel ∧ t.inMethodSet ⟨recv, sel.method, sel.path, false⟩ = .ok false
  /-- all of them belong to the method set of their receiver type -/
  belongs : ∀ sel, sel ∈ own ∨ sel ∈ crossing → t.inMethodSet sel = .ok true

/-- A method that needs a pointer does not belong to the method set of a value. -/
theorem PointerOnly.not_inMethodSet (h : t.PointerOnly base sel) (recv : TypeId) :
    t.inMethodSet ⟨recv, sel.method, sel.path, false⟩ = .ok false := by
  rw [inMethodSet, h.byPointer]
  rfl

/-- What is promoted belongs to the method set. -/
theorem Promotes.inMethodSet (h : t.Promotes recv key sel) : t.inMethodSet sel = .ok true := by
  obtain ⟨-, base, elem, isPtr, ptr, hsel⟩ := h.selected
  exact hsel.inMethodSet

/-- The method sets of a type and of the pointer to it, where the table has both. -/
theorem Sound.exists_indirection (hs : t.Sound) (hm : t.MethodsTyped)
    (hvalue : t.stripPointer recv = .ok (recv, false)) (hiface : t.isInterface recv = .ok false)
    (hp : t.get p = .ok (.pointer recv)) :
    ∃ own crossing, t.methodSet recv = .ok own ∧ t.methodSet p = .ok crossing ∧
      t.Indirection recv p own crossing := by
  have hrecv : t.Holds recv := (hs.holds_stripPointer hvalue).1
  have hptr : t.stripPointer p = .ok (recv, true) :=
    stripPointer_eq_ok_iff.mpr ⟨_, hp, .inl ⟨rfl, rfl⟩⟩
  obtain ⟨own, hown, -, howned⟩ := hs.exists_methodSet hm hrecv
  obtain ⟨crossing, hcrossing, -, hcrossed⟩ := hs.exists_methodSet hm (holds_of_get hp)
  refine ⟨own, crossing, hown, hcrossing, ?_, ?_, ?_, ?_⟩
  · intro sel hsel
    obtain ⟨key, hsel⟩ := (howned sel).mp hsel
    have hchosen := (promotes_iff_of_concrete hvalue hiface).mp hsel
    refine ⟨hsel.selected.1, (hcrossed _).mpr ⟨key, ?_⟩⟩
    exact (promotes_iff_of_concrete hptr hiface).mpr (hchosen.across p)
  · intro sel hsel
    obtain ⟨key, hsel⟩ := (hcrossed sel).mp hsel
    exact ((promotes_iff_of_concrete hptr hiface).mp hsel).indirect_eq
  · intro sel hsel hnone
    obtain ⟨key, hsel⟩ := (hcrossed sel).mp hsel
    have hchosen := (promotes_iff_of_concrete hptr hiface).mp hsel
    have honly : t.PointerOnly recv sel := by
      refine (hchosen.of_across hs hm recv).resolve_left ?_
      rintro ⟨indirect, hcounter⟩
      have hcounter := (promotes_iff_of_concrete hvalue hiface).mpr hcounter
      exact hnone _ ((howned _).mpr ⟨key, hcounter⟩) rfl rfl
    exact ⟨honly, honly.not_inMethodSet recv⟩
  · rintro sel (hsel | hsel)
    · obtain ⟨key, hsel⟩ := (howned sel).mp hsel
      exact hsel.inMethodSet
    · obtain ⟨key, hsel⟩ := (hcrossed sel).mp hsel
      exact hsel.inMethodSet

/-- **The pointer to a type has the methods of the type and those that need a pointer.** The
type is no pointer itself and no interface. To ask for the pointer leaves the method set of
the type as it is. What the type has is selected from the pointer by the same way; what only
the pointer has takes its receiver by pointer, lies at the end of a path that crosses none,
and does not belong to the method set of the type. -/
theorem methodSet_pointer (h : t.Built) (hm : t.MethodsTyped) (hrecv : t.Holds recv)
    (hvalue : ∀ elem, t.get recv ≠ .ok (.pointer elem)) (hiface : t.isInterface recv = .ok false)
    (hp : t.intern (.pointer recv) = (p, t')) :
    ∃ own crossing, t.methodSet recv = .ok own ∧ t'.methodSet recv = .ok own ∧
      t'.methodSet p = .ok crossing ∧ t'.Indirection recv p own crossing := by
  have hs := h.sound
  have hadmits : t.Admits (.pointer recv) :=
    admits_of_components (fun c hc => List.mem_singleton.mp hc ▸ hrecv) rfl rfl
  have hget := get_intern t (.pointer recv)
  have g : Grown t (t.intern (.pointer recv)).2 := Grown.refl.internPlain hadmits rfl
  rw [hp] at hget g
  have hstrip : t.stripPointer recv = .ok (recv, false) := by
    obtain ⟨ty, hty⟩ := exists_get_iff.mpr hrecv
    refine stripPointer_eq_ok_iff.mpr ⟨ty, hty, .inr ⟨?_, rfl, rfl⟩⟩
    cases ty <;> first | rfl | exact absurd hty (hvalue _)
  obtain ⟨own, crossing, hown, hcrossing, hrel⟩ := (g.sound hs).exists_indirection
    (g.methodsTyped hs hm) (g.stripPointer hstrip) (g.isInterface hiface) hget
  exact ⟨own, crossing, (g.methodSet_of_sound hs hm hrecv).symm.trans hown, hown, hcrossing, hrel⟩

/-- A declared type that embeds a pointer to itself, and a type with a method that needs a
pointer. -/
theorem methodSet_pointer_node :
    nodeTable.Built ∧ nodeTable.MethodsTyped ∧ nodeTable.Holds ⟨30⟩ ∧
      (∀ elem, nodeTable.get ⟨30⟩ ≠ .ok (.pointer elem)) ∧
      nodeTable.isInterface ⟨30⟩ = .ok false ∧
      nodeTable.intern (.pointer ⟨30⟩) = (⟨31⟩, nodeTable) ∧
      ∃ own crossing, nodeTable.methodSet ⟨30⟩ = .ok own ∧ nodeTable.methodSet ⟨30⟩ = .ok own ∧
        nodeTable.methodSet ⟨31⟩ = .ok crossing ∧
        nodeTable.Indirection ⟨30⟩ ⟨31⟩ own crossing :=
  ⟨nodeTable_built, nodeTable_methodsTyped, by decide, fun _ => nofun, rfl, rfl,
    methodSet_pointer nodeTable_built nodeTable_methodsTyped (by decide) (fun _ => nofun) rfl rfl⟩

end TypeTable

end MethodSSA
