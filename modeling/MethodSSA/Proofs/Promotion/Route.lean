import MethodSSA.Proofs.Promotion.Stability

/-!
# The way of a selection

A selection says by which embedded fields its method is reached. In a well-formed table
that way ends at a type that has the method attached to it, so that the method is
concrete, or at an interface that lists it, so that it is abstract (`Route`). For a
selection of a method set it is also known whether the method can be called there
(`Selected`): a method with a pointer receiver needs a pointer on the way.
-/

namespace MethodSSA

/-- A selection is not promoted if its way is empty. -/
theorem Selection.isPromoted_eq_false_iff {sel : Selection} :
    sel.isPromoted = false ↔ sel.fieldPath = [] := by
  rw [isPromoted, fieldPath, decide_eq_false_iff_not, ← List.length_eq_zero_iff,
    List.length_dropLast]
  omega

theorem Selection.way_eq {sel : Selection} (h : sel.path ≠ []) : sel.way = .ok sel.fieldPath :=
  if_neg (mt List.isEmpty_iff.mp h)

theorem Selection.eq_fieldPath_of_way {sel : Selection} {path : List Nat} (h : sel.way = .ok path) :
    path = sel.fieldPath := by
  unfold way at h
  split at h
  · cases h
  · cases h
    rfl

namespace TypeTable

variable {t : TypeTable}

/-- What embeds something is a struct, and so no pointer. -/
theorem isPointer_of_embeds {a c : TypeId} {i : Nat} {p : Bool}
    (he : t.Embeds a i c p) : t.isPointer a = .ok false := by
  obtain ⟨hu, -, -, -⟩ := he
  exact isPointer_eq hu

/-- The way of a selection: from its receiver type, or what that points to, a path of
embedded fields leads to a type that has the method. -/
structure Route (t : TypeTable) (sel : Selection) (base elem : TypeId) (isPtr ptr : Bool) :
    Prop where
  place : sel.path ≠ []
  start : t.stripPointer sel.recv = .ok (base, isPtr)
  leads : t.Leads base sel.fieldPath elem ptr
  ends : t.Declares elem sel.method ∨ t.Lists elem sel.method

namespace WellFormed

variable {t : TypeTable} (w : t.WellFormed)
include w

/-- No declared pointer type has methods. -/
theorem isPointer_of_ends {ty : TypeId} {m : FuncId} (h : t.Declares ty m ∨ t.Lists ty m) :
    t.isPointer ty = .ok false := by
  rcases h with ⟨ms, hms, hm⟩ | ⟨ms, hms, -⟩
  · obtain ⟨-, -, -, hptr, -⟩ := w.attached hms hm
    exact hptr
  · exact isPointer_eq hms

/-- Whether the receiver of a selection is a pointer is seen from its type alone. -/
theorem isPointer_recv {sel : Selection} {base elem : TypeId} {isPtr ptr : Bool}
    (r : t.Route sel base elem isPtr ptr) : t.isPointer sel.recv = .ok isPtr := by
  obtain ⟨ty, hty, ⟨rfl, rfl⟩ | ⟨-, rfl, rfl⟩⟩ := stripPointer_eq_ok_iff.mp r.start
  · exact isPointer_eq (underlyingTy_plain hty rfl)
  · have hends := w.isPointer_of_ends r.ends
    -- the first type of the path is the last one or a struct
    have hfirst : ∀ {path : List Nat} {c : TypeId} {q : Bool}, t.Leads sel.recv path c q →
        t.isPointer c = .ok false → t.isPointer sel.recv = .ok false := by
      intro path c q hl
      induction hl with
      | nil => exact id
      | snoc _ he ih => exact fun _ => ih (isPointer_of_embeds he)
    exact hfirst r.leads hends

/-- The method of a route has a declaration with a signature, and is abstract or not. -/
theorem exists_signature {sel : Selection} {base elem : TypeId} {isPtr ptr : Bool}
    (r : t.Route sel base elem isPtr ptr) :
    ∃ decl sig abs, t.func sel.method = .ok decl ∧ t.signatureOf decl.sig = .ok sig ∧
      t.isAbstract sel.method = .ok abs := by
  have hrecv : ∃ r abs, t.receiver? sel.method = .ok r ∧ t.isAbstract sel.method = .ok abs := by
    rcases r.ends with hd | hl
    · obtain ⟨recv, hrecv, habs, -⟩ := w.receiver_of_declares hd
      exact ⟨_, _, hrecv, habs⟩
    · have habs := w.isAbstract_of_lists hl
      obtain ⟨recv, ms, hrecv, -⟩ := exists_receiver_of_isAbstract habs
      exact ⟨_, _, hrecv, habs⟩
  obtain ⟨_, abs, hrecv, habs⟩ := hrecv
  obtain ⟨f, sig, hf, hsig, -⟩ := exists_signature_of_receiver? hrecv
  exact ⟨f, sig, abs, hf, signatureOf_eq hsig, habs⟩

end WellFormed

theorem Grown.route {t t' : TypeTable} (g : Grown t t') {sel : Selection} {base elem : TypeId}
    {isPtr ptr : Bool} (r : t.Route sel base elem isPtr ptr) :
    t'.Route sel base elem isPtr ptr := by
  refine ⟨r.place, g.stripPointer r.start, g.leads r.leads, ?_⟩
  rcases r.ends with ⟨ms, hms, hm⟩ | ⟨ms, hms, hm⟩
  · exact .inl ⟨ms, g.declaredMethods hms, hm⟩
  · exact .inr ⟨ms, g.underlyingTy hms, hm⟩

/-- A type has one identifier. -/
theorem Sound.get_inj (hs : t.Sound) {a b : TypeId} {ty : Ty} (ha : t.get a = .ok ty)
    (hb : t.get b = .ok ty) : a = b :=
  get_inj_of_nodup hs.nodup ha hb

/-! ## Selections of method sets -/

/-- A selection that can be called from its receiver type: its method belongs to an
interface, or it takes a value, or there is a pointer on the way. -/
structure Selected (t : TypeTable) (sel : Selection) (base elem : TypeId) (isPtr ptr : Bool) :
    Prop extends Route t sel base elem isPtr ptr where
  callable : t.Lists elem sel.method ∧ sel.indirect = true ∨
    t.Declares elem sel.method ∧ sel.indirect = (isPtr || ptr) ∧
      (sel.indirect = true ∨ t.hasPointerReceiver sel.method = .ok false)

theorem Promotes.selected {recv : TypeId} {key : String} {sel : Selection}
    (h : t.Promotes recv key sel) :
    sel.recv = recv ∧ ∃ base elem isPtr ptr, t.Selected sel base elem isPtr ptr := by
  obtain ⟨base, isPtr, hstrip, -, hsel⟩ := promotes_iff.mp h
  obtain @⟨elem, ptr, _, _, _, _, _, hx, hb, hcall⟩ := hsel
  obtain ⟨elem', ptr', hb', hhas⟩ := hx.occurs
  obtain ⟨rfl, rfl⟩ := hb.unique hb'
  refine ⟨rfl, base, elem, isPtr, ptr, ?_⟩
  have hpath : ∀ {path : List Nat} {place : Nat} {m : FuncId} {indirect : Bool},
      (⟨recv, m, path ++ [place], indirect⟩ : Selection).fieldPath = path := fun {_ _ _ _} =>
    List.dropLast_concat
  have hplace : ∀ {path : List Nat} {place : Nat}, path ++ [place] ≠ [] := fun {_ _} =>
    List.concat_ne_nil _ _
  cases hcall with
  | method hmode =>
    cases hhas with
    | method hms hm hf hkey =>
      have hdecl : t.Declares _ _ := ⟨_, hms, List.mem_of_getElem? hm⟩
      exact ⟨⟨hplace, hstrip, hpath ▸ hb, .inl hdecl⟩, .inr ⟨hdecl, rfl, hmode⟩⟩
  | abstract =>
    cases hhas with
    | abstract hms hm hf hkey =>
      have hlist : t.Lists _ _ := ⟨_, hms, List.mem_of_getElem? hm⟩
      exact ⟨⟨hplace, hstrip, hpath ▸ hb, .inr hlist⟩, .inl ⟨hlist, rfl⟩⟩

/-- What has a method set is in the table. -/
theorem holds_of_methodSet {recv : TypeId} {sels : List Selection}
    (h : t.methodSet recv = .ok sels) : t.Holds recv := by
  obtain ⟨⟨base, isPtr⟩, hstrip, -⟩ := bind_eq_ok_iff.mp h
  obtain ⟨ty, hty, -⟩ := stripPointer_eq_ok_iff.mp hstrip
  exact holds_of_get hty

/-- **What a method set holds can be called**, and is selected from its type. -/
theorem WellFormed.selected_of_mem (w : t.WellFormed) {recv : TypeId} {sels : List Selection}
    {sel : Selection} (hsels : t.methodSet recv = .ok sels) (hsel : sel ∈ sels) :
    sel.recv = recv ∧ ∃ base elem isPtr ptr, t.Selected sel base elem isPtr ptr := by
  obtain ⟨sels', hsels', -, hmem⟩ :=
    w.sound.exists_methodSet w.methodsTyped (holds_of_methodSet hsels)
  cases hsels.symm.trans hsels'
  obtain ⟨key, hkey⟩ := (hmem sel).mp hsel
  exact hkey.selected

/-- A method set is in the order of method identifiers. -/
theorem WellFormed.pairwise_idOf (w : t.WellFormed) {recv : TypeId} {sels : List Selection}
    (hsels : t.methodSet recv = .ok sels) :
    sels.Pairwise fun a b => t.idOf a.method < t.idOf b.method := by
  obtain ⟨sels', hsels', hsorted, -⟩ :=
    w.sound.exists_methodSet w.methodsTyped (holds_of_methodSet hsels)
  cases hsels.symm.trans hsels'
  exact hsorted

/-- In a method set each identifier stands for one selection. -/
theorem WellFormed.eq_of_idOf (w : t.WellFormed) {recv : TypeId} {sels : List Selection}
    (hsels : t.methodSet recv = .ok sels) {a b : Selection} (ha : a ∈ sels) (hb : b ∈ sels)
    (hkey : t.idOf a.method = t.idOf b.method) : a = b :=
  inj_of_pairwise_lt (w.pairwise_idOf hsels) ha hb hkey

theorem Selected.inMethodSet {sel : Selection} {base elem : TypeId} {isPtr ptr : Bool}
    (h : t.Selected sel base elem isPtr ptr) : t.inMethodSet sel = .ok true := by
  rw [TypeTable.inMethodSet]
  rcases h.callable with ⟨-, hind⟩ | ⟨-, -, hind | hmode⟩
  · rw [if_pos hind]
    rfl
  · rw [if_pos hind]
    rfl
  · rw [hmode]
    rcases sel.indirect <;> rfl

/-- A method that is attached to the receiver type of a selection, or to what that points
to, and takes its receiver as the selection has it, takes the receiver type itself. -/
theorem WellFormed.receiver_of_direct (w : t.WellFormed) {sel : Selection} {base elem : TypeId}
    {isPtr ptr : Bool} (r : t.Route sel base elem isPtr ptr) (hpath : sel.fieldPath = [])
    (hdecl : t.Declares elem sel.method) (hmode : t.hasPointerReceiver sel.method = .ok isPtr) :
    t.receiver? sel.method = .ok (some sel.recv) := by
  have hleads := r.leads
  rw [hpath] at hleads
  obtain ⟨rfl, -⟩ := leads_nil_iff.mp hleads
  obtain ⟨recv, hrecv, -, ⟨rfl, hbyPtr⟩ | ⟨hget, hbyPtr⟩⟩ := w.receiver_of_declares hdecl
  · cases hmode.symm.trans hbyPtr
    obtain ⟨ty, hty, ⟨-, ⟨⟩⟩ | ⟨-, rfl, -⟩⟩ := stripPointer_eq_ok_iff.mp r.start
    exact hrecv
  · -- the pointers to one type are one type
    cases hmode.symm.trans hbyPtr
    obtain ⟨ty, hty, ⟨rfl, -⟩ | ⟨-, -, ⟨⟩⟩⟩ := stripPointer_eq_ok_iff.mp r.start
    rw [w.sound.get_inj hty hget]
    exact hrecv

end TypeTable

end MethodSSA
