import MethodSSA.Proofs.Promotion.Stability
import MethodSSA.Types.Text

/-!
# The texts of types end

The only fault that the text of a type of the table can be is that the type has none
because it contains itself, and that can only be by a method whose signature is a
declared type: every other type mentions older types only (`nestedText_faults`).
-/

namespace MethodSSA

/-- The faults of an answer are of one kind. -/
def FaultsOnly {α : Type} (E : Fault → Prop) (x : Except Fault α) : Prop :=
  ∀ e, x = .error e → E e

namespace FaultsOnly

variable {E : Fault → Prop} {α β : Type}

theorem ok (a : α) : FaultsOnly E (.ok a) := by
  rintro e ⟨⟩

theorem bind {x : Except Fault α} {f : α → Except Fault β} (h : FaultsOnly E x)
    (hf : ∀ a, x = .ok a → FaultsOnly E (f a)) : FaultsOnly E (x >>= f) := by
  intro e he
  rcases x with e' | a
  · cases he
    exact h _ rfl
  · exact hf a rfl e he

theorem mapM {f : α → Except Fault β} :
    ∀ (l : List α), (∀ a ∈ l, FaultsOnly E (f a)) → FaultsOnly E (l.mapM f)
  | [], _ => ok []
  | a :: l, h => by
    rw [List.mapM_cons]
    exact (h a (List.mem_cons_self ..)).bind fun _ _ =>
      (mapM l fun a ha => h a (List.mem_cons_of_mem _ ha)).bind fun _ _ => ok _

end FaultsOnly

section Pieces

variable {E : Fault → Prop} {text : TypeId → Except Fault String}

theorem varText_faults {v : Var} (h : FaultsOnly E (text v.ty)) (dotted : Bool) :
    FaultsOnly E (varText text dotted v) :=
  h.bind fun _ _ => .ok _

theorem varsText_faults {vars : List Var} (h : ∀ v ∈ vars, FaultsOnly E (text v.ty))
    (variadic : Bool) : FaultsOnly E (varsText text variadic vars) := by
  refine FaultsOnly.bind (FaultsOnly.mapM _ fun p hp => ?_) fun _ _ => .ok _
  exact varText_faults (h p.1 (List.fst_mem_of_mem_zipIdx hp)) _

theorem signatureText_faults {sig : Signature}
    (h : ∀ v ∈ sig.params ++ sig.results, FaultsOnly E (text v.ty)) :
    FaultsOnly E (signatureText text sig) := by
  have hparams := varsText_faults (fun v hv => h v (List.mem_append_left _ hv)) sig.variadic
  refine hparams.bind fun params _ => ?_
  have hresults : ∀ v ∈ sig.results, FaultsOnly E (text v.ty) := fun v hv =>
    h v (List.mem_append_right _ hv)
  rcases hr : sig.results with _ | ⟨r, _ | ⟨r', rest⟩⟩
  · exact .ok _
  · have hone : r ∈ sig.results := hr ▸ List.mem_singleton_self r
    change FaultsOnly E (if r.name.isEmpty = true then _ else _)
    split
    · exact (hresults r hone).bind fun _ _ => .ok _
    · exact (varsText_faults (hr ▸ hresults) false).bind fun _ _ => .ok _
  · exact (varsText_faults (hr ▸ hresults) false).bind fun _ _ => .ok _

theorem fieldText_faults {f : Field} (h : FaultsOnly E (text f.ty)) :
    FaultsOnly E (fieldText text f) :=
  h.bind fun _ _ => .ok _

end Pieces

namespace TypeTable

variable {t t' : TypeTable}

/-- A function whose signature is a declared type. -/
def NamesSignature (t : TypeTable) : Prop := ∃ f ∈ t.funcs, t.isDeclared f.sig = true

/-- A text without end, by way of a signature that is a declared type. -/
def Endless (t : TypeTable) (e : Fault) : Prop := e = .endlessType ∧ t.NamesSignature

theorem signature_older (hs : t.Sound) {f : FuncDecl} {sig : Signature} (hf : f ∈ t.funcs)
    (hsig : t.signatureOf f.sig = .ok sig) :
    (∀ v ∈ sig.params ++ sig.results, t.Holds v.ty) ∧
      (t.NamesSignature ∨ ∀ v ∈ sig.params ++ sig.results, v.ty.index < f.sig.index) := by
  obtain ⟨u, hu, hsig⟩ := bind_eq_ok_iff.mp hsig
  cases u <;> cases hsig
  obtain ⟨id, hid, hget⟩ := bind_eq_ok_iff.mp hu
  have hcomp : ∀ v ∈ sig.params ++ sig.results, v.ty ∈ (Ty.signature sig).components := by
    intro v hv
    refine List.mem_map_of_mem ?_
    rw [Signature.vars, List.append_assoc]
    exact List.mem_append_right _ hv
  refine ⟨fun v hv => hs.holds_component hget (hcomp v hv), ?_⟩
  rcases hd : t.isDeclared f.sig with _ | _
  · obtain ⟨a, ha, -⟩ := bind_eq_ok_iff.mp hid
    rw [isDeclared_eq ha] at hd
    cases hid.symm.trans (underlying_plain ha hd)
    exact .inr fun v hv => hs.older (get_eq_ok_iff.mp hget) _ (hcomp v hv)
  · exact .inl ⟨f, hf, hd⟩

/-- **Only a type that contains itself has no text**, or one that nests too deep. -/
theorem nestedText_faults (hs : t.Sound) (hm : t.MethodsTyped) :
    ∀ (depth : Nat) (id : TypeId), t.Holds id →
      FaultsOnly (fun e => e = .endlessType ∧ (depth ≤ id.index ∨ t.NamesSignature))
        (t.nestedText depth id)
  | 0, id, _ => by
    rintro e ⟨⟩
    exact ⟨rfl, .inl (Nat.zero_le _)⟩
  | depth + 1, id, hid => by
    obtain ⟨ty, hty⟩ := exists_get_iff.mpr hid
    -- a step to an older type takes one from the depth and one from the index
    have holder : ∀ c, t.Holds c → (t.NamesSignature ∨ c.index < id.index) →
        FaultsOnly (fun e => e = .endlessType ∧ (depth + 1 ≤ id.index ∨ t.NamesSignature))
          (t.nestedText depth c) := by
      intro c hc hlt e he
      obtain ⟨rfl, hd⟩ := nestedText_faults hs hm depth c hc e he
      refine ⟨rfl, ?_⟩
      rcases hd with hle | hn
      · rcases hlt with hn | hlt
        · exact .inr hn
        · exact .inl (Nat.lt_of_le_of_lt hle hlt)
      · exact .inr hn
    have hcomp : ∀ c ∈ ty.components,
        FaultsOnly (fun e => e = .endlessType ∧ (depth + 1 ≤ id.index ∨ t.NamesSignature))
          (t.nestedText depth c) := fun c hc =>
      holder c (hs.holds_component hty hc) (.inr (hs.older (get_eq_ok_iff.mp hty) c hc))
    rw [nestedText, hty]
    cases ty with
    | basic | named => exact .ok _
    | pointer elem | slice elem | array elem =>
      exact (hcomp elem (List.mem_singleton_self elem)).bind fun _ _ => .ok _
    | channel elem dir =>
      refine (hcomp elem (List.mem_singleton_self elem)).bind fun _ _ => ?_
      cases dir <;> exact .ok _
    | map key value =>
      exact (hcomp key (by simp [Ty.components])).bind fun _ _ =>
        (hcomp value (by simp [Ty.components])).bind fun _ _ => .ok _
    | struct fields =>
      refine (FaultsOnly.mapM fields fun f hf => ?_).bind fun _ _ => .ok _
      exact fieldText_faults (hcomp f.ty (List.mem_map_of_mem hf))
    | tuple vars => exact varsText_faults (fun v hv => hcomp v.ty (List.mem_map_of_mem hv)) false
    | signature sig =>
      refine (signatureText_faults fun v hv => hcomp v.ty ?_).bind fun _ _ => .ok _
      refine List.mem_map_of_mem ?_
      rw [Signature.vars, List.append_assoc]
      exact List.mem_append_right _ hv
    | interface methods =>
      refine (FaultsOnly.mapM methods fun m hm' => ?_).bind fun _ _ => .ok _
      -- the signature of a listed method is older than the interface
      obtain ⟨f, hf, hlt⟩ := hs.olderSig (get_eq_ok_iff.mp hty) m hm'
      have hfunc : t.func m = .ok f := entry_eq_ok_iff.mpr hf
      obtain ⟨sig, hsig⟩ := hm m f (isMethod_of_listed hty hm') hfunc
      have hsig' : t.signatureOf f.sig = .ok sig := signatureOf_eq hsig
      obtain ⟨hheld, hold⟩ := signature_older hs (List.mem_of_getElem? hf) hsig'
      rw [methodText, hfunc]
      change FaultsOnly _ (t.signatureOf f.sig >>= _)
      rw [hsig']
      refine (signatureText_faults fun v hv => holder v.ty (hheld v hv) ?_).bind fun _ _ => .ok _
      exact hold.imp_right fun h => Nat.lt_trans (h v hv) hlt

theorem typeText_faults (hs : t.Sound) (hm : t.MethodsTyped) {id : TypeId} (hid : t.Holds id) :
    FaultsOnly t.Endless (t.typeText id) := by
  intro e he
  obtain ⟨rfl, hd⟩ := nestedText_faults hs hm (t.types.length + 1) id hid e he
  have hlt : id.index < t.types.length := hid
  exact ⟨rfl, hd.resolve_left (by omega)⟩

/-- The receiver type in a signature of the table is in the table. -/
theorem holds_receiver (hs : t.Sound) {id : TypeId} {sig : Signature}
    (hsig : t.signatureOf id = .ok sig) {v : Var} (hv : sig.recv = some v) : t.Holds v.ty := by
  obtain ⟨u, hu, hsig⟩ := bind_eq_ok_iff.mp hsig
  cases u <;> cases hsig
  obtain ⟨id, -, hget⟩ := bind_eq_ok_iff.mp hu
  refine hs.holds_component hget (List.mem_map_of_mem ?_)
  simp [Signature.vars, hv]

/-- A function with a signature has a qualified name, unless that has no end. -/
theorem funcName_faults (hs : t.Sound) (hm : t.MethodsTyped) {m : FuncId} {f : FuncDecl}
    {sig : Signature} (hf : t.func m = .ok f) (hsig : t.signatureOf f.sig = .ok sig) :
    FaultsOnly t.Endless (t.funcName m) := by
  rw [funcName, hf]
  change FaultsOnly _ (t.receiver? m >>= _)
  rw [receiver?_eq hf hsig]
  rcases hr : sig.recv with _ | v
  · exact .ok _
  · change FaultsOnly _ (t.typeText v.ty >>= _)
    exact (typeText_faults hs hm (holds_receiver hs hsig hr)).bind fun _ _ => .ok _

/-- A function with a signature has a text, unless that has no end. -/
theorem funcText_faults (hs : t.Sound) (hm : t.MethodsTyped) {m : FuncId} {f : FuncDecl}
    {sig : Signature} (hf : t.func m = .ok f) (hsig : t.signatureOf f.sig = .ok sig) :
    FaultsOnly t.Endless (t.funcText m) := by
  have hmem : f ∈ t.funcs := List.mem_of_getElem? (entry_eq_ok_iff.mp hf)
  rw [funcText, hf]
  change FaultsOnly _ (t.signatureOf f.sig >>= _)
  rw [hsig]
  refine (funcName_faults hs hm hf hsig).bind fun _ _ =>
    FaultsOnly.bind (signatureText_faults fun v hv => ?_) fun _ _ => .ok _
  exact typeText_faults hs hm ((signature_older hs hmem hsig).1 v hv)

/-- A grown table names no new signatures. -/
theorem Grown.endless (g : Grown t t') (hs : t.Sound) {e : Fault} (h : t'.Endless e) :
    t.Endless e := by
  obtain ⟨rfl, f, hf, hd⟩ := h
  rw [g.funcs] at hf
  obtain ⟨a, ha⟩ := exists_get_iff.mpr (hs.signatures f hf)
  rw [isDeclared_eq (g.get ha)] at hd
  exact ⟨rfl, f, hf, (isDeclared_eq ha).trans hd⟩

end TypeTable

end MethodSSA
