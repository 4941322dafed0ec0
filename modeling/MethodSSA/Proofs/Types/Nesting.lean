import MethodSSA.Proofs.Types.Texts

/-!
# How deep texts nest

`nestedText` writes types that nest at most so deep. What it finds at one depth it finds
at every greater one (`nestedText_mono`), so the bound does not show in the text. In a
table without forged identifiers a type mentions older types only, by its components or by
the signatures of the methods that it lists. So the depth that is needed is never greater
than the place of the type in the table, and every type has a text, also one that refers
to itself through a declaration. All this needs is that no signature of a function is a
declared type.
-/

namespace MethodSSA

/-- What the one answer finds the other one finds too. -/
def Finds {α : Type} (x y : Except Fault α) : Prop := ∀ a, x = .ok a → y = .ok a

namespace Finds

variable {α β : Type}

theorem refl (x : Except Fault α) : Finds x x := fun _ => id

theorem bind {x y : Except Fault α} {f g : α → Except Fault β} (h : Finds x y)
    (hf : ∀ a, Finds (f a) (g a)) : Finds (x >>= f) (y >>= g) := by
  intro b hb
  obtain ⟨a, ha, hb⟩ := bind_eq_ok_iff.mp hb
  exact bind_eq_ok_iff.mpr ⟨a, h a ha, hf a b hb⟩

theorem mapM {f g : α → Except Fault β} (h : ∀ a, Finds (f a) (g a)) :
    ∀ l : List α, Finds (l.mapM f) (l.mapM g)
  | [] => refl _
  | a :: l => by
    rw [List.mapM_cons, List.mapM_cons]
    exact (h a).bind fun _ => (mapM h l).bind fun _ => refl _

end Finds

/-! ## More depth -/

section Pieces

variable {text text' : TypeId → Except Fault String} (h : ∀ id, Finds (text id) (text' id))
include h

theorem varText_finds (dotted : Bool) (v : Var) :
    Finds (varText text dotted v) (varText text' dotted v) :=
  (h v.ty).bind fun _ => .refl _

theorem varsText_finds (variadic : Bool) (vars : List Var) :
    Finds (varsText text variadic vars) (varsText text' variadic vars) :=
  (Finds.mapM (fun _ => varText_finds h _ _) _).bind fun _ => .refl _

theorem signatureText_finds (sig : Signature) :
    Finds (signatureText text sig) (signatureText text' sig) := by
  refine (varsText_finds h sig.variadic sig.params).bind fun params => ?_
  rcases sig.results with _ | ⟨r, _ | ⟨r', rest⟩⟩
  · exact .refl _
  · change Finds (if r.name.isEmpty = true then _ else _) (if r.name.isEmpty = true then _ else _)
    split
    · exact (h r.ty).bind fun _ => .refl _
    · exact (varsText_finds h false [r]).bind fun _ => .refl _
  · exact (varsText_finds h false (r :: r' :: rest)).bind fun _ => .refl _

theorem fieldText_finds (f : Field) : Finds (fieldText text f) (fieldText text' f) :=
  (h f.ty).bind fun _ => .refl _

theorem methodText_finds (t : TypeTable) (m : FuncId) :
    Finds (t.methodText text m) (t.methodText text' m) :=
  (Finds.refl _).bind fun _ => (Finds.refl _).bind fun sig =>
    (signatureText_finds h sig).bind fun _ => .refl _

end Pieces

namespace TypeTable

variable {t t' : TypeTable} {id : TypeId}

/-- **A text that is found at one depth is found at every greater depth.** -/
theorem nestedText_mono (t : TypeTable) : ∀ {depth depth' : Nat}, depth ≤ depth' →
    ∀ id, Finds (t.nestedText depth id) (t.nestedText depth' id) := by
  intro depth
  induction depth with
  | zero =>
    rintro depth' - id s ⟨⟩
  | succ depth ih =>
    intro depth' hle id
    obtain ⟨depth', rfl⟩ := Nat.exists_eq_succ_of_ne_zero (Nat.ne_of_gt (Nat.zero_lt_of_lt hle))
    have h := ih (Nat.le_of_succ_le_succ hle)
    rw [nestedText, nestedText]
    refine (Finds.refl (t.get id)).bind fun ty => ?_
    cases ty with
    | basic | named => exact .refl _
    | pointer elem | slice elem | array elem | channel elem =>
      exact (h elem).bind fun _ => .refl _
    | map key value => exact (h key).bind fun _ => (h value).bind fun _ => .refl _
    | struct fields => exact (Finds.mapM (fieldText_finds h) fields).bind fun _ => .refl _
    | interface methods => exact (Finds.mapM (methodText_finds h t) methods).bind fun _ => .refl _
    | signature sig => exact (signatureText_finds h sig).bind fun _ => .refl _
    | tuple vars => exact varsText_finds h false vars

/-! ## Enough depth -/

/-- The signature of every function is a signature itself and no declared type. -/
def PlainSignatures (t : TypeTable) : Prop :=
  ∀ f ∈ t.funcs, ∃ sig, t.get f.sig = .ok (.signature sig)

namespace PlainSignatures

variable (hp : t.PlainSignatures)
include hp

theorem methodsTyped : t.MethodsTyped := by
  refine methodsTyped_of_forall fun f hf => ?_
  obtain ⟨sig, hsig⟩ := hp f hf
  exact ⟨sig, underlyingTy_plain hsig rfl⟩

theorem not_namesSignature : ¬ t.NamesSignature := by
  rintro ⟨f, hf, hd⟩
  obtain ⟨sig, hsig⟩ := hp f hf
  rw [isDeclared_eq hsig] at hd
  cases hd

theorem not_endless (e : Fault) : ¬ t.Endless e := fun h => hp.not_namesSignature h.2

/-- The functions of a table keep their signatures while types are entered. -/
theorem entered (h : t.Entered t') : t'.PlainSignatures := by
  intro f hf
  rw [h.funcs] at hf
  obtain ⟨sig, hsig⟩ := hp f hf
  exact ⟨sig, h.extended.get hsig⟩

theorem grown (g : t.Grown t') : t'.PlainSignatures := by
  intro f hf
  rw [g.funcs] at hf
  obtain ⟨sig, hsig⟩ := hp f hf
  exact ⟨sig, g.get hsig⟩

/-- **A type has a text, at every depth that is greater than its place.** -/
theorem exists_nestedText (hs : t.Sound) (hid : t.Holds id) :
    ∃ s, ∀ depth, id.index < depth → t.nestedText depth id = .ok s := by
  rcases htext : t.nestedText (id.index + 1) id with e | s
  · obtain ⟨-, hle | hn⟩ := nestedText_faults hs hp.methodsTyped _ id hid e htext
    · exact absurd hle (Nat.not_succ_le_self _)
    · exact absurd hn hp.not_namesSignature
  · exact ⟨s, fun depth hlt => t.nestedText_mono hlt id s htext⟩

theorem typeText_never_faults (hs : t.Sound) (hid : t.Holds id) :
    FaultsOnly (fun _ => False) (t.typeText id) := by
  obtain ⟨s, htext⟩ := hp.exists_nestedText hs hid
  rw [typeText, htext _ (Nat.lt_succ_of_lt hid)]
  exact .ok s

end PlainSignatures

theorem nodeTable_plainSignatures : nodeTable.PlainSignatures := by
  intro f hf
  rcases List.mem_cons.mp hf with rfl | hf
  · exact ⟨_, rfl⟩
  · rw [List.mem_singleton.mp hf]
    exact ⟨_, rfl⟩

/-- What is never a fault is found. -/
theorem exists_ok_of_never_faults {α : Type} {x : Except Fault α}
    (h : FaultsOnly (fun _ => False) x) : ∃ a, x = .ok a := by
  rcases x with e | a
  · exact (h e rfl).elim
  · exact ⟨a, rfl⟩

/-- What the types of a table mention is older: their components, and the signatures of the
methods that they list. -/
structure MentionsOlder (t : TypeTable) : Prop where
  components : ∀ {id ty c}, t.get id = .ok ty → c ∈ ty.components → c.index < id.index
  signatures : ∀ {id ty m}, t.get id = .ok ty → m ∈ ty.listed →
    ∃ f, t.func m = .ok f ∧ f.sig.index < id.index

/-- What mentions types of the table has a text. The text of a type is the same at every depth
that is greater than the place of the type. -/
structure HasTexts (t : TypeTable) : Prop where
  types : ∀ {id}, t.Holds id → ∃ s, t.typeText id = .ok s ∧
    ∀ depth, id.index < depth → t.nestedText depth id = .ok s
  vars : ∀ {vars} variadic, (∀ v ∈ vars, t.Holds v.ty) →
    ∃ s, varsText t.typeText variadic vars = .ok s
  signatures : ∀ {sig}, (∀ v ∈ sig.params ++ sig.results, t.Holds v.ty) →
    ∃ s, signatureText t.typeText sig = .ok s

/-- **Texts end.** What a type mentions is older than the type, so if every function has a
plain signature, every type has a text. No depth shows in it. -/
theorem texts_end (h : t.Built) : t.MentionsOlder ∧ (t.PlainSignatures → t.HasTexts) := by
  have hs := h.sound
  refine ⟨⟨fun hty hc => ?_, fun hty hm => ?_⟩, fun hp => ⟨fun hid => ?_, ?_, ?_⟩⟩
  · exact hs.older (get_eq_ok_iff.mp hty) _ hc
  · obtain ⟨f, hf, hlt⟩ := hs.olderSig (get_eq_ok_iff.mp hty) _ hm
    exact ⟨f, entry_eq_ok_iff.mpr hf, hlt⟩
  · obtain ⟨s, htext⟩ := hp.exists_nestedText hs hid
    exact ⟨s, htext _ (Nat.lt_succ_of_lt hid), htext⟩
  · intro vars variadic hvars
    exact exists_ok_of_never_faults (varsText_faults
      (fun v hv => hp.typeText_never_faults hs (hvars v hv)) variadic)
  · intro sig hvars
    exact exists_ok_of_never_faults (signatureText_faults
      fun v hv => hp.typeText_never_faults hs (hvars v hv))

/-- The table of a declared interface whose method takes a value of the interface. -/
def visitorTable : TypeTable where
  toTypeIndex := .of (initial.types ++
    [.named ⟨"Visitor", none, 0⟩, .signature ⟨some ⟨"", ⟨25⟩⟩, [⟨"v", ⟨25⟩⟩], [], false⟩,
      .interface [⟨0⟩]])
  decls := [⟨⟨25⟩, ⟨27⟩, []⟩]
  funcs := [⟨"Visit", none, ⟨26⟩, ⟨0⟩⟩]
  agrees := TypeIndex.agrees_of _

theorem visitorTable_built : visitorTable.Built := by
  have hvisitor := Built.initial.declareType "Visitor" none
  have hsig := hvisitor.intern (.signature ⟨some ⟨"", ⟨25⟩⟩, [⟨"v", ⟨25⟩⟩], [], false⟩) (by decide)
  have hvisit := hsig.declareFunc ⟨"Visit", none, ⟨26⟩, ⟨0⟩⟩ (by decide)
  have hiface := hvisit.intern (.interface [⟨0⟩]) (by decide)
  exact hiface.setUnderlying ⟨25⟩ ⟨27⟩ rfl

theorem visitorTable_plainSignatures : visitorTable.PlainSignatures := by
  intro f hf
  rw [List.mem_singleton.mp hf]
  exact ⟨_, rfl⟩

/-- An interface that mentions itself. -/
theorem texts_end_visitor :
    visitorTable.Built ∧ visitorTable.PlainSignatures ∧ visitorTable.MentionsOlder ∧
      visitorTable.HasTexts :=
  ⟨visitorTable_built, visitorTable_plainSignatures, (texts_end visitorTable_built).1,
    (texts_end visitorTable_built).2 visitorTable_plainSignatures⟩

example : visitorTable.typeText ⟨27⟩ = .ok "interface\x7bVisit(v Visitor)\x7d" := by cbv

end TypeTable

end MethodSSA
