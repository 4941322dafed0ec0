import MethodSSA.Proofs.Draft.Assignment
import MethodSSA.Proofs.Draft.Converting
import MethodSSA.Proofs.Draft.Recovery

/-!
# What the recovery block returns

The recovery block is emitted once, when it is first asked for. If the function has named
results by then, the block returns what it reads from their variables, and nothing else; if it
has none, the block returns the zero values of all results of the signature. So it returns all
results, and reads again those that have a variable, exactly if no result has a variable in the
end, or all results have names and had their variables before the block was made
(`recovered_results`). A result without a name beside named ones is left out, and variables that
are made later are not read.
-/

namespace MethodSSA

open Relation

/-- The results of a signature that have names. -/
def Signature.named (sig : Signature) : List Var := sig.results.filter (!·.name.isEmpty)

/-! ## Values that are returned -/

namespace Function

variable {f g : Function} {block : BlockId} {addr addr' v : ValueId} {ty ty' : TypeId}
  {t t' : TypeTable}

/-- A value is what an instruction of a block reads from a variable. -/
def Reads (f : Function) (block : BlockId) (addr : ValueId) (ty : TypeId) (v : ValueId) : Prop :=
  ∃ i, f.value v = .ok ⟨ty, .result i⟩ ∧ f.instr i = .ok ⟨block, .load addr, some v, .none⟩

/-- The zero value of a type: a constant, or the content of a variable that the block makes. -/
inductive IsZero (t : TypeTable) (f : Function) (block : BlockId) (ty : TypeId) (v : ValueId) : Prop
  /-- a constant -/
  | constant {u : Ty} (hu : t.underlyingTy ty = .ok u) (hplain : u.isAggregate = false)
    (hv : f.value v = .ok ⟨ty, .const u.zero⟩)
  /-- the content of a new variable -/
  | content {u : Ty} {addr : ValueId} {ptr : TypeId} {i : InstrId} (hu : t.underlyingTy ty = .ok u)
    (haggregate : u.isAggregate = true) (haddr : f.value addr = .ok ⟨ptr, .result i⟩)
    (hi : f.instr i = .ok ⟨block, .alloc false, some addr, .none⟩) (hv : f.Reads block addr ty v)

theorem Reads.later (hvalues : f.values <+: g.values) (hinstrs : f.instrs <+: g.instrs)
    (h : f.Reads block addr ty v) : g.Reads block addr ty v := by
  obtain ⟨i, hv, hi⟩ := h
  exact ⟨i, Builder.value_later hvalues hv, instr_later hinstrs hi⟩

theorem Reads.valueType (h : f.Reads block addr ty v) : f.valueType v = .ok ty := by
  obtain ⟨i, hv, -⟩ := h
  exact Builder.valueType_of_value hv

/-- A value is read from one variable only. -/
theorem Reads.addr_eq (h : f.Reads block addr ty v) (h' : f.Reads block addr' ty' v) :
    addr = addr' := by
  obtain ⟨i, hv, hi⟩ := h
  obtain ⟨i', hv', hi'⟩ := h'
  cases hv.symm.trans hv'
  cases hi.symm.trans hi'
  rfl

namespace IsZero

theorem later (ht : t.Extended t') (hvalues : f.values <+: g.values)
    (hinstrs : f.instrs <+: g.instrs) (h : f.IsZero t block ty v) : g.IsZero t' block ty v := by
  cases h with
  | constant hu hplain hv =>
    exact .constant (ht.underlyingTy hu) hplain (Builder.value_later hvalues hv)
  | content hu haggregate haddr hi hv =>
    exact .content (ht.underlyingTy hu) haggregate (Builder.value_later hvalues haddr)
      (instr_later hinstrs hi) (hv.later hvalues hinstrs)

theorem valueType (h : f.IsZero t block ty v) : f.valueType v = .ok ty := by
  cases h with
  | constant _ _ hv => exact Builder.valueType_of_value hv
  | content _ _ _ _ hv => exact hv.valueType

/-- A zero value is not read from a variable that is made later. -/
theorem not_reads (h : f.IsZero t block ty v) (hvalues : f.values <+: g.values)
    (hinstrs : f.instrs <+: g.instrs) (hnew : f.values.length ≤ addr.index) :
    ¬ g.Reads block addr ty' v := by
  intro hreads
  cases h with
  | constant _ _ hv =>
    obtain ⟨i, hv', -⟩ := hreads
    cases (Builder.value_later hvalues hv).symm.trans hv'
  | content _ _ haddr _ hv =>
    obtain rfl := (hv.later hvalues hinstrs).addr_eq hreads
    exact Nat.not_lt.mpr hnew (List.getElem?_eq_some_iff.mp (entry_eq_ok_iff.mp haddr)).1

end IsZero

/-- A block returns results completely: one value for each, of its type, and if named results
have variables, what the block reads from them. -/
structure Restores (f : Function) (block : BlockId) (results : List Var) (vs : List ValueId) :
    Prop where
  typed : List.Forall₂ (fun p v => f.valueType v = .ok p.ty) results vs
  reloaded : f.namedResults ≠ [] → List.Forall₂ (fun x addr => f.Reads block addr x.1.ty x.2)
    ((results.zip vs).filter (!·.1.name.isEmpty)) f.namedResults

namespace Restores

variable {results : List Var} {vs : List ValueId}

/-- Results that all have names are returned if they are read from their variables. -/
theorem of_named (hall : ∀ p ∈ results, p.name.isEmpty = false)
    (htyped : List.Forall₂ (fun p v => f.valueType v = .ok p.ty) results vs)
    (hreloaded : List.Forall₂ (fun x addr => f.Reads block addr x.1.ty x.2) (results.zip vs)
      f.namedResults) : f.Restores block results vs := by
  refine ⟨htyped, fun _ => ?_⟩
  rw [List.filter_eq_self.mpr]
  · exact hreloaded
  · intro x hx
    rw [hall x.1 (List.of_mem_zip hx).1]
    rfl

/-- What is returned of the results that have names is complete exactly if all have one. -/
theorem iff_of_named {sig : Signature} (h : f.Restores block sig.named vs) :
    f.Restores block sig.results vs ↔ ∀ p ∈ sig.results, p.name.isEmpty = false := by
  constructor
  · intro hall p hp
    have hlength := h.typed.length_eq.trans hall.typed.length_eq.symm
    simpa using List.length_filter_eq_length_iff.mp hlength p hp
  · intro hall
    have hself : sig.named = sig.results :=
      List.filter_eq_self.mpr fun p hp => by rw [hall p hp]; rfl
    rwa [hself] at h

/-- Values of the right types that are read from no named result are complete exactly if no
result has a variable. -/
theorem iff_of_zero (hzero : List.Forall₂ (fun p v => f.valueType v = .ok p.ty ∧
      ∀ addr ∈ f.namedResults, ¬ f.Reads block addr p.ty v) results vs) :
    f.Restores block results vs ↔ f.namedResults = [] := by
  refine ⟨fun h => ?_, fun hnil => ⟨hzero.imp fun _ _ hv => hv.1, fun hne => absurd hnil hne⟩⟩
  by_contra hne
  obtain ⟨addr, addrs, hnamed⟩ := List.exists_cons_of_ne_nil hne
  have hreads := h.reloaded hne
  rw [hnamed] at hreads
  -- the value that would have to be read from the first variable
  obtain ⟨x, xs, hx, -, hlist⟩ := List.forall₂_cons_right_iff.mp hreads
  have hmem : x ∈ (results.zip vs).filter (!·.1.name.isEmpty) := hlist ▸ List.mem_cons_self
  have hv := List.forall₂_zip hzero (List.mem_filter.mp hmem).1
  exact hv.2 addr (hnamed ▸ List.mem_cons_self) hx

end Restores

end Function

namespace Builder

variable {α β : Type} {b b' b'' : Builder} {block : BlockId} {code : List Instr} {v addr : ValueId}
  {ty : TypeId}

/-! ## Emitting the results -/

theorem Fills.prefix_instrs (h : Fills block code b b') : b.func.instrs <+: b'.func.instrs :=
  h.instrs ▸ List.prefix_append _ _

/-- What is read from a variable is emitted in the open block. -/
theorem of_load (hopen : b.current = some block) (h : (load addr).run b = .ok (v, b')) :
    ∃ ptr elem, b.func.valueType addr = .ok ptr ∧ b.types.deref ptr = .ok elem ∧
      b'.types = b.types ∧ b.func.values <+: b'.func.values ∧ b.func.instrs <+: b'.func.instrs ∧
      b'.func.Reads block addr elem v := by
  obtain ⟨ptr, b₁, hread, h⟩ := exists_of_bind h
  obtain ⟨hptr, rfl⟩ := of_valueType hread
  obtain ⟨elem, b₁, hask, h⟩ := exists_of_bind h
  obtain ⟨helem, rfl⟩ := of_ask hask
  cases (emitValue_run hopen (.load addr) elem).symm.trans h
  exact ⟨ptr, elem, hptr, helem, rfl, List.prefix_append _ _, List.prefix_append _ _,
    ⟨b.func.instrs.length⟩, value_withDefinition _ _,
    entry_eq_ok_iff.mpr List.getElem?_concat_length⟩

/-- A new variable is made by an instruction of the open block. -/
theorem variable_of_addLocal (hopen : b.current = some block)
    (h : (addLocal ty).run b = .ok (addr, b')) :
    ∃ ptr i, b'.current = some block ∧ b.types.Entered b'.types ∧
      b'.types.get ptr = .ok (.pointer ty) ∧ b'.func.value addr = .ok ⟨ptr, .result i⟩ ∧
      b'.func.instr i = .ok ⟨block, .alloc false, some addr, .none⟩ := by
  obtain ⟨block', hopen', rfl, rfl⟩ := of_addLocal h
  cases hopen.symm.trans hopen'
  exact ⟨_, ⟨b.func.instrs.length⟩, hopen, .intern _ _, TypeTable.get_intern _ _,
    value_addVariable _ _ _, entry_eq_ok_iff.mpr List.getElem?_concat_length⟩

/-- A zero value is emitted in the open block. -/
theorem of_zeroValue (hopen : b.current = some block) (h : (zeroValue ty).run b = .ok (v, b')) :
    b'.func.IsZero b'.types block ty v := by
  obtain ⟨u, b₁, hask, h⟩ := exists_of_bind h
  obtain ⟨hu, rfl⟩ := of_ask hask
  rcases haggregate : u.isAggregate with _ | _ <;> rw [haggregate] at h
  · obtain ⟨u', b₁, hask', h⟩ := exists_of_bind h
    obtain ⟨hu', rfl⟩ := of_ask hask'
    cases hu.symm.trans hu'
    cases h
    exact .constant hu haggregate (value_withConstant _ _)
  · obtain ⟨addr, b₁, hlocal, h⟩ := exists_of_bind h
    obtain ⟨ptr, i, hopen₁, hentered, hget, haddr, hi⟩ := variable_of_addLocal hopen hlocal
    obtain ⟨ptr', elem, hptr, helem, htypes, hvalues, hinstrs, hv⟩ := of_load hopen₁ h
    -- what the variable holds is what it was made for
    obtain rfl := Except.ok.inj ((valueType_of_value haddr).symm.trans hptr)
    have hderef := TypeTable.deref_eq (TypeTable.underlyingTy_plain hget rfl)
    obtain rfl := Except.ok.inj (hderef.symm.trans helem)
    rw [htypes]
    exact .content (hentered.extended.underlyingTy hu) haggregate (value_later hvalues haddr)
      (Function.instr_later hinstrs hi) hv

/-- What one step after another gives, each into the same block. -/
theorem forall₂_of_mapM {x : α → Build β} {P : α → β → Builder → Prop}
    (hacts : ∀ a, Acts Emission (x a))
    (hkeep : ∀ {a v b b' code}, Fills block code b b' → P a v b → P a v b')
    (hstep : ∀ {a v b b'}, b.current = some block → (x a).run b = .ok (v, b') → P a v b')
    {l : List α} {vs : List β} (hopen : b.current = some block)
    (h : (l.mapM x).run b = .ok (vs, b')) : List.Forall₂ (fun a v => P a v b') l vs := by
  induction l generalizing b vs with
  | nil =>
    rw [List.mapM_nil] at h
    cases h
    exact .nil
  | cons a l ih =>
    rw [List.mapM_cons] at h
    obtain ⟨v, b₁, ha, h⟩ := exists_of_bind h
    obtain ⟨vs, b₂, hl, h⟩ := exists_of_bind h
    cases h
    have hopen₁ := (current_eq_of_emissions ((hacts a).makes ha)).trans hopen
    obtain ⟨code, hfills⟩ := fills_of_emissions ((Acts.mapM hacts l).makes hl) hopen₁
    exact .cons (hkeep hfills (hstep hopen ha)) (ih hopen₁ hl)

/-- A value is the content of a variable, by the type of its address. -/
def Contains (b : Builder) (block : BlockId) (addr v : ValueId) : Prop :=
  ∃ ptr elem, b.func.valueType addr = .ok ptr ∧ b.types.deref ptr = .ok elem ∧
    b.func.Reads block addr elem v

theorem Contains.later (hfills : Fills block code b b') (h : b.Contains block addr v) :
    b'.Contains block addr v := by
  obtain ⟨ptr, elem, hptr, helem, hv⟩ := h
  exact ⟨ptr, elem, valueType_later hfills.values hptr, hfills.types.extended.deref helem,
    hv.later hfills.values hfills.prefix_instrs⟩

/-- **What the recovery block returns is decided when it is made**: the contents of the named
results if there are some by then, and else zero values for all results. -/
theorem of_recoveredResults {vs : List ValueId} (hopen : b.current = some block)
    (h : recoveredResults.run b = .ok (vs, b')) :
    (b.func.namedResults = [] ∧ ∃ sig, b.types.signatureOf b.func.signature = .ok sig ∧
      List.Forall₂ (fun p v => b'.func.IsZero b'.types block p.ty v) sig.results vs) ∨
    (b.func.namedResults ≠ [] ∧
      List.Forall₂ (b'.Contains block) b.func.namedResults vs) := by
  replace h := of_get_bind h
  dsimp only at h
  rcases hnamed : b.func.namedResults.isEmpty with _ | _
  · rw [hnamed, if_neg Bool.false_ne_true] at h
    refine .inr ⟨List.isEmpty_eq_false_iff.mp hnamed, ?_⟩
    refine forall₂_of_mapM (P := fun addr v b => b.Contains block addr v)
      load_acts Contains.later (fun hopen hload => ?_) hopen h
    obtain ⟨ptr, elem, hptr, helem, htypes, hvalues, -, hv⟩ := of_load hopen hload
    exact ⟨ptr, elem, valueType_later hvalues hptr, htypes ▸ helem, hv⟩
  · rw [hnamed, if_pos rfl] at h
    obtain ⟨sig, b₁, hread, h⟩ := exists_of_bind h
    obtain ⟨hsig, rfl⟩ := of_ownSignature hread
    refine .inl ⟨List.isEmpty_iff.mp hnamed, sig, hsig, ?_⟩
    refine forall₂_of_mapM (P := fun (p : Var) v b => b.func.IsZero b.types block p.ty v)
      (fun p => zeroValue_acts p.ty) (fun hfills hv => ?_) (fun hopen hzero => ?_) hopen h
    · exact hv.later hfills.types.extended hfills.values hfills.prefix_instrs
    · exact of_zeroValue hopen hzero

/-! ## The variables of named results -/

/-- An address is that of a variable for a result. -/
def VariableOf (b : Builder) (p : Var) (addr : ValueId) : Prop :=
  ∃ ptr, b.func.valueType addr = .ok ptr ∧ b.types.get ptr = .ok (.pointer p.ty)

/-- What is read from the variables of results are values of their types. -/
theorem values_of_contents {ps : List Var} {addrs vs : List ValueId}
    (hvars : List.Forall₂ b.VariableOf ps addrs) (hvs : List.Forall₂ (b.Contains block) addrs vs) :
    List.Forall₂ (fun p v => b.func.valueType v = .ok p.ty) ps vs ∧
      List.Forall₂ (fun x addr => b.func.Reads block addr x.1.ty x.2) (ps.zip vs) addrs := by
  induction hvars generalizing vs with
  | nil =>
    cases hvs
    exact ⟨.nil, .nil⟩
  | cons hvar _ ih =>
    cases hvs with
    | cons hv hrest =>
      obtain ⟨ptr, hptr, hget⟩ := hvar
      obtain ⟨ptr', elem, hptr', helem, hreads⟩ := hv
      obtain rfl := Except.ok.inj (hptr.symm.trans hptr')
      have hderef := TypeTable.deref_eq (TypeTable.underlyingTy_plain hget rfl)
      obtain rfl := Except.ok.inj (hderef.symm.trans helem)
      obtain ⟨htyped, hreloaded⟩ := ih hrest
      exact ⟨.cons hreads.valueType htyped, .cons hreads hreloaded⟩

/-- The draft has got variables for some results, each by a new address. -/
structure Declares (ps : List Var) (b b' : Builder) : Prop where
  types : b.types.Entered b'.types
  signature : b'.func.signature = b.func.signature
  recover : b'.func.recover = b.func.recover
  values : b.func.values <+: b'.func.values
  named : ∃ addrs, b'.func.namedResults = b.func.namedResults ++ addrs ∧
    List.Forall₂ b'.VariableOf ps addrs ∧ ∀ addr ∈ addrs, b.func.values.length ≤ addr.index

theorem VariableOf.later (htypes : b.types.types <+: b'.types.types)
    (hvalues : b.func.values <+: b'.func.values) {p : Var} (h : b.VariableOf p addr) :
    b'.VariableOf p addr := by
  obtain ⟨ptr, hptr, hget⟩ := h
  exact ⟨ptr, valueType_later hvalues hptr, entry_of_prefix htypes hget⟩

theorem of_addNamedResult {p : Var} {u : Unit} (h : (addNamedResult p).run b = .ok (u, b')) :
    Declares [p] b b' := by
  obtain ⟨addr, b₁, hlocal, h⟩ := exists_of_bind h
  cases h
  obtain ⟨block, -, rfl, rfl⟩ := of_addLocal hlocal
  refine ⟨.intern _ _, rfl, rfl, List.prefix_append _ _, [⟨b.func.values.length⟩], rfl, ?_, ?_⟩
  · exact .cons ⟨_, valueType_of_value (value_addVariable b.func block _),
      TypeTable.get_intern _ _⟩ .nil
  · simp

/-- Every result gets a variable of its own. -/
theorem declares_of_forM {ps : List Var} {u : PUnit}
    (h : (ps.forM addNamedResult).run b = .ok (u, b')) : Declares ps b b' := by
  induction ps generalizing b with
  | nil =>
    cases h
    exact ⟨.refl _, rfl, rfl, List.prefix_rfl, [], (List.append_nil _).symm, .nil, nofun⟩
  | cons p ps ih =>
    obtain ⟨u', b₁, hp, hps⟩ := exists_of_bind (f := fun _ => ps.forM addNamedResult) h
    have h₁ := of_addNamedResult hp
    have h₂ := ih hps
    obtain ⟨addrs₁, hnamed₁, hvars₁, hnew₁⟩ := h₁.named
    obtain ⟨addrs₂, hnamed₂, hvars₂, hnew₂⟩ := h₂.named
    refine ⟨h₁.types.trans h₂.types, h₂.signature.trans h₁.signature,
      h₂.recover.trans h₁.recover, h₁.values.trans h₂.values, addrs₁ ++ addrs₂, ?_, ?_, ?_⟩
    · rw [hnamed₂, hnamed₁, List.append_assoc]
    · exact List.rel_append (hvars₁.imp fun _ _ => VariableOf.later h₂.types.types h₂.values) hvars₂
    · rw [List.forall_mem_append]
      exact ⟨hnew₁, fun addr haddr => Nat.le_trans h₁.values.length_le (hnew₂ addr haddr)⟩

/-- Named results get their variables once. -/
theorem of_addNamedResults {addrs : List ValueId} (h : addNamedResults.run b = .ok (addrs, b')) :
    (b.func.namedResults ≠ [] ∧ b' = b) ∨ (b.func.namedResults = [] ∧
      ∃ sig, b.types.signatureOf b.func.signature = .ok sig ∧ Declares sig.named b b') := by
  replace h := of_get_bind h
  rcases hnamed : b.func.namedResults.isEmpty with _ | _
  · rw [hnamed, if_neg Bool.false_ne_true] at h
    cases h
    exact .inl ⟨List.isEmpty_eq_false_iff.mp hnamed, rfl⟩
  · rw [hnamed, if_pos rfl] at h
    obtain ⟨sig, b₁, hread, h⟩ := exists_of_bind h
    obtain ⟨hsig, rfl⟩ := of_ownSignature hread
    obtain ⟨u, b₁, hdeclare, h⟩ := exists_of_bind h
    cases h
    exact .inr ⟨List.isEmpty_iff.mp hnamed, sig, hsig, declares_of_forM hdeclare⟩

/-! ## What is done before and after -/

/-- What comes next for a draft: a command, or other work in the same workspace, by which the
table gets longer and the signature of the function stays the same. -/
inductive FairTurn (b : Builder) : Builder → Prop
  /-- a command is carried out, which may fail -/
  | perform {c : Command} {result : Except BuildError Outcome} {b' : Builder}
    (hrun : (Builder.perform c).run.run b = .ok (result, b')) : FairTurn b b'
  /-- the workspace is used elsewhere -/
  | share (w : Workspace) (htypes : b.types.types <+: w.types.types)
    (hsig : ∀ {sig}, b.types.signatureOf b.func.signature = .ok sig →
      w.types.signatureOf b.func.signature = .ok sig) : FairTurn b { b with toWorkspace := w }

/-- A later state of a draft: what is there stays, and named results have their variables for
good. -/
structure Later (b b' : Builder) : Prop where
  types : b.types.types <+: b'.types.types
  signatureOf : ∀ {sig}, b.types.signatureOf b.func.signature = .ok sig →
    b'.types.signatureOf b'.func.signature = .ok sig
  values : b.func.values <+: b'.func.values
  instrs : b.func.instrs <+: b'.func.instrs
  kept : b.func.namedResults ≠ [] → b'.func.namedResults = b.func.namedResults
  fresh : b.func.namedResults = [] →
    ∀ addr ∈ b'.func.namedResults, b.func.values.length ≤ addr.index

namespace Later

theorem trans (h : Later b b') (h' : Later b' b'') : Later b b'' where
  types := h.types.trans h'.types
  signatureOf hsig := h'.signatureOf (h.signatureOf hsig)
  values := h.values.trans h'.values
  instrs := h.instrs.trans h'.instrs
  kept hne := by
    have heq := h.kept hne
    rw [h'.kept (heq ▸ hne), heq]
  fresh hnil addr haddr := by
    by_cases hmid : b'.func.namedResults = []
    · exact Nat.le_trans h.values.length_le (h'.fresh hmid addr haddr)
    · exact h.fresh hnil addr (h'.kept hmid ▸ haddr)

/-- A draft whose table has more types, and whose named results are the same. -/
theorem steady (htypes : b.types.Entered b'.types) (hsig : b'.func.signature = b.func.signature)
    (hvalues : b.func.values <+: b'.func.values) (hinstrs : b.func.instrs <+: b'.func.instrs)
    (hnamed : b'.func.namedResults = b.func.namedResults) : Later b b' where
  types := htypes.types
  signatureOf h := hsig ▸ htypes.extended.signatureOf h
  values := hvalues
  instrs := hinstrs
  kept _ := hnamed
  fresh hnil addr haddr := by
    rw [hnamed, hnil] at haddr
    cases haddr

end Later

/-- What a command does with named results and recovery block: nothing, or it asks for the
recovery block, or it makes the variables of the named results. -/
theorem cases_of_perform {c : Command} {result : Except BuildError Outcome}
    (hrun : (perform c).run.run b = .ok (result, b')) :
    Steady b b' ∨ (∃ block, recoveryBlock.run b = .ok (block, b')) ∨
      (b.func.namedResults = [] ∧ ∃ sig, b.types.signatureOf b.func.signature = .ok sig ∧
        Declares sig.named b b') := by
  by_cases hn : c = .namedResults
  · subst hn
    obtain ⟨addrs, b₁, hnamed, hend⟩ := exists_of_lift_bind hrun
    cases hend
    rcases of_addNamedResults hnamed with ⟨-, rfl⟩ | hdeclares
    · exact .inl (.refl _)
    · exact .inr (.inr hdeclares)
  by_cases hr : c = .recoveryBlock
  · subst hr
    obtain ⟨block, b₁, hrecover, hend⟩ := exists_of_lift_bind hrun
    cases hend
    exact .inr (.inl ⟨block, hrecover⟩)
  · exact .inl (single_of_row Steady.refl Steady.trans (perform_steady c hn hr hrun))

/-- To make the recovery block leaves the named results alone. -/
theorem namedResults_of_recoveryBlock (hrun : recoveryBlock.run b = .ok (block, b')) :
    b.types.Entered b'.types ∧ b'.func.signature = b.func.signature ∧
      b'.func.namedResults = b.func.namedResults := by
  rcases lands_or_found hrun with ⟨-, results, hlands⟩ | ⟨-, rfl⟩
  · exact ⟨hlands.types, (congrArg Function.signature hlands.header :),
      (congrArg Function.namedResults hlands.header :)⟩
  · exact ⟨.refl _, rfl, rfl⟩

theorem Shaped.later (s : Shaped b) {c : Command} {result : Except BuildError Outcome}
    (hrun : (perform c).run.run b = .ok (result, b')) : Later b b' := by
  have hkept := s.preserves hrun
  rcases cases_of_perform hrun with h | ⟨block, h⟩ | ⟨hnil, sig, -, h⟩
  · exact .steady h.types h.signature hkept.values hkept.instrs h.namedResults
  · obtain ⟨htypes, hsig, hnamed⟩ := namedResults_of_recoveryBlock h
    exact .steady htypes hsig hkept.values hkept.instrs hnamed
  · obtain ⟨addrs, hnamed, -, hnew⟩ := h.named
    rw [hnil, List.nil_append] at hnamed
    exact ⟨h.types.types, fun hs => h.signature ▸ h.types.extended.signatureOf hs,
      hkept.values, hkept.instrs, fun hne => absurd hnil hne, fun _ => hnamed ▸ hnew⟩

namespace FairTurn

theorem turn (h : FairTurn b b') : Turn b b' := by
  cases h with
  | perform hrun => exact .perform hrun
  | share w => exact .share w

theorem later (s : Shaped b) (h : FairTurn b b') : Later b b' := by
  cases h with
  | perform hrun => exact s.later hrun
  | share w htypes hsig =>
    exact ⟨htypes, hsig, List.prefix_rfl, List.prefix_rfl, fun _ => rfl, fun hnil addr haddr =>
      absurd haddr (hnil ▸ List.not_mem_nil)⟩

end FairTurn

/-- Any number of such turns. -/
abbrev Turns : Builder → Builder → Prop := ReflTransGen FairTurn

theorem Turns.turns (hturns : Turns b b') : ReflTransGen Turn b b' :=
  ReflTransGen.mono (fun _ _ => FairTurn.turn) _ _ hturns

theorem Turns.reached (hturns : Turns b b') (h : Reached b) : Reached b' := h.turns hturns.turns

/-- **Whatever the turns are, they lead to a later state.** -/
theorem Turns.later (hturns : Turns b b') (h : Reached b) : Later b b' := by
  induction hturns with
  | refl => exact .steady (.refl _) rfl List.prefix_rfl List.prefix_rfl rfl
  | tail hturns hturn ih => exact ih.trans (hturn.later (Turns.reached hturns h).shaped)

/-- Named results have their variables, once there are any. -/
theorem Turns.named (hturns : Turns b b') (h : Reached b) (hnone : b.func.namedResults = []) :
    b'.func.namedResults = [] ∨ ∃ sig, b'.types.signatureOf b'.func.signature = .ok sig ∧
      List.Forall₂ b'.VariableOf sig.named b'.func.namedResults := by
  induction hturns with
  | refl => exact .inl hnone
  | @tail b₁ b₂ hturns hturn ih =>
    have hlater := hturn.later (Turns.reached hturns h).shaped
    by_cases hnil : b₁.func.namedResults = []
    · cases hturn with
      | share w => exact .inl hnil
      | perform hrun =>
        rcases cases_of_perform hrun with hs | ⟨block, hr⟩ | ⟨-, sig, hsig, hd⟩
        · exact .inl (hs.namedResults.trans hnil)
        · exact .inl ((namedResults_of_recoveryBlock hr).2.2.trans hnil)
        · obtain ⟨addrs, hnamed, hvars, -⟩ := hd.named
          rw [hnil, List.nil_append] at hnamed
          exact .inr ⟨sig, hlater.signatureOf hsig, hnamed ▸ hvars⟩
    · obtain ⟨sig, hsig, hvars⟩ := ih.resolve_left hnil
      rw [hlater.kept hnil]
      exact .inr ⟨sig, hlater.signatureOf hsig,
        hvars.imp fun _ _ => VariableOf.later hlater.types hlater.values⟩

/-- The moment at which the recovery block is made: from `b₀` to `b₁`, on the way from `start`
to `b`. -/
structure Moment (start : Builder) (block : BlockId) (b₀ b₁ b : Builder) : Prop where
  before : Turns start b₀
  first : b₀.func.recover = none
  made : recoveryBlock.run b₀ = .ok (block, b₁)
  after : Turns b₁ b

/-- A recovery block was made at some moment. -/
theorem Turns.exists_moment (hturns : Turns b b') (hnone : b.func.recover = none)
    (hr : b'.func.recover = some block) : ∃ b₀ b₁, Moment b block b₀ b₁ b' := by
  induction hturns with
  | refl => cases hnone.symm.trans hr
  | @tail b₁ b₂ hturns hturn ih =>
    rcases hmid : b₁.func.recover with _ | other
    · cases hturn with
      | share w => cases hmid.symm.trans hr
      | perform hrun =>
        rcases cases_of_perform hrun with hs | ⟨made, hmade⟩ | ⟨-, sig, -, hd⟩
        · cases (hs.recover.trans hmid).symm.trans hr
        · cases (recover_of_recoveryBlock hmade).symm.trans hr
          exact ⟨b₁, b₂, hturns, hmid, hmade, .refl⟩
        · cases (hd.recover.trans hmid).symm.trans hr
    · cases (hturn.turn.recover hmid).symm.trans hr
      obtain ⟨b₀, b₁, hmoment⟩ := ih hmid
      exact ⟨b₀, b₁, hmoment.before, hmoment.first, hmoment.made, hmoment.after.tail hturn⟩

/-- **What the recovery block returns is decided when it is made**: what is read from the named
results if they have variables by then, and else zero values of all results. -/
theorem recovered_at (hfirst : b.func.recover = none)
    (hmade : recoveryBlock.run b = .ok (block, b')) :
    ∃ stored results, b'.func.block block = .ok stored ∧ stored.term = .ret results ∧
      ((b.func.namedResults = [] ∧ ∃ sig, b.types.signatureOf b.func.signature = .ok sig ∧
        List.Forall₂ (fun p v => b'.func.IsZero b'.types block p.ty v) sig.results results) ∨
      (b.func.namedResults ≠ [] ∧
        List.Forall₂ (b'.Contains block) b.func.namedResults results)) := by
  rcases of_recoveryBlock hmade with ⟨hfound, -⟩ | ⟨b₁, results, -, rfl, hresults, rfl⟩
  · cases hfirst.symm.trans hfound
  have hlands : Lands b ⟨b.func.blocks.length⟩ results _ :=
    lands_of_emissions (recoveredResults_acts.makes hresults)
  obtain ⟨code, -, -, hblocks⟩ := hlands.added
  have hstored : (b₁.func.closeBlock ⟨b.func.blocks.length⟩ (.ret results)).block
      ⟨b.func.blocks.length⟩ = .ok ⟨⟨b.func.blocks.length⟩, some "recover",
        instrsFrom b.func.instrs.length code.length, .ret results, [], []⟩ := by
    refine entry_eq_ok_iff.mpr ?_
    rw [hblocks]
    exact List.getElem?_concat_length
  refine ⟨_, results, hstored, rfl, ?_⟩
  -- closing the block changes no value and no instruction
  rw [Function.closeBlock_eq]
  rcases of_recoveredResults (b := b.landing) rfl hresults with
    ⟨hnil, sig, hsig, hzero⟩ | hcontents
  · refine .inl ⟨hnil, sig, hsig, hzero.imp fun p v hv => ?_⟩
    exact Function.IsZero.later (f := b₁.func) (.refl _) List.prefix_rfl List.prefix_rfl hv
  · exact .inr hcontents

section Returning

variable {sig : Signature} {results : List ValueId} (h : Later b b')
include h

/-- What returned zero values once returns them for ever, and never reads a variable that is
made later. -/
theorem Later.zero (hnil : b.func.namedResults = [])
    (hzero : List.Forall₂ (fun p v => b.func.IsZero b.types block p.ty v) sig.results results) :
    List.Forall₂ (fun p v => b'.func.IsZero b.types block p.ty v) sig.results results ∧
      (b'.func.Restores block sig.results results ↔ b'.func.namedResults = []) := by
  have hlater : List.Forall₂ (fun p v => b'.func.IsZero b.types block p.ty v) sig.results results :=
    hzero.imp fun _ _ hv => hv.later (.refl _) h.values h.instrs
  refine ⟨hlater, Function.Restores.iff_of_zero (hzero.imp fun p v hv => ⟨?_, ?_⟩)⟩
  · exact (hv.later (.refl _) h.values h.instrs).valueType
  · exact fun addr haddr => hv.not_reads h.values h.instrs (h.fresh hnil addr haddr)

/-- What returned the contents of the named results returns them for ever. -/
theorem Later.contents (hne : b.func.namedResults ≠ [])
    (hvars : List.Forall₂ b.VariableOf sig.named b.func.namedResults)
    (hcontents : List.Forall₂ (b.Contains block) b.func.namedResults results) :
    b'.func.namedResults = b.func.namedResults ∧
      b'.func.Restores block sig.named results := by
  have hnamed := h.kept hne
  obtain ⟨htyped, hreloaded⟩ := values_of_contents hvars hcontents
  refine ⟨hnamed, .of_named (fun p hp => by simpa using (List.mem_filter.mp hp).2) ?_ ?_⟩
  · exact htyped.imp fun _ _ => valueType_later h.values
  · rw [hnamed]
    exact hreloaded.imp fun _ _ hv => hv.later h.values h.instrs

end Returning

/-- A block of a reached draft lists the instructions that are in it. -/
theorem Reached.mem_instrs_iff (h : Reached b) {stored : Block}
    (hstored : b.func.block block = .ok stored) {i : InstrId} {instr : Instr}
    (hi : b.func.instr i = .ok instr) : i ∈ stored.instrs ↔ instr.block = block := by
  refine (h.assigned.mem_instrs_iff hstored i).trans ⟨?_, fun heq => ⟨instr, hi, heq⟩⟩
  rintro ⟨instr', hi', rfl⟩
  rw [Except.ok.inj (hi.symm.trans hi')]

/-- **The recovery block returns what its moment decides.** A function that is finished and has a
recovery block made it at some moment. If there were named results by then, the block returns
what it reads from their variables, and they stay the named results of the function; otherwise
it returns the zero values of all results. So all results are returned, and read again wherever
they have variables, exactly if no result has a variable in the end, or they had them when the
block was made and none of them is without a name. -/
theorem recovered_results {w : Workspace} {name : String} {signature : TypeId} {f : Function}
    (hturns : Turns ⟨w, .start name signature⟩ b) (hfinish : b.finish.run = .ok (.ok f))
    (hr : f.recover = some block) :
    (∃ b₀ b₁, Moment ⟨w, .start name signature⟩ block b₀ b₁ b) ∧
    ∀ b₀ b₁, Moment ⟨w, .start name signature⟩ block b₀ b₁ b →
      ∃ sig stored results, b.types.signatureOf f.signature = .ok sig ∧
        f.block block = .ok stored ∧ stored.term = .ret results ∧
        (∀ i instr, f.instr i = .ok instr → (i ∈ stored.instrs ↔ instr.block = block)) ∧
        (b₀.func.namedResults = [] →
          List.Forall₂ (fun p v => f.IsZero b₁.types block p.ty v) sig.results results) ∧
        (b₀.func.namedResults ≠ [] → f.namedResults = b₀.func.namedResults ∧
          f.Restores block sig.named results) ∧
        (f.Restores block sig.results results ↔ f.namedResults = [] ∨
          b₀.func.namedResults ≠ [] ∧ ∀ p ∈ sig.results, p.name.isEmpty = false) := by
  obtain rfl := func_of_finish hfinish
  refine ⟨hturns.exists_moment rfl hr, fun b₀ b₁ hmoment => ?_⟩
  have hstart : Reached ⟨w, .start name signature⟩ := .start w name signature
  have h₀ : Reached b₀ := hmoment.before.reached hstart
  have hperform := perform_recoveryBlock hmoment.made
  have h₁ : Reached b₁ := h₀.perform hperform
  have hlater₁ : Later b₀ b₁ := h₀.shaped.later hperform
  have hlater : Later b₁ b := hmoment.after.later h₁
  have hnamed₁ := (namedResults_of_recoveryBlock hmoment.made).2.2
  obtain ⟨stored₁, results, hstored₁, hterm, hcases⟩ := recovered_at hmoment.first hmoment.made
  -- the block was closed at once
  have hclosed : stored₁.isClosed = true := isClosed_of_isReturn (by rw [hterm]; rfl)
  obtain ⟨-, preds, hstored⟩ :=
    h₁.settled (recover_of_recoveryBlock hmoment.made) hstored₁ hclosed hmoment.after.turns
  have hlisted : ∀ i instr, b.func.instr i = .ok instr →
      (i ∈ stored₁.instrs ↔ instr.block = block) :=
    fun _ _ hi => (hturns.reached hstart).mem_instrs_iff hstored hi
  rcases hcases with ⟨hnil, sig, hsig, hzero⟩ | ⟨hne, hcontents⟩
  · have hsig := hlater.signatureOf (hlater₁.signatureOf hsig)
    obtain ⟨hzero, hiff⟩ := hlater.zero (hnamed₁.trans hnil) hzero
    exact ⟨sig, _, results, hsig, hstored, hterm, hlisted, fun _ => hzero,
      fun hne => absurd hnil hne, hiff.trans ⟨.inl, fun h => h.resolve_right fun h => h.1 hnil⟩⟩
  · obtain ⟨sig, hsig, hvars⟩ := (hmoment.before.named hstart rfl).resolve_left hne
    have hsig := hlater.signatureOf (hlater₁.signatureOf hsig)
    rw [← hnamed₁] at hvars hcontents hne
    obtain ⟨hnamed, hrestores⟩ := hlater.contents hne
      (hvars.imp fun _ _ => VariableOf.later hlater₁.types hlater₁.values) hcontents
    rw [hnamed₁] at hne hnamed
    refine ⟨sig, _, results, hsig, hstored, hterm, hlisted, fun hnil => absurd hnil hne,
      fun _ => ⟨hnamed, hrestores⟩, hrestores.iff_of_named.trans ⟨fun h => .inr ⟨hne, h⟩, ?_⟩⟩
    rintro (hnil | ⟨-, h⟩)
    · exact absurd (hnamed ▸ hnil) hne
    · exact h

/-- Commands one after another are turns. -/
theorem Turns.of_after {commands : List Command} (h : b.after commands = .ok b') : Turns b b' := by
  induction commands generalizing b with
  | nil =>
    cases h
    exact .refl
  | cons c commands ih =>
    obtain ⟨b₁, hc, hrest⟩ := bind_eq_ok_iff.mp (h : _ >>= _ = _)
    obtain ⟨⟨result, b₂⟩, hperform, ⟨⟩⟩ := bind_eq_ok_iff.mp hc
    exact .head (.perform hperform) (ih hrest)

/-- A draft for a function with two results, one of which has a name. -/
def mixedStart : Builder :=
  let sig : Signature := ⟨none, [], [⟨"ok", TypeTable.boolean⟩, ⟨"", TypeTable.boolean⟩], false⟩
  let (id, types) := TypeTable.initial.intern (.signature sig)
  ⟨⟨types, .debug, []⟩, .start "mixed" id⟩

/-- The recovery block does not return both results, though it is made after the variable of the
one with a name. -/
theorem recovered_results_mixed : ∃ b f sig stored results,
    mixedStart.after [.namedResults, .recoveryBlock, .constTrue, .close (.ret [⟨2⟩, ⟨2⟩])] =
      .ok b ∧ b.finish.run = .ok (.ok f) ∧ f.recover = some ⟨1⟩ ∧
      b.types.signatureOf f.signature = .ok sig ∧ f.block ⟨1⟩ = .ok stored ∧
      stored.term = .ret results ∧ ¬ f.Restores ⟨1⟩ sig.results results := by
  obtain ⟨b, hafter, hfacts⟩ := exists_after (b := mixedStart)
    [.namedResults, .recoveryBlock, .constTrue, .close (.ret [⟨2⟩, ⟨2⟩])]
    (g := fun b => (b.finish.run.toOption.map fun r => r.toOption.isSome, b.func.recover,
      b.func.namedResults.isEmpty,
      (b.types.signatureOf b.func.signature).toOption.map (·.results.map Var.name)))
    (x := (some true, some ⟨1⟩, false, some ["ok", ""])) (by decide +kernel)
  simp only [Prod.mk.injEq] at hfacts
  obtain ⟨hfinish, hr, hnamed, hnames⟩ := hfacts
  obtain ⟨f, hfinish⟩ : ∃ f, b.finish.run = .ok (.ok f) := by
    rcases hend : b.finish.run with e | e | f <;> rw [hend] at hfinish <;> cases hfinish
    exact ⟨f, rfl⟩
  obtain rfl := func_of_finish hfinish
  have hturns := Turns.of_after hafter
  obtain ⟨⟨b₀, b₁, hmoment⟩, hall⟩ := recovered_results hturns hfinish hr
  obtain ⟨sig, stored, results, hsig, hstored, hterm, -, -, -, hiff⟩ := hall b₀ b₁ hmoment
  refine ⟨b, b.func, sig, stored, results, hafter, hfinish, hr, hsig, hstored, hterm, ?_⟩
  rw [hiff]
  rintro (hnil | ⟨-, hall⟩)
  · rw [hnil] at hnamed
    cases hnamed
  · -- the second result has no name
    rw [hsig] at hnames
    have hlist : sig.results.map Var.name = ["ok", ""] := Option.some.inj hnames
    have hlast : "" ∈ sig.results.map Var.name := by simp [hlist]
    obtain ⟨p, hp, hname⟩ := List.mem_map.mp hlast
    have hempty := hall p hp
    rw [hname] at hempty
    cases hempty

end Builder

end MethodSSA
