import MethodSSA.Draft.Command
import MethodSSA.Proofs.Transitions

/-!
# How drafts grow

Most steps only add to a draft, and only where it is open: values, instructions and variables
stay, a block that is not open keeps all but the list of blocks that lead to it, and where no block
is open neither blocks nor instructions change (`Grows`). Such a step also insists on an open block
if it needs one: what it does without one is what it would do with one, as long as that
changes neither blocks nor instructions, and else it is a fault (`Insists`). `Acts` puts
both beside the transitions that a step makes, so that a step put together of others has
all three from its parts.
-/

namespace MethodSSA

open Relation

/-! ## Closing a block -/

namespace Function

variable {f : Function}

theorem getElem?_addPreds (pred : BlockId) (succs : List BlockId) (f : Function) (i : Nat) :
    (f.addPreds pred succs).blocks[i]? = f.blocks[i]?.map fun b =>
      { b with preds := b.preds ++ List.replicate (succs.count ⟨i⟩) pred } := by
  induction succs generalizing f with
  | nil => simp [addPreds]
  | cons succ succs ih =>
    change ((f.updateBlock succ _).addPreds pred succs).blocks[i]? = _
    rw [ih, updateBlock, List.getElem?_modify, List.count_cons]
    by_cases h : succ.index = i
    · obtain rfl : succ = ⟨i⟩ := congrArg BlockId.mk h
      rcases f.blocks[i]? with _ | b <;> simp [List.replicate_succ]
    · have hne : succ ≠ ⟨i⟩ := fun heq => h (congrArg BlockId.index heq)
      rcases f.blocks[i]? with _ | b <;> simp [h, hne]

theorem getElem?_closeBlock (block : BlockId) (term : Terminator) (i : Nat) :
    (f.closeBlock block term).blocks[i]? = f.blocks[i]?.map fun b =>
      { b with
        preds := b.preds ++ List.replicate (term.successors.count ⟨i⟩) block
        term := if block.index = i then term else b.term
        succs := if block.index = i then term.successors else b.succs } := by
  rw [closeBlock, updateBlock, List.getElem?_modify, getElem?_addPreds]
  rcases f.blocks[i]? with _ | b
  · simp
  · by_cases h : block.index = i <;> simp [h]

@[simp] theorem length_closeBlock (block : BlockId) (term : Terminator) :
    (f.closeBlock block term).blocks.length = f.blocks.length := by
  have hpreds : ∀ (succs : List BlockId) (f : Function),
      (f.addPreds block succs).blocks.length = f.blocks.length := by
    intro succs
    induction succs with
    | nil => exact fun _ => rfl
    | cons succ succs ih =>
      intro f
      exact (ih _).trans (List.length_modify ..)
  simp [closeBlock, updateBlock, hpreds]

theorem addPreds_eq (pred : BlockId) (succs : List BlockId) (f : Function) :
    f.addPreds pred succs = { f with blocks := (f.addPreds pred succs).blocks } := by
  induction succs generalizing f with
  | nil => rfl
  | cons succ succs ih => exact ih _

/-- Closing a block changes blocks only. -/
theorem closeBlock_eq (block : BlockId) (term : Terminator) :
    f.closeBlock block term = { f with blocks := (f.closeBlock block term).blocks } := by
  simp only [closeBlock, updateBlock]
  rw [addPreds_eq]

end Function

namespace Builder

/-- The same draft with another open block, or with none. -/
def withOpen (b : Builder) (current : Option BlockId) : Builder := { b with current }

/-- A block to which something is added at most. -/
structure Extends (old new : Block) : Prop where
  id : new.id = old.id
  label : new.label = old.label
  instrs : old.instrs <+: new.instrs
  preds : old.preds <+: new.preds

/-- A later state of a draft on which no other block was opened in between. -/
structure Grows (b b' : Builder) : Prop where
  values : b.func.values <+: b'.func.values
  instrs : b.func.instrs <+: b'.func.instrs
  params : b.func.params <+: b'.func.params
  freeVars : b.func.freeVars <+: b'.func.freeVars
  locals : b.func.locals <+: b'.func.locals
  blocks : ∀ {i : Nat} {old : Block}, b.func.blocks[i]? = some old →
    ∃ new, b'.func.blocks[i]? = some new ∧ Extends old new ∧
      (b.current ≠ some ⟨i⟩ → new = { old with preds := new.preds })
  current : b'.current = b.current ∨ b'.current = none
  idle : b.current = none → b'.func.blocks = b.func.blocks ∧ b'.func.instrs = b.func.instrs

variable {α β : Type} {R S : Builder → Builder → Prop} {b b' b'' : Builder}

/-! ## Growth -/

namespace Extends

theorem refl (block : Block) : Extends block block :=
  ⟨rfl, rfl, List.prefix_rfl, List.prefix_rfl⟩

theorem trans {x y z : Block} (h : Extends x y) (h' : Extends y z) : Extends x z :=
  ⟨h'.id.trans h.id, h'.label.trans h.label, h.instrs.trans h'.instrs, h.preds.trans h'.preds⟩

end Extends

namespace Grows

/-- Variables, constants and descriptions stand beside the blocks. -/
theorem beside (hblocks : b'.func.blocks = b.func.blocks) (hinstrs : b'.func.instrs = b.func.instrs)
    (hcurrent : b'.current = b.current) (hvalues : b.func.values <+: b'.func.values)
    (hparams : b.func.params <+: b'.func.params) (hfree : b.func.freeVars <+: b'.func.freeVars)
    (hlocals : b.func.locals <+: b'.func.locals) : Grows b b' where
  values := hvalues
  instrs := hinstrs ▸ List.prefix_rfl
  params := hparams
  freeVars := hfree
  locals := hlocals
  blocks hold := ⟨_, hblocks ▸ hold, .refl _, fun _ => rfl⟩
  current := .inl hcurrent
  idle _ := ⟨hblocks, hinstrs⟩

theorem refl (b : Builder) : Grows b b :=
  beside rfl rfl rfl List.prefix_rfl List.prefix_rfl List.prefix_rfl List.prefix_rfl

theorem trans (h : Grows b b') (h' : Grows b' b'') : Grows b b'' where
  values := h.values.trans h'.values
  instrs := h.instrs.trans h'.instrs
  params := h.params.trans h'.params
  freeVars := h.freeVars.trans h'.freeVars
  locals := h.locals.trans h'.locals
  blocks := by
    intro i old hold
    obtain ⟨mid, hmid, hext, hfrozen⟩ := h.blocks hold
    obtain ⟨new, hnew, hext', hfrozen'⟩ := h'.blocks hmid
    refine ⟨new, hnew, hext.trans hext', fun hne => ?_⟩
    -- no other block was opened in between
    have hne' : b'.current ≠ some ⟨i⟩ := by
      rcases h.current with hc | hc <;> rw [hc]
      · exact hne
      · exact nofun
    rw [hfrozen' hne', hfrozen hne]
  current := by
    rcases h'.current with hc | hc
    · rw [hc]
      exact h.current
    · exact .inr hc
  idle hnone := by
    have hnone' : b'.current = none := by
      rcases h.current with hc | hc
      · exact hc.trans hnone
      · exact hc
    obtain ⟨hblocks, hinstrs⟩ := h.idle hnone
    obtain ⟨hblocks', hinstrs'⟩ := h'.idle hnone'
    exact ⟨hblocks'.trans hblocks, hinstrs'.trans hinstrs⟩

/-- A row of such changes is one of them. -/
theorem of_row (h : ReflTransGen Grows b b') : Grows b b' := by
  induction h with
  | refl => exact .refl b
  | tail _ hstep ih => exact ih.trans hstep

/-- An instruction goes to the end of the open block. -/
theorem emit {block : BlockId} (hopen : b.current = some block) {i : InstrId} {x : Instr}
    (hblocks : b'.func.blocks =
      b.func.blocks.modify block.index fun s => { s with instrs := s.instrs ++ [i] })
    (hinstrs : b'.func.instrs = b.func.instrs ++ [x]) (hcurrent : b'.current = b.current)
    (hvalues : b.func.values <+: b'.func.values) (hparams : b'.func.params = b.func.params)
    (hfree : b'.func.freeVars = b.func.freeVars) (hlocals : b.func.locals <+: b'.func.locals) :
    Grows b b' where
  values := hvalues
  instrs := hinstrs ▸ List.prefix_append _ _
  params := hparams ▸ List.prefix_rfl
  freeVars := hfree ▸ List.prefix_rfl
  locals := hlocals
  blocks := by
    intro k old hold
    rw [hblocks, List.getElem?_modify, hold]
    refine ⟨_, rfl, ?_, fun hne => ?_⟩
    · split
      · exact ⟨rfl, rfl, List.prefix_append _ _, List.prefix_rfl⟩
      · exact .refl old
    · have hk : block.index ≠ k := by
        rintro rfl
        exact hne hopen
      simp only [if_neg hk]
  current := .inl hcurrent
  idle hnone := by
    rw [hopen] at hnone
    cases hnone

/-- Closing the open block adds to the blocks that it leads to. -/
theorem close {block : BlockId} (hopen : b.current = some block) {term : Terminator} :
    Grows b { b with func := b.func.closeBlock block term, current := none } := by
  rw [Function.closeBlock_eq]
  refine ⟨List.prefix_rfl, List.prefix_rfl, List.prefix_rfl, List.prefix_rfl, List.prefix_rfl,
    fun {i old} hold => ?_, .inr rfl, fun hnone => ?_⟩
  · refine ⟨_, (Function.getElem?_closeBlock block term i).trans (congrArg _ hold),
      ⟨rfl, rfl, List.prefix_rfl, List.prefix_append _ _⟩, fun hne => ?_⟩
    have hi : block.index ≠ i := by
      rintro rfl
      exact hne hopen
    simp only [if_neg hi]
  · rw [hopen] at hnone
    cases hnone

end Grows

/-! ## Steps that insist on an open block -/

/-- Without an open block the step is that fault, unless it changes neither blocks nor
instructions with one; and then it does the same without. -/
def Insists (x : Build α) : Prop :=
  ∀ ⦃b : Builder⦄ ⦃k a b'⦄, x.run (b.withOpen (some k)) = .ok (a, b') →
    x.run (b.withOpen none) = .error .noOpenBlock ∨
      (b'.current = some k ∧ b'.func.blocks = b.func.blocks ∧ b'.func.instrs = b.func.instrs ∧
        x.run (b.withOpen none) = .ok (a, b'.withOpen none))

namespace Insists

variable {x : Build α} {f : α → Build β}

theorem pure (a : α) : Insists (pure a : Build α) := by
  rintro b k _ _ ⟨⟩
  exact .inr ⟨rfl, rfl, rfl, rfl⟩

theorem throw (e : Fault) : Insists (throw e : Build α) := by
  rintro b k _ _ ⟨⟩

theorem answer (y : Except Fault α) : Insists (liftM y : Build α) := by
  intro b k a b' hrun
  obtain ⟨_, rfl, ⟨⟩⟩ := bind_eq_ok_iff.mp (hrun : (y >>= fun a => .ok (a, b.withOpen _)) = _)
  exact .inr ⟨rfl, rfl, rfl, rfl⟩

theorem bind (h : Insists x) (hf : ∀ a, Insists (f a)) : Insists (x >>= f) := by
  intro b k y b' hrun
  obtain ⟨a, b₁, hx, hrest⟩ := exists_of_bind hrun
  rw [StateT.run_bind]
  rcases h hx with hfault | ⟨hcurrent, hblocks, hinstrs, hsame⟩
  · rw [hfault]
    exact .inl rfl
  · rw [hsame]
    have hopen : b₁.withOpen (some k) = b₁ := by rw [← hcurrent]; rfl
    rw [← hopen] at hrest
    rcases hf a hrest with hfault | ⟨hcurrent', hblocks', hinstrs', hsame'⟩
    · exact .inl hfault
    · exact .inr ⟨hcurrent', hblocks'.trans hblocks, hinstrs'.trans hinstrs, hsame'⟩

/-- A step that asks for the open block first. -/
theorem ofOpen (f : BlockId → Build β) : Insists (openBlock >>= f) := fun _ _ _ _ _ => .inl rfl

/-- A question about anything but the open block. -/
theorem getThen {f : Builder → Build β} (hf : ∀ b, Insists (f b))
    (hsame : ∀ b c, f (b.withOpen c) = f b) : Insists (get >>= f) := by
  intro b k y b' hrun
  have hopened := of_get_bind hrun
  rw [hsame] at hopened
  have hnone : (get >>= f).run (b.withOpen none) = (f b).run (b.withOpen none) := by
    rw [← hsame b none]
    rfl
  rw [hnone]
  exact hf b hopened

end Insists

/-! ## Steps and all that is known of them -/

/-- A step by which a draft grows in a row of transitions, and which insists on an open block if it
needs one. -/
structure Acts (R : Builder → Builder → Prop) (x : Build α) : Prop where
  makes : Makes R x
  grows : Makes Grows x
  insists : Insists x

namespace Acts

variable {x : Build α} {f : α → Build β}

theorem mono (h : Acts R x) (hRS : ∀ b b', R b b' → S b b') : Acts S x :=
  ⟨h.makes.mono hRS, h.grows, h.insists⟩

/-- What a step adds to a draft. -/
theorem grown (h : Acts R x) {a : α} (hrun : x.run b = .ok (a, b')) : Grows b b' :=
  .of_row (h.grows hrun)

/-- A step that is a single transition. -/
theorem single (h : ∀ ⦃b a b'⦄, x.run b = .ok (a, b') → R b b' ∧ Grows b b') (hi : Insists x) :
    Acts R x :=
  ⟨.single fun _ _ _ hrun => (h hrun).1, .single fun _ _ _ hrun => (h hrun).2, hi⟩

theorem pure (a : α) : Acts R (pure a : Build α) := ⟨.pure a, .pure a, .pure a⟩

theorem throw (e : Fault) : Acts R (throw e : Build α) := ⟨.throw e, .throw e, .throw e⟩

theorem answer (y : Except Fault α) : Acts R (liftM y : Build α) :=
  ⟨.answer y, .answer y, .answer y⟩

theorem bind (h : Acts R x) (hf : ∀ a, Acts R (f a)) : Acts R (x >>= f) :=
  ⟨h.makes.bind fun a => (hf a).makes, h.grows.bind fun a => (hf a).grows,
    h.insists.bind fun a => (hf a).insists⟩

/-- A question about anything but the open block. -/
theorem getThen {f : Builder → Build β} (hf : ∀ b, Acts R (f b))
    (hsame : ∀ b c, f (b.withOpen c) = f b) : Acts R (get >>= f) :=
  ⟨Makes.get.bind fun b => (hf b).makes, Makes.get.bind fun b => (hf b).grows,
    .getThen (fun b => (hf b).insists) hsame⟩

theorem ite {c : Prop} [Decidable c] {y : Build α} (hx : Acts R x) (hy : Acts R y) :
    Acts R (if c then x else y) := by
  split
  · exact hx
  · exact hy

theorem mapM {f : α → Build β} (hf : ∀ a, Acts R (f a)) (l : List α) : Acts R (l.mapM f) := by
  induction l with
  | nil =>
    rw [List.mapM_nil]
    exact pure []
  | cons a l ih =>
    rw [List.mapM_cons]
    exact (hf a).bind fun b => ih.bind fun bs => pure (b :: bs)

theorem forM {f : α → Build PUnit} (hf : ∀ a, Acts R (f a)) (l : List α) : Acts R (l.forM f) := by
  induction l with
  | nil => exact pure _
  | cons a l ih => exact (hf a).bind fun _ => ih

/-! ### Steps that may fail -/

section Failing

variable {y : TryBuild α} {g : α → TryBuild β}

theorem lift (h : Acts R x) : Acts R (liftM x : TryBuild α).run := h.bind fun _ => pure _

theorem fail (e : BuildError) : Acts R (MonadExcept.throw e : TryBuild α).run :=
  pure (Except.error e)

/-- What follows a step that may fail. -/
theorem andThen (h : Acts R y.run) (hg : ∀ a, Acts R (g a).run) : Acts R (y >>= g).run := by
  refine h.bind fun r => ?_
  cases r with
  | error e => exact pure _
  | ok a => exact hg a

/-- What follows a step that cannot fail. -/
theorem liftThen (h : Acts R x) (hg : ∀ a, Acts R (g a).run) : Acts R (liftM x >>= g).run :=
  h.lift.andThen hg

theorem iteFail {c : Prop} [Decidable c] {z : TryBuild α} (hy : Acts R y.run) (hz : Acts R z.run) :
    Acts R (if c then y else z).run := by
  split
  · exact hy
  · exact hz

end Failing

end Acts

end Builder

end MethodSSA
