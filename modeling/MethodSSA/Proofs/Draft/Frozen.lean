import MethodSSA.Proofs.Draft.Edges

/-!
# What commands leave alone

A draft is only ever added to, and only in one place. Whatever command is carried out, the
values and instructions that were there stay; a block that has its terminator, and every block
that is not open, keeps all but the list of blocks that lead to it, which gets longer at its
end; and so do the instructions of the open block (`Preserves`). Without an open block no command
emits anything: it is a fault if it would emit or close with one (`Reached.frozen`).

Of the three commands that open or add a block, the recovery block is the one that emits. It
does that in its own block, while the open one waits.
-/

namespace MethodSSA

open Relation

/-- Whether a command adds a block. -/
def Command.addsBlock : Command → Bool
  | .newBlock _ | .recoveryBlock => true
  | _ => false

namespace Builder

variable {b b' : Builder} {f : Function}

/-- What a draft has of its own is still there in a later state of its function. -/
structure Preserves (b : Builder) (f : Function) : Prop where
  values : b.func.values <+: f.values
  instrs : b.func.instrs <+: f.instrs
  params : b.func.params <+: f.params
  freeVars : b.func.freeVars <+: f.freeVars
  locals : b.func.locals <+: f.locals
  blocks : ∀ {k : BlockId} {old : Block}, b.func.block k = .ok old →
    ∃ new, f.block k = .ok new ∧ Extends old new ∧
      (old.isClosed = true ∨ b.current ≠ some k → new = { old with preds := new.preds })

theorem Preserves.refl (b : Builder) : Preserves b b.func :=
  ⟨List.prefix_rfl, List.prefix_rfl, List.prefix_rfl, List.prefix_rfl, List.prefix_rfl,
    fun hold => ⟨_, hold, .refl _, fun _ => rfl⟩⟩

/-- What grows keeps what it grows from: the open block is none of the closed ones. -/
theorem Grows.preserves (h : Grows b b') (s : Shaped b) : Preserves b b'.func := by
  refine ⟨h.values, h.instrs, h.params, h.freeVars, h.locals, fun {k old} hold => ?_⟩
  have hold := entry_eq_ok_iff.mp hold
  obtain ⟨new, hnew, hext, hfrozen⟩ := h.blocks hold
  refine ⟨new, entry_eq_ok_iff.mpr hnew, hext, fun hcase => hfrozen fun hopen => ?_⟩
  rcases hcase with hclosed | hne
  · obtain ⟨stored, hstored, hterm⟩ := s.current hopen
    cases hold.symm.trans hstored
    rw [Block.isClosed, hterm] at hclosed
    cases hclosed
  · exact hne hopen

/-! ## Commands that open or add a block -/

/-- What grows in the recovery block leaves all other blocks alone. -/
theorem Grows.preserves_of_landing (h : Grows b.landing b') : Preserves b b'.func := by
  refine ⟨h.values, h.instrs, h.params, h.freeVars, h.locals, fun {k old} hold => ?_⟩
  have hold := entry_eq_ok_iff.mp hold
  have hlt := (List.getElem?_eq_some_iff.mp hold).1
  have hlanding : b.landing.func.blocks[k.index]? = some old :=
    (List.getElem?_append_left hlt).trans hold
  obtain ⟨new, hnew, hext, hfrozen⟩ := h.blocks hlanding
  refine ⟨new, entry_eq_ok_iff.mpr hnew, hext, fun _ => hfrozen fun hopen => ?_⟩
  have hk : b.func.blocks.length = k.index := congrArg BlockId.index (Option.some.inj hopen)
  exact Nat.ne_of_gt hlt hk

theorem preserves_of_newBlock {label : String} {block : BlockId}
    (hrun : (newBlock label).run b = .ok (block, b')) : Preserves b b'.func := by
  cases hrun
  refine ⟨List.prefix_rfl, List.prefix_rfl, List.prefix_rfl, List.prefix_rfl, List.prefix_rfl,
    fun {k old} hold => ⟨old, ?_, .refl old, fun _ => rfl⟩⟩
  have hold := entry_eq_ok_iff.mp hold
  have hlt := (List.getElem?_eq_some_iff.mp hold).1
  exact entry_eq_ok_iff.mpr ((List.getElem?_append_left hlt).trans hold)

theorem preserves_of_recoveryBlock {block : BlockId}
    (hrun : recoveryBlock.run b = .ok (block, b')) : Preserves b b'.func := by
  rcases of_recoveryBlock hrun with ⟨-, rfl⟩ | ⟨b₁, results, -, -, hresults, rfl⟩
  · exact .refl _
  · have hgrown : Grows b.landing b₁ := recoveredResults_acts.grown hresults
    have hemits := recoveredResults_acts.makes hresults
    have hopen : b₁.current = some ⟨b.func.blocks.length⟩ := current_eq_of_emissions hemits
    exact (hgrown.trans (.close hopen)).preserves_of_landing

/-- **Every command keeps what is there.** -/
theorem Shaped.preserves (s : Shaped b) {c : Command} {result : Except BuildError Outcome}
    (hrun : (perform c).run.run b = .ok (result, b')) : Preserves b b'.func := by
  rcases hc : c.movesOn with _ | _
  · exact ((perform_acts c hc).grown hrun).preserves s
  cases c with
  | newBlock label =>
    obtain ⟨block, b₁, hnew, hend⟩ := exists_of_lift_bind hrun
    cases hend
    exact preserves_of_newBlock hnew
  | setCurrent block =>
    obtain ⟨u, b₁, hset, hend⟩ := exists_of_lift_bind hrun
    cases hend
    obtain ⟨stored, -, -, rfl⟩ := of_setCurrent hset
    exact .refl b
  | recoveryBlock =>
    obtain ⟨block, b₁, hrecover, hend⟩ := exists_of_lift_bind hrun
    cases hend
    exact preserves_of_recoveryBlock hrecover
  | _ => cases hc

/-- A closed block cannot be opened. -/
theorem setCurrent_fault {k : BlockId} {stored : Block} (hstored : b.func.block k = .ok stored)
    (hclosed : stored.isClosed = true) : (setCurrent k).run b = .error (.closedBlock k) := by
  simp [setCurrent, hstored, hclosed]
  rfl

theorem setCurrent_closed {k : BlockId} {stored : Block} (hstored : b.func.block k = .ok stored)
    (hclosed : stored.isClosed = true) :
    (perform (.setCurrent k)).run.run b = .error (.closedBlock k) := by
  simp [perform, setCurrent_fault hstored hclosed]

/-! ## Without an open block -/

/-- **Without an open block nothing is emitted.** -/
theorem idle_of_perform {c : Command} (hc : c.addsBlock = false) (hnone : b.current = none)
    {result : Except BuildError Outcome} (hrun : (perform c).run.run b = .ok (result, b')) :
    b'.func.blocks = b.func.blocks ∧ b'.func.instrs = b.func.instrs := by
  rcases hm : c.movesOn with _ | _
  · exact ((perform_acts c hm).grown hrun).idle hnone
  cases c with
  | setCurrent block =>
    obtain ⟨u, b₁, hset, hend⟩ := exists_of_lift_bind hrun
    cases hend
    obtain ⟨stored, -, -, rfl⟩ := of_setCurrent hset
    exact ⟨rfl, rfl⟩
  | newBlock | recoveryBlock => cases hc
  | _ => cases hm

/-- **A command that emits or closes with an open block is a fault without one.** -/
theorem fault_of_perform {c : Command} (hc : c.addsBlock = false) (hnone : b.current = none)
    {k : BlockId} {result : Except BuildError Outcome}
    (hrun : (perform c).run.run { b with current := some k } = .ok (result, b'))
    (hneeds : b'.current = none ∨ b'.func.blocks ≠ b.func.blocks ∨
      b'.func.instrs ≠ b.func.instrs) : (perform c).run.run b = .error .noOpenBlock := by
  rcases hm : c.movesOn with _ | _
  · have hself : b.withOpen none = b := by
      rw [← hnone]
      rfl
    rcases (perform_acts c hm).insists hrun with hfault | ⟨hcurrent, hblocks, hinstrs, -⟩
    · rwa [hself] at hfault
    · rcases hneeds with hn | hn | hn
      · rw [hcurrent] at hn
        cases hn
      · exact absurd hblocks hn
      · exact absurd hinstrs hn
  cases c with
  | setCurrent block =>
    obtain ⟨u, b₁, hset, hend⟩ := exists_of_lift_bind hrun
    cases hend
    obtain ⟨stored, -, -, rfl⟩ := of_setCurrent hset
    rcases hneeds with hn | hn | hn
    · cases hn
    · exact absurd rfl hn
    · exact absurd rfl hn
  | newBlock | recoveryBlock => cases hc
  | _ => cases hm

/-- **Construction only adds, and closed blocks are frozen.** Of a draft that commands reached,
every command that is no fault keeps the values, instructions and variables; of every block
its identifier and label, and of a block that is closed or was not open all but its
predecessors, to which some may be added at the end, as to the instructions of the open block.
Without an open block a command that adds no block leaves blocks and instructions alone; and if it
would emit or close with an open block, it is the fault that there is none. A closed block
cannot be opened. -/
theorem Reached.frozen (h : Reached b) :
    (∀ c result b', (Builder.perform c).run.run b = .ok (result, b') → Preserves b b'.func) ∧
    (∀ c, b.current = none → c.addsBlock = false →
      (∀ result b', (Builder.perform c).run.run b = .ok (result, b') →
        b'.func.blocks = b.func.blocks ∧ b'.func.instrs = b.func.instrs) ∧
      ∀ k result b', (Builder.perform c).run.run { b with current := some k } = .ok (result, b') →
        b'.current = none ∨ b'.func.blocks ≠ b.func.blocks ∨ b'.func.instrs ≠ b.func.instrs →
        (Builder.perform c).run.run b = .error .noOpenBlock) ∧
    ∀ k stored, b.func.block k = .ok stored → stored.isClosed = true →
      (Builder.perform (.setCurrent k)).run.run b = .error (.closedBlock k) := by
  refine ⟨fun c result b' hrun => h.shaped.preserves hrun, fun c hnone hc => ⟨?_, ?_⟩, ?_⟩
  · intro result b' hrun
    exact idle_of_perform hc hnone hrun
  · intro k result b' hrun hneeds
    exact fault_of_perform hc hnone hrun hneeds
  · intro k stored hstored hclosed
    exact setCurrent_closed hstored hclosed

/-- The draft with a loop, all of whose blocks are closed: its variable can no more be read, and
none of its blocks be opened. -/
theorem Reached.frozen_loop :
    ∃ b, loopStart.after loopCommands = .ok b ∧ Reached b ∧ b.current = none ∧
      (Builder.perform (.load ⟨1⟩)).run.run b = .error .noOpenBlock ∧
      (Builder.perform (.setCurrent ⟨1⟩)).run.run b = .error (.closedBlock ⟨1⟩) := by
  -- with the first block open there would be one more instruction
  obtain ⟨b, hafter, hfacts⟩ := exists_after (b := loopStart) loopCommands
    (g := fun b => (b.current, b.func.instrs.length,
      (b.func.block ⟨1⟩).toOption.map Block.isClosed,
      ((Builder.perform (.load ⟨1⟩)).run.run { b with current := some ⟨0⟩ }).toOption.map
        fun r => r.2.func.instrs.length))
    (x := (none, 4, some true, some 5)) (by decide +kernel)
  simp only [Prod.mk.injEq] at hfacts
  obtain ⟨hnone, hlength, hstored, htried⟩ := hfacts
  have h : Reached b := .after (.start _ _ _) hafter
  obtain ⟨-, hidle, hclosed⟩ := h.frozen
  refine ⟨b, hafter, h, hnone, ?_, ?_⟩
  · obtain ⟨⟨result, b'⟩, hrun, hmore⟩ := Option.map_eq_some_iff.mp htried
    have hrun : (Builder.perform (.load ⟨1⟩)).run.run { b with current := some ⟨0⟩ } =
        .ok (result, b') := by
      rcases hload : (Builder.perform (.load ⟨1⟩)).run.run { b with current := some ⟨0⟩ } with
        e | r <;> rw [hload] at hrun <;> cases hrun
      rfl
    refine (hidle (.load ⟨1⟩) hnone rfl).2 ⟨0⟩ result b' hrun (.inr (.inr fun heq => ?_))
    rw [heq, hlength] at hmore
    cases hmore
  · rcases hblock : b.func.block ⟨1⟩ with e | stored <;> rw [hblock] at hstored
    · cases hstored
    · exact hclosed ⟨1⟩ stored hblock (Option.some.inj hstored)

end Builder

end MethodSSA
