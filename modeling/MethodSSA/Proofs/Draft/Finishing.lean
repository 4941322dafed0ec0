import MethodSSA.Proofs.Draft.Assignment
import MethodSSA.Proofs.Draft.TailCall

/-!
# Finishing a draft

The check of a finished function finds nothing in a draft but blocks that wait for their
terminator: all else that it asks for is kept by every move. `Builder.unterminated?` is the
block that it reports, and `Reached.finish_eq` says that nothing else is ever reported.
-/

namespace MethodSSA

namespace Function

variable {f : Function}

theorem demand_true {ok : Bool} {defect : Defect} (h : ok = true) :
    f.demand ok defect = pure () := by
  rw [demand, if_pos h]

/-- An edge is noted at its end. -/
theorem checkSuccessor_eq (h : Linked f.blocks) {i : Nat} {b : Block}
    (hb : f.blocks[i]? = some b) {succ : BlockId} (hsucc : succ ∈ b.succs) :
    f.checkSuccessor b succ = pure () := by
  obtain ⟨target, htarget⟩ : ∃ target, f.blocks[succ.index]? = some target :=
    ⟨_, List.getElem?_eq_getElem (h.held hb (List.mem_append_left _ hsucc))⟩
  have hcount := h.counted hb htarget
  have hmem : (⟨i⟩ : BlockId) ∈ target.preds := by
    rw [← List.count_pos_iff, hcount, List.count_pos_iff]
    exact hsucc
  rw [checkSuccessor, htarget]
  refine demand_true ?_
  rw [h.placed hb]
  exact decide_eq_true hmem

/-- What leads to a block has the edge. -/
theorem leadsTo_of_mem (h : Linked f.blocks) {i : Nat} {b : Block} (hb : f.blocks[i]? = some b)
    {pred : BlockId} (hpred : pred ∈ b.preds) : f.leadsTo pred b.id = true := by
  obtain ⟨source, hsource⟩ : ∃ source, f.blocks[pred.index]? = some source :=
    ⟨_, List.getElem?_eq_getElem (h.held hb (List.mem_append_right _ hpred))⟩
  have hcount := h.counted hsource hb
  have hmem : (⟨i⟩ : BlockId) ∈ source.succs := by
    rw [← List.count_pos_iff, ← hcount, List.count_pos_iff]
    exact hpred
  rw [leadsTo, hsource, h.placed hb]
  simpa using hmem

/-- Of a block of a draft the check demands its terminator, and nothing else is missing. -/
theorem checkBlock_eq (h : Linked f.blocks) (a : f.Assigned) {i : Nat} {b : Block}
    (hb : f.blocks[i]? = some b) :
    f.checkBlock b i =
      if b.isClosed then pure () else throw (.unterminated f.name ⟨i⟩) := by
  have hid := h.placed hb
  have hplace : f.demand (b.id.index = i) (.misplaced b.id i) = pure () :=
    demand_true (decide_eq_true (congrArg BlockId.index hid))
  have hterm : f.demand (b.term.successors = b.succs) (.successors b.id) = pure () :=
    demand_true (decide_eq_true (h.succs hb).symm)
  have hsuccs : b.succs.forM (f.checkSuccessor b) = pure () :=
    forM_eq_pure _ fun _ hsucc => checkSuccessor_eq h hb hsucc
  have hpreds : (b.preds.forM fun pred =>
      f.demand (f.leadsTo pred b.id) (.phantomPred b.id pred)) = pure () :=
    forM_eq_pure _ fun _ hpred => demand_true (leadsTo_of_mem h hb hpred)
  have hinstrs : b.instrs.forM (f.checkOwner b) = pure () := by
    refine forM_eq_pure _ fun j hj => ?_
    have hblock : f.block ⟨i⟩ = .ok b := entry_eq_ok_iff.mpr hb
    obtain ⟨instr, hinstr, howner⟩ := (a.mem_instrs_iff hblock j).mp hj
    rw [checkOwner, hinstr]
    refine demand_true (decide_eq_true ?_)
    rw [howner, hid]
  rw [checkBlock, hplace, hterm, hsuccs, hpreds, hinstrs, hid]
  rcases b.isClosed with _ | _ <;> rfl

/-- The first block that waits for its terminator. -/
def waiting? (f : Function) : Option BlockId :=
  (f.blocks.findIdx? (!·.isClosed)).map BlockId.mk

theorem waiting?_eq_none_iff : f.waiting? = none ↔ ∀ b ∈ f.blocks, b.isClosed = true := by
  simp [waiting?, List.findIdx?_eq_none_iff]

/-- A check that stops at the first block that waits for its terminator. -/
theorem forM_zipIdx_eq {check : Block × Nat → Checked Unit} {e : Nat → BuildError}
    (l : List Block) (k : Nat)
    (h : ∀ i b, l[i]? = some b →
      check (b, k + i) = if b.isClosed then pure () else throw (e (k + i))) :
    (l.zipIdx k).forM check =
      (l.findIdx? (!·.isClosed)).elim (pure ()) fun i => throw (e (k + i)) := by
  induction l generalizing k with
  | nil => rfl
  | cons b l ih =>
    have hhead := h 0 b rfl
    have htail := ih (k + 1) fun i c hc => by
      rw [Nat.add_assoc, Nat.add_comm 1 i]
      exact h (i + 1) c hc
    change (check (b, k) >>= fun _ => (l.zipIdx (k + 1)).forM check) = _
    rw [htail, List.findIdx?_cons]
    rcases hclosed : b.isClosed with _ | _ <;> rw [hclosed] at hhead
    · exact congrArg (· >>= _) hhead
    · rw [Nat.add_zero] at hhead
      rw [hhead]
      simp only [if_true, pure_bind, Bool.not_true, Bool.false_eq_true, if_false]
      simp only [Option.elim_map, Nat.add_assoc, Nat.add_comm 1]
      rfl

theorem forM_checkBlock_eq (h : Linked f.blocks) (a : f.Assigned) :
    (f.blocks.zipIdx.forM fun (b, place) => f.checkBlock b place) =
      f.waiting?.elim (pure ()) fun block => throw (.unterminated f.name block) := by
  refine (forM_zipIdx_eq (e := fun i => .unterminated f.name ⟨i⟩) f.blocks 0
    fun i b hb => ?_).trans ?_
  · rw [Nat.zero_add]
    exact checkBlock_eq h a hb
  · simp only [waiting?, Option.elim_map, Nat.zero_add]
    rfl

/-- **The check of a draft reports the first block that waits for its terminator**, and
nothing else. -/
theorem check_eq (h : Linked f.blocks) (a : f.Assigned) (hnonempty : f.blocks ≠ [])
    (hrecover : ∀ {block}, f.recover = some block →
      ∃ stored, f.blocks[block.index]? = some stored ∧ stored.term.isReturn = true) :
    f.check = f.waiting?.elim (pure ()) fun block => throw (.unterminated f.name block) := by
  have hsome : f.demand (!f.blocks.isEmpty) .noBlocks = pure () :=
    demand_true (by simpa using hnonempty)
  rw [check, hsome, pure_bind, forM_checkBlock_eq h a]
  rcases f.waiting? with _ | block
  · rcases hr : f.recover with _ | block
    · rfl
    · obtain ⟨stored, hstored, hreturn⟩ := hrecover hr
      have hblock : f.block block = .ok stored := entry_eq_ok_iff.mpr hstored
      change (liftM (f.block block) >>= fun stored =>
        f.demand stored.term.isReturn .recoverReturn) = _
      rw [hblock]
      exact demand_true hreturn
  · rfl

end Function

namespace Builder

variable {b : Builder}

/-- The block that is reported when a draft is finished too early: the open one, or else the
first that waits for its terminator. -/
def unterminated? (b : Builder) : Option BlockId := b.current <|> b.func.waiting?

/-- **A draft is finished exactly if all its blocks are closed.** -/
theorem Shaped.unterminated?_eq_none_iff (s : Shaped b) :
    b.unterminated? = none ↔ ∀ block ∈ b.func.blocks, block.isClosed = true := by
  rw [unterminated?, ← Function.waiting?_eq_none_iff]
  rcases hc : b.current with _ | c
  · simp
  · obtain ⟨stored, hstored, hterm⟩ := s.current hc
    -- the open block is among those that wait
    refine iff_of_false nofun fun hnone => ?_
    have hclosed := Function.waiting?_eq_none_iff.mp hnone stored (List.mem_of_getElem? hstored)
    simp [Block.isClosed, hterm] at hclosed

/-- **The control flow of a draft is always consistent, and to finish it can only fail for
missing terminators.** Whatever commands did, every block stands at its own place, its
successors are those of its terminator, every edge is noted at both ends as often as it is
there, and the open block has no terminator. With checks, the draft is finished if all its
blocks are closed; otherwise the error names the open block, or if there is none the first
block that waits for its terminator. -/
theorem Reached.finish_eq (h : Reached b) :
    (∀ (i : Nat) (block : Block), b.func.blocks[i]? = some block → block.id = ⟨i⟩) ∧
    (∀ block ∈ b.func.blocks, block.succs = block.term.successors) ∧
    (∀ x y source target, b.func.block x = .ok source → b.func.block y = .ok target →
      target.preds.count x = source.succs.count y) ∧
    (∀ c, b.current = some c → ∃ block, b.func.block c = .ok block ∧ block.isClosed = false) ∧
    (b.mode.sanityCheck = true →
      b.finish = b.unterminated?.elim (pure b.func)
        fun block => throw (.unterminated b.func.name block)) ∧
    (b.unterminated? = none ↔ ∀ block ∈ b.func.blocks, block.isClosed = true) := by
  have s := h.shaped
  refine ⟨fun _ _ hb => s.linked.placed hb, ?_, ?_, ?_, ?_, s.unterminated?_eq_none_iff⟩
  · intro block hblock
    obtain ⟨i, hi⟩ := List.getElem?_of_mem hblock
    exact s.linked.succs hi
  · intro x y source target hsource htarget
    exact s.linked.counted (entry_eq_ok_iff.mp hsource) (entry_eq_ok_iff.mp htarget)
  · intro c hc
    obtain ⟨stored, hstored, hterm⟩ := s.current hc
    exact ⟨stored, entry_eq_ok_iff.mpr hstored, by simp [Block.isClosed, hterm]⟩
  · intro hmode
    rw [finish, unterminated?]
    rcases hc : b.current with _ | c
    · rw [hmode, Function.check_eq s.linked h.assigned s.nonempty s.recover]
      rcases b.func.waiting? with _ | block <;> rfl
    · rfl

/-- The draft with a loop, before its last block is closed and after that. -/
theorem Reached.finish_eq_loop :
    (∃ b, loopStart.after loopCommands.dropLast = .ok b ∧ Reached b ∧
      b.mode.sanityCheck = true ∧ b.unterminated? = some ⟨2⟩ ∧
      b.finish = throw (.unterminated b.func.name ⟨2⟩)) ∧
    ∃ b, loopStart.after loopCommands = .ok b ∧ Reached b ∧ b.mode.sanityCheck = true ∧
      (∀ block ∈ b.func.blocks, block.isClosed = true) ∧ b.finish = pure b.func := by
  have hstart : Reached loopStart := .start _ _ _
  have hrun : ∀ (commands : List Command) (last : Option BlockId),
      ((loopStart.after commands).toOption.map fun b => (b.mode, b.unterminated?)) =
        some (.debug, last) → ∃ b, loopStart.after commands = .ok b ∧ Reached b ∧
        b.mode.sanityCheck = true ∧ b.unterminated? = last := by
    intro commands last h
    obtain ⟨b, hafter, heq⟩ := exists_after commands h
    obtain ⟨hmode, hlast⟩ := Prod.mk.inj heq
    exact ⟨b, hafter, hstart.after hafter, congrArg Mode.sanityCheck hmode, hlast⟩
  constructor
  · obtain ⟨b, hafter, h, hmode, hlast⟩ :=
      hrun loopCommands.dropLast (some ⟨2⟩) (by decide +kernel)
    obtain ⟨-, -, -, -, hfinish, -⟩ := h.finish_eq
    rw [hlast] at hfinish
    exact ⟨b, hafter, h, hmode, hlast, hfinish hmode⟩
  · obtain ⟨b, hafter, h, hmode, hlast⟩ :=
      hrun loopCommands none (by decide +kernel)
    obtain ⟨-, -, -, -, hfinish, hclosed⟩ := h.finish_eq
    rw [hlast] at hfinish
    exact ⟨b, hafter, h, hmode, hclosed.mp hlast, hfinish hmode⟩

end Builder

end MethodSSA
