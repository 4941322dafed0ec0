import MethodSSA.Proofs.Code.Verdict

/-!
# What the check of a function finds

The check of a function as a condition on functions (`Function.IsFit`): it names the error of
one that is not fit (`Function.Defective`), and it is a fault where it asks for something that
is missing (`Function.Missing`). All of that is put together from the verdicts on its parts
(`Function.check_decides`). Where nothing is missing the check is no fault
(`Function.check_judges`).
-/

namespace MethodSSA

namespace Block

variable {f : Function} {i : Nat} {b : Block}

/-- Whether a block is there and notes `pred` as leading to it. -/
def Noted (f : Function) (pred succ : BlockId) : Prop :=
  ∃ target, f.blocks[succ.index]? = some target ∧ pred ∈ target.preds

/-- Whether a block is there and leads to `succ`. -/
def Leads (f : Function) (pred succ : BlockId) : Prop :=
  ∃ source, f.blocks[pred.index]? = some source ∧ succ ∈ source.succs

/-- Whether an instruction was emitted into a block. -/
def Owns (f : Function) (block : BlockId) (i : InstrId) : Prop :=
  ∃ instr, f.instrs[i.index]? = some instr ∧ instr.block = block

/-- A block fits at the place `i` of a function: it stands there under its own identifier, is
closed, notes the edges of its terminator and no others, the blocks at their other ends note
them as well, and it lists only its own instructions. -/
structure Fits (f : Function) (i : Nat) (b : Block) : Prop where
  placed : b.id = ⟨i⟩
  closed : b.term ≠ .unreachable
  succs : b.succs = b.term.successors
  noted : ∀ succ ∈ b.succs, Noted f ⟨i⟩ succ
  leads : ∀ pred ∈ b.preds, Leads f pred ⟨i⟩
  owns : ∀ j ∈ b.instrs, Owns f ⟨i⟩ j

/-- The error for the block at the place `i`: the first condition that it does not meet, and in
a list the first entry that does not meet it. -/
inductive Unfit (f : Function) (i : Nat) (b : Block) : BuildError → Prop where
  | misplaced (hid : b.id ≠ ⟨i⟩) : Unfit f i b (.malformed f.name (.misplaced b.id i))
  | unterminated (hid : b.id = ⟨i⟩) (hterm : b.term = .unreachable) :
    Unfit f i b (.unterminated f.name ⟨i⟩)
  | successors (hid : b.id = ⟨i⟩) (hterm : b.term ≠ .unreachable)
    (hsuccs : b.succs ≠ b.term.successors) :
    Unfit f i b (.malformed f.name (.successors ⟨i⟩))
  | dangling {succ before after} (hid : b.id = ⟨i⟩) (hterm : b.term ≠ .unreachable)
    (hsuccs : b.succs = b.term.successors) (hlist : b.succs = before ++ succ :: after)
    (hbefore : ∀ s ∈ before, Noted f ⟨i⟩ s) (hsucc : f.blocks[succ.index]? = none) :
    Unfit f i b (.malformed f.name (.dangling ⟨i⟩ succ))
  | missingPred {succ target before after} (hid : b.id = ⟨i⟩) (hterm : b.term ≠ .unreachable)
    (hsuccs : b.succs = b.term.successors) (hlist : b.succs = before ++ succ :: after)
    (hbefore : ∀ s ∈ before, Noted f ⟨i⟩ s) (hsucc : f.blocks[succ.index]? = some target)
    (hpred : ⟨i⟩ ∉ target.preds) :
    Unfit f i b (.malformed f.name (.missingPred succ ⟨i⟩))
  | phantomPred {pred before after} (hid : b.id = ⟨i⟩) (hterm : b.term ≠ .unreachable)
    (hsuccs : b.succs = b.term.successors) (hnoted : ∀ s ∈ b.succs, Noted f ⟨i⟩ s)
    (hlist : b.preds = before ++ pred :: after) (hbefore : ∀ p ∈ before, Leads f p ⟨i⟩)
    (hpred : ¬Leads f pred ⟨i⟩) :
    Unfit f i b (.malformed f.name (.phantomPred ⟨i⟩ pred))
  | foreignInstr {j instr before after} (hid : b.id = ⟨i⟩) (hterm : b.term ≠ .unreachable)
    (hsuccs : b.succs = b.term.successors) (hnoted : ∀ s ∈ b.succs, Noted f ⟨i⟩ s)
    (hleads : ∀ p ∈ b.preds, Leads f p ⟨i⟩) (hlist : b.instrs = before ++ j :: after)
    (hbefore : ∀ k ∈ before, Owns f ⟨i⟩ k) (hinstr : f.instrs[j.index]? = some instr)
    (howner : instr.block ≠ ⟨i⟩) :
    Unfit f i b (.malformed f.name (.foreignInstr j ⟨i⟩ instr.block))

/-- The block at the place `i` lists an instruction that is missing, and nothing else is wrong with
it before that. -/
structure Missing (f : Function) (i : Nat) (b : Block) : Prop where
  placed : b.id = ⟨i⟩
  closed : b.term ≠ .unreachable
  succs : b.succs = b.term.successors
  noted : ∀ succ ∈ b.succs, Noted f ⟨i⟩ succ
  leads : ∀ pred ∈ b.preds, Leads f pred ⟨i⟩
  lists : ∃ before j after, b.instrs = before ++ j :: after ∧ (∀ k ∈ before, Owns f ⟨i⟩ k) ∧
    f.instrs[j.index]? = none

/-- An identifier of a block is out of place: that of the block at the place `i` itself, or one
that it names as coming next or before and that is none of the function. -/
inductive Astray (f : Function) (i : Nat) (b : Block) : Prop where
  | misplaced (hid : b.id ≠ ⟨i⟩) : Astray f i b
  | target {s : BlockId} (hs : s ∈ b.term.successors) (hnone : f.blocks[s.index]? = none) :
    Astray f i b
  | succ {s : BlockId} (hs : s ∈ b.succs) (hnone : f.blocks[s.index]? = none) : Astray f i b
  | pred {p : BlockId} (hp : p ∈ b.preds) (hnone : f.blocks[p.index]? = none) : Astray f i b

/-- Such a block is found out before its instructions are looked at. -/
theorem Astray.unnoticed (h : Astray f i b) (hid : b.id = ⟨i⟩)
    (hsuccs : b.succs = b.term.successors) (hnoted : ∀ s ∈ b.succs, Noted f ⟨i⟩ s)
    (hleads : ∀ p ∈ b.preds, Leads f p ⟨i⟩) : False := by
  have hforth : ∀ s ∈ b.succs, f.blocks[s.index]? ≠ none := by
    intro s hs hnone
    obtain ⟨target, htarget, -⟩ := hnoted s hs
    cases hnone.symm.trans htarget
  cases h with
  | misplaced hne => exact hne hid
  | target hs hnone => exact hforth _ (hsuccs ▸ hs) hnone
  | succ hs hnone => exact hforth _ hs hnone
  | pred hp hnone =>
    obtain ⟨source, hsource, -⟩ := hleads _ hp
    cases hnone.symm.trans hsource

end Block

namespace Function

open Block

variable {f : Function}

/-! ## One demand -/

theorem demand_decides (ok : Bool) (defect : Defect) :
    Decides (f.demand ok defect) (ok = true)
      (fun e => ok = false ∧ e = .malformed f.name defect) fun _ => False := by
  cases ok with
  | true => exact Decides.pass.congr (by simp) (by simp) fun _ => .rfl
  | false => exact (Decides.complain _).congr (by simp) (by simp) fun _ => .rfl

/-- An edge must be noted where it ends. -/
theorem checkSuccessor_decides (b : Block) (succ : BlockId) :
    Decides (f.checkSuccessor b succ) (Noted f b.id succ)
      (fun e => (f.blocks[succ.index]? = none ∧ e = .malformed f.name (.dangling b.id succ)) ∨
        ∃ target, f.blocks[succ.index]? = some target ∧ b.id ∉ target.preds ∧
          e = .malformed f.name (.missingPred succ b.id)) fun _ => False := by
  rw [checkSuccessor, Noted]
  cases h : f.blocks[succ.index]? with
  | none => exact (Decides.complain _).congr (by simp) (by simp) fun _ => .rfl
  | some target => exact (demand_decides _ _).congr (by simp) (by simp) fun _ => .rfl

theorem leadsTo_eq_true_iff {pred succ : BlockId} :
    f.leadsTo pred succ = true ↔ Leads f pred succ := by
  rw [leadsTo, Leads]
  cases f.blocks[pred.index]? <;> simp

/-- An edge that is noted where it ends must be there. -/
theorem leadsTo_decides (b : Block) (pred : BlockId) :
    Decides (f.demand (f.leadsTo pred b.id) (.phantomPred b.id pred)) (Leads f pred b.id)
      (fun e => ¬Leads f pred b.id ∧ e = .malformed f.name (.phantomPred b.id pred))
      fun _ => False := by
  refine (demand_decides _ _).congr leadsTo_eq_true_iff (fun e => ?_) fun _ => .rfl
  rw [← leadsTo_eq_true_iff, Bool.not_eq_true]

/-- A listed instruction must be the block's own. One that is missing cannot be asked for its
block. -/
theorem checkOwner_decides (b : Block) (j : InstrId) :
    Decides (f.checkOwner b j) (Owns f b.id j)
      (fun e => ∃ instr, f.instrs[j.index]? = some instr ∧ instr.block ≠ b.id ∧
        e = .malformed f.name (.foreignInstr j b.id instr.block))
      fun fault => f.instrs[j.index]? = none ∧ fault = .outOfRange := by
  rw [Owns]
  rcases hinstr : f.instrs[j.index]? with _ | instr
  · have hrun : f.instr j = .error .outOfRange := by
      rw [Function.instr, entry, hinstr]
    have hcheck : (f.checkOwner b j).run = .error .outOfRange := by
      rw [checkOwner, hrun]
      rfl
    exact (Decides.fail hcheck).congr (by simp) (by simp) (by simp)
  · have hrun : f.instr j = .ok instr := entry_eq_ok_iff.mpr hinstr
    have hcheck : f.checkOwner b j =
        f.demand (instr.block = b.id) (.foreignInstr j b.id instr.block) := by
      rw [checkOwner, hrun]
      rfl
    rw [hcheck]
    exact (demand_decides _ _).congr (by simp) (by simp) (by simp)

/-! ## One block -/

/-- The check of a block that is stored at its own place, up to its terminator. -/
theorem closed_decides (b : Block) (rest : Checked Unit) {P : Prop} {D : BuildError → Prop}
    {F : Fault → Prop} (hrest : Decides rest P D F) :
    Decides (do unless b.isClosed do throw (.unterminated f.name b.id)
                rest)
      (b.term ≠ .unreachable ∧ P)
      (fun e => (b.term = .unreachable ∧ e = .unterminated f.name b.id) ∨
        b.term ≠ .unreachable ∧ D e)
      fun fault => b.term ≠ .unreachable ∧ F fault := by
  by_cases hterm : b.term = .unreachable
  · have hopen : b.isClosed = false := by simp [Block.isClosed, hterm]
    rw [hopen]
    exact (Decides.complain _).congr (by simp [hterm]) (by simp [hterm]) (by simp [hterm])
  · have hclosed : b.isClosed = true := by simp [Block.isClosed, hterm]
    rw [hclosed]
    exact hrest.congr (by simp [hterm]) (by simp [hterm]) (by simp [hterm])

theorem place_eq_iff {block : BlockId} {i : Nat} : block.index = i ↔ block = ⟨i⟩ := by
  obtain ⟨k⟩ := block
  simp

/-- **The check of a block** passes if it fits, and otherwise reports the first condition that
it does not meet, unless it comes to an instruction first that is missing. -/
theorem checkBlock_decides (b : Block) (i : Nat) :
    Decides (f.checkBlock b i) (b.Fits f i) (b.Unfit f i)
      fun fault => b.Missing f i ∧ fault = .outOfRange := by
  have hplace := demand_decides (f := f) (b.id.index = i) (.misplaced b.id i)
  have hedges := demand_decides (f := f) (b.term.successors = b.succs) (.successors b.id)
  have hforth := Decides.forM (f.checkSuccessor b) b.succs fun s _ => checkSuccessor_decides b s
  have hback := Decides.forM (fun pred => f.demand (f.leadsTo pred b.id) (.phantomPred b.id pred))
    b.preds fun p _ => leadsTo_decides b p
  have howners := Decides.forM (f.checkOwner b) b.instrs fun j _ => checkOwner_decides b j
  refine (hplace.andThen (closed_decides b _
    (hedges.andThen (hforth.andThen (hback.andThen howners))))).congr ?_ (fun e => ?_)
      fun fault => ?_
  · simp only [decide_eq_true_eq, place_eq_iff]
    constructor
    · rintro ⟨hid, hterm, hsuccs, hnoted, hleads, howns⟩
      rw [hid] at hnoted hleads howns
      exact ⟨hid, hterm, hsuccs.symm, hnoted, hleads, howns⟩
    · intro h
      have hid := h.placed
      refine ⟨hid, h.closed, h.succs.symm, ?_, ?_, ?_⟩ <;> rw [hid]
      · exact h.noted
      · exact h.leads
      · exact h.owns
  · simp only [decide_eq_true_eq, decide_eq_false_iff_not, place_eq_iff]
    constructor
    · rintro (⟨hid, rfl⟩ | ⟨hid, h⟩)
      · exact .misplaced hid
      rw [hid] at h
      obtain ⟨hterm, rfl⟩ | ⟨hterm, h⟩ := h
      · exact .unterminated hid hterm
      obtain ⟨hsuccs, rfl⟩ | ⟨hsuccs, h⟩ := h
      · exact .successors hid hterm fun h => hsuccs h.symm
      obtain ⟨before, s, after, hlist, hbefore, h⟩ | ⟨hnoted, h⟩ := h
      · obtain ⟨hnone, rfl⟩ | ⟨target, htarget, hpred, rfl⟩ := h
        · exact .dangling hid hterm hsuccs.symm hlist hbefore hnone
        · exact .missingPred hid hterm hsuccs.symm hlist hbefore htarget hpred
      obtain ⟨before, p, after, hlist, hbefore, hpred, rfl⟩ | ⟨hleads, h⟩ := h
      · exact .phantomPred hid hterm hsuccs.symm hnoted hlist hbefore hpred
      · obtain ⟨before, j, after, hlist, hbefore, instr, hinstr, howner, rfl⟩ := h
        exact .foreignInstr hid hterm hsuccs.symm hnoted hleads hlist hbefore hinstr howner
    · intro h
      cases h with
      | misplaced hid => exact .inl ⟨hid, rfl⟩
      | unterminated hid hterm =>
        rw [hid]
        exact .inr ⟨rfl, .inl ⟨hterm, rfl⟩⟩
      | successors hid hterm hsuccs =>
        rw [hid]
        exact .inr ⟨rfl, .inr ⟨hterm, .inl ⟨fun h => hsuccs h.symm, rfl⟩⟩⟩
      | dangling hid hterm hsuccs hlist hbefore hnone =>
        rw [hid]
        exact .inr ⟨rfl, .inr ⟨hterm, .inr ⟨hsuccs.symm, .inl
          ⟨_, _, _, hlist, hbefore, .inl ⟨hnone, rfl⟩⟩⟩⟩⟩
      | missingPred hid hterm hsuccs hlist hbefore htarget hpred =>
        rw [hid]
        exact .inr ⟨rfl, .inr ⟨hterm, .inr ⟨hsuccs.symm, .inl
          ⟨_, _, _, hlist, hbefore, .inr ⟨_, htarget, hpred, rfl⟩⟩⟩⟩⟩
      | phantomPred hid hterm hsuccs hnoted hlist hbefore hpred =>
        rw [hid]
        exact .inr ⟨rfl, .inr ⟨hterm, .inr ⟨hsuccs.symm, .inr ⟨hnoted, .inl
          ⟨_, _, _, hlist, hbefore, hpred, rfl⟩⟩⟩⟩⟩
      | foreignInstr hid hterm hsuccs hnoted hleads hlist hbefore hinstr howner =>
        rw [hid]
        exact .inr ⟨rfl, .inr ⟨hterm, .inr ⟨hsuccs.symm, .inr ⟨hnoted, .inr
          ⟨hleads, _, _, _, hlist, hbefore, _, hinstr, howner, rfl⟩⟩⟩⟩⟩
  · simp only [decide_eq_true_eq, place_eq_iff, and_false, exists_false, false_or]
    constructor
    · rintro ⟨hid, hterm, hsuccs, hnoted, hleads, before, j, after, hlist, hbefore, hnone, rfl⟩
      rw [hid] at hnoted hleads hbefore
      exact ⟨⟨hid, hterm, hsuccs.symm, hnoted, hleads, before, j, after, hlist, hbefore, hnone⟩,
        rfl⟩
    · rintro ⟨h, rfl⟩
      obtain ⟨before, j, after, hlist, hbefore, hnone⟩ := h.lists
      have hid := h.placed
      refine ⟨hid, h.closed, h.succs.symm, ?_, ?_, before, j, after, hlist, ?_, hnone, rfl⟩ <;>
        rw [hid]
      · exact h.noted
      · exact h.leads
      · exact hbefore

/-! ## The whole function -/

/-- A function is fit if it has blocks, all of them fit, and the recovery block, if there is
one, returns. -/
structure IsFit (f : Function) : Prop where
  nonempty : f.blocks ≠ []
  fits : ∀ (i : Nat) (b : Block), f.blocks[i]? = some b → b.Fits f i
  recover : ∀ (r : BlockId) (b : Block), f.recover = some r → f.blocks[r.index]? = some b →
    b.term.isReturn = true

/-- The error for a function that is not fit: it has no blocks, or else the first block that
does not fit is at fault, or else the recovery block. -/
inductive Defective (f : Function) : BuildError → Prop where
  | noBlocks (hnone : f.blocks = []) : Defective f (.malformed f.name .noBlocks)
  | block {i : Nat} {b : Block} {e} (hb : f.blocks[i]? = some b)
    (hbefore : ∀ (j : Nat) (c : Block), j < i → f.blocks[j]? = some c → c.Fits f j)
    (hunfit : b.Unfit f i e) : Defective f e
  | recover {r : BlockId} {b : Block} (hsome : f.blocks ≠ [])
    (hfits : ∀ (i : Nat) (b : Block), f.blocks[i]? = some b → b.Fits f i)
    (hrecover : f.recover = some r) (hb : f.blocks[r.index]? = some b)
    (hterm : b.term.isReturn = false) : Defective f (.malformed f.name .recoverReturn)

/-- What the check asks for is missing: all blocks up to one fit, and that one lists a missing
instruction; or all blocks fit, and the recovery block is missing. -/
inductive Missing (f : Function) : Prop where
  | instr {i : Nat} {b : Block} (hb : f.blocks[i]? = some b)
    (hbefore : ∀ (j : Nat) (c : Block), j < i → f.blocks[j]? = some c → c.Fits f j)
    (hmissing : b.Missing f i) : Missing f
  | recover {r : BlockId} (hsome : f.blocks ≠ [])
    (hfits : ∀ (i : Nat) (b : Block), f.blocks[i]? = some b → b.Fits f i)
    (hrecover : f.recover = some r) (hmissing : f.blocks[r.index]? = none) : Missing f

/-- The last demand: the recovery block returns. One that is missing cannot be asked. -/
theorem recover_decides :
    Decides
      (match f.recover with
        | none => pure ()
        | some r => do f.demand (← f.block r).term.isReturn .recoverReturn)
      (∀ r, f.recover = some r →
        ∃ b : Block, f.blocks[r.index]? = some b ∧ b.term.isReturn = true)
      (fun e => ∃ (r : BlockId) (b : Block), f.recover = some r ∧ f.blocks[r.index]? = some b ∧
        b.term.isReturn = false ∧ e = .malformed f.name .recoverReturn)
      fun fault => ∃ r, f.recover = some r ∧ f.blocks[r.index]? = none ∧ fault = .outOfRange := by
  rcases hr : f.recover with _ | r
  · exact Decides.pass.congr (by simp) (by simp) (by simp)
  rcases hb : f.blocks[r.index]? with _ | b
  · have hblock : f.block r = .error .outOfRange := by
      rw [Function.block, entry, hb]
    have hcheck :
        (do f.demand (← f.block r).term.isReturn .recoverReturn : Checked Unit).run =
          .error .outOfRange := by
      rw [hblock]
      rfl
    have hle := List.getElem?_eq_none_iff.mp hb
    exact (Decides.fail hcheck).congr (by simp [hb]) (by simp [hb]) (by simp [hle])
  · have hblock : f.block r = .ok b := entry_eq_ok_iff.mpr hb
    have hcheck : (do f.demand (← f.block r).term.isReturn .recoverReturn) =
        f.demand b.term.isReturn .recoverReturn := by
      rw [hblock]
      rfl
    have hlt := (List.getElem?_eq_some_iff.mp hb).1
    exact Eq.mp (congrArg (Decides · _ _ _) hcheck.symm)
      ((demand_decides _ _).congr (by simp [hb]) (by simp [hb]) (by simp [hlt]))

/-- **The check as a whole.** -/
theorem check_decides :
    Decides f.check (f.IsFit ∧ ∀ r, f.recover = some r → r.index < f.blocks.length) f.Defective
      fun fault => fault = .outOfRange ∧ f.Missing := by
  have hsome := demand_decides (f := f) (!f.blocks.isEmpty) .noBlocks
  have hblocks := Decides.forM_zipIdx f.checkBlock f.blocks fun i b _ => checkBlock_decides b i
  refine (hsome.andThen (hblocks.andThen recover_decides)).congr ?_ (fun e => ?_) fun fault => ?_
  · simp only [Bool.not_eq_true', List.isEmpty_eq_false_iff]
    constructor
    · rintro ⟨hsome, hfits, hrecover⟩
      refine ⟨⟨hsome, hfits, fun r b hr hb => ?_⟩, fun r hr => ?_⟩
      · obtain ⟨c, hc, hterm⟩ := hrecover r hr
        obtain rfl := Option.some.inj (hb.symm.trans hc)
        exact hterm
      · obtain ⟨c, hc, -⟩ := hrecover r hr
        exact (List.getElem?_eq_some_iff.mp hc).1
    · rintro ⟨h, hrecover⟩
      refine ⟨h.nonempty, h.fits, fun r hr => ?_⟩
      have hb := List.getElem?_eq_getElem (hrecover r hr)
      exact ⟨_, hb, h.recover r _ hr hb⟩
  · simp only [Bool.not_eq_true', Bool.not_eq_false', List.isEmpty_iff, List.isEmpty_eq_false_iff]
    constructor
    · rintro (⟨hnone, rfl⟩ | ⟨hsome, ⟨i, b, hb, hbefore, he⟩ |
        ⟨hfits, r, b, hrecover, hb, hterm, rfl⟩⟩)
      · exact .noBlocks hnone
      · exact .block hb hbefore he
      · exact .recover hsome hfits hrecover hb hterm
    · intro h
      cases h with
      | noBlocks hnone => exact .inl ⟨hnone, rfl⟩
      | @block i b e hb hbefore he =>
        have hsome : f.blocks ≠ [] := List.ne_nil_of_mem (List.mem_of_getElem? hb)
        exact .inr ⟨hsome, .inl ⟨i, b, hb, hbefore, he⟩⟩
      | recover hsome hfits hrecover hb hterm =>
        exact .inr ⟨hsome, .inr ⟨hfits, _, _, hrecover, hb, hterm, rfl⟩⟩
  · simp only [Bool.not_eq_true', List.isEmpty_eq_false_iff, false_or]
    constructor
    · rintro ⟨hsome, ⟨i, b, hb, hbefore, hmissing, rfl⟩ | ⟨hfits, r, hrecover, hnone, rfl⟩⟩
      · exact ⟨rfl, .instr hb hbefore hmissing⟩
      · exact ⟨rfl, .recover hsome hfits hrecover hnone⟩
    · rintro ⟨rfl, h⟩
      cases h with
      | @instr i b hb hbefore hmissing =>
        have hsome : f.blocks ≠ [] := List.ne_nil_of_mem (List.mem_of_getElem? hb)
        exact ⟨hsome, .inl ⟨i, b, hb, hbefore, hmissing, rfl⟩⟩
      | recover hsome hfits hrecover hnone =>
        exact ⟨hsome, .inr ⟨hfits, _, hrecover, hnone, rfl⟩⟩

/-- **Where nothing is missing the check is no fault.** The instructions that are listed must
exist, and the recovery block. -/
theorem check_judges (hinstrs : ∀ b ∈ f.blocks, ∀ j ∈ b.instrs, j.index < f.instrs.length)
    (hrecover : ∀ r, f.recover = some r → r.index < f.blocks.length) :
    Judges f.check f.IsFit f.Defective := by
  have hmissing : ¬f.Missing := by
    intro h
    cases h with
    | instr hb _ hmissing =>
      obtain ⟨before, j, after, hlist, -, hnone⟩ := hmissing.lists
      have hj := hinstrs _ (List.mem_of_getElem? hb) j (by rw [hlist]; simp)
      exact absurd hj (Nat.not_lt.mpr (List.getElem?_eq_none_iff.mp hnone))
    | recover _ _ hr hnone =>
      exact absurd (hrecover _ hr) (Nat.not_lt.mpr (List.getElem?_eq_none_iff.mp hnone))
  have h := check_decides (f := f)
  refine ⟨?_, h.passes.trans (and_iff_left hrecover), h.reports⟩
  rcases h.total with hpass | hthrow | ⟨fault, hfault⟩
  · exact .inl hpass
  · exact .inr hthrow
  · exact absurd ((h.faults fault).mp hfault).2 hmissing

/-- In a fit function every edge is noted at both ends. -/
theorem IsFit.mem_succs_iff (h : f.IsFit) {x y : BlockId} {a b : Block} (ha : f.block x = .ok a)
    (hb : f.block y = .ok b) : y ∈ a.succs ↔ x ∈ b.preds := by
  have ha := entry_eq_ok_iff.mp ha
  have hb := entry_eq_ok_iff.mp hb
  constructor
  · intro hy
    obtain ⟨target, htarget, hx⟩ := (h.fits _ _ ha).noted y hy
    obtain rfl := Option.some.inj (hb.symm.trans htarget)
    exact hx
  · intro hx
    obtain ⟨source, hsource, hy⟩ := (h.fits _ _ hb).leads x hx
    obtain rfl := Option.some.inj (ha.symm.trans hsource)
    exact hy

/-- **The check accepts exactly the fit functions**, and of any other it reports the first
defect in the order of the blocks. The blocks, their edges and their lists may be anything;
only the instructions that are listed and the recovery block must exist. In a function that is
accepted, one block leads to another exactly if the other notes it. -/
theorem check_iff (hinstrs : ∀ b ∈ f.blocks, ∀ j ∈ b.instrs, j.index < f.instrs.length)
    (hrecover : ∀ r, f.recover = some r → r.index < f.blocks.length) :
    (f.check = pure () ↔ f.IsFit) ∧
    (f.check = pure () → ∀ x y a b, f.block x = .ok a → f.block y = .ok b →
      (y ∈ a.succs ↔ x ∈ b.preds)) ∧
    (∀ e, f.check = throw e ↔ f.Defective e) ∧
    (f.check = pure () ∨ ∃ e, f.check = throw e) := by
  have h := check_judges hinstrs hrecover
  refine ⟨h.passes, fun hpass x y a b ha hb => ?_, h.reports, h.total⟩
  exact (h.passes.mp hpass).mem_succs_iff ha hb

/-- Two blocks, the first of which leads to the other one. -/
def twoBlocks (preds : List BlockId) : Function :=
  { Function.empty "edges" ⟨0⟩ with
    blocks := [⟨⟨0⟩, none, [⟨0⟩], .jump ⟨1⟩, [], [⟨1⟩]⟩, ⟨⟨1⟩, none, [], .ret [], preds, []⟩]
    recover := some ⟨1⟩
    instrs := [⟨⟨0⟩, .store ⟨0⟩ ⟨1⟩, none, .none⟩] }

/-- The edge between them has to be noted at both ends. -/
theorem check_iff_twoBlocks :
    (twoBlocks [⟨0⟩]).IsFit ∧
    (twoBlocks []).Defective (.malformed "edges" (.missingPred ⟨1⟩ ⟨0⟩)) := by
  have hinstrs : ∀ preds, ∀ b ∈ (twoBlocks preds).blocks, ∀ j ∈ b.instrs,
      j.index < (twoBlocks preds).instrs.length := by
    intro preds
    simp [twoBlocks]
  have hrecover : ∀ preds r, (twoBlocks preds).recover = some r →
      r.index < (twoBlocks preds).blocks.length := by
    intro preds
    simp [twoBlocks]
  obtain ⟨hfit, -⟩ := check_iff (hinstrs [⟨0⟩]) (hrecover [⟨0⟩])
  obtain ⟨-, -, hdefect, -⟩ := check_iff (hinstrs []) (hrecover [])
  exact ⟨hfit.mp (by rfl), (hdefect _).mp (by rfl)⟩

/-- **What the check of any function comes to**, whatever its blocks, their lists and its recovery
block are. It is a fault exactly if it comes to an instruction that is missing, in a list of a
block up to which all fit, or if all blocks fit and the recovery block is missing. Every other
identifier is looked up with care: where one of them is out of place, the check reports an
error, unless a block before that one lists an instruction that is missing. -/
theorem check_outcome (f : Function) :
    (f.check = pure () ↔ f.IsFit ∧ ∀ r, f.recover = some r → r.index < f.blocks.length) ∧
    (∀ e, f.check = throw e ↔ f.Defective e) ∧
    (∀ fault, f.check.run = .error fault ↔ fault = .outOfRange ∧ f.Missing) ∧
    (f.check = pure () ∨ (∃ e, f.check = throw e) ∨ f.check.run = .error .outOfRange) ∧
    ∀ (i : Nat) (b : Block), f.blocks[i]? = some b → b.Astray f i →
      (∀ (j : Nat) (c : Block), j < i → f.blocks[j]? = some c →
        ∀ k ∈ c.instrs, k.index < f.instrs.length) →
      ∃ e, f.check = throw e := by
  have h := check_decides (f := f)
  refine ⟨h.passes, h.reports, h.faults, ?_, fun i b hb hastray hlisted => ?_⟩
  · rcases h.total with hpass | hthrow | ⟨fault, hfault⟩
    · exact .inl hpass
    · exact .inr (.inl hthrow)
    · obtain ⟨rfl, -⟩ := (h.faults fault).mp hfault
      exact .inr (.inr hfault)
  have hunfit : ¬b.Fits f i := fun hfit =>
    hastray.unnoticed hfit.placed hfit.succs hfit.noted hfit.leads
  have hmissing : ¬f.Missing := by
    intro hmissing
    cases hmissing with
    | @instr j c hc hbefore hmissing =>
      rcases Nat.lt_trichotomy j i with hlt | rfl | hlt
      · obtain ⟨before, k, after, hlist, -, hnone⟩ := hmissing.lists
        have hk := hlisted j c hlt hc k (by rw [hlist]; simp)
        exact absurd hk (Nat.not_lt.mpr (List.getElem?_eq_none_iff.mp hnone))
      · obtain rfl := Option.some.inj (hb.symm.trans hc)
        exact hastray.unnoticed hmissing.placed hmissing.succs hmissing.noted hmissing.leads
      · exact hunfit (hbefore i b hlt hb)
    | recover _ hfits => exact hunfit (hfits i b hb)
  rcases h.total with hpass | hthrow | ⟨fault, hfault⟩
  · exact absurd ((h.passes.mp hpass).1.fits i b hb) hunfit
  · exact hthrow
  · exact absurd ((h.faults fault).mp hfault).2 hmissing

/-- A recovery block that is missing, an instruction that is missing, and a block that is. -/
theorem check_outcome_twoBlocks :
    { twoBlocks [⟨0⟩] with recover := some ⟨2⟩ }.Missing ∧
    { twoBlocks [⟨0⟩] with instrs := [] }.Missing ∧
    ∃ e, (twoBlocks [⟨0⟩, ⟨2⟩]).check = throw e := by
  obtain ⟨-, -, hrecover, -⟩ := check_outcome { twoBlocks [⟨0⟩] with recover := some ⟨2⟩ }
  obtain ⟨-, -, hinstr, -⟩ := check_outcome { twoBlocks [⟨0⟩] with instrs := [] }
  obtain ⟨-, -, -, -, hastray⟩ := check_outcome (twoBlocks [⟨0⟩, ⟨2⟩])
  refine ⟨((hrecover .outOfRange).mp rfl).2, ((hinstr .outOfRange).mp rfl).2, ?_⟩
  refine hastray 1 _ rfl (.pred (p := ⟨2⟩) (by decide) rfl) fun j c hj hc => ?_
  obtain rfl : j = 0 := by omega
  cases hc
  decide

end Function

end MethodSSA
