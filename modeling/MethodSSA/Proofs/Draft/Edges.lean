import MethodSSA.Proofs.Draft.Moves

/-!
# Blocks and their edges

The blocks of a draft are **linked**: each stands at its own place, its successors are those
of its terminator, and every edge is noted at both ends as often as it is there. Emission
does not touch what an edge is made of, the `Block.shell`; a new block has no edges; and
closing a block adds edges at both ends at once (`Linked.close`). Together with what is known
of the open block and of the recovery block this is kept by every move (`Move.fits`).
-/

namespace MethodSSA

open Relation

/-- A block without its instructions. -/
def Block.shell (b : Block) : Block := { b with instrs := [] }

/-- Every edge is noted at both ends. -/
structure Linked (blocks : List Block) : Prop where
  placed : ∀ {i : Nat} {b : Block}, blocks[i]? = some b → b.id = ⟨i⟩
  succs : ∀ {i : Nat} {b : Block}, blocks[i]? = some b → b.succs = b.term.successors
  held : ∀ {i : Nat} {b : Block} {c : BlockId}, blocks[i]? = some b → c ∈ b.succs ++ b.preds →
    c.index < blocks.length
  counted : ∀ {i j : Nat} {a b : Block}, blocks[i]? = some a → blocks[j]? = some b →
    b.preds.count ⟨i⟩ = a.succs.count ⟨j⟩

/-! ## Closing a block -/

namespace Function

variable {f : Function}

/-- A block that is not the closed one keeps its terminator. -/
theorem stored_of_close {block other : BlockId} (term : Terminator) {stored : Block}
    (hstored : f.blocks[other.index]? = some stored) (hne : other ≠ block) :
    ∃ stored', (f.closeBlock block term).blocks[other.index]? = some stored' ∧
      stored'.term = stored.term := by
  have hindex : block.index ≠ other.index := fun heq => hne (congrArg BlockId.mk heq).symm
  rw [getElem?_closeBlock, hstored]
  exact ⟨_, rfl, if_neg hindex⟩

end Function

namespace Linked

variable {f : Function} {blocks blocks' : List Block}

theorem start (name : String) (signature : TypeId) (label : Option String) :
    Linked ((Function.empty name signature).addBlock label).2.blocks := by
  have hfirst : ∀ {i b}, ((Function.empty name signature).addBlock label).2.blocks[i]? = some b →
      i = 0 ∧ b = .empty ⟨0⟩ label := by
    rintro (_ | i) b hb
    · exact ⟨rfl, (Option.some.inj hb).symm⟩
    · cases hb
  constructor
  · intro i b hb
    obtain ⟨rfl, rfl⟩ := hfirst hb
    rfl
  · intro i b hb
    obtain ⟨-, rfl⟩ := hfirst hb
    rfl
  · intro i b c hb hc
    obtain ⟨-, rfl⟩ := hfirst hb
    cases hc
  · intro i j a b ha hb
    obtain ⟨-, rfl⟩ := hfirst ha
    obtain ⟨-, rfl⟩ := hfirst hb
    rfl

/-- A new block has no edges, and none leads to its place. -/
theorem addBlock (h : Linked f.blocks) (label : Option String) :
    Linked (f.addBlock label).2.blocks := by
  have hcases : ∀ {i b}, (f.addBlock label).2.blocks[i]? = some b →
      f.blocks[i]? = some b ∨ i = f.blocks.length ∧ b = .empty ⟨i⟩ label := by
    intro i b hb
    refine (TypeTable.getElem?_concat_cases hb).imp_right ?_
    rintro ⟨rfl, rfl⟩
    exact ⟨rfl, rfl⟩
  have hlength : (f.addBlock label).2.blocks.length = f.blocks.length + 1 := List.length_append
  have hfresh : ∀ {l : List BlockId}, (∀ c ∈ l, c.index < f.blocks.length) →
      l.count ⟨f.blocks.length⟩ = 0 := by
    intro l hl
    exact List.count_eq_zero.mpr fun hmem => Nat.lt_irrefl _ (hl _ hmem)
  constructor
  · intro i b hb
    rcases hcases hb with hb | ⟨-, rfl⟩
    · exact h.placed hb
    · rfl
  · intro i b hb
    rcases hcases hb with hb | ⟨-, rfl⟩
    · exact h.succs hb
    · rfl
  · intro i b c hb hc
    rw [hlength]
    rcases hcases hb with hb | ⟨-, rfl⟩
    · exact Nat.lt_succ_of_lt (h.held hb hc)
    · cases hc
  · intro i j a b ha hb
    rcases hcases ha with ha | ⟨rfl, rfl⟩ <;> rcases hcases hb with hb | ⟨rfl, rfl⟩
    · exact h.counted ha hb
    · exact (hfresh fun c hc => h.held ha (List.mem_append_left _ hc)).symm
    · exact hfresh fun c hc => h.held hb (List.mem_append_right _ hc)
    · rfl

theorem close (h : Linked f.blocks) {block : BlockId} {stored : Block} {term : Terminator}
    (hstored : f.blocks[block.index]? = some stored) (hopen : stored.term = .unreachable)
    (hsuccs : ∀ succ ∈ term.successors, succ.index < f.blocks.length) :
    Linked (f.closeBlock block term).blocks := by
  have hnone : stored.succs = [] := by
    rw [h.succs hstored, hopen]
    rfl
  have hold : ∀ {i b'}, (f.closeBlock block term).blocks[i]? = some b' →
      ∃ b, f.blocks[i]? = some b ∧ b'.id = b.id ∧
        b'.preds = b.preds ++ List.replicate (term.successors.count ⟨i⟩) block ∧
        b'.term = (if block.index = i then term else b.term) ∧
        b'.succs = if block.index = i then term.successors else b.succs := by
    intro i b' hb'
    rw [Function.getElem?_closeBlock] at hb'
    obtain ⟨b, hb, rfl⟩ := Option.map_eq_some_iff.mp hb'
    exact ⟨b, hb, rfl, rfl, rfl, rfl⟩
  have hlt : block.index < f.blocks.length := (List.getElem?_eq_some_iff.mp hstored).1
  constructor
  · intro i b' hb'
    obtain ⟨b, hb, hid, -⟩ := hold hb'
    rw [hid, h.placed hb]
  · intro i b' hb'
    obtain ⟨b, hb, -, -, hterm, hsucc⟩ := hold hb'
    rw [hterm, hsucc]
    split
    · rfl
    · exact h.succs hb
  · intro i b' c hb' hc
    obtain ⟨b, hb, -, hpreds, -, hsucc⟩ := hold hb'
    rw [Function.length_closeBlock]
    rw [hpreds, hsucc, List.mem_append, List.mem_append, List.mem_replicate] at hc
    rcases hc with hc | hc | ⟨-, rfl⟩
    · split at hc
      · exact hsuccs c hc
      · exact h.held hb (List.mem_append_left _ hc)
    · exact h.held hb (List.mem_append_right _ hc)
    · exact hlt
  · intro i j a' b' ha' hb'
    obtain ⟨a, ha, -, -, -, hsucc⟩ := hold ha'
    obtain ⟨b, hb, -, hpreds, -, -⟩ := hold hb'
    have hcount := h.counted ha hb
    rw [hpreds, hsucc, List.count_append, List.count_replicate, hcount]
    by_cases hi : block.index = i
    · -- the edges from this block are new, and there were none before
      subst hi
      obtain rfl : stored = a := Option.some.inj (hstored.symm.trans ha)
      simp [hnone]
    · have hne : block ≠ ⟨i⟩ := fun heq => hi (congrArg BlockId.index heq)
      simp [hi, hne]

end Linked

/-- Blocks that differ in their instructions only. -/
theorem exists_of_shell {blocks blocks' : List Block}
    (hshell : blocks'.map Block.shell = blocks.map Block.shell) {i : Nat} {b' : Block}
    (hb' : blocks'[i]? = some b') : ∃ b, blocks[i]? = some b ∧ b'.shell = b.shell := by
  have hi : (blocks.map Block.shell)[i]? = some b'.shell := by
    rw [← hshell, List.getElem?_map, hb']
    rfl
  rw [List.getElem?_map] at hi
  obtain ⟨b, hb, heq⟩ := Option.map_eq_some_iff.mp hi
  exact ⟨b, hb, heq.symm⟩

/-- What edges are made of is all that counts. -/
theorem Linked.congr {blocks blocks' : List Block} (h : Linked blocks)
    (hshell : blocks'.map Block.shell = blocks.map Block.shell) : Linked blocks' := by
  have hid : ∀ {a b : Block}, a.shell = b.shell → a.id = b.id := congrArg Block.id
  have hterm : ∀ {a b : Block}, a.shell = b.shell → a.term = b.term := congrArg Block.term
  have hpreds : ∀ {a b : Block}, a.shell = b.shell → a.preds = b.preds := congrArg Block.preds
  have hsuccs : ∀ {a b : Block}, a.shell = b.shell → a.succs = b.succs := congrArg Block.succs
  have hlength : blocks'.length = blocks.length := by simpa using congrArg List.length hshell
  constructor
  · intro i b' hb'
    obtain ⟨b, hb, heq⟩ := exists_of_shell hshell hb'
    rw [hid heq, h.placed hb]
  · intro i b' hb'
    obtain ⟨b, hb, heq⟩ := exists_of_shell hshell hb'
    rw [hsuccs heq, hterm heq, h.succs hb]
  · intro i b' c hb' hc
    obtain ⟨b, hb, heq⟩ := exists_of_shell hshell hb'
    rw [hsuccs heq, hpreds heq] at hc
    rw [hlength]
    exact h.held hb hc
  · intro i j a' b' ha' hb'
    obtain ⟨a, ha, heqa⟩ := exists_of_shell hshell ha'
    obtain ⟨b, hb, heqb⟩ := exists_of_shell hshell hb'
    rw [hpreds heqb, hsuccs heqa, h.counted ha hb]

namespace Builder

variable {b b' : Builder}

/-! ## What moves keep -/

/-- The shape of a draft: its blocks are linked, the open block has no terminator, and the
recovery block returns. -/
structure Shaped (b : Builder) : Prop where
  linked : Linked b.func.blocks
  nonempty : b.func.blocks ≠ []
  current : ∀ {block}, b.current = some block →
    ∃ stored, b.func.blocks[block.index]? = some stored ∧ stored.term = .unreachable
  recover : ∀ {block}, b.func.recover = some block →
    ∃ stored, b.func.blocks[block.index]? = some stored ∧ stored.term.isReturn = true

/-- What no emission touches. -/
structure SameShape (b b' : Builder) : Prop where
  shells : b'.func.blocks.map Block.shell = b.func.blocks.map Block.shell
  current : b'.current = b.current
  recover : b'.func.recover = b.func.recover

theorem map_shell_modify (blocks : List Block) (i : Nat) (id : InstrId) :
    (blocks.modify i fun b => { b with instrs := b.instrs ++ [id] }).map Block.shell =
      blocks.map Block.shell := by
  apply List.ext_getElem?
  intro j
  rw [List.getElem?_map, List.getElem?_map, List.getElem?_modify]
  rcases blocks[j]? with _ | b
  · rfl
  · by_cases h : i = j <;> simp [h, Block.shell]

theorem Emission.sameShape (h : Emission b b') : SameShape b b' := by
  cases h with
  | intern | constant => exact ⟨rfl, rfl, rfl⟩
  | step | definition | localVar => exact ⟨map_shell_modify _ _ _, rfl, rfl⟩

theorem sameShape_of_emissions (h : ReflTransGen Emission b b') : SameShape b b' := by
  induction h with
  | refl => exact ⟨rfl, rfl, rfl⟩
  | tail _ hstep ih =>
    have hs := hstep.sameShape
    exact ⟨hs.shells.trans ih.shells, hs.current.trans ih.current, hs.recover.trans ih.recover⟩

/-- A block that is still there. -/
theorem SameShape.exists_stored (h : SameShape b b') {i : Nat} {stored : Block}
    (hstored : b.func.blocks[i]? = some stored) :
    ∃ stored', b'.func.blocks[i]? = some stored' ∧ stored'.term = stored.term := by
  obtain ⟨stored', hstored', heq⟩ := exists_of_shell h.shells.symm hstored
  exact ⟨stored', hstored', (congrArg Block.term heq).symm⟩

theorem SameShape.shaped (h : SameShape b b') (s : Shaped b) : Shaped b' := by
  refine ⟨s.linked.congr h.shells, fun hnil => ?_, fun hc => ?_, fun hr => ?_⟩
  · have hshells := h.shells
    rw [hnil] at hshells
    exact s.nonempty (List.map_eq_nil_iff.mp hshells.symm)
  · rw [h.current] at hc
    obtain ⟨stored, hstored, hterm⟩ := s.current hc
    obtain ⟨stored', hstored', heq⟩ := h.exists_stored hstored
    exact ⟨stored', hstored', heq.trans hterm⟩
  · rw [h.recover] at hr
    obtain ⟨stored, hstored, hterm⟩ := s.recover hr
    obtain ⟨stored', hstored', heq⟩ := h.exists_stored hstored
    exact ⟨stored', hstored', heq ▸ hterm⟩

theorem shaped_start (w : Workspace) (name : String) (signature : TypeId) :
    Shaped ⟨w, .start name signature⟩ := by
  refine ⟨.start name signature _, List.cons_ne_nil _ _, ?_, nofun⟩
  rintro _ ⟨⟩
  exact ⟨_, rfl, rfl⟩

theorem Shaped.close (s : Shaped b) {block : BlockId} {term : Terminator}
    (hopen : b.current = some block)
    (hsuccs : ∀ succ ∈ term.successors, ∃ stored, b.func.block succ = .ok stored) :
    Shaped { b with func := b.func.closeBlock block term, current := none } := by
  obtain ⟨stored, hstored, hterm⟩ := s.current hopen
  refine ⟨s.linked.close hstored hterm fun succ hsucc => ?_, fun hnil => ?_, nofun,
    fun {recover} hr => ?_⟩
  · obtain ⟨target, htarget⟩ := hsuccs succ hsucc
    exact (List.getElem?_eq_some_iff.mp (entry_eq_ok_iff.mp htarget)).1
  · have hlength := b.func.length_closeBlock block term
    rw [hnil] at hlength
    exact s.nonempty (List.eq_nil_of_length_eq_zero hlength.symm)
  · dsimp only at hr
    rw [Function.closeBlock_eq] at hr
    obtain ⟨target, htarget, hreturn⟩ := s.recover hr
    -- the recovery block is closed already, so it is another one
    have hne : recover ≠ block := by
      rintro rfl
      obtain rfl := Option.some.inj (hstored.symm.trans htarget)
      rw [hterm] at hreturn
      cases hreturn
    obtain ⟨target', htarget', heq⟩ := Function.stored_of_close term htarget hne
    exact ⟨target', htarget', heq ▸ hreturn⟩

theorem stored_of_addBlock {f : Function} (label : Option String) {i : Nat} {P : Block → Prop}
    (h : ∃ stored, f.blocks[i]? = some stored ∧ P stored) :
    ∃ stored, (f.addBlock label).2.blocks[i]? = some stored ∧ P stored := by
  obtain ⟨stored, hstored, hp⟩ := h
  have hlt := (List.getElem?_eq_some_iff.mp hstored).1
  exact ⟨stored, (List.getElem?_append_left hlt).trans hstored, hp⟩

/-- The recovery block returns, and the block that was open before is open again. -/
theorem Shaped.recovered (s : Shaped b) {b₁ : Builder} {results : List ValueId}
    (hemits : ReflTransGen Emission b.landing b₁) :
    Shaped { b₁ with
      func := b₁.func.closeBlock ⟨b.func.blocks.length⟩ (.ret results), current := b.current } := by
  have hsame := sameShape_of_emissions hemits
  have hlinked : Linked b₁.func.blocks :=
    (s.linked.addBlock (some "recover")).congr hsame.shells
  obtain ⟨stored, hstored, hterm⟩ := hsame.exists_stored
    (List.getElem?_concat_length (l := b.func.blocks))
  have hlength := b₁.func.length_closeBlock ⟨b.func.blocks.length⟩ (.ret results)
  refine ⟨hlinked.close hstored hterm nofun, fun hnil => ?_, fun {saved} hc => ?_,
    fun hr => ?_⟩
  · dsimp only at hnil
    rw [hnil] at hlength
    rw [List.eq_nil_of_length_eq_zero hlength.symm] at hstored
    cases hstored
  · -- it is another block than the one that was closed
    obtain ⟨waiting, hwaiting, hopen⟩ :=
      stored_of_addBlock (some "recover") (s.current hc)
    obtain ⟨waiting', hwaiting', heq⟩ := hsame.exists_stored hwaiting
    have hne : saved ≠ ⟨b.func.blocks.length⟩ := by
      rintro rfl
      obtain ⟨target, htarget, -⟩ := s.current hc
      exact Nat.lt_irrefl _ (List.getElem?_eq_some_iff.mp htarget).1
    obtain ⟨final, hfinal, heq'⟩ :=
      Function.stored_of_close (.ret results) hwaiting' hne
    exact ⟨final, hfinal, heq'.trans (heq.trans hopen)⟩
  · dsimp only at hr
    rw [Function.closeBlock_eq, hsame.recover] at hr
    cases hr
    rw [Function.getElem?_closeBlock, hstored]
    exact ⟨_, rfl, by simp [Terminator.isReturn]⟩

theorem Advance.shaped (h : Advance b b') (s : Shaped b) : Shaped b' := by
  cases h with
  | emission h => exact h.sameShape.shaped s
  | constTrue | param | freeVar | nameResult => exact ⟨s.linked, s.nonempty, s.current, s.recover⟩
  | newBlock label =>
    exact ⟨s.linked.addBlock label, List.concat_ne_nil _ _,
      fun hc => stored_of_addBlock _ (s.current hc), fun hr => stored_of_addBlock _ (s.recover hr)⟩
  | @setCurrent block stored hstored hopen =>
    refine ⟨s.linked, s.nonempty, ?_, s.recover⟩
    rintro _ ⟨⟩
    refine ⟨stored, entry_eq_ok_iff.mp hstored, ?_⟩
    simpa [Block.isClosed] using hopen
  | close hopen hsuccs => exact s.close hopen hsuccs
  | recover _ hemits => exact s.recovered hemits

/-- **One move keeps the shape of a draft.** -/
theorem Move.shaped (h : Move b b') (s : Shaped b) : Shaped b' := by
  cases h with
  | advance h => exact h.shaped s
  | share | describe => exact ⟨s.linked, s.nonempty, s.current, s.recover⟩

/-- **The shape of every draft.** -/
theorem Reached.shaped (h : Reached b) : Shaped b :=
  h.invariant shaped_start fun _ _ s hmove => hmove.shaped s

end Builder

end MethodSSA
