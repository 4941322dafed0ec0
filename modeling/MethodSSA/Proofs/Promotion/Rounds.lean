import MethodSSA.Proofs.Promotion.Membership

/-!
# The rounds of the walk

The walk that looks for methods goes round by round, each from a level to the next one,
until a level is empty. Nothing in a round counts them: the number that `walk` takes
along is there for the recursion only. `Rounds` leaves it out and says which levels the
rounds themselves come to. What one round keeps (`Round.covers`, `Round.fits`) holds at
every level of a run, so that a run finds its next round as long as there is a type left
to walk, never meets a type twice on a level, and ends, also where types embed each other
in a circle.
-/

namespace MethodSSA

namespace TypeTable

/-- Where the walk stands between two rounds: the declared types that it has seen, and the
level that is next. -/
structure Front where
  seen : List TypeId
  level : List Reach
  deriving DecidableEq, Repr

/-- The walk starts with one type on its level. -/
def Front.start (base : TypeId) (isPtr : Bool) : Front := ⟨[], [⟨base, [], isPtr, false⟩]⟩

/-- A round walks a level that is not empty, and goes on to what it embeds. -/
inductive Round (t : TypeTable) (recv : TypeId) : Front → Front → Prop
  | intro {s : Front} {l : Level} (hlevel : s.level ≠ [])
    (hwalk : t.walkLevel recv s.seen s.level = .ok l) :
    Round t recv s ⟨l.seen, mergeReaches l.next⟩

/-- So many rounds, one after the other. -/
inductive Rounds (t : TypeTable) (recv : TypeId) : Nat → Front → Front → Prop
  | none {s : Front} : Rounds t recv 0 s s
  | round {n : Nat} {s s' e : Front} (hround : t.Round recv s s') (hrest : Rounds t recv n s' e) :
    Rounds t recv (n + 1) s e

variable {t : TypeTable} {recv base : TypeId} {isPtr : Bool} {k n m depth : Nat}
  {s s' e : Front}

/-! ## Runs of rounds -/

/-- There is one way only for a round to go. -/
theorem Round.unique (h : t.Round recv s s') (h' : t.Round recv s e) : s' = e := by
  obtain ⟨-, hwalk⟩ := h
  obtain ⟨-, hwalk'⟩ := h'
  rw [Except.ok.inj (hwalk.symm.trans hwalk')]

/-- There is no round from an empty level. -/
theorem Round.level_ne_nil (h : t.Round recv s s') : s.level ≠ [] := by
  obtain ⟨hlevel, -⟩ := h
  exact hlevel

/-- Where one run has come to an empty level no run goes further. -/
theorem Rounds.le_of_level_eq_nil (h : t.Rounds recv n s e) (hend : e.level = []) :
    ∀ {m s'}, t.Rounds recv m s s' → m ≤ n := by
  induction h with
  | none =>
    intro m s' h'
    cases h' with
    | none => exact Nat.le_refl 0
    | round hround _ => exact absurd hend hround.level_ne_nil
  | round hround _ ih =>
    intro m s' h'
    cases h' with
    | none => exact Nat.zero_le _
    | round hround' hrest' =>
      obtain rfl := hround.unique hround'
      exact Nat.succ_le_succ (ih hend hrest')

/-! ## What a round keeps -/

section Kept

variable (hs : t.Sound) (hm : t.MethodsTyped) (hbase : t.Holds base)
include hs hm hbase

/-- A round goes to the level of the paths that are longer by one. -/
theorem Round.covers (h : t.Round recv s s') (c : t.Covers base isPtr k s.seen s.level) :
    t.Covers base isPtr (k + 1) s'.seen s'.level := by
  obtain ⟨-, hwalk⟩ := h
  cases hwalk.symm.trans (c.walkLevel_eq hs hbase recv hm)
  exact c.walked_next hs hbase recv

/-- A round takes one from the bound on the rounds to come. -/
theorem Round.fits (h : t.Round recv s s') (c : t.Covers base isPtr k s.seen s.level)
    (f : t.Fits depth s.seen s.level) :
    ∃ left, depth = left + 1 ∧ t.Fits left s'.seen s'.level := by
  obtain ⟨hlevel, hwalk⟩ := h
  cases hwalk.symm.trans (c.walkLevel_eq hs hbase recv hm)
  obtain ⟨r, hr⟩ := List.exists_mem_of_ne_nil _ hlevel
  rcases depth with _ | left
  · exact absurd (f.bound r hr) (Nat.not_lt_zero _)
  · exact ⟨left, rfl, f.next hs hbase c⟩

/-- No round is a fault. -/
theorem Covers.exists_round (recv : TypeId) (c : t.Covers base isPtr k s.seen s.level)
    (hlevel : s.level ≠ []) : ∃ s', t.Round recv s s' :=
  ⟨_, .intro hlevel (c.walkLevel_eq hs hbase recv hm)⟩

/-- **A run covers paths that are longer by one with every round.** -/
theorem Rounds.covers (h : t.Rounds recv n s e) :
    ∀ {k}, t.Covers base isPtr k s.seen s.level → t.Covers base isPtr (k + n) e.seen e.level := by
  induction h with
  | none => exact id
  | round hround _ ih =>
    intro k c
    rw [← Nat.add_assoc, Nat.add_right_comm]
    exact ih (hround.covers hs hm hbase c)

/-- **Every walk comes to an empty level.** The bound falls with every round, and where it
is zero there is nothing to walk. -/
theorem Fits.exists_rounds (recv : TypeId) :
    ∀ {depth k s}, t.Fits depth s.seen s.level → t.Covers base isPtr k s.seen s.level →
      ∃ n e, n ≤ depth ∧ t.Rounds recv n s e ∧ e.level = [] := by
  intro depth
  induction depth with
  | zero =>
    intro k s f c
    refine ⟨0, s, Nat.le_refl 0, .none, ?_⟩
    by_contra hlevel
    obtain ⟨s', hround⟩ := c.exists_round hs hm hbase recv hlevel
    obtain ⟨left, hleft, -⟩ := hround.fits hs hm hbase c f
    cases hleft
  | succ depth ih =>
    intro k s f c
    by_cases hlevel : s.level = []
    · exact ⟨0, s, Nat.zero_le _, .none, hlevel⟩
    · obtain ⟨s', hround⟩ := c.exists_round hs hm hbase recv hlevel
      obtain ⟨left, hleft, f'⟩ := hround.fits hs hm hbase c f
      cases hleft
      obtain ⟨n, e, hn, hrest, hend⟩ := ih f' (hround.covers hs hm hbase c)
      exact ⟨n + 1, e, Nat.succ_le_succ hn, .round hround hrest, hend⟩

end Kept

/-! ## The number that the walk takes along -/

/-- A round is one step of the walk. -/
theorem Round.walk_eq (h : t.Round recv s s') (above : Offers) :
    ∃ above', ∀ depth,
      t.walk recv (depth + 1) s.seen s.level above = t.walk recv depth s'.seen s'.level above' := by
  obtain @⟨l, hlevel, hwalk⟩ := h
  obtain ⟨r, rest, hcons⟩ := List.exists_cons_of_ne_nil hlevel
  refine ⟨above ++ l.offers, fun depth => ?_⟩
  rw [hcons] at hwalk ⊢
  rw [walk, hwalk]
  rfl

/-- The walk finds the same with every number that is enough for its rounds. -/
theorem Rounds.exists_walk (h : t.Rounds recv n s e) (hend : e.level = []) :
    ∀ above, ∃ offers, ∀ depth, n ≤ depth →
      t.walk recv depth s.seen s.level above = .ok offers := by
  induction h with
  | none =>
    intro above
    refine ⟨above, fun depth _ => ?_⟩
    rw [hend, walk]
    rfl
  | round hround _ ih =>
    intro above
    obtain ⟨above', hstep⟩ := hround.walk_eq above
    obtain ⟨offers, hoffers⟩ := ih hend above'
    refine ⟨offers, fun depth hdepth => ?_⟩
    obtain ⟨left, rfl⟩ := Nat.exists_eq_succ_of_ne_zero (Nat.ne_of_gt (Nat.zero_lt_of_lt hdepth))
    rw [hstep]
    exact hoffers left (Nat.le_of_succ_le_succ hdepth)

/-- The method set is what the walk finds, unless it is that of a pointer to an interface. -/
theorem methodSet_of_walk (hstrip : t.stripPointer recv = .ok (base, isPtr)) {u : Ty}
    (hu : t.underlyingTy base = .ok u) (hiface : isPtr = true → t.isInterface base = .ok false)
    {offers : Offers}
    (hwalk : t.walk recv t.walkDepth [] [⟨base, [], isPtr, false⟩] [] = .ok offers) :
    t.methodSet recv = .ok ((keyTable offers).filterMap (·.2)) := by
  have hptr : ¬ (isPtr = true ∧ u.methods?.isSome = true) := by
    rintro ⟨hp, hsome⟩
    have hi := (isInterface_eq hu).symm.trans (hiface hp)
    rw [hsome] at hi
    cases hi
  rw [methodSet_eq hstrip hu, if_neg hptr, hwalk]
  rfl

/-- **The walk ends, whatever embeds what.** From every receiver type the rounds come to an
empty level, after which there are no more, and no level on the way holds a type twice or
is a fault. The walk with a number that is enough for the rounds, such as the one that
`methodSet` gives it, finds what the rounds find. -/
theorem rounds_end (h : t.Built) (hm : t.MethodsTyped) (hrecv : t.Holds recv) :
    ∃ base isPtr, t.stripPointer recv = .ok (base, isPtr) ∧
      (∃ n e, t.Rounds recv n (.start base isPtr) e ∧ e.level = [] ∧
        (∀ m s, t.Rounds recv m (.start base isPtr) s → m ≤ n) ∧ n ≤ t.walkDepth ∧
        ∃ offers,
          (∀ depth, n ≤ depth →
            t.walk recv depth [] [⟨base, [], isPtr, false⟩] [] = .ok offers) ∧
          ((isPtr = true → t.isInterface base = .ok false) →
            t.methodSet recv = .ok ((keyTable offers).filterMap (·.2)))) ∧
      ∀ m s, t.Rounds recv m (.start base isPtr) s →
        (s.level.map (·.ty)).Nodup ∧ (s.level = [] ∨ ∃ s', t.Round recv s s') := by
  have hs := h.sound
  obtain ⟨base, isPtr, hstrip, hbase, -⟩ := hs.exists_stripPointer hrecv
  obtain ⟨u, hu⟩ := hs.exists_underlyingTy hbase
  have c : t.Covers base isPtr 0 (Front.start base isPtr).seen (Front.start base isPtr).level :=
    covers_start
  have f : t.Fits t.walkDepth (Front.start base isPtr).seen (Front.start base isPtr).level :=
    fits_start hbase
  refine ⟨base, isPtr, hstrip, ?_, fun m s hrun => ?_⟩
  · obtain ⟨n, e, hn, hrun, hend⟩ := f.exists_rounds hs hm hbase recv c
    obtain ⟨offers, hoffers⟩ := hrun.exists_walk hend []
    refine ⟨n, e, hrun, hend, fun m s => hrun.le_of_level_eq_nil hend, hn, offers, hoffers,
      fun hiface => ?_⟩
    exact methodSet_of_walk hstrip hu hiface (hoffers t.walkDepth hn)
  · have cs := hrun.covers hs hm hbase c
    refine ⟨cs.distinct, ?_⟩
    by_cases hlevel : s.level = []
    · exact .inl hlevel
    · exact .inr (cs.exists_round hs hm hbase recv hlevel)

/-- A pointer to a type that embeds a pointer to itself. -/
theorem rounds_end_node :
    nodeTable.Built ∧ nodeTable.MethodsTyped ∧ nodeTable.Holds ⟨31⟩ ∧
    ∃ base isPtr, nodeTable.stripPointer ⟨31⟩ = .ok (base, isPtr) ∧
      (∃ n e, nodeTable.Rounds ⟨31⟩ n (.start base isPtr) e ∧ e.level = [] ∧
        (∀ m s, nodeTable.Rounds ⟨31⟩ m (.start base isPtr) s → m ≤ n) ∧
        n ≤ nodeTable.walkDepth ∧
        ∃ offers,
          (∀ depth, n ≤ depth →
            nodeTable.walk ⟨31⟩ depth [] [⟨base, [], isPtr, false⟩] [] = .ok offers) ∧
          ((isPtr = true → nodeTable.isInterface base = .ok false) →
            nodeTable.methodSet ⟨31⟩ = .ok ((keyTable offers).filterMap (·.2)))) ∧
      ∀ m s, nodeTable.Rounds ⟨31⟩ m (.start base isPtr) s →
        (s.level.map (·.ty)).Nodup ∧ (s.level = [] ∨ ∃ s', nodeTable.Round ⟨31⟩ s s') :=
  ⟨nodeTable_built, nodeTable_methodsTyped, by decide,
    rounds_end nodeTable_built nodeTable_methodsTyped (by decide)⟩

end TypeTable

end MethodSSA
