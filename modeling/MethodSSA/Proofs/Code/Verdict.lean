import MethodSSA.Code.Check

/-!
# Verdicts

`Function.check` is made of demands that are put one after another. `Decides x P D F` says
what such a sequence comes to: it passes exactly if `P` holds, it reports exactly the
error that `D` admits, and it is exactly the fault that `F` admits. The verdict on a sequence is
put together from those on its parts: of two checks the second one is made if the first
passes, and of the checks of a list the first one that does not pass decides.
-/

namespace MethodSSA

namespace Function

/-! ## The first of a list -/

/-- An entry before which all others meet a condition is the head of a list, or it is such an
entry of the rest and the head meets the condition. -/
theorem first_cons_iff {α : Type} (P R : α → Prop) {a : α} {l : List α} :
    (R a ∨ P a ∧ ∃ before c after, l = before ++ c :: after ∧ (∀ c ∈ before, P c) ∧ R c) ↔
      ∃ before c after, a :: l = before ++ c :: after ∧ (∀ c ∈ before, P c) ∧ R c := by
  constructor
  · rintro (he | ⟨ha, before, c, after, rfl, hbefore, he⟩)
    · exact ⟨[], a, l, rfl, by simp, he⟩
    · exact ⟨a :: before, c, after, rfl, List.forall_mem_cons.mpr ⟨ha, hbefore⟩, he⟩
  · rintro ⟨_ | ⟨first, before⟩, c, after, hl, hbefore, he⟩
    · obtain ⟨rfl, -⟩ := List.cons.inj hl
      exact .inl he
    · obtain ⟨rfl, rfl⟩ := List.cons.inj hl
      obtain ⟨ha, hbefore⟩ := List.forall_mem_cons.mp hbefore
      exact .inr ⟨ha, before, c, after, rfl, hbefore, he⟩

/-- What comes before an entry of a list are the entries at smaller places. -/
theorem first_zipIdx_iff {α : Type} (P R : α → Nat → Prop) {l : List α} :
    (∃ before p after, l.zipIdx = before ++ p :: after ∧ (∀ c ∈ before, P c.1 c.2) ∧
      R p.1 p.2) ↔
      ∃ i a, l[i]? = some a ∧ (∀ j c, j < i → l[j]? = some c → P c j) ∧ R a i := by
  constructor
  · rintro ⟨before, ⟨a, i⟩, after, hlist, hbefore, he⟩
    obtain ⟨l₁, l₂, rfl, rfl, hrest⟩ := List.zipIdx_eq_append_iff.mp hlist
    obtain ⟨_, l₂, rfl, hhead, -⟩ := List.zipIdx_eq_cons_iff.mp hrest.symm
    obtain ⟨rfl, rfl⟩ := Prod.mk.inj hhead
    refine ⟨_, a, by simp, fun j c hj hc => hbefore (c, j) ?_, he⟩
    rw [List.mk_mem_zipIdx_iff_getElem?, ← hc, List.getElem?_append_left (by omega)]
  · rintro ⟨i, a, ha, hbefore, he⟩
    obtain ⟨l₁, l₂, rfl, rfl⟩ : ∃ l₁ l₂, l = l₁ ++ a :: l₂ ∧ l₁.length = i := by
      obtain ⟨hi, rfl⟩ := List.getElem?_eq_some_iff.mp ha
      exact ⟨l.take i, l.drop (i + 1), by simp, by rw [List.length_take]; omega⟩
    refine ⟨l₁.zipIdx, (a, l₁.length), l₂.zipIdx (l₁.length + 1), ?_, ?_, he⟩
    · simp [List.zipIdx_append]
    · rintro ⟨c, j⟩ hp
      obtain ⟨hj, hc⟩ := List.getElem?_eq_some_iff.mp (List.mk_mem_zipIdx_iff_getElem?.mp hp)
      refine hbefore j c hj ?_
      rw [List.getElem?_append_left hj, List.getElem?_eq_getElem hj, hc]

/-! ## Verdicts -/

/-- What a check comes to: it passes if `P` holds, else it reports the error that `D` admits or is
the fault that `F` admits. -/
structure Decides (x : Checked Unit) (P : Prop) (D : BuildError → Prop) (F : Fault → Prop) :
    Prop where
  total : x = pure () ∨ (∃ e, x = throw e) ∨ ∃ fault, x.run = .error fault
  passes : x = pure () ↔ P
  reports : ∀ e, x = throw e ↔ D e
  faults : ∀ fault, x.run = .error fault ↔ F fault

/-- What a check comes to: it passes if `P` holds, else it reports the error that `D`
admits. It never faults. -/
structure Judges (x : Checked Unit) (P : Prop) (D : BuildError → Prop) : Prop where
  total : x = pure () ∨ ∃ e, x = throw e
  passes : x = pure () ↔ P
  reports : ∀ e, x = throw e ↔ D e

namespace Decides

variable {x y : Checked Unit} {P Q : Prop} {D E : BuildError → Prop} {F G : Fault → Prop}

theorem pure_ne_throw {e : BuildError} : (pure () : Checked Unit) ≠ throw e := by
  intro h
  cases h

theorem throw_inj {e e' : BuildError} (h : (throw e : Checked Unit) = throw e') : e = e' := by
  cases h
  rfl

theorem run_pure_ne {fault : Fault} : (pure () : Checked Unit).run ≠ .error fault := by
  intro h
  cases h

theorem run_throw_ne {e : BuildError} {fault : Fault} :
    (throw e : Checked Unit).run ≠ .error fault := by
  intro h
  cases h

/-- A check that has nothing to say. -/
theorem pass : Decides (pure ()) True (fun _ => False) fun _ => False where
  total := .inl rfl
  passes := iff_of_true rfl trivial
  reports _ := iff_of_false pure_ne_throw id
  faults _ := iff_of_false run_pure_ne id

/-- A check that always complains. -/
theorem complain (e : BuildError) :
    Decides (throw e) False (fun e' => e' = e) fun _ => False where
  total := .inr (.inl ⟨e, rfl⟩)
  passes := iff_of_false (fun h => pure_ne_throw h.symm) id
  reports _ := ⟨fun h => (throw_inj h).symm, fun h => h ▸ rfl⟩
  faults _ := iff_of_false run_throw_ne id

/-- A check that cannot be made. -/
theorem fail {fault : Fault} (h : x.run = .error fault) :
    Decides x False (fun _ => False) fun fault' => fault' = fault where
  total := .inr (.inr ⟨fault, h⟩)
  passes := by
    refine iff_of_false ?_ id
    rintro rfl
    exact run_pure_ne h
  reports e := by
    refine iff_of_false ?_ id
    rintro rfl
    exact run_throw_ne h
  faults fault' := by
    rw [h]
    exact ⟨fun heq => (Except.error.inj heq).symm, fun heq => congrArg _ heq.symm⟩

theorem congr (h : Decides x P D F) (hP : P ↔ Q) (hD : ∀ e, D e ↔ E e)
    (hF : ∀ fault, F fault ↔ G fault) : Decides x Q E G where
  total := h.total
  passes := h.passes.trans hP
  reports e := (h.reports e).trans (hD e)
  faults fault := (h.faults fault).trans (hF fault)

/-- A passed check does not complain, and is no fault. -/
theorem sound (h : Decides x P D F) (hP : P) : (∀ e, ¬D e) ∧ ∀ fault, ¬F fault := by
  have hpass := h.passes.mpr hP
  refine ⟨fun e he => ?_, fun fault hfault => ?_⟩
  · exact pure_ne_throw (hpass.symm.trans ((h.reports e).mpr he))
  · exact run_pure_ne (hpass ▸ (h.faults fault).mpr hfault)

/-- One check after another: the second is made if the first passes. -/
theorem andThen (hx : Decides x P D F) (hy : Decides y Q E G) :
    Decides (x >>= fun _ => y) (P ∧ Q) (fun e => D e ∨ P ∧ E e)
      fun fault => F fault ∨ P ∧ G fault := by
  obtain hpass | ⟨e, hthrow⟩ | ⟨fault, hfault⟩ := hx.total
  · -- the first passes: all depends on the second
    have hP := hx.passes.mp hpass
    obtain ⟨hD, hF⟩ := hx.sound hP
    rw [hpass, pure_bind]
    exact hy.congr (by simp [hP]) (by simp [hP, hD]) (by simp [hP, hF])
  · -- the first complains, and the second is not made
    have hP : ¬P := fun hP => (hx.sound hP).1 e ((hx.reports e).mp hthrow)
    have hbind : (x >>= fun _ => y) = throw e := by
      rw [hthrow]
      rfl
    rw [hthrow] at hx
    rw [hbind]
    exact hx.congr (by simp [hP]) (by simp [hP]) (by simp [hP])
  · -- the first is a fault, and so is all of it
    have hP : ¬P := fun hP => (hx.sound hP).2 fault ((hx.faults fault).mp hfault)
    have hbind : (x >>= fun _ => y) = x := by
      change x.run = .error fault at hfault
      change x.run >>= _ = x.run
      rw [hfault]
      rfl
    rw [hbind]
    exact hx.congr (by simp [hP]) (by simp [hP]) (by simp [hP])

/-- The same check of every entry of a list: the first entry that it does not pass decides. -/
theorem forM {α : Type} (check : α → Checked Unit) {P : α → Prop} {D : α → BuildError → Prop}
    {F : α → Fault → Prop} (l : List α) (h : ∀ a ∈ l, Decides (check a) (P a) (D a) (F a)) :
    Decides (l.forM check) (∀ a ∈ l, P a)
      (fun e => ∃ before a after, l = before ++ a :: after ∧ (∀ c ∈ before, P c) ∧ D a e)
      fun fault =>
        ∃ before a after, l = before ++ a :: after ∧ (∀ c ∈ before, P c) ∧ F a fault := by
  induction l with
  | nil => exact pass.congr (by simp) (by simp) (by simp)
  | cons a l ih =>
    have hrest := ih fun c hc => h c (List.mem_cons_of_mem _ hc)
    exact ((h a List.mem_cons_self).andThen hrest).congr (by simp)
      (fun e => first_cons_iff P fun a => D a e) fun fault => first_cons_iff P fun a => F a fault

/-- The same with the places of the entries. -/
theorem forM_zipIdx {α : Type} (check : α → Nat → Checked Unit) {P : α → Nat → Prop}
    {D : α → Nat → BuildError → Prop} {F : α → Nat → Fault → Prop} (l : List α)
    (h : ∀ i a, l[i]? = some a → Decides (check a i) (P a i) (D a i) (F a i)) :
    Decides (l.zipIdx.forM fun p => check p.1 p.2) (∀ i a, l[i]? = some a → P a i)
      (fun e => ∃ i a, l[i]? = some a ∧ (∀ j c, j < i → l[j]? = some c → P c j) ∧ D a i e)
      fun fault =>
        ∃ i a, l[i]? = some a ∧ (∀ j c, j < i → l[j]? = some c → P c j) ∧ F a i fault := by
  have hall := forM (fun p : α × Nat => check p.1 p.2) l.zipIdx fun p hp =>
    h p.2 p.1 (List.mk_mem_zipIdx_iff_getElem?.mp hp)
  refine hall.congr ?_ (fun e => first_zipIdx_iff P fun a i => D a i e)
    fun fault => first_zipIdx_iff P fun a i => F a i fault
  constructor
  · intro h i a ha
    exact h (a, i) (List.mk_mem_zipIdx_iff_getElem?.mpr ha)
  · rintro h ⟨a, i⟩ hp
    exact h i a (List.mk_mem_zipIdx_iff_getElem?.mp hp)

end Decides

end Function

end MethodSSA
