import Mathlib.Logic.Relation
import MethodSSA.Proofs.Types.Built
import MethodSSA.Proofs.Steps

/-!
# Steps as transitions

A step with a state leads from one state to another, and what it does on the way is a row of
small transitions. `Makes R` says that every change a step makes, if it is no fault, is a row
of transitions of the kind `R`: none for a step that only reads, and those of its parts for
a step that is put together. What every transition keeps is then kept by the step.
-/

namespace MethodSSA

open Relation

variable {σ α β : Type} {R S : σ → σ → Prop}

/-! ## Steps that are no fault -/

section Inversion

variable {x : StateT σ (Except Fault) α} {f : α → StateT σ (Except Fault) β} {b : β} {s s' : σ}

theorem exists_of_bind (h : (x >>= f).run s = .ok (b, s')) :
    ∃ a s₁, x.run s = .ok (a, s₁) ∧ (f a).run s₁ = .ok (b, s') := by
  rw [StateT.run_bind] at h
  obtain ⟨⟨a, s₁⟩, hx, hf⟩ := bind_eq_ok_iff.mp h
  exact ⟨a, s₁, hx, hf⟩

theorem exists_of_answer_bind {y : Except Fault α} (h : (liftM y >>= f).run s = .ok (b, s')) :
    ∃ a, y = .ok a ∧ (f a).run s = .ok (b, s') := by
  obtain ⟨a, s₁, hy, hf⟩ := exists_of_bind h
  obtain ⟨a', rfl, ⟨⟩⟩ := bind_eq_ok_iff.mp (hy : (y >>= fun a => .ok (a, s)) = _)
  exact ⟨a, rfl, hf⟩

theorem of_get_bind {f : σ → StateT σ (Except Fault) β} (h : (get >>= f).run s = .ok (b, s')) :
    (f s).run s = .ok (b, s') := h

/-- Questions one after another leave the state alone, and all have answers. -/
theorem answers_of_forM {question : α → Except Fault β} {l : List α} {u : PUnit}
    (h : (l.forM fun x => do let _ ← question x : StateT σ (Except Fault) PUnit).run s =
      .ok (u, s')) : s' = s ∧ ∀ x ∈ l, ∃ a, question x = .ok a := by
  induction l with
  | nil =>
    cases h
    exact ⟨rfl, nofun⟩
  | cons x l ih =>
    obtain ⟨v, s₁, hx, h⟩ := exists_of_bind (f := fun _ => l.forM _) h
    obtain ⟨a, ha, hx⟩ := exists_of_answer_bind hx
    cases hx
    obtain ⟨rfl, hl⟩ := ih h
    exact ⟨rfl, List.forall_mem_cons.mpr ⟨⟨a, ha⟩, hl⟩⟩

section Failing

variable {y : ExceptT BuildError (StateT σ (Except Fault)) α}
  {g : α → ExceptT BuildError (StateT σ (Except Fault)) β} {r : Except BuildError β}

/-- What follows a step that may fail does not happen if it fails. -/
theorem cases_of_bind (h : (y >>= g).run.run s = .ok (r, s')) :
    (∃ e, y.run.run s = .ok (.error e, s') ∧ r = .error e) ∨
      ∃ a s₁, y.run.run s = .ok (.ok a, s₁) ∧ (g a).run.run s₁ = .ok (r, s') := by
  obtain ⟨r₁, s₁, hy, hrest⟩ := exists_of_bind (x := y.run) h
  cases r₁ with
  | error e =>
    cases hrest
    exact .inl ⟨e, hy, rfl⟩
  | ok a => exact .inr ⟨a, s₁, hy, hrest⟩

theorem exists_of_lift_bind (h : (liftM x >>= g).run.run s = .ok (r, s')) :
    ∃ a s₁, x.run s = .ok (a, s₁) ∧ (g a).run.run s₁ = .ok (r, s') := by
  have hlift : ∀ {r₁ s₁}, (liftM x : ExceptT BuildError (StateT σ (Except Fault)) α).run.run s =
      .ok (r₁, s₁) → ∃ a, x.run s = .ok (a, s₁) ∧ r₁ = .ok a := by
    intro r₁ s₁ hx
    change (x >>= fun a => Pure.pure (Except.ok a)).run s = _ at hx
    obtain ⟨a, s₂, hx, hok⟩ := exists_of_bind hx
    cases hok
    exact ⟨a, hx, rfl⟩
  rcases cases_of_bind h with ⟨e, hx, -⟩ | ⟨a, s₁, hx, hrest⟩
  · obtain ⟨a, -, ⟨⟩⟩ := hlift hx
  · obtain ⟨a', hx, ⟨⟩⟩ := hlift hx
    exact ⟨_, s₁, hx, hrest⟩

end Failing

end Inversion

/-! ## Rows of transitions -/

/-- A row of transitions is a single one if they can be put together. -/
theorem single_of_row (hrefl : ∀ s, R s s) (htrans : ∀ {s s' s''}, R s s' → R s' s'' → R s s'')
    {s s' : σ} (h : ReflTransGen R s s') : R s s' := by
  induction h with
  | refl => exact hrefl s
  | tail _ hstep ih => exact htrans ih hstep

/-- Wherever the step ends, a row of transitions leads there. -/
def Makes (R : σ → σ → Prop) (x : StateT σ (Except Fault) α) : Prop :=
  ∀ ⦃s a s'⦄, x.run s = .ok (a, s') → ReflTransGen R s s'

namespace Makes

variable {x : StateT σ (Except Fault) α} {f : α → StateT σ (Except Fault) β}

theorem mono (h : Makes R x) (hRS : ∀ s s', R s s' → S s s') : Makes S x :=
  fun _ _ _ hrun => ReflTransGen.mono hRS _ _ (h hrun)

/-- A single transition. -/
theorem single (h : ∀ ⦃s a s'⦄, x.run s = .ok (a, s') → R s s') : Makes R x :=
  fun _ _ _ hrun => .single (h hrun)

/-- A step that changes nothing. -/
theorem still (h : ∀ ⦃s a s'⦄, x.run s = .ok (a, s') → s' = s) : Makes R x := by
  intro s a s' hrun
  rw [h hrun]

/-! ## Steps in a row -/

theorem pure (a : α) : Makes R (pure a : StateT σ (Except Fault) α) := by
  rintro s _ _ ⟨⟩
  exact .refl

theorem throw (e : Fault) : Makes R (throw e : StateT σ (Except Fault) α) := by
  rintro s _ _ ⟨⟩

theorem get : Makes R (get : StateT σ (Except Fault) σ) := by
  rintro s _ _ ⟨⟩
  exact .refl

/-- An answer that needs no state. -/
theorem answer (y : Except Fault α) : Makes R (liftM y : StateT σ (Except Fault) α) := by
  refine still fun s a s' hrun => ?_
  obtain ⟨_, -, ⟨⟩⟩ := bind_eq_ok_iff.mp (hrun : (y >>= fun a => .ok (a, s)) = _)
  rfl

theorem bind (h : Makes R x) (hf : ∀ a, Makes R (f a)) : Makes R (x >>= f) := by
  intro s b s' hrun
  obtain ⟨a, s₁, hx, hrest⟩ := exists_of_bind hrun
  exact (h hx).trans (hf a hrest)

theorem ite {c : Prop} [Decidable c] {y : StateT σ (Except Fault) α} (hx : Makes R x)
    (hy : Makes R y) : Makes R (if c then x else y) := by
  split
  · exact hx
  · exact hy

/-! ## Lists of steps -/

theorem mapM {f : α → StateT σ (Except Fault) β} (hf : ∀ a, Makes R (f a)) (l : List α) :
    Makes R (l.mapM f) := by
  induction l with
  | nil =>
    rw [List.mapM_nil]
    exact pure []
  | cons a l ih =>
    rw [List.mapM_cons]
    exact (hf a).bind fun b => ih.bind fun bs => pure (b :: bs)

theorem forM {f : α → StateT σ (Except Fault) PUnit} (hf : ∀ a, Makes R (f a)) (l : List α) :
    Makes R (l.forM f) := by
  induction l with
  | nil => exact pure _
  | cons a l ih => exact (hf a).bind fun _ => ih

/-! ## Steps that may fail -/

section Failing

variable {y : ExceptT BuildError (StateT σ (Except Fault)) α}
  {g : α → ExceptT BuildError (StateT σ (Except Fault)) β}

theorem lift (h : Makes R x) :
    Makes R (liftM x : ExceptT BuildError (StateT σ (Except Fault)) α).run :=
  h.bind fun _ => pure _

theorem fail (e : BuildError) :
    Makes R (MonadExcept.throw e : ExceptT BuildError (StateT σ (Except Fault)) α).run :=
  pure (Except.error e)

/-- What follows a step that may fail. -/
theorem andThen (h : Makes R y.run) (hg : ∀ a, Makes R (g a).run) : Makes R (y >>= g).run := by
  refine h.bind fun r => ?_
  cases r with
  | error e => exact pure _
  | ok a => exact hg a

/-- What follows a step that cannot fail. -/
theorem liftThen (h : Makes R x) (hg : ∀ a, Makes R (g a).run) : Makes R (liftM x >>= g).run :=
  h.lift.andThen hg

theorem iteFail {c : Prop} [Decidable c] {z : ExceptT BuildError (StateT σ (Except Fault)) α}
    (hy : Makes R y.run) (hz : Makes R z.run) : Makes R (if c then y else z).run := by
  split
  · exact hy
  · exact hz

end Failing

end Makes

end MethodSSA
