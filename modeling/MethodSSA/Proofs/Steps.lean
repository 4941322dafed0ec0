import MethodSSA.BuildError
import MethodSSA.Fault

/-!
# What a step comes to

A step with a state can be a fault. `Yields` says that it is none and how it ends; of a
step that may also fail with a build error, `Gives` says that it does not; and `Settles`
says how a step ends unless it is a fault of a certain kind. Steps in a row end as the
last one does.
-/

namespace MethodSSA

variable {σ α β : Type}

/-- The step ends, with an answer and a state as `Q` has them. -/
def Yields (x : StateT σ (Except Fault) α) (s : σ) (Q : α → σ → Prop) : Prop :=
  ∃ a s', x.run s = .ok (a, s') ∧ Q a s'

/-- The step ends without a build error, with an answer and a state as `Q` has them. -/
def Gives (x : ExceptT BuildError (StateT σ (Except Fault)) α) (s : σ) (Q : α → σ → Prop) : Prop :=
  Yields x.run s fun r s' => ∃ a, r = .ok a ∧ Q a s'

/-- The step ends, with an answer and a state as `Q` has them, or is a fault of kind `E`. -/
def Settles (E : Fault → Prop) (x : StateT σ (Except Fault) α) (s : σ) (Q : α → σ → Prop) : Prop :=
  Yields x s Q ∨ ∃ e, x.run s = .error e ∧ E e

/-- An answer that needs no state leaves it as it is. -/
theorem answer_run {y : Except Fault α} {a : α} (h : y = .ok a) (s : σ) :
    (liftM y : StateT σ (Except Fault) α).run s = .ok (a, s) := by
  rw [h]
  rfl

/-- What is a fault whatever it answers is a fault. -/
theorem eq_error_of_map {y : Except Fault α} {e : Fault} (h : y.map (fun _ => ()) = .error e) :
    y = .error e := by
  cases y <;> cases h
  rfl

namespace Yields

variable {x : StateT σ (Except Fault) α} {f : α → StateT σ (Except Fault) β} {s : σ}
  {Q Q' : α → σ → Prop} {R : β → σ → Prop}

theorem of_run {a : α} {s' : σ} (h : x.run s = .ok (a, s')) (hq : Q a s') : Yields x s Q :=
  ⟨a, s', h, hq⟩

/-- What follows a step whose end is known. -/
theorem step {a : α} {s' : σ} (h : x.run s = .ok (a, s')) (hf : Yields (f a) s' R) :
    Yields (x >>= f) s R := by
  obtain ⟨b, s'', hrun, hb⟩ := hf
  refine ⟨b, s'', ?_, hb⟩
  rw [StateT.run_bind, h]
  exact hrun

theorem pure {a : α} (h : Q a s) : Yields (pure a) s Q := ⟨a, s, rfl, h⟩

theorem mono (h : Yields x s Q) (hq : ∀ a s', Q a s' → Q' a s') : Yields x s Q' := by
  obtain ⟨a, s', hrun, ha⟩ := h
  exact ⟨a, s', hrun, hq a s' ha⟩

theorem bind (h : Yields x s Q) (hf : ∀ a s', Q a s' → Yields (f a) s' R) :
    Yields (x >>= f) s R := by
  obtain ⟨a, s', hrun, ha⟩ := h
  exact .step hrun (hf a s' ha)

/-- A step ends in one way only. -/
theorem elim (h : Yields x s Q) {a : α} {s' : σ} (hrun : x.run s = .ok (a, s')) : Q a s' := by
  obtain ⟨b, s'', hrun', hb⟩ := h
  cases hrun.symm.trans hrun'
  exact hb

end Yields

namespace Gives

variable {x : ExceptT BuildError (StateT σ (Except Fault)) α}
  {f : α → ExceptT BuildError (StateT σ (Except Fault)) β} {s : σ}
  {Q Q' : α → σ → Prop} {R : β → σ → Prop}

theorem pure {a : α} (h : Q a s) : Gives (pure a) s Q := Yields.pure ⟨a, rfl, h⟩

theorem mono (h : Gives x s Q) (hq : ∀ a s', Q a s' → Q' a s') : Gives x s Q' :=
  Yields.mono h fun _ s' ⟨a, hr, ha⟩ => ⟨a, hr, hq a s' ha⟩

/-- A step that cannot fail, in a place where one could. -/
theorem lift {y : StateT σ (Except Fault) α} (h : Yields y s Q) :
    Gives (liftM y : ExceptT BuildError (StateT σ (Except Fault)) α) s Q := by
  obtain ⟨a, s', hrun, ha⟩ := h
  refine ⟨.ok a, s', ?_, a, rfl, ha⟩
  change (y >>= fun a => Pure.pure (Except.ok a)).run s = _
  rw [StateT.run_bind, hrun]
  rfl

/-- What follows a step that gives an answer. -/
theorem andThen {P : Except BuildError β → σ → Prop} (h : Gives x s Q)
    (hf : ∀ a s', Q a s' → Yields (f a).run s' P) : Yields (x >>= f).run s P := by
  refine Yields.bind h fun r s' hr => ?_
  obtain ⟨a, rfl, ha⟩ := hr
  exact hf a s' ha

theorem bind (h : Gives x s Q) (hf : ∀ a s', Q a s' → Gives (f a) s' R) : Gives (x >>= f) s R :=
  h.andThen hf

/-- What follows a step whose end is known. -/
theorem step {a : α} {s' : σ} (h : x.run.run s = .ok (.ok a, s')) (hf : Gives (f a) s' R) :
    Gives (x >>= f) s R := Yields.step h hf

/-- What follows a step that cannot fail and whose end is known. -/
theorem stepLift {y : StateT σ (Except Fault) α} {a : α} {s' : σ} (h : y.run s = .ok (a, s'))
    (hf : Gives (f a) s' R) : Gives (liftM y >>= f) s R := by
  refine Gives.step ?_ hf
  change (y >>= fun a => Pure.pure (Except.ok a)).run s = _
  rw [StateT.run_bind, h]
  rfl

end Gives

namespace Settles

variable {E E' : Fault → Prop} {x : StateT σ (Except Fault) α} {f : α → StateT σ (Except Fault) β}
  {s : σ} {Q Q' : α → σ → Prop} {R : β → σ → Prop}

theorem mono (h : Settles E x s Q) (he : ∀ e, E e → E' e) (hq : ∀ a s', Q a s' → Q' a s') :
    Settles E' x s Q' := by
  rcases h with h | ⟨e, hrun, hfault⟩
  · exact .inl (h.mono hq)
  · exact .inr ⟨e, hrun, he e hfault⟩

theorem bind (h : Settles E x s Q) (hf : ∀ a s', Q a s' → Settles E (f a) s' R) :
    Settles E (x >>= f) s R := by
  rcases h with ⟨a, s', hrun, ha⟩ | ⟨e, hrun, he⟩
  · rcases hf a s' ha with h | ⟨e, hrun', he⟩
    · exact .inl (.step hrun h)
    · refine .inr ⟨e, ?_, he⟩
      rw [StateT.run_bind, hrun]
      exact hrun'
  · refine .inr ⟨e, ?_, he⟩
    rw [StateT.run_bind, hrun]
    rfl

/-- What follows a step whose end is known. -/
theorem step {a : α} {s' : σ} (h : x.run s = .ok (a, s')) (hf : Settles E (f a) s' R) :
    Settles E (x >>= f) s R := by
  refine bind (Q := fun a' s'' => a = a' ∧ s' = s'') (.inl (.of_run h ⟨rfl, rfl⟩)) ?_
  rintro _ _ ⟨rfl, rfl⟩
  exact hf

section Failing

variable {y : ExceptT BuildError (StateT σ (Except Fault)) α}
  {g : α → ExceptT BuildError (StateT σ (Except Fault)) β} {P : Except BuildError β → σ → Prop}
  {P' : Except BuildError α → σ → Prop}

theorem ofGives (h : Gives y s Q) (hp : ∀ a s', Q a s' → P' (.ok a) s') :
    Settles E y.run s P' := by
  refine .inl (Yields.mono h ?_)
  rintro r s' ⟨a, rfl, ha⟩
  exact hp a s' ha

/-- What follows a step that gives an answer. -/
theorem afterGives (h : Gives y s Q) (hf : ∀ a s', Q a s' → Settles E (g a).run s' P) :
    Settles E (y >>= g).run s P := by
  refine bind (.inl h) fun r s' hr => ?_
  obtain ⟨a, rfl, ha⟩ := hr
  exact hf a s' ha

/-- What follows a step that cannot fail and whose end is known. -/
theorem stepLift {a : α} {s' : σ} (h : x.run s = .ok (a, s')) (hf : Settles E (g a).run s' P) :
    Settles E (liftM x >>= g).run s P := by
  refine afterGives (Gives.lift (.of_run h ⟨rfl, rfl⟩)) (Q := fun a' s'' => a = a' ∧ s' = s'') ?_
  rintro _ _ ⟨rfl, rfl⟩
  exact hf

/-- What follows a step that is known to give an answer. -/
theorem stepGiven {a : α} {s' : σ} (h : y.run.run s = .ok (.ok a, s'))
    (hf : Settles E (g a).run s' P) : Settles E (y >>= g).run s P := step h hf

/-- Nothing follows a fault. -/
theorem faultGiven {e : Fault} (h : y.run.run s = .error e) (he : E e) :
    Settles E (y >>= g).run s P := by
  refine .inr ⟨e, ?_, he⟩
  change (y.run >>= _).run s = _
  rw [StateT.run_bind, h]
  rfl

/-- Nothing follows a fault of a step that cannot fail. -/
theorem faultLift {e : Fault} (h : x.run s = .error e) (he : E e) :
    Settles E (liftM x >>= g).run s P := by
  refine .inr ⟨e, ?_, he⟩
  change ((x >>= fun a => Pure.pure (Except.ok a)) >>= _).run s = _
  rw [StateT.run_bind, StateT.run_bind, h]
  rfl

/-- What follows an answer that needs no state. -/
theorem answer {z : Except Fault α} (he : ∀ e, z = .error e → E e)
    (hg : ∀ a, z = .ok a → Settles E (g a).run s P) : Settles E (liftM z >>= g).run s P := by
  cases z with
  | error e => exact .faultLift (x := liftM (Except.error e)) rfl (he e rfl)
  | ok a => exact .stepLift (answer_run rfl s) (hg a rfl)

end Failing

/-- A step that is known to end does so in this way. -/
theorem elim (h : Settles E x s Q) {a : α} {s' : σ} (hrun : x.run s = .ok (a, s')) : Q a s' := by
  rcases h with h | ⟨e, hrun', -⟩
  · exact h.elim hrun
  · cases hrun.symm.trans hrun'

/-- How a step ends, together with its run. -/
theorem withRun (h : Settles E x s Q) :
    Settles E x s fun a s' => x.run s = .ok (a, s') ∧ Q a s' := by
  rcases h with ⟨a, s', hrun, ha⟩ | ⟨e, hrun, he⟩
  · exact .inl (.of_run hrun ⟨hrun, ha⟩)
  · exact .inr ⟨e, hrun, he⟩

/-- Without such faults the step ends. -/
theorem yields (h : Settles E x s Q) (he : ∀ e, ¬ E e) : Yields x s Q := by
  rcases h with h | ⟨e, -, hfault⟩
  · exact h
  · exact absurd hfault (he e)

end Settles

end MethodSSA
