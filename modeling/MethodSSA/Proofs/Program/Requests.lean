import MethodSSA.Proofs.Program.Making
import MethodSSA.Proofs.Program.Runs

/-!
# Requests part by part

Whatever is asked of a program, it makes wrappers, notes what it found and remembers that a
method set is complete, and nothing else. So a request is a row of transitions of some kind as
soon as these parts are (`Composes.perform`).
-/

namespace MethodSSA

open Relation

/-- Whether something is asked. -/
def Action.isRequest : Action → Bool
  | .work _ | .add _ | .declare _ _ => false
  | .bodyOf _ | .methodSet _ | .interfaceWrapper _ _ | .boundWrapper _ => true

namespace Program

variable {R : Program → Program → Prop} {p q : Program} {a : Action} {sel : Selection}

/-- The parts of requests are rows of transitions. -/
structure Composes (R : Program → Program → Prop) : Prop where
  promotion : ∀ sel, Makes R (promotionWrapper sel).run
  interface : ∀ recv m, Makes R (interfaceWrapper recv m).run
  bound : ∀ m, Makes R (boundWrapper m).run
  keep : ∀ inSet key id p, R p ((selectionMemory inSet).keep key id p)
  complete : ∀ ty p, R p { p with complete := ty :: p.complete }

/-- A question changes nothing. -/
theorem ask_makes {α : Type} (question : TypeTable → Except Fault α) :
    Makes R (ask question).run := by
  refine .still fun s a s' hrun => ?_
  rcases hq : question s.types with e | a
  · cases (Program.ask_fault hq).symm.trans hrun
  · cases (Program.ask_run hq).symm.trans hrun
    rfl

/-- A change that is made outright. -/
theorem modify_makes {step : Program → Program} (h : ∀ p, R p (step p)) :
    Makes R (modify step : Request PUnit).run := by
  refine .single fun p res q hrun => ?_
  cases hrun
  exact h p

namespace Composes

variable (h : Composes R)
include h

theorem resolve (sel : Selection) : Makes R (resolve sel).run := by
  have hcrosses : Makes R (crossesPointer sel).run :=
    .still fun _ _ _ hrun => (of_crossesPointer hrun).1.symm
  have hbody : Makes R (concreteBody sel.method).run := by
    refine .liftThen .get fun p => ?_
    cases p.declared.lookup sel.method with
    | some id => exact .pure _
    | none => exact .liftThen (.answer _) fun text => .fail _
  refine .andThen hcrosses fun crosses => .iteFail (h.promotion sel) ?_
  exact .andThen (ask_makes _) fun isIface => .iteFail (h.interface sel.recv sel.method) hbody

/-- What a memory does not hold is found or made, and kept. -/
theorem lookup (inSet : Bool) (key : TypeId × String) (sel : Selection) (id? : Option BodyId) :
    Makes R (match id? with
      | some id => return id
      | none => do
        let id ← Program.resolve sel
        modify ((selectionMemory inSet).keep key id)
        return id : Request BodyId).run := by
  cases id? with
  | some id => exact .pure _
  | none =>
    exact .andThen (h.resolve sel) fun id =>
      .andThen (modify_makes (h.keep inSet key id)) fun _ => .pure _

theorem bodyOf (sel : Selection) : Makes R (bodyOf sel).run :=
  .andThen (ask_makes _) fun decl => .andThen (ask_makes _) fun _ =>
    .iteFail (.liftThen .get fun _ => h.lookup true (sel.recv, decl.id) sel _)
      (.liftThen .get fun _ => h.lookup false (sel.recv, decl.id) sel _)

theorem resolveMember (ty : TypeId) (sel : Selection) : Makes R (resolveMember ty sel).run :=
  .andThen (ask_makes _) fun decl => .liftThen .get fun _ =>
    .iteFail (.andThen (h.resolve sel) fun id =>
      modify_makes (h.keep true (ty, decl.id) id)) (.pure _)

theorem methodSet (ty : TypeId) : Makes R (methodSet ty).run := by
  have hmembers : ∀ sels : List Selection,
      Makes R (sels.forM (Program.resolveMember ty)).run := by
    intro sels
    induction sels with
    | nil => exact .pure _
    | cons sel sels ih => exact .andThen (h.resolveMember ty sel) fun _ => ih
  have hanswer : Makes R (do return (← get).membersOf ty : Request _).run :=
    .liftThen .get fun p => .pure _
  exact .liftThen .get fun p => .iteFail (.andThen (ask_makes _) fun sels =>
    .andThen (hmembers sels) fun _ =>
      .andThen (modify_makes (h.complete ty)) fun _ => hanswer) hanswer

/-- **A request is a row of its parts**, whether it gives an answer or fails. -/
theorem perform (ha : a.isRequest = true) (hrun : p.perform a = .ok q) : ReflTransGen R p q := by
  have hrequest {α : Type} {x : Request α} (hx : Makes R x.run) (hleaves : leaves x p = .ok q) :
      ReflTransGen R p q := by
    obtain ⟨res, hrun⟩ := leaves_eq_ok_iff.mp hleaves
    exact hx hrun
  cases a with
  | work | add | declare => cases ha
  | bodyOf sel => exact hrequest (h.bodyOf sel) hrun
  | methodSet ty => exact hrequest (h.methodSet ty) hrun
  | interfaceWrapper recv m => exact hrequest (h.interface recv m) hrun
  | boundWrapper m => exact hrequest (h.bound m) hrun

end Composes

end Program

end MethodSSA
