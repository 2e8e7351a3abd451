import LineEditor.Proofs.Session.Refit

/-!
What waits is not seen. Whatever is done at a desk is done in the same way whatever input waits
behind it; only a search that is accepted and a script put input of their own behind what waits.

Main definition: `Desk.requeue`. Main statements: `requeue_dispatch` for events and
`requeue_scriptStep` for the steps of a script.
-/
namespace LineEditor

/-- Other input in the place of what waits. -/
def Refit.requeue (q : EventQueue) : Refit := { queue := fun _ => q }

theorem Refit.setsVi_requeue (q : EventQueue) : (Refit.requeue q).SetsVi :=
  fun _ _ => ite_eq_apply (Desk.refit (.requeue q)) rfl rfl

/-- An action that leaves no input of its own does not look at what waits. -/
theorem Refit.hides_requeue (q : EventQueue) (m : Keymap) {a : Action} (hgiven : a.given = []) :
    (Refit.requeue q).Hides m a := by
  refine ⟨rfl, fun _ => setsVi_requeue q, fun q' => ?_⟩
  rw [hgiven, EventQueue.append_nil, EventQueue.append_nil]

namespace Desk

/-- A desk with other input waiting. -/
def requeue (d : Desk) (q : EventQueue) : Desk := { d with queue := q }

variable (d : Desk) (q : EventQueue)

theorem requeue_eq_refit : d.requeue q = d.refit (.requeue q) := rfl

/-- An event that leaves no input of its own is handled in the same way whatever waits behind it. -/
theorem requeue_dispatch (e : KeyEvent) (hgiven : d.givenBy e = []) :
    (d.requeue q).dispatch e = (d.dispatch e).refit (.requeue q) := by
  have hhides : ∀ a, d.actionFor e = some a → (Refit.requeue q).Hides d.keymap a := by
    intro a haction
    rw [givenBy, haction] at hgiven
    exact Refit.hides_requeue q d.keymap hgiven
  rw [requeue_eq_refit]
  exact refit_dispatch rfl rfl rfl hhides

theorem requeue_startOver : (d.requeue q).startOver = d.startOver.requeue q := by
  rw [requeue_eq_refit, requeue_eq_refit]
  exact refit_startOver (fun _ => rfl) rfl

theorem requeue_applyInside (k : Command) :
    (d.requeue q).applyInside k = (d.applyInside k).requeue q := by
  rw [requeue_eq_refit, requeue_eq_refit]
  simp only [Desk.applyInside, refit_apply (Refit.hides_requeue q d.keymap (given_ofCommand k))]
  cases d.apply (.ofCommand k) with
  | finished a d => rfl
  | script c h d => exact congrArg Prod.snd (refit_endCompletion (.requeue q) d c _ _)

/-- A step of a script that leaves no input of its own does the same whatever waits. -/
theorem requeue_scriptStep (size : Size) (s : ScriptStep) (hgiven : s.given = []) :
    (d.requeue q).scriptStep size s = (d.scriptStep size s).requeue q := by
  rw [requeue_eq_refit, requeue_eq_refit]
  cases s
  case queue t =>
    have hnone : t = [] := hgiven
    subst hnone
    simp only [Desk.scriptStep, EventQueue.append_nil]
  case apply k => exact d.requeue_applyInside q k
  case basic k => exact refit_basic fun _ => Refit.setsVi_requeue q
  case killRange first last =>
    exact congrArg (note · _) (refit_killRange (.requeue q) d first last)
  case applyEdit b => exact refit_applyEdit (.requeue q) d b
  case setVi v => exact Refit.setsVi_requeue q d v
  case session calls =>
    simp only [Desk.scriptStep, refit_answers (.requeue q) d size rfl]
    rfl
  all_goals rfl

end Desk

end LineEditor
