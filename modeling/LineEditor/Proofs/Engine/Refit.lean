import LineEditor.Proofs.Engine.Core
import LineEditor.Proofs.Session.Refit

/-!
What an engine does not look at between two events. A line begins, a pause ends, the terminal changes
its size, the session is called and a settled session ends in the same way with others in the place of
the style, the key map, the input that waits and the action that has the focus.

Main definition: `Engine.refit`. Main statements: `refit_start`, `refit_resume`, `refit_resized`,
`refit_answers` and `refit_takeFinished`, and `refit_handle` for an event that is bound in the same way.
-/
namespace LineEditor

/-- A session with another action in the place of the one that has the focus. -/
def Session.refit (r : Refit) (s : Session) : Session := { s with focus := r.focus s.focus }

namespace Engine

/-- An engine with others in their place. -/
def refit (r : Refit) (e : Engine) : Engine :=
  { e with
    toEditor := e.toEditor.refit r
    session := e.session.map (Session.refit r) }

/-- An event's handling with others in their place. -/
def Handled.refit (r : Refit) : Handled → Handled
  | .settled e f => .settled (e.refit r) f
  | .script e c h => .script (e.refit r) c h

variable (r : Refit) (e : Engine) (d : Desk)

theorem busy_refit : (e.refit r).busy = e.busy := rfl

theorem refit_put : (e.refit r).put (d.refit r) = (e.put d).refit r := rfl

theorem desk?_refit : (e.refit r).desk? = e.desk?.map (Desk.refit r) := by
  simp only [desk?, refit, Option.map_map]
  rfl

theorem isListening_refit : (e.refit r).isListening = e.isListening := by
  simp only [isListening, refit, Option.any_map]
  rfl

theorem refit_takeFinished :
    (e.refit r).takeFinished = (e.takeFinished.1.refit r, e.takeFinished.2) := by
  obtain ⟨editor, session, pendingResize, scheduled, busy⟩ := e
  cases session with
  | none => rfl
  | some s =>
    have houtcome : (s.refit r).outcome = s.outcome := rfl
    simp only [takeFinished, refit, Option.map_some, houtcome]
    cases s.outcome.line? with
    | none => rfl
    | some line => rfl

variable {r}

theorem refit_start (hreset : ∀ m : Keymap, r.keymap m.reset = (r.keymap m).reset)
    (hfocus : r.focus none = none) (q : Request) (callback width : Nat) (previous : Handlers) :
    (e.refit r).start q callback width previous = (e.start q callback width previous).refit r := by
  have heditor : (e.refit r).toEditor.freshLine = e.toEditor.freshLine.refit r :=
    Editor.refit_freshLine hreset e.toEditor
  have hsession : (Session.begin q e.config callback width previous).refit r =
      Session.begin q e.config callback width previous := by
    rw [Session.refit, show (Session.begin q e.config callback width previous).focus = none from rfl,
      hfocus]
    rfl
  have hdesk : Desk.mk ((e.refit r).toEditor.freshLine.log .debug .engine "readline"
        [("prompt", .quoted q.prompt.text)]) (.begin q e.config callback width previous) =
      (Desk.mk (e.toEditor.freshLine.log .debug .engine "readline"
        [("prompt", .quoted q.prompt.text)]) (.begin q e.config callback width previous)).refit r := by
    rw [heditor, Desk.refit]
    exact congrArg (Desk.mk _) hsession.symm
  exact congrArg (fun d : Desk => { (e.refit r).put d.redraw with pendingResize := none }) hdesk

theorem refit_catchUp (width : Nat) :
    (e.refit r).catchUp width (d.refit r) = (e.catchUp width d).refit r := by
  have houtcome : (d.refit r).session.outcome = d.session.outcome := rfl
  have hpending : (e.refit r).pendingResize = e.pendingResize := rfl
  unfold catchUp
  rw [houtcome, hpending]
  split
  · exact ite_eq_apply (Desk.refit r) rfl (Desk.refit_resize r d _ _)
  · rfl

theorem refit_resume (width : Nat) :
    (e.refit r).resume width = (e.resume width).map fun x => (x.1.refit r, x.2) := by
  have hrefit := desk?_refit r e
  cases hd : e.desk? with
  | none =>
    rw [hd] at hrefit
    rw [resume, resume, hd, hrefit]
    rfl
  | some d =>
    rw [hd] at hrefit
    rw [resume_eq hrefit, resume_eq hd, Desk.refit_resume, refit_catchUp]
    have hpaused : (d.refit r).session.paused = d.session.paused := rfl
    rw [hpaused]
    cases d.session.paused with
    | false => rfl
    | true =>
      exact congrArg Except.ok (refit_takeFinished r
        { e.put ((e.catchUp width d.resume).log .debug .engine "resume" []) with
          pendingResize := none })

theorem refit_resized (size : Size) : (e.refit r).resized size = (e.resized size).refit r := by
  simp only [resized, desk?_refit]
  cases e.desk? with
  | none => rfl
  | some d =>
    refine ite_eq_apply (refit r) rfl (ite_eq_apply (refit r) ?_ rfl)
    exact congrArg e.put (Desk.refit_resize r d _ _)

theorem refit_answers (hfocus : ∀ s, e.session = some s → (r.focus s.focus).isSome = s.focus.isSome)
    (size : Size) (calls : List SessionCall) :
    (e.refit r).answers size calls =
      (e.answers size calls).map fun x => (x.1.refit r, x.2) := by
  simp only [answers, desk?_refit]
  cases hd : e.desk? with
  | none => rfl
  | some d =>
    obtain ⟨s, hs, rfl⟩ := Option.map_eq_some_iff.1 hd
    dsimp only [Option.map_some]
    rw [Desk.refit_answers r _ size (hfocus s hs)]
    generalize Desk.answers size _ calls = x
    have hpaused : (x.1.refit r).session.paused = x.1.session.paused := rfl
    simp only [Desk.refitAnswer, hpaused, refit_put, refit_takeFinished]
    cases x.1.session.paused with
    | false => rfl
    | true => rfl

variable {e d}

/-- An event is handled in the same way if it is bound in the same way and its action does not look at
what changed. -/
theorem refit_handle (hreset : ∀ m : Keymap, r.keymap m.reset = (r.keymap m).reset)
    (hfocus : r.focus = id) {event : KeyEvent}
    (hmode : (r.keymap d.keymap).isViCommand = d.keymap.isViCommand)
    (hbound : (r.keymap d.keymap).lookup? event = d.keymap.lookup? event)
    (haction : ∀ a, d.actionFor event = some a → r.Hides d.keymap a) :
    (e.refit r).handle (d.refit r) event = (e.handle d event).refit r := by
  have hsettled : ∀ d : Desk,
      Handled.settled ((e.refit r).put (d.refit r)).takeFinished.1
        ((e.refit r).put (d.refit r)).takeFinished.2 =
      Handled.refit r (.settled (e.put d).takeFinished.1 (e.put d).takeFinished.2) := fun d =>
    congrArg (fun x => Handled.settled x.1 x.2) (refit_takeFinished r (e.put d))
  rw [handle_eq, handle_eq]
  by_cases hinterrupts : e.Interrupts event
  · rw [if_pos hinterrupts, if_pos (show (e.refit r).Interrupts event from hinterrupts),
      Desk.refit_startOver hreset (congrFun hfocus none)]
    rfl
  · rw [if_neg hinterrupts, if_neg (show ¬ (e.refit r).Interrupts event from hinterrupts)]
    by_cases heof : e.AtEof d event
    · rw [if_pos heof, if_pos (show (e.refit r).AtEof (d.refit r) event from heof)]
      exact hsettled { d.log .debug .engine "end of file" [] with session.outcome := .eof }
    · rw [if_neg heof, if_neg (show ¬ (e.refit r).AtEof (d.refit r) event from heof),
        Desk.refit_dispatch hmode hbound hfocus haction]
      cases d.dispatch event with
      | finished d' => exact hsettled d'
      | script c h d' => rfl

end Engine

end LineEditor
