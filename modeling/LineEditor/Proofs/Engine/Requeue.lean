import LineEditor.Proofs.Engine.Core
import LineEditor.Proofs.Session.Requeue

/-!
An engine does not see what waits behind the event that it handles, nor whether more of it was asked
for. An event that leaves no input of its own is handled in the same way with other input behind it,
and so is the end of a script.

Main definitions: `Engine.calm`, `Engine.AcceptsMatch` and `Engine.Goes`. Main statements:
`step?_calm` and `afterScript_calm`, `givenBy_eq_nil`, which events leave no input of their own, and
`step?_cases`, all that such an event leads to.
-/
namespace LineEditor

/-- Whether a search has focus that has found something. -/
def Session.hasMatch (s : Session) : Bool :=
  match s.focus with
  | some (.search q) => q.result.isSome
  | _ => false

namespace Engine

/-- An engine with other input waiting, for which no delivery was asked for. -/
def calm (e : Engine) (q : EventQueue) : Engine := { e with queue := q, scheduled := false }

/-- An event's handling with other input waiting. -/
def Handled.calm (q : EventQueue) : Handled → Handled
  | .settled e f => .settled (e.calm q) f
  | .script e c h => .script (e.calm q) c h

variable (e : Engine) (q q' : EventQueue)

variable {e} in
theorem calm_self (h : e.scheduled = false) : e.calm e.queue = e := by
  rw [calm, ← h]

theorem put_calm (d : Desk) : (e.calm q').put (d.requeue q) = (e.put d).calm q := rfl

theorem desk?_calm : (e.calm q).desk? = e.desk?.map (Desk.requeue · q) := by
  simp only [desk?, calm, Option.map_map]
  rfl

variable {e} in
theorem desk?_calm_of_some {d : Desk} (hd : e.desk? = some d) :
    (e.calm q).desk? = some (d.requeue q) := by
  rw [desk?_calm, hd]
  rfl

theorem isListening_calm : (e.calm q).isListening = e.isListening := rfl

theorem takeFinished_calm :
    (e.calm q).takeFinished = (e.takeFinished.1.calm q, e.takeFinished.2) := by
  have hsession : (e.calm q).session = e.session := rfl
  simp only [takeFinished, hsession]
  cases e.session with
  | none => rfl
  | some s =>
    dsimp only
    cases s.outcome.line? with
    | none => rfl
    | some line => rfl

/-- An event that leaves no input of its own is handled in the same way with other input behind it.
-/
theorem handle_calm (d : Desk) (event : KeyEvent) (hgiven : e.givenBy d event = []) :
    (e.calm q').handle (d.requeue q) event = (e.handle d event).calm q := by
  rw [handle_eq, handle_eq]
  by_cases hinterrupts : e.Interrupts event
  · rw [if_pos hinterrupts, if_pos (show (e.calm q').Interrupts event from hinterrupts),
      Desk.requeue_startOver]
    rfl
  · rw [if_neg hinterrupts, if_neg (show ¬ (e.calm q').Interrupts event from hinterrupts)]
    by_cases heof : e.AtEof d event
    · rw [if_pos heof, if_pos (show (e.calm q').AtEof (d.requeue q) event from heof)]
      let d' : Desk := { d.log .debug .engine "end of file" [] with session.outcome := .eof }
      exact congrArg (fun r => Handled.settled r.1 r.2) (takeFinished_calm (e.put d') q)
    · rw [if_neg heof, if_neg (show ¬ (e.calm q').AtEof (d.requeue q) event from heof)]
      have hnone : d.givenBy event = [] := by
        rw [givenBy, if_neg (not_or.2 ⟨hinterrupts, heof⟩)] at hgiven
        exact hgiven
      rw [d.requeue_dispatch q event hnone]
      cases d.dispatch event with
      | finished d' =>
        exact congrArg (fun r => Handled.settled r.1 r.2) (takeFinished_calm (e.put d') q)
      | script c h d' => rfl

/-- The next event is the same if it is read in the same way. -/
theorem next?_calm {event : KeyEvent} {left left' : EventQueue}
    (hnext : e.queue.next e.keymap.recognizes = some (event, left))
    (hnext' : q.next e.keymap.recognizes = some (event, left')) :
    (e.calm q).next? = e.next?.map fun x => (x.1.requeue left', x.2) := by
  have hqueue : (e.calm q).queue.next (e.calm q).keymap.recognizes = some (event, left') := hnext'
  rw [next?, next?, isListening_calm, hqueue, hnext, desk?_calm]
  cases e.isListening with
  | false => rfl
  | true =>
    cases e.desk? with
    | none => rfl
    | some d => rfl

/-- The next event is handled in the same way if it is read in the same way. -/
theorem step?_calm {event : KeyEvent} {left left' : EventQueue}
    (hnext : e.queue.next e.keymap.recognizes = some (event, left))
    (hnext' : q.next e.keymap.recognizes = some (event, left'))
    (hgiven : ∀ d event, e.next? = some (d, event) → e.givenBy d event = []) :
    (e.calm q).step? = e.step?.map (Handled.calm left') := by
  rw [step?_eq, step?_eq, next?_calm e q hnext hnext']
  cases h : e.next? with
  | none => rfl
  | some x =>
    obtain ⟨d, event'⟩ := x
    exact congrArg some (e.handle_calm left' q d event' (hgiven d event' h))

/-- A script ends in the same way whatever waits. -/
theorem afterScript_calm (d : Desk) (c : Completion) (h : ScriptedHandler) :
    (e.calm q').afterScript (d.requeue q) c h = (e.afterScript d c h).calm q := by
  simp only [afterScript, Desk.requeue_eq_refit, Desk.refit_endCompletion, Desk.refitted,
    Desk.refit_settleFocus (r := .requeue q) rfl]
  rfl

/-! ### Matches that are accepted -/

variable {e q}

/-- The next event is a key that accepts lines, for a search that has found something. -/
def AcceptsMatch (e : Engine) : Prop :=
  ∃ x ∈ e.next?, x.1.session.hasMatch = true ∧ x.1.keymap.lookup? x.2 = some .acceptLine

instance (e : Engine) : Decidable e.AcceptsMatch :=
  inferInstanceAs (Decidable (∃ x ∈ e.next?, x.1.session.hasMatch = true ∧
    x.1.keymap.lookup? x.2 = some .acceptLine))

theorem status_input (q : Search) (bound : Option Command) (event : KeyEvent) :
    (q.input bound event).status = Search.statusFor bound event ∧
      (q.input bound event).result = q.result := by
  simp only [Search.input]
  split
  · exact ⟨rfl, rfl⟩
  · exact ⟨rfl, rfl⟩

/-- A search asks to be accepted by a key that accepts lines only. -/
theorem bound_of_accept {bound : Option Command} {event : KeyEvent}
    (h : Search.statusFor bound event = .accept) : bound = some .acceptLine := by
  simp only [Search.statusFor] at h
  split at h
  · cases h
  · split at h
    case h_2 => rfl
    case h_10 =>
      split at h
      · cases h
      · cases h
    all_goals cases h

/-- Nothing but a match that is accepted leaves input of its own. -/
theorem givenBy_eq_nil {d : Desk} {event : KeyEvent} (h : ¬ e.AcceptsMatch)
    (hnext : e.next? = some (d, event)) : e.givenBy d event = [] := by
  rw [givenBy]
  split
  · rfl
  · rw [Desk.givenBy, Desk.actionFor]
    cases hfocus : d.session.focus with
    | none =>
      dsimp only
      cases d.keymap.lookup? event with
      | none => rfl
      | some k => exact Desk.given_ofCommand k
    | some a =>
      dsimp only
      rw [Option.map_some, Option.getD_some]
      cases a with
      | search q =>
        obtain ⟨hstatus, hresult⟩ := status_input q (d.keymap.lookup? event) event
        refine if_neg ?_
        rintro ⟨haccept, hsome⟩
        rw [hstatus] at haccept
        rw [hresult] at hsome
        refine h ⟨(d, event), hnext, ?_, bound_of_accept haccept⟩
        rw [Session.hasMatch, hfocus]
        exact hsome
      | acceptLine => rfl
      | complete c => rfl
      | operator o => rfl
      | basic k => rfl

/-- A match is accepted whatever waits behind the event. -/
theorem acceptsMatch_calm {event : KeyEvent} {left left' : EventQueue}
    (hnext : e.queue.next e.keymap.recognizes = some (event, left))
    (hnext' : q.next e.keymap.recognizes = some (event, left')) :
    (e.calm q).AcceptsMatch ↔ e.AcceptsMatch := by
  rw [AcceptsMatch, AcceptsMatch, next?_calm e q hnext hnext']
  cases e.next? with
  | none => exact Iff.rfl
  | some x =>
    constructor
    · rintro ⟨x', hx, haccepts⟩
      cases hx
      exact ⟨x, rfl, haccepts⟩
    · rintro ⟨x', hx, haccepts⟩
      cases hx
      exact ⟨_, rfl, haccepts⟩

/-! ### What an event leads to -/

/-- An engine that goes on as it was, or whose session is over. -/
def Goes (e : Engine) (k : Core) (e' : Engine) (f : Option Finished) : Prop :=
  (e'.busy = e.busy ∧ e'.scheduled = e.scheduled) ∧
    match f with
    | none => e'.core? = some k
    | some f => e'.session = none ∧ e'.queue = k.queue ∧ f.conn = k.conn

variable {k : Core} {d : Desk} {event : KeyEvent}

theorem Goes.queue_eq {e' : Engine} {f : Option Finished} (h : e.Goes k e' f) :
    e'.queue = k.queue := by
  cases f with
  | none => exact queue_of_core? h.2
  | some f => exact h.2.2.1

theorem Goes.conn_eq {e' : Engine} {f : Option Finished} (h : e.Goes k e' f) :
    ∀ x, f = some x → x.conn = k.conn := by
  rintro x rfl
  exact h.2.2.2

/-- A session whose outcome is settled is over, and otherwise it goes on. -/
theorem goes_takeFinished (hk : e.core? = some k) :
    e.Goes { k with outcome := .reading } e.takeFinished.1 e.takeFinished.2 := by
  rcases takeFinished_cases hk with
    ⟨hreading, h⟩ | ⟨line, e', -, h, hover, hqueue, hscheduled, hbusy⟩
  · rw [h]
    refine ⟨⟨rfl, rfl⟩, ?_⟩
    rw [← hreading]
    exact hk
  · rw [h]
    have hsame : e.queue = k.queue := queue_of_core? hk
    exact ⟨⟨hbusy, hscheduled⟩, hover, hqueue.trans hsame, rfl⟩

/-- An event that leaves no input of its own: the session goes on or is over, or a script is to be
run; what waits behind the event stays as it is. -/
theorem step?_cases (hk : e.core? = some k) (hlisten : k.paused = false)
    (hreading : k.outcome = .reading) (hnext : e.next? = some (d, event))
    (hgiven : e.givenBy d event = []) :
    (∃ e' f, e.step? = some (.settled e' f) ∧ e.Goes { k with queue := d.queue } e' f) ∨
    (∃ e' c h, e.step? = some (.script e' c h) ∧
      e.Goes { k with queue := d.queue, paused := true } e' none) := by
  obtain ⟨s, queue, hs, -, -, hd⟩ := next?_eq_some hnext
  have hcore : d.core = { k with queue := d.queue } := by
    rw [core?_of_session hs] at hk
    rw [← Option.some.inj hk, hd]
    rfl
  have hlistens : d.session.paused = false := (congrArg Core.paused hcore).trans hlisten
  rw [step?_eq, hnext, Option.map_some]
  rcases e.handle_cases event hlistens with ⟨-, h⟩ | ⟨-, d', h, hd'⟩ | ⟨-, c, h', d', h, hd', -, -⟩
  · refine .inl ⟨_, _, congrArg some h, ⟨rfl, rfl⟩, ?_⟩
    change some d.startOver.core = _
    rw [Desk.core_startOver, hcore, ← hreading, ← hlisten]
  · refine .inl ⟨_, _, congrArg some h, ?_⟩
    have hput : (e.put d').core? = some { k with
        queue := d.queue
        outcome := k.outcome.after (e.endsBy d event) } := by
      rw [core?_put, hd', hgiven, EventQueue.append_nil, hcore]
    have hgoes := goes_takeFinished hput
    rw [← hreading] at hgoes
    exact hgoes
  · refine .inr ⟨_, c, h', congrArg some h, ⟨rfl, rfl⟩, ?_⟩
    change some d'.core = _
    rw [hd', hcore]

end Engine

end LineEditor
