import LineEditor.Proofs.Engine.Core
import LineEditor.Proofs.Host.Solo
import LineEditor.Proofs.Session.Dispatch

/-!
An engine and the screen. The session of an engine is settled when it begins and after every event
that the engine handles, on the screen that the effects of the work leave.

Main definition: `Engine.Settled`. Main statements: `settled_start`, `Settled.step` and
`Settled.carriedOut`.
-/
namespace LineEditor

namespace Engine

/-- The session, if there is one, is settled on a screen with the effects carried out. -/
structure Settled (e : Engine) (s : Screen) : Prop where
  free : e.busy = false
  conn_eq : ∀ session, e.session = some session → session.conn = 0
  session : ∀ session, e.session = some session →
    ∀ style, Desk.Settled style s { toEditor := e.toEditor, session }

/-- A count can tell the rows of the session's frame apart. -/
def Fits (e : Engine) : Prop :=
  ∀ session, e.session = some session → session.frame.Fits session.width

instance (e : Engine) : Decidable e.Fits :=
  inferInstanceAs (Decidable (∀ session ∈ e.session, session.frame.Fits session.width))

variable {e : Engine} {d : Desk} {c : Connection} {s : Screen}

/-- More input in the queue changes nothing on the screen. -/
theorem Settled.setQueue (h : e.Settled s) (queue : EventQueue) : { e with queue }.Settled s :=
  ⟨h.free, h.conn_eq, fun session hs style => (h.session session hs style).setQueue queue⟩

/-- Whether a delivery was asked for is not seen. -/
theorem Settled.setScheduled (h : e.Settled s) (scheduled : Bool) :
    { e with scheduled }.Settled s :=
  ⟨h.free, h.conn_eq, h.session⟩

/-! ### Effects -/

theorem screen_perform (style : BellStyle) (c : Connection) (x : Effect) :
    (c.perform style x).screen = c.screen.take style x := by
  cases x with
  | write t => rfl
  | draw t => rfl
  | ring =>
    unfold Connection.perform Screen.take
    dsimp only
    split
    · rfl
    · rfl
  | log l => rfl
  | note n => rfl

theorem screen_settle (c : Connection) (e : Engine) :
    (c.settle e).screen = e.effects.foldl (Screen.take e.config.bell) c.screen := by
  unfold Connection.settle
  generalize e.effects = xs
  induction xs generalizing c with
  | nil => rfl
  | cons x xs ih => rw [List.foldl_cons, ih, screen_perform, List.foldl_cons]

theorem width_settle (c : Connection) (e : Engine) : (c.settle e).screen.width = c.screen.width := by
  rw [screen_settle, Screen.width_foldl_take]

end Engine

/-- Effects that are carried out are seen as before. -/
theorem Desk.Settled.carriedOut {d : Desk} {style : BellStyle} {s : Screen}
    (h : d.Settled style s) (style' : BellStyle) :
    { d with effects := [] }.Settled style' (d.seen style s) := by
  cases h with
  | line h => exact .line { h with plain := { h.plain with } }
  | operator o hfocus h => exact .operator o hfocus { h with plain := { h.plain with } }
  | search q hfocus hq h => exact .search q hfocus hq { h with plain := { h.plain with } }
  | asking c hfocus h =>
    exact .asking c hfocus { h with below := { h.below with plain := { h.below.plain with } } }

namespace Engine

variable {e : Engine} {d : Desk} {c : Connection} {s : Screen}

/-- What an engine leaves for a connection is on its screen once it is carried out. -/
theorem Settled.carriedOut (h : e.Settled c.screen) : e.settled.Settled (c.settle e).screen where
  free := h.free
  conn_eq := h.conn_eq
  session := by
    intro session hsession style
    rw [screen_settle]
    exact (h.session session hsession e.config.bell).carriedOut style

/-! ### Events -/

theorem settled_of_none (hfree : e.busy = false) (hnone : e.session = none) : e.Settled s where
  free := hfree
  conn_eq := by
    intro session hs
    rw [hnone] at hs
    cases hs
  session := by
    intro session hs
    rw [hnone] at hs
    cases hs

/-- Work at the desk leaves the engine settled whether it ends the session or not. -/
theorem settled_takeFinished (hfree : e.busy = false) (hconn : d.session.conn = 0)
    (hd : d.session.outcome = .reading → d.Fits → ∀ style, d.Settled style s)
    (hfits : (e.put d).takeFinished.1.Fits) : (e.put d).takeFinished.1.Settled s := by
  cases houtcome : d.session.outcome with
  | reading =>
    have hkept : (e.put d).takeFinished = (e.put d, none) :=
      takeFinished_of_reading fun session hs => Option.some.inj hs ▸ houtcome
    rw [hkept] at hfits ⊢
    refine ⟨hfree, fun session hs => ?_, fun session hs style => ?_⟩
    · cases hs
      exact hconn
    · cases hs
      exact hd houtcome (hfits d.session rfl) style
  | accepted line =>
    have hline : d.session.outcome.line? = some (some line) := by rw [houtcome]; rfl
    rw [takeFinished_of_line (e := e.put d) rfl hline]
    exact settled_of_none hfree rfl
  | eof =>
    have hline : d.session.outcome.line? = some none := by rw [houtcome]; rfl
    rw [takeFinished_of_line (e := e.put d) rfl hline]
    exact settled_of_none hfree rfl

/-- An event that is handled leaves the engine settled, and no script has to be run. -/
theorem settled_handle (hfree : e.busy = false) (hconn : d.session.conn = 0)
    (hlisten : d.session.paused = false) (hd : ∀ style, d.Settled style s) (event : KeyEvent)
    (hfits : ∀ e' f, e.handle d event = .settled e' f → e'.Fits) :
    ∃ e' f, e.handle d event = .settled e' f ∧ e'.Settled s := by
  unfold handle at hfits ⊢
  dsimp only at hfits ⊢
  split
  · rename_i hinterrupt
    rw [if_pos hinterrupt] at hfits
    have hcore : d.startOver.session.conn = 0 :=
      (congrArg Core.conn d.core_startOver).trans hconn
    refine ⟨_, none, rfl, hfree, fun session hs => ?_, fun session hs style => ?_⟩
    · cases hs
      exact hcore
    · cases hs
      exact .line ((hd style).startOver (hfits _ _ rfl _ rfl))
  · rename_i hinterrupt
    rw [if_neg hinterrupt] at hfits
    split
    · rename_i heof
      have hdone := takeFinished_of_line (e := e.put { d.log .debug .engine "end of file" [] with
        session.outcome := .eof }) rfl rfl
      refine ⟨_, _, rfl, ?_⟩
      rw [hdone]
      exact settled_of_none hfree rfl
    · rename_i heof
      rw [if_neg heof] at hfits
      have hdispatch := fun style => (hd style).dispatch event
      have hcore := d.core_dispatch event hlisten
      cases hr : d.dispatch event with
      | script c h d' =>
        obtain ⟨d'', hd'', -⟩ := hdispatch .audible
        exact absurd (hr.symm.trans hd'') nofun
      | finished d' =>
        rw [hr] at hfits hcore
        refine ⟨_, _, rfl, ?_⟩
        refine settled_takeFinished hfree ?_ ?_ (hfits _ _ rfl)
        · exact (congrArg Core.conn hcore).trans hconn
        · intro houtcome hfits' style
          obtain ⟨d'', hd'', hsettled⟩ := hdispatch style
          cases hr.symm.trans hd''
          exact hsettled houtcome hfits'

/-- The next event handled leaves the engine settled, and no script has to be run. -/
theorem Settled.step (h : e.Settled s) {r : Handled} (hstep : e.step? = some r)
    (hfits : ∀ e' f, r = .settled e' f → e'.Fits) :
    ∃ e' f, r = .settled e' f ∧ e'.Settled s := by
  obtain ⟨session, event, queue, hsession, hlisten, -, rfl⟩ := step?_eq_some hstep
  refine settled_handle h.free (h.conn_eq session hsession) hlisten (fun style => ?_) event hfits
  exact (h.session session hsession style).setQueue queue

/-! ### The beginning of a line -/

/-- An engine between two lines whose history and cut text are plain. -/
structure Rested (e : Engine) : Prop where
  session_eq : e.session = none
  free : e.busy = false
  effects_eq : e.effects = []
  continuation : Text.Plain e.config.continuation
  history : e.history.Plain
  kills : e.kills.Plain

/-- A line begins on a fresh screen with its prompt. -/
theorem Rested.start (h : e.Rested) {r : Request} (hconn : r.conn = 0) (hprompt : r.prompt.text.Plain)
    (hhandler : ∀ h, r.handler = some h → h.Plain ∧ h.asks = false) (callback width : Nat)
    (previous : Handlers) (hscreen : s.Fresh width) (hwidth : max width 1 ≤ Draw.maxCount)
    (hfits : (e.start r callback width previous).Fits) :
    (e.start r callback width previous).Settled s := by
  unfold Engine.start at hfits ⊢
  dsimp only at hfits ⊢
  refine ⟨h.free, fun session hs => ?_, fun session hs style => ?_⟩
  · cases hs
    exact hconn
  · cases hs
    refine .line (Desk.Below.redraw ⟨?_, hwidth, ?_, rfl, rfl, fun h hh => (hhandler h hh).2⟩
      (hfits _ rfl))
    · exact {
        prompt := hprompt
        current := hprompt
        continuation := h.continuation
        frame := (Text.plain_append ..).2 ⟨hprompt, Text.plain_nil⟩
        history := h.history
        kills := h.kills
        undo := UndoStack.plain_clear _
        handler := fun h hh => (hhandler h hh).1 }
    · have heffects : ∀ entry, (e.effects ++ [Effect.log entry]).foldl (Screen.take style) s = s := by
        intro entry
        rw [h.effects_eq]
        rfl
      unfold Desk.seen
      exact (heffects _).symm ▸ hscreen

end Engine

end LineEditor
