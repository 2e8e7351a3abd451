import LineEditor.Proofs.Engine.Shown
import LineEditor.Proofs.Engine.Turns
import LineEditor.Proofs.Session.Waiting

/-!
An engine and the rows that whole frames are drawn on. A line that begins on a fresh screen draws its
prompt there; every event that is handled draws on fresh rows only, and when it ends the line the screen
is fresh again, unless it was the end of file.

Main definition: `Engine.Waits`. Main statements: `Waits.handle`, `Waits.resume`, `Waits.answers` and
`waits_start`.
-/
namespace LineEditor.Engine

/-- The session, if there is one, waits on a screen with the effects carried out, and no change of width
was kept back. -/
structure Waits (e : Engine) (s : Screen) : Prop where
  free : e.busy = false
  conn_eq : ∀ session, e.session = some session → session.conn = 0
  resize_eq : ∀ session, e.session = some session → e.pendingResize = none
  session : ∀ session, e.session = some session →
    ∀ style, Desk.Waits style s { toEditor := e.toEditor, session }

/-- The frame of the session, if there is one, can be drawn. -/
def Drawable (e : Engine) : Prop := ∀ session, e.session = some session → session.Drawable

instance (e : Engine) : Decidable e.Drawable :=
  inferInstanceAs (Decidable (∀ session ∈ e.session, session.Drawable))

variable {e t : Engine} {d : Desk} {c : Connection} {s : Screen} {f : Option Finished}

theorem waits_of_none (hfree : e.busy = false) (hnone : e.session = none) : e.Waits s := by
  refine ⟨hfree, ?_, ?_, ?_⟩
  all_goals
    intro session hs
    rw [hnone] at hs
    cases hs

theorem takeFinished_put (hreading : d.session.outcome = .reading) :
    (e.put d).takeFinished = (e.put d, none) :=
  takeFinished_of_reading fun _ hs => Option.some.inj hs ▸ hreading

theorem Waits.setQueue (h : e.Waits s) (queue : EventQueue) : { e with queue }.Waits s :=
  ⟨h.free, h.conn_eq, h.resize_eq,
    fun session hs style => (h.session session hs style).setQueue queue⟩

theorem Waits.setHistory (h : e.Waits s) (history : History) : { e with history }.Waits s :=
  ⟨h.free, h.conn_eq, h.resize_eq, fun session hs style =>
    (h.session session hs style).idle ((Desk.Idles.refl _).congr rfl rfl) rfl⟩

theorem Waits.setKeymap (h : e.Waits s) (keymap : Keymap) : { e with keymap }.Waits s :=
  ⟨h.free, h.conn_eq, h.resize_eq, fun session hs style =>
    (h.session session hs style).idle ((Desk.Idles.refl _).congr rfl rfl) rfl⟩

theorem Waits.setScheduled (h : e.Waits s) (scheduled : Bool) : { e with scheduled }.Waits s :=
  ⟨h.free, h.conn_eq, h.resize_eq, h.session⟩

theorem Waits.clearResize (h : e.Waits s) : { e with pendingResize := none }.Waits s :=
  ⟨h.free, h.conn_eq, fun _ _ => rfl, h.session⟩

end Engine

/-- Effects that are carried out are seen as before. -/
theorem Desk.Waits.carriedOut {d : Desk} {style : BellStyle} {s : Screen} (h : d.Waits style s)
    (style' : BellStyle) : { d with effects := [] }.Waits style' (d.seen style s) := by
  cases h with
  | line h => exact .line { h with drawsFresh := trivial }
  | question c hfocus h =>
    exact .question c hfocus { h with past := { h.past with drawsFresh := trivial } }

namespace Engine

variable {e t : Engine} {d : Desk} {c : Connection} {s : Screen} {f : Option Finished}

/-- What an engine leaves for a connection is on its screen once it is carried out. -/
theorem Waits.carriedOut (h : e.Waits c.screen) : e.settled.Waits (c.settle e).screen := by
  refine ⟨h.free, h.conn_eq, h.resize_eq, fun session hs style => ?_⟩
  rw [screen_settle]
  exact (h.session session hs e.config.bell).carriedOut style

/-! ### Events -/

/-- What the handling of an event leaves: whole frames were drawn on fresh rows, the session waits, and if
there is none then the row is fresh or the file has ended. -/
structure Draws (e : Engine) (f : Option Finished) (s : Screen) : Prop where
  waits : e.Waits s
  drawsFresh : ∀ style, s.DrawsFresh style e.effects
  fresh : e.session = none → (∃ x, f = some x ∧ x.line = none) ∨
    ∀ style, (e.effects.foldl (Screen.take style) s).Fresh s.width

/-- Work at the desk that goes on with the line. -/
theorem Waits.draws_put (h : e.Waits s) (hconn : d.session.conn = 0) (hresize : e.pendingResize = none)
    (hd : ∀ style, d.Waits style s) (f : Option Finished) : (e.put d).Draws f s := by
  refine ⟨⟨h.free, ?_, ?_, ?_⟩, fun style => (hd style).drawsFresh, nofun⟩
  all_goals
    intro session hs
    cases hs
  · exact hconn
  · exact hresize
  · exact hd

/-- Work at the desk that goes on with the line or ends it. -/
theorem Waits.draws (h : e.Waits s) (hconn : d.session.conn = 0) (hresize : e.pendingResize = none)
    (hd : ∀ style, d.Left style s) :
    Draws (e.put d).takeFinished.1 (e.put d).takeFinished.2 s := by
  by_cases houtcome : d.session.outcome = .reading
  · have hwaits : ∀ style, d.Waits style s := by
      intro style
      cases hd style with
      | waits h => exact h
      | ended hover => exact absurd houtcome hover
    rw [takeFinished_put houtcome]
    exact h.draws_put hconn hresize hwaits none
  · have hover : ∀ style, s.DrawsFresh style d.effects ∧
        (d.seen style s).Fresh d.session.width := by
      intro style
      cases hd style with
      | waits h => exact absurd h.outcome_eq houtcome
      | ended _ hdraws hfresh => exact ⟨hdraws, hfresh⟩
    obtain ⟨line, hline⟩ : ∃ line, d.session.outcome.line? = some line := by
      cases hd : d.session.outcome with
      | reading => exact absurd hd houtcome
      | accepted line => exact ⟨some line, rfl⟩
      | eof => exact ⟨none, rfl⟩
    rw [takeFinished_of_line (e := e.put d) rfl hline]
    refine ⟨waits_of_none h.free rfl, fun style => ?_, fun _ => .inr fun style => ?_⟩
    · exact (hover style).1.log _
    · have hseen : (d.seen style s).width = s.width := Screen.width_foldl_take ..
      have hfresh := (hover style).2.of_width
      rw [hseen] at hfresh
      refine (List.foldl_append ..).symm ▸ hfresh

/-- The next event that is handled. -/
theorem Waits.handle (h : e.Waits s) (hd : e.Drawable) {event : KeyEvent}
    (hnext : e.next? = some (d, event)) :
    ∃ t f, e.handle d event = .settled t f ∧ t.Draws f s := by
  obtain ⟨session, queue, hs, hlisten, -, rfl⟩ := next?_eq_some hnext
  have hwaits := fun style => (h.session session hs style).setQueue queue
  have hconn := h.conn_eq session hs
  have hresize := h.resize_eq session hs
  have hdraw := hd session hs
  generalize hdesk : ({ toEditor := { e.toEditor with queue }, session } : Desk) = d at hwaits ⊢
  have hsession : d.session = session := hdesk ▸ rfl
  rw [← hsession] at hconn hdraw hlisten
  rw [handle_eq]
  split
  · have hover := fun style => (hwaits style).startOver hdraw
    have hcore : d.startOver.session.conn = 0 := (congrArg Core.conn d.core_startOver).trans hconn
    exact ⟨_, none, rfl, h.clearResize.draws_put hcore rfl (fun style => .line (hover style)) none⟩
  · split
    · refine ⟨_, _, rfl, ?_⟩
      rw [takeFinished_of_line (e := e.put { d.log .debug .engine "end of file" [] with
        session.outcome := .eof }) rfl rfl]
      refine ⟨waits_of_none h.free rfl, fun style => ?_, fun _ => .inl ⟨_, rfl, rfl⟩⟩
      exact ((hwaits style).drawsFresh.log _).log _
    · have hdispatch := fun style => (hwaits style).dispatch hdraw event
      have hcore := d.core_dispatch event hlisten
      obtain ⟨d', hd', -⟩ := hdispatch .audible
      rw [hd'] at hcore ⊢
      refine ⟨_, _, rfl, h.draws ((congrArg Core.conn hcore).trans hconn) hresize fun style => ?_⟩
      obtain ⟨d'', hd'', hleft⟩ := hdispatch style
      cases hd'.symm.trans hd''
      exact hleft

/-! ### Calls -/

/-- The end of a pause shows nothing. -/
theorem Waits.resume (h : e.Waits s) {width : Nat} (ht : e.resume width = .ok (t, f)) :
    f = none ∧ t.Draws none s := by
  obtain ⟨d, hd, heq⟩ := of_resume_eq_ok ht
  obtain ⟨session, hs, rfl⟩ := Option.map_eq_some_iff.1 hd
  have hresize := h.resize_eq session hs
  have hcaught : ∀ d, e.catchUp width d = d := by
    intro d
    rw [catchUp, hresize]
    split
    · rename_i hpending
      cases hpending
    · rfl
  rw [hcaught] at heq
  have hwaits : ∀ style, (Desk.log (Desk.resume { toEditor := e.toEditor, session }) .debug .engine
      "resume" []).Waits style s := fun style =>
    (h.session session hs style).idle
      ((Desk.idles_resume _).trans (Desk.refuses_log ..).idles) rfl
  have hdraws := h.clearResize.draws_put (h.conn_eq session hs) rfl hwaits none
  have hreading := (hwaits .audible).outcome_eq
  generalize Desk.log (Desk.resume { toEditor := e.toEditor, session }) .debug .engine "resume" [] = d
    at heq hdraws hreading
  cases (takeFinished_put (e := { e with pendingResize := none }) hreading).symm.trans heq
  exact ⟨rfl, hdraws⟩

/-- Calls that show nothing leave the session waiting. -/
theorem Waits.answers (h : e.Waits s) {size : Size} {calls : List SessionCall} {replies : List Reply}
    (hcalls : ∀ k ∈ calls, k.isSilent = true) (ht : e.answers size calls = .ok (t, replies, f)) :
    f = none ∧ t.Draws none s := by
  cases hs : e.session with
  | none =>
    rw [Engine.answers, desk?, hs] at ht
    cases ht
  | some session =>
    have hwaits := fun style => (h.session session hs style).answers hcalls size
    have hcore := Desk.core_answers { toEditor := e.toEditor, session } size calls
    have hconn := (congrArg Core.conn hcore).trans (h.conn_eq session hs)
    have hdraws := h.draws_put hconn (h.resize_eq session hs) hwaits none
    have hreading := (hwaits .audible).outcome_eq
    rw [Engine.answers, desk?_of_session hs] at ht
    dsimp only at ht
    split at ht
    · cases ht
      exact ⟨rfl, hdraws⟩
    · rw [takeFinished_put hreading] at ht
      cases ht
      exact ⟨rfl, hdraws⟩

/-! ### The beginning of a line -/

/-- A line draws its prompt as it begins. -/
theorem drawsFresh_start_iff (heffects : e.effects = []) (style : BellStyle) (r : Request)
    (callback width : Nat) (previous : Handlers) :
    s.DrawsFresh style (e.start r callback width previous).effects ↔ s.Fresh s.width := by
  change s.DrawsFresh style ((e.effects ++ [_]) ++ [_]) ↔ _
  rw [heffects]
  exact ⟨fun h => h.2.1 rfl, fun hscreen => ⟨nofun, fun _ => hscreen, trivial⟩⟩

/-- A line that begins on a fresh screen waits for its first event. -/
theorem waits_start (hfree : e.busy = false) (heffects : e.effects = []) {r : Request} (hconn : r.conn = 0)
    (hhandler : ∀ h, r.handler = some h → h.Plain ∧ h.asks = false) (callback width : Nat)
    (previous : Handlers) (hscreen : s.Fresh width) (hwidth : max width 1 ≤ Draw.maxCount) :
    (e.start r callback width previous).Waits s := by
  refine ⟨hfree, ?_, ?_, ?_⟩
  all_goals
    intro session hs
    cases hs
  · exact hconn
  · rfl
  · intro style
    refine .line (Desk.Past.redraw ⟨rfl, hhandler, hwidth, ?_, ?_⟩)
    · change s.DrawsFresh style (e.effects ++ [_])
      rw [heffects]
      exact ⟨nofun, trivial⟩
    · change ((e.effects ++ [_]).foldl (Screen.take style) s).Fresh width
      rw [heffects]
      exact hscreen

end Engine

end LineEditor
