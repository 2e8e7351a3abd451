import LineEditor.Proofs.Host.Alike
import LineEditor.Proofs.Host.Solo
import LineEditor.Proofs.Host.Standing
import LineEditor.Proofs.Session.Shown

/-!
An interrupt is a restart. Whatever was typed, searched or asked, the engine that handled an interrupt
is the engine that begins the line anew, so that it cannot be told from one whose session was discarded
and read again.

Main definitions: `Handler.quiet`, `Engine.Restarted` and `World.discard`. Main statements:
`Engine.settled_startOver`, `World.readline_discard` and `Machine.restarted_of_play`.
-/
namespace LineEditor

/-! ### Starting over -/

/-- A completion handler that holds no question, and no candidates for the answer to one. -/
def Handler.quiet : Handler → Handler
  | .candidates h => .candidates { h with ask := false, pending := [] }
  | .scripted h => .scripted { h with ask := false }

namespace Desk

variable (d : Desk)

/-- A question that is dropped changes the handler only. -/
theorem dropQuestion_quiet : ∃ effects, d.dropQuestion =
    { toEditor := { d.toEditor with effects }
      session := { d.session with handler := d.session.handler.map Handler.quiet } } := by
  unfold dropQuestion
  cases hh : d.session.handler with
  | none =>
    have hsame : { d with session.handler := none } = d := by rw [← hh]
    exact ⟨d.effects, hsame.symm⟩
  | some h => cases h <;> exact ⟨_, rfl⟩

/-- Starting over, but for what is written and logged. -/
theorem startOver_eq : ∃ effects, d.startOver =
    { toEditor := { d.toEditor.freshLine with effects }
      session := { d.session.restart with handler := d.session.handler.map Handler.quiet } } := by
  obtain ⟨effects, hdrop⟩ := (d.log .debug .engine "interrupt" []).newLine.dropQuestion_quiet
  unfold startOver
  dsimp only
  rw [hdrop, newLine_eq, write_eq]
  exact ⟨_, rfl⟩

end Desk

/-! ### Engines -/

/-- What is kept of an engine and its session when a line is begun anew, and what is not. -/
structure Engine.Restarted (e : Engine) (d : Desk) (t : Engine) : Prop where
  session : ∃ s, t.session = some s ∧ s.buffer.text = [] ∧ s.buffer.cursor = 0 ∧ s.line.text = [] ∧
    s.current = d.session.prompt ∧ s.shown = d.session.prompt ∧ s.prompt = d.session.prompt ∧
    s.focus = none ∧ s.paused = false ∧ s.outcome = .reading ∧ s.data = [] ∧ s.typing = false ∧
    s.conn = d.session.conn ∧ s.callback = d.session.callback ∧
    s.handler = d.session.handler.map Handler.quiet
  undo_eq : t.undo = { e.undo with snapshots := [] }
  vi_eq : t.keymap = { e.keymap with vi := .insert }
  history_eq : t.history =
    { e.history with fetched := e.history.entries.length, found := none, direction := .reverse }
  kills_eq : t.kills = e.kills
  queue_eq : t.queue = d.queue
  pending_eq : t.pendingResize = none

/-- An engine that begins the line of a session anew. -/
def Engine.restarted (e : Engine) (queue : EventQueue) (s : Session) : Engine :=
  { e with
    toEditor := { e.toEditor.freshLine with queue, effects := [] }
    session := some { s.restart with handler := s.handler.map Handler.quiet }
    pendingResize := none }

/-- What to read to begin the line of a session anew. -/
def Session.request (s : Session) : Request :=
  { engine := 0, conn := s.conn, prompt := s.prompt, handler := s.handler.map Handler.quiet }

namespace Engine

variable {e : Engine} {d : Desk} {event : KeyEvent}

theorem restarted_spec (e : Engine) (d : Desk) : e.Restarted d (e.restarted d.queue d.session) :=
  ⟨⟨_, rfl, rfl, rfl, rfl, rfl, rfl, rfl, rfl, rfl, rfl, rfl, rfl, rfl, rfl, rfl⟩, rfl, rfl, rfl, rfl,
    rfl, rfl⟩

/-- Starting over is beginning anew. -/
theorem settled_startOver (hnext : e.next? = some (d, event)) :
    ({ e.put d.startOver with pendingResize := none } : Engine).settled =
      e.restarted d.queue d.session := by
  obtain ⟨s, queue, -, -, -, rfl⟩ := next?_eq_some hnext
  obtain ⟨effects, hover⟩ :=
    Desk.startOver_eq { toEditor := { e.toEditor with queue }, session := s }
  rw [hover]
  rfl

/-- Reading once more is beginning anew. -/
theorem settled_start (queue : EventQueue) (scheduled : Bool) {s : Session}
    (hcontinuation : s.continuation = ⟨e.config.continuation⟩) :
    (({ e with queue, scheduled, session := none } : Engine).start s.request s.callback s.width
      s.previous).settled = { e.restarted queue s with scheduled } := by
  unfold restarted Session.restart
  rw [hcontinuation]
  rfl

end Engine

/-! ### Worlds -/

namespace World

variable {w : World} {e : Engine} {s : Session}

/-- The session of an engine discarded, with the handlers that it replaced put back. What the queue
holds then, and whether its handling is asked for, is as told. -/
def discard (w : World) (n : Nat) (queue : EventQueue) (scheduled : Bool) : World :=
  match w.engine? n with
  | none => w
  | some e =>
    match e.session with
    | none => w
    | some s => (w.setEngine n { e with queue, scheduled, session := none }).restore s.conn s.previous

theorem discard_eq (hn : w.engine? 0 = some e) (hs : e.session = some s) (queue : EventQueue)
    (scheduled : Bool) : w.discard 0 queue scheduled =
      (w.setEngine 0 { e with queue, scheduled, session := none }).restore s.conn s.previous := by
  unfold discard
  rw [hn]
  dsimp only
  rw [hs]

/-- Asking for the handling of the queue changes no more of the engine than that it is asked for. -/
theorem scheduleDelivery_eq (hw : w.engines = [some e]) :
    ∃ scheduled, (w.scheduleDelivery 0).engines = [some { e with scheduled }] := by
  unfold scheduleDelivery
  rw [engine?_of_engines hw]
  dsimp only
  split
  · exact ⟨e.scheduled, hw⟩
  · split
    · exact ⟨e.scheduled, hw⟩
    · exact ⟨true, congrArg (List.set · 0 _) hw⟩

theorem scheduleDelivery_of_scheduled (hw : w.engines = [some e]) (h : e.scheduled = true) :
    w.scheduleDelivery 0 = w := by
  unfold scheduleDelivery
  rw [engine?_of_engines hw]
  dsimp only
  rw [if_pos (by rw [h, Bool.or_true])]

/-- The world with a line that was begun, before the handling of the queue is asked for. -/
def begun (w : World) (e : Engine) (c : Connection) (r : Request) (callback : Nat) : World :=
  (w.modifyConn r.conn fun _ => { c with handlers := sessionHandlers r.engine }).put r.engine r.conn
    (e.start r callback c.size.cols c.handlers)

/-- A line begins while none is read. -/
theorem readline_eq {r : Request} {callback : Nat} {c : Connection} (hn : w.engine? r.engine = some e)
    (hc : w.conns[r.conn]? = some c) (hfree : e.busy = false) (hnone : e.session = none) :
    w.readline r callback = .ok (if e.queue.hasNext
      then (w.begun e c r callback).scheduleDelivery r.engine else w.begun e c r callback) := by
  unfold readline
  rw [hn, hc]
  dsimp only
  rw [if_neg (by rw [hfree]; decide), if_neg (by rw [hnone]; decide)]
  rfl

/-- Handlers that are put back and installed again. -/
theorem setEngine_reinstalled {n conn : Nat} {c : Connection} {h : Handlers}
    (hc : w.conns[conn]? = some c) (hheld : c.handlers = h) (previous : Handlers) (e₀ e₁ t : Engine) :
    (((((w.setEngine n e₀).restore conn previous).modifyConn conn fun _ =>
      { c with handlers := h }).setEngine n e₁).setEngine n t) = w.setEngine n t := by
  have hconns : (((w.setEngine n e₀).restore conn previous).modifyConn conn fun _ =>
      { c with handlers := h }).conns = w.conns := by
    rw [← hheld]
    refine List.ext_getElem? fun i => ?_
    by_cases hi : conn = i
    · subst hi
      simp [restore, modifyConn, setEngine, hc]
    · simp [restore, modifyConn, setEngine, hi]
  have hengines : ((w.engines.set n (some e₀)).set n (some e₁)).set n (some t) =
      w.engines.set n (some t) := by rw [List.set_set, List.set_set]
  change World.mk (((w.engines.set n (some e₀)).set n (some e₁)).set n (some t))
    (((w.setEngine n e₀).restore conn previous).modifyConn conn fun _ =>
      { c with handlers := h }).conns w.journal = _
  rw [hengines, hconns]
  rfl

/-- A discarded session read again: the engine is the one that begins the line anew, and if nothing is
asked for then the worlds are alike. -/
theorem readline_discard (hw : w.engines = [some e]) (hs : e.session = some s) (hfree : e.busy = false)
    (hcontinuation : s.continuation = ⟨e.config.continuation⟩) (hconn : s.conn < w.conns.length)
    (hwidth : s.width = (w.size s.conn).cols) (queue : EventQueue) (scheduled : Bool) :
    ∃ w' t, (w.discard 0 queue scheduled).readline s.request s.callback = .ok w' ∧
      w'.engines = [some t] ∧ { t with scheduled := e.scheduled } = e.restarted queue s ∧
      (scheduled = true ∨ queue.hasNext = false → w.handlers[s.conn]? = some (sessionHandlers 0) →
        (w.setEngine 0 (e.restarted queue s)).Alike
          (w'.setEngine 0 { t with scheduled := e.scheduled })) := by
  obtain ⟨c, hc⟩ : ∃ c, w.conns[s.conn]? = some c := ⟨_, List.getElem?_eq_getElem hconn⟩
  have hcols : c.size.cols = s.width := by rw [hwidth, size, hc]; rfl
  let e₀ : Engine := { e with queue, scheduled, session := none }
  let w₀ := (w.setEngine 0 e₀).restore s.conn s.previous
  let w₁ := w₀.begun e₀ { c with handlers := s.previous } s.request s.callback
  have hw₀ : w₀.engines = [some e₀] := congrArg (List.set · 0 (some e₀)) hw
  have hc₀ : w₀.conns[s.request.conn]? = some { c with handlers := s.previous } := by
    simp [w₀, restore, modifyConn, setEngine, Session.request, hc]
  have hfree₀ : e₀.busy = false := hfree
  have hread : w₀.readline s.request s.callback =
      .ok (if queue.hasNext then w₁.scheduleDelivery 0 else w₁) :=
    readline_eq (engine?_of_engines hw₀) hc₀ hfree₀ rfl
  have hsettled : (e₀.start s.request s.callback c.size.cols s.previous).settled =
      { e.restarted queue s with scheduled } := by
    rw [hcols]
    exact Engine.settled_start queue scheduled hcontinuation
  have hw₁ : w₁.engines = [some { e.restarted queue s with scheduled }] := by
    rw [← hsettled]
    exact (engines_put ..).trans (congrArg (List.set · 0 _) hw₀)
  have halike : w.handlers[s.conn]? = some (sessionHandlers 0) →
      (w.setEngine 0 (e.restarted queue s)).Alike (w₁.setEngine 0 (e.restarted queue s)) := by
    intro hheld
    have hheld' : c.handlers = sessionHandlers 0 := by
      rw [handlers, List.getElem?_map, hc] at hheld
      exact Option.some.inj hheld
    have hput := (Alike.of_put (w₀.modifyConn s.conn fun _ => { c with handlers := sessionHandlers 0 })
      0 s.conn (e₀.start s.request s.callback c.size.cols s.previous)).setEngine 0
      (e.restarted queue s)
    rwa [setEngine_reinstalled hc hheld'] at hput
  rw [discard_eq (engine?_of_engines hw) hs]
  by_cases hnext : queue.hasNext = true
  · rw [if_pos hnext] at hread
    obtain ⟨scheduled', hasked⟩ := scheduleDelivery_eq hw₁
    refine ⟨_, _, hread, hasked, rfl, ?_⟩
    rintro (rfl | hempty) hheld
    · rw [scheduleDelivery_of_scheduled hw₁ rfl]
      exact halike hheld
    · rw [hempty] at hnext
      cases hnext
  · rw [if_neg hnext] at hread
    exact ⟨_, _, hread, hw₁, rfl, fun _ => halike⟩

end World

/-! ### Runs -/

namespace Machine

variable {host : Host}

/-- An interrupt is a restart. In whatever state a session is that handles an interrupt, if it was told
the width of its terminal: nothing of what was typed is left, and what outlives a line is kept. The
engine is the one that discards the session and reads again, but for whether the handling of the queue
was asked for; and if that is not asked for once more, both go on alike, whatever happens. -/
theorem restarted_of_play {w : World} {e : Engine} (hw : w.engines = [some e]) (hnone : e.session = none)
    (moves : List Move) (hadmits : (⟨w, []⟩ : Machine).Admits Keeps host moves) {w' : World}
    {jobs : List Job} {t : Engine} {d : Desk} {event : KeyEvent}
    (hm : (⟨w, []⟩ : Machine).play host moves = ⟨w', .deliver 0 :: jobs⟩)
    (ht : w'.engine? 0 = some t) (hidle : t.busy = false) (hnext : t.next? = some (d, event))
    (hinterrupt : t.Interrupts event) (hwidth : d.session.width = (w'.size d.session.conn).cols) :
    ∃ w₁ t₁, (⟨w, []⟩ : Machine).play host (moves ++ [.step]) = ⟨w₁, .deliver 0 :: jobs⟩ ∧
      w₁.engines = [some t₁] ∧ t.Restarted d t₁ ∧
      ∀ scheduled, ∃ w₂ t₂,
        (w'.discard 0 d.queue scheduled).readline d.session.request d.session.callback = .ok w₂ ∧
        w₂.engines = [some t₂] ∧ { t₂ with scheduled := t.scheduled } = t₁ ∧
        (scheduled = true ∨ d.queue.hasNext = false →
          w'.handlers[d.session.conn]? = some (World.sessionHandlers 0) →
          ∀ moves', Alike ((⟨w₁, .deliver 0 :: jobs⟩ : Machine).play host moves')
            ((⟨w₂.setEngine 0 { t₂ with scheduled := t.scheduled }, .deliver 0 :: jobs⟩ :
              Machine).play host moves')) := by
  obtain ⟨k, hk, hconfigured⟩ := standing_play (P := fun _ k => k.Configured e.config)
    (fun _ _ _ _ _ h hnext => h.next hnext) [] (World.standing?_eq hw)
    (Standing.configured_of_idle rfl hnone) moves hadmits
  rw [play_append]
  generalize (⟨w, []⟩ : Machine).play host moves = m at hm hk ⊢
  subst hm
  obtain ⟨-, hw', rfl⟩ := World.engine?_of_standing? hk ht
  obtain ⟨s, queue, hs, -, -, hd⟩ := Engine.next?_eq_some hnext
  have hs' : t.session = some d.session := by rw [hs, hd]
  have hconfig : e.config = t.config := hconfigured.config_eq.symm
  have hcontinuation := hconfigured.continuation_eq d.session hs'
  have hconn := hconfigured.conn_lt d.session hs'
  rw [hconfig] at hcontinuation
  dsimp only at hconn
  rw [World.handlers, List.length_map] at hconn
  have hstep : t.step? = some (.settled { t.put d.startOver with pendingResize := none } none) := by
    rw [Engine.step?_eq, hnext, Option.map_some, Engine.handle_eq, if_pos hinterrupt]
  have hsettled := Engine.settled_startOver hnext
  have hover : (w'.setEngine 0 (t.restarted d.queue d.session)).Alike
      (w'.put 0 t.conn { t.put d.startOver with pendingResize := none }) := by
    rw [← hsettled]
    exact World.Alike.of_put ..
  have hw₁ : (w'.put 0 t.conn { t.put d.startOver with pendingResize := none }).engines =
      [some (t.restarted d.queue d.session)] := by
    rw [← hsettled, World.engines_put, hw']
    rfl
  have hmove : move host ⟨w', .deliver 0 :: jobs⟩ .step =
      ⟨w'.put 0 t.conn { t.put d.startOver with pendingResize := none }, .deliver 0 :: jobs⟩ :=
    move_handled ht hidle hstep
  refine ⟨_, _, hmove, hw₁, t.restarted_spec d, fun scheduled => ?_⟩
  obtain ⟨w₂, t₂, hread, hw₂, hsame, halike⟩ := World.readline_discard hw' hs' hidle hcontinuation
    hconn hwidth d.queue scheduled
  refine ⟨w₂, t₂, hread, hw₂, hsame, ?_⟩
  rintro hasked hheld moves'
  have hsame : Alike
      ⟨w'.put 0 t.conn { t.put d.startOver with pendingResize := none }, .deliver 0 :: jobs⟩
      ⟨w₂.setEngine 0 { t₂ with scheduled := t.scheduled }, .deliver 0 :: jobs⟩ :=
    ⟨hover.symm.trans (halike hasked hheld), rfl⟩
  exact hsame.play moves'

/-- A search is interrupted behind a continuation line, with edits to undo and with input behind the
interrupt. -/
theorem restarted_of_play_searching :
    let r : Request := { engine := 0, conn := 0, prompt := ⟨['>', ' ']⟩, handler := none }
    let host : Host := ⟨fun _ _ => []⟩
    let w : World := { engines := [some (.new {} [['b', 'c']])], conns := [.new {} {}] }
    let moves : List Move := [.call (.readline r 7),
      .call (.feed 0 [97, 92, 13, 98, 18, 99, 3, 100, 13]), .call (.runTasks 0)] ++
      List.replicate 7 .step
    ∃ (w' w₁ w₂ : World) (t₁ t₂ : Engine) (d : Desk),
      (⟨w, []⟩ : Machine).play host moves = ⟨w', [.deliver 0, .tasks 0]⟩ ∧
      d.session.line.text = ['a'] ∧ d.session.buffer.text = ['b', 'c'] ∧ d.session.focus.isSome = true ∧
      d.undo.snapshots.isEmpty = false ∧
      (⟨w, []⟩ : Machine).play host (moves ++ [.step]) = ⟨w₁, [.deliver 0, .tasks 0]⟩ ∧
      w₁.engines = [some t₁] ∧ t₁.undo.snapshots = [] ∧
      (w'.discard 0 d.queue true).readline d.session.request d.session.callback = .ok w₂ ∧
      w₂.engines = [some t₂] ∧ { t₂ with scheduled := false } = t₁ ∧
      ∀ moves', Alike ((⟨w₁, [.deliver 0, .tasks 0]⟩ : Machine).play host moves')
        ((⟨w₂.setEngine 0 { t₂ with scheduled := false }, [.deliver 0, .tasks 0]⟩ :
          Machine).play host moves') := by
  intro r host w moves
  let m := (⟨w, []⟩ : Machine).play host moves
  have hadmits : (⟨w, []⟩ : Machine).Admits Keeps host moves := by decide +kernel
  have hm : m = ⟨m.world, [.deliver 0, .tasks 0]⟩ := eq_of_isDraining (by decide +kernel)
  have hread : (m.world.engine? 0).bind (fun e =>
      e.next?.map fun x => (!e.busy && !e.scheduled && decide (e.Interrupts x.2) &&
          decide (x.1.session.width = (m.world.size x.1.session.conn).cols) &&
          decide (m.world.handlers[x.1.session.conn]? = some (World.sessionHandlers 0)) &&
          x.1.session.focus.isSome && !x.1.undo.snapshots.isEmpty, x.1.session.line.text,
          x.1.session.buffer.text)) =
      some (true, ['a'], ['b', 'c']) := by decide +kernel
  obtain ⟨t, ht, hread⟩ := Option.bind_eq_some_iff.1 hread
  obtain ⟨⟨d, event⟩, hnext, hread⟩ := Option.map_eq_some_iff.1 hread
  simp only [Prod.mk.injEq, Bool.and_eq_true, Bool.not_eq_true', decide_eq_true_eq] at hread
  obtain ⟨⟨⟨⟨⟨⟨⟨hidle, hscheduled⟩, hinterrupt⟩, hwidth⟩, hheld⟩, hfocus⟩, hundo⟩, hline, hshown⟩ :=
    hread
  obtain ⟨w₁, t₁, hplay, hw₁, hrestarted, hagain⟩ := restarted_of_play rfl rfl moves hadmits hm ht hidle hnext
    hinterrupt hwidth
  obtain ⟨w₂, t₂, hreadline, hw₂, hsame, halike⟩ := hagain true
  rw [hscheduled] at hsame halike
  have hcleared : t₁.undo.snapshots = [] := congrArg UndoStack.snapshots hrestarted.undo_eq
  exact ⟨m.world, w₁, w₂, t₁, t₂, d, hm, hline, hshown, hfocus, hundo, hplay, hw₁, hcleared, hreadline,
    hw₂, hsame, halike (.inl rfl) hheld⟩

end Machine

end LineEditor
