import LineEditor.Proofs.Engine.Requeue
import LineEditor.Proofs.Host.Play
import LineEditor.Proofs.Host.Solo
import LineEditor.Proofs.Text.Utf8

/-!
A world in which all input is there. What a job does to an engine, its connection and its journal
does not depend on the input that waits behind the next event, nor on the tasks that wait: the same
job does the same with more input and without the tasks.

Main definitions: `World.calm`, a world in which no task waits, `Connection.closed`, and
`Machine.advance`, a step after which no task waits. Main statements: an equation `move_*` for each
job of a world of one engine, and `settle_calm`.
-/
namespace LineEditor

/-! ### Connections -/

namespace Connection

/-- A connection on which no task waits. -/
def calm (c : Connection) : Connection := { c with tasks := [] }

/-- A connection after the end of a session, if there was one. -/
def closed (c : Connection) : Option Finished → Connection
  | none => c
  | some f => { c with handlers := f.previous }

variable (c : Connection) (e : Engine) (q : EventQueue)

variable {c} in
theorem calm_self (h : c.tasks = []) : c.calm = c := by
  rw [calm, ← h]

theorem perform_calm (style : BellStyle) (x : Effect) :
    c.calm.perform style x = (c.perform style x).calm := by
  cases x with
  | write t => rfl
  | draw t => rfl
  | ring => exact ite_eq_apply calm rfl rfl
  | log l => rfl
  | note n => rfl

/-- Tasks that wait do not matter to what is carried out. -/
theorem settle_calm : c.calm.settle (e.calm q) = (c.settle e).calm := by
  have hfold : ∀ (xs : List Effect) (c : Connection),
      xs.foldl (perform e.config.bell) c.calm = (xs.foldl (perform e.config.bell) c).calm := by
    intro xs
    induction xs with
    | nil => exact fun _ => rfl
    | cons x xs ih =>
      intro c
      rw [List.foldl_cons, List.foldl_cons, perform_calm, ih]
  exact hfold e.effects c

theorem closed_calm (f : Option Finished) : c.calm.closed f = (c.closed f).calm := by
  cases f with
  | none => rfl
  | some f => rfl

end Connection

/-! ### Worlds -/

/-- Input that an engine is too busy for is noted in the log, and lost. -/
def Journal.refuse (j : Journal) (t : Text) : Journal :=
  if t.isEmpty then j
  else j.record ⟨.error, .engine, "input dispatched while the engine was busy, dropped",
    [("len", .number t.length)]⟩

namespace World

/-- A world in which no task waits and no delivery was asked for. -/
def calm (w : World) : World :=
  { w with
    engines := w.engines.map (Option.map fun e => e.calm e.queue)
    conns := w.conns.map Connection.calm }

variable {e e' : Engine} {c : Connection} {j : Journal}

theorem calm_solo : (solo e c j).calm = solo (e.calm e.queue) c.calm j := rfl

/-- Asking for a delivery is not seen when no task waits. -/
theorem calm_scheduleDelivery (hconn : ∀ s, e.session = some s → s.conn = 0) :
    ((solo e c j).scheduleDelivery 0).calm = (solo e c j).calm := by
  rw [scheduleDelivery_solo e c j hconn]
  split
  · rfl
  · rfl

/-- A delivery waits exactly if one was asked for, also when one is asked for now. -/
theorem asked_solo (hconn : ∀ s, e.session = some s → s.conn = 0) (hfree : e.busy = false)
    (hsession : e.session.isSome = true)
    (htasks : c.tasks = if e.scheduled then [.deliver 0] else []) (b : Bool) :
    (if b then (solo e c j).scheduleDelivery 0 else solo e c j) =
      solo { e with scheduled := b || e.scheduled }
        { c with tasks := if b || e.scheduled then [.deliver 0] else [] } j := by
  have hkept : ∀ asked, e.scheduled = asked → solo e c j =
      solo { e with scheduled := asked }
        { c with tasks := if asked then [.deliver 0] else [] } j := by
    rintro _ rfl
    rw [← htasks]
  cases b with
  | false => exact hkept _ rfl
  | true =>
    have hasks : (e.busy || e.scheduled || e.session.isNone) = e.scheduled := by
      rw [hfree, Bool.false_or, ← Option.not_isSome, hsession]
      exact Bool.or_false _
    rw [if_pos rfl, scheduleDelivery_solo e c j hconn, hasks]
    cases hscheduled : e.scheduled with
    | true => exact hkept true hscheduled
    | false =>
      rw [hscheduled, if_neg Bool.false_ne_true] at htasks
      rw [if_neg Bool.false_ne_true, Connection.execute, htasks]
      rfl

theorem close_eq_closed {f : Option Finished} (hf : ∀ x, f = some x → x.conn = 0) :
    (solo e c j).close f = solo e (c.closed f) j := by
  cases f with
  | none => rfl
  | some f =>
    have hconn : f.conn = 0 := hf f rfl
    rw [World.close, World.restore, hconn, modifyConn_solo]
    rfl

/-- Input that arrives goes to the engine, if there is any. -/
theorem feed_solo (hdecoder : c.decoder = {}) (hhandlers : c.handlers = sessionHandlers 0)
    (t : Text) : (solo e c j).feed 0 (Utf8.encodeText t) =
      if t.isEmpty then solo e c j else (solo e c j).receiveInput 0 t := by
  have hreceive : c.receive (Utf8.encodeText t) = (c, c.deliveries t) := by
    rw [Connection.receive, hdecoder, Utf8.Decoder.decode_encodeText, ← hdecoder]
  rw [feed, conns_solo]
  dsimp only
  rw [hreceive, deliverAll, modifyConn_solo, Connection.deliveries, hhandlers]
  cases t with
  | nil => rfl
  | cons x t => rfl

/-- Input that arrives while the engine is busy is refused. -/
theorem feed_busy (hbusy : e.busy = true) (hdecoder : c.decoder = {})
    (hhandlers : c.handlers = sessionHandlers 0) (t : Text) :
    (solo e c j).feed 0 (Utf8.encodeText t) = solo e c (j.refuse t) := by
  rw [feed_solo hdecoder hhandlers, Journal.refuse, receiveInput, engine?_solo]
  dsimp only
  rw [if_pos hbusy]
  split
  · rfl
  · rfl

/-- A line begins, and the handling of what waits is asked for. -/
theorem call_readline {r : Request} (hengine : r.engine = 0) (hconn : r.conn = 0)
    (hfree : e.busy = false) (hnone : e.session = none) (n : Nat) :
    (solo e c j).call (.readline r n) =
      { world := if e.queue.hasNext then (reading e c j r n).scheduleDelivery 0
          else reading e c j r n
        reply := .done } := by
  rw [World.call, hengine, callEngine_solo e c j hfree,
    readline_solo e c j hengine hconn hfree hnone]

end World

/-! ### Jobs -/

namespace Machine

/-- A step, after which no task waits. -/
def advance (host : Host) (m : Machine) : Machine :=
  ⟨(m.move host .step).world.calm, (m.move host .step).jobs⟩

variable {host : Host} {e e' : Engine} {c : Connection} {j : Journal} {jobs : List Job}
  {f : Option Finished} {k : Completion} {h : ScriptedHandler}

/-- An event that is settled. -/
theorem move_settled (hfree : e.busy = false) (hconn : e.conn = 0)
    (hstep : e.step? = some (.settled e' f)) (hf : ∀ x, f = some x → x.conn = 0) :
    move host ⟨.solo e c j, .deliver 0 :: jobs⟩ .step =
      ⟨.solo e'.settled ((c.settle e').closed f) (j.settle e'),
        Job.ofFinished f ++ .deliver 0 :: jobs⟩ := by
  change (Machine.mk (.solo e c j) jobs).deliver 0 = _
  rw [Machine.deliver, World.engine?_solo]
  dsimp only
  rw [if_neg (by rw [hfree]; decide), hstep, hconn]
  dsimp only
  rw [World.put_solo, World.close_eq_closed hf, goOn, List.append_assoc]
  rfl

/-- An event for which a script has to be run. -/
theorem move_script (hfree : e.busy = false) (hconn : e.conn = 0)
    (hstep : e.step? = some (.script e' k h)) :
    move host ⟨.solo e c j, .deliver 0 :: jobs⟩ .step =
      ⟨.solo { e'.settled with busy := true } (c.settle e')
          ((j.settle e').note (.completeCalled (h.calls + 1))),
        .script 0 k { h with calls := h.calls + 1 } h.script :: .deliver 0 :: jobs⟩ := by
  change (Machine.mk (.solo e c j) jobs).deliver 0 = _
  rw [Machine.deliver, World.engine?_solo]
  dsimp only
  rw [if_neg (by rw [hfree]; decide), hstep, hconn]
  dsimp only
  rw [World.put_solo]
  rfl

/-- Nothing is left in the queue. -/
theorem move_delivered (hfree : e.busy = false) (hstep : e.step? = none) :
    move host ⟨.solo e c j, .deliver 0 :: jobs⟩ .step = ⟨.solo e c j, jobs⟩ := by
  change (Machine.mk (.solo e c j) jobs).deliver 0 = _
  rw [Machine.deliver, World.engine?_solo]
  dsimp only
  rw [if_neg (by rw [hfree]; decide), hstep]

/-- A line that is given to its callback. -/
theorem move_callback (n : Nat) (line : Option Text) :
    move host ⟨.solo e c j, .callback n line :: jobs⟩ .step =
      ⟨.solo e c { j with lines := j.lines.push line },
        (host.onLine n line).map .call ++ jobs⟩ := rfl

/-- A line that a callback begins. -/
theorem move_readline {r : Request} (hengine : r.engine = 0) (hconn : r.conn = 0)
    (hfree : e.busy = false) (hnone : e.session = none) (n : Nat) :
    move host ⟨.solo e c j, .call (.readline r n) :: jobs⟩ .step =
      ⟨if e.queue.hasNext then (World.reading e c j r n).scheduleDelivery 0
        else World.reading e c j r n, jobs⟩ := by
  change (Machine.mk (.solo e c j) jobs).callBack _ = _
  simp only [Machine.callBack, World.call_readline hengine hconn hfree hnone n]
  rfl

/-- A line that a callback begins, with other input waiting and without tasks. -/
theorem advance_readline {r : Request} (hengine : r.engine = 0) (hconn : r.conn = 0)
    (hfree : e.busy = false) (hnone : e.session = none) (n : Nat) (q : EventQueue) :
    advance host ⟨.solo (e.calm q) c.calm j, .call (.readline r n) :: jobs⟩ =
      ⟨.solo ((e.start r n c.size.cols c.handlers).settled.calm q)
        (({ c with handlers := World.sessionHandlers 0 } : Connection).settle
          (e.start r n c.size.cols c.handlers)).calm
        (j.settle (e.start r n c.size.cols c.handlers)), jobs⟩ := by
  have hsession : ∀ s, ((e.calm q).start r n c.size.cols c.handlers).settled.session = some s →
      s.conn = 0 := by
    rintro s ⟨⟩
    exact hconn
  have hasked : ∀ b : Bool, (if b then
        (World.reading (e.calm q) c.calm j r n).scheduleDelivery 0
      else World.reading (e.calm q) c.calm j r n).calm =
      (World.reading (e.calm q) c.calm j r n).calm := by
    intro b
    cases b with
    | false => rfl
    | true => exact World.calm_scheduleDelivery hsession
  rw [advance, move_readline hengine hconn (show (e.calm q).busy = false from hfree) hnone n]
  have hreading : World.reading (e.calm q) c.calm j r n =
      .solo ((e.start r n c.size.cols c.handlers).settled.calm q)
        (({ c with handlers := World.sessionHandlers 0 } : Connection).settle
          (e.start r n c.size.cols c.handlers)).calm
        (j.settle (e.start r n c.size.cols c.handlers)) := by
    rw [← Connection.settle_calm _ _ q]
    rfl
  dsimp only
  rw [hasked, hreading]
  rfl

/-- The end of a script. -/
theorem move_endScript {d : Desk} (hd : e.desk? = some d) (hconn : e.conn = 0)
    (hf : ∀ x, (e.afterScript d k h).takeFinished.2 = some x → x.conn = 0) :
    move host ⟨.solo e c j, .script 0 k h [] :: jobs⟩ .step =
      ⟨.solo (e.afterScript d k h).takeFinished.1.settled
          ((c.settle (e.afterScript d k h).takeFinished.1).closed
            (e.afterScript d k h).takeFinished.2)
          (j.settle (e.afterScript d k h).takeFinished.1),
        Job.ofFinished (e.afterScript d k h).takeFinished.2 ++ jobs⟩ := by
  change (Machine.mk (.solo e c j) jobs).endScript 0 k h = _
  rw [endScript_solo hd hconn, World.put_solo, World.close_eq_closed hf]

/-- A step of a script at the desk. -/
theorem move_scriptStep {d : Desk} (hd : e.desk? = some d) (hconn : e.conn = 0) {s : ScriptStep}
    (hs : s.AtDesk) (rest : List ScriptStep) :
    move host ⟨.solo e c j, .script 0 k h (s :: rest) :: jobs⟩ .step =
      ⟨.solo (e.put (d.scriptStep c.size s)).settled (c.settle (e.put (d.scriptStep c.size s)))
          (j.settle (e.put (d.scriptStep c.size s))), .script 0 k h rest :: jobs⟩ := by
  change (Machine.mk (.solo e c j) jobs).scriptStep 0 k h s rest = _
  rw [scriptStep_solo hd hconn k h hs, World.put_solo]

/-- A step of a script that sets a question. -/
theorem move_setAsk (ask : Bool) (rest : List ScriptStep) :
    move host ⟨.solo e c j, .script 0 k h (.setAsk ask :: rest) :: jobs⟩ .step =
      ⟨.solo e c j, .script 0 k { h with ask } rest :: jobs⟩ := rfl

/-- A step of a script that lets input arrive. -/
theorem move_feed (hbusy : e.busy = true) (hconn : e.conn = 0) (hdecoder : c.decoder = {})
    (hhandlers : c.handlers = World.sessionHandlers 0) (t : Text) (rest : List ScriptStep) :
    move host ⟨.solo e c j, .script 0 k h (.feed t :: rest) :: jobs⟩ .step =
      ⟨.solo e c (j.refuse t), .script 0 k h rest :: jobs⟩ := by
  change (Machine.mk (.solo e c j) jobs).scriptStep 0 k h (.feed t) rest = _
  rw [scriptStep]
  dsimp only
  rw [World.engine?_solo]
  dsimp only
  rw [hconn, World.feed_busy hbusy hdecoder hhandlers]
  rfl

/-- A step of a script that leaves work that waits for a delay. -/
theorem move_schedule (hconn : e.conn = 0) (hdelayed : h.delayed = true)
    (calls : Option (List SessionCall)) (resume : Bool) (rest : List ScriptStep) :
    move host ⟨.solo e c j, .script 0 k h (.schedule calls resume :: rest) :: jobs⟩ .step =
      ⟨.solo e (c.schedule (.background 0 calls resume)) j, .script 0 k h rest :: jobs⟩ := by
  change (Machine.mk (.solo e c j) jobs).scriptStep 0 k h (.schedule calls resume) rest = _
  rw [scriptStep]
  dsimp only
  rw [World.engine?_solo]
  dsimp only
  rw [hconn, World.modifyConn_solo, if_pos hdelayed]
  rfl

/-- A task that delivers. -/
theorem move_task (hfree : e.busy = false) {tasks : List Task}
    (htasks : c.tasks = .deliver 0 :: tasks) :
    move host ⟨.solo e c j, .tasks 0 :: jobs⟩ .step =
      ⟨.solo { e with scheduled := false } { c with tasks } j, .deliver 0 :: .tasks 0 :: jobs⟩ := by
  change (Machine.mk (.solo e c j) jobs).runTasks 0 = _
  rw [Machine.runTasks, World.conns_solo, Option.bind_some, Connection.popTask, htasks]
  dsimp only
  rw [World.modifyConn_solo, Machine.runTask]
  dsimp only [goOn]
  rw [World.engine?_solo]
  dsimp only
  rw [if_neg (by rw [hfree]; decide), World.setEngine_solo]
  rfl

/-- No task waits any more. -/
theorem move_tasks (htasks : c.tasks = []) :
    move host ⟨.solo e c j, .tasks 0 :: jobs⟩ .step = ⟨.solo e c j, jobs⟩ := by
  change (Machine.mk (.solo e c j) jobs).runTasks 0 = _
  rw [Machine.runTasks, World.conns_solo, Option.bind_some, Connection.popTask, htasks]

end Machine

end LineEditor
