import LineEditor.Engine.Basic
import LineEditor.Host.Connection

/-!
Engines and connections together, with a journal of what a host hears of them. The effects of an
engine's work are carried out on the connection of its session, in order. Input that arrives for an
engine is queued, and its handling is asked for at most once at a time, as a task on the connection
of the session.
-/
namespace LineEditor

/-- What a host has heard since it last looked, and the log. -/
structure Journal where
  /-- What the log keeps. -/
  level : Log.Level := .off
  /-- The lines that were delivered, with none for the end of file. -/
  lines : Array (Option Text) := #[]
  notes : Array Note := #[]
  log : Array Log.Entry := #[]

namespace Journal

/-- A note for the host. -/
def note (j : Journal) (n : Note) : Journal := { j with notes := j.notes.push n }

/-- An entry for the log, if the log keeps it. -/
def record (j : Journal) (e : Log.Entry) : Journal :=
  if j.level.keeps e.level then { j with log := j.log.push e } else j

@[simp] theorem lines_record (j : Journal) (e : Log.Entry) : (j.record e).lines = j.lines := by
  rw [record]
  split <;> rfl

end Journal

/-- Engines, of which some may be dropped, and connections. -/
structure World where
  engines : List (Option Engine)
  conns : List Connection
  journal : Journal := {}

namespace World

/-- An engine that is not dropped. -/
def engine? (w : World) (n : Nat) : Option Engine := w.engines[n]?.join

/-- An engine as work left it. -/
def setEngine (w : World) (n : Nat) (e : Engine) : World :=
  { w with engines := w.engines.set n (some e) }

/-- A connection changed. -/
def modifyConn (w : World) (n : Nat) (f : Connection → Connection) : World :=
  { w with conns := w.conns.modify n f }

/-- A note for the host. -/
def note (w : World) (n : Note) : World := { w with journal := w.journal.note n }

/-- An entry for the log. -/
def record (w : World) (e : Log.Entry) : World := { w with journal := w.journal.record e }

/-- The size of a connection. -/
def size (w : World) (conn : Nat) : Size := (w.conns[conn]?.map Connection.size).getD {}

/-- An effect carried out on a connection. -/
def perform (conn : Nat) (bell : BellStyle) (w : World) : Effect → World
  | .write t | .draw t => w.modifyConn conn (·.write t)
  | .ring => if bell = .audible then w.modifyConn conn (·.write ['\x07']) else w
  | .log e => w.record e
  | .note n => w.note n

/-- An engine as work on a connection left it, with the effects of the work carried out. -/
def put (w : World) (n conn : Nat) (e : Engine) : World :=
  e.effects.foldl (perform conn e.config.bell) (w.setEngine n { e with effects := [] })

/-- Asks for the handling of queued input, unless that is asked for already. -/
def scheduleDelivery (w : World) (n : Nat) : World :=
  match w.engine? n with
  | none => w
  | some e =>
    if e.busy || e.scheduled then w
    else
      match e.session with
      | none => w
      | some s =>
        (w.setEngine n { e with scheduled := true }).modifyConn s.conn (·.execute (.deliver n))

/-- Input arrives for an engine; a busy one drops it. -/
def receiveInput (w : World) (n : Nat) (t : Text) : World :=
  match w.engine? n with
  | none => w
  | some e =>
    if e.busy then
      w.record ⟨.error, .engine, "input dispatched while the engine was busy, dropped",
        [("len", .number t.length)]⟩
    else (w.setEngine n { e with queue := e.queue.append t }).scheduleDelivery n

/-- A piece of input for the owner of a handler. Engines listen to no signals. -/
def deliver (w : World) : Owner × Delivery → World
  | (.engine n, .read t) => w.receiveInput n t
  | (.engine _, .signal ..) => w
  | (.host _, .read t) => w.note (.input t)
  | (.host _, .signal s c) => w.note (.signal s c)

/-- A connection after input, and what it delivers. -/
def deliverAll (w : World) (conn : Nat) (r : Connection × List (Owner × Delivery)) : World :=
  r.2.foldl deliver (w.modifyConn conn fun _ => r.1)

/-- Bytes arrive on a connection. -/
def feed (w : World) (conn : Nat) (bytes : List UInt8) : World :=
  match w.conns[conn]? with
  | none => w
  | some c => w.deliverAll conn (c.receive bytes)

/-- The stream of bytes of a connection ends. -/
def endOfStream (w : World) (conn : Nat) : World :=
  match w.conns[conn]? with
  | none => w
  | some c => w.deliverAll conn c.endOfStream

/-- A terminal changes its size. An engine is told by a task. -/
def resize (w : World) (conn : Nat) (s : Size) : World :=
  let w := w.modifyConn conn (·.setSize s)
  let owner : Option Owner := w.conns[conn]?.bind fun c => c.handlers.size
  match owner with
  | none => w
  | some (.engine n) => w.modifyConn conn (·.execute (.resize n s))
  | some (.host _) => w.note (.resized s)

/-- An engine is told a new size; a busy one does not listen. -/
def receiveSize (w : World) (n : Nat) (s : Size) : World :=
  match w.engine? n with
  | none => w
  | some e =>
    if e.busy then
      w.record ⟨.error, .engine, "resize while the engine was busy, dropped",
        [("size", .plain s.describe)]⟩
    else
      match e.session with
      | none => w
      | some session => w.put n session.conn (e.resized s)

/-- Puts back the handlers that a session replaced. -/
def restore (w : World) (conn : Nat) (previous : Handlers) : World :=
  w.modifyConn conn fun c => { c with handlers := previous }

/-- Puts back the handlers of a session that is over. -/
def close (w : World) : Option Finished → World
  | none => w
  | some f => w.restore f.conn f.previous

/-- The handlers that a session of an engine installs. It listens to no signals: interrupt and end
of file arrive as input while a line is read. -/
def sessionHandlers (n : Nat) : Handlers := { input := some (.engine n), size := some (.engine n) }

/-- Begins a session. -/
def readline (w : World) (r : Request) (callback : Nat) : Except EngineError World :=
  match w.engine? r.engine, w.conns[r.conn]? with
  | some e, some c =>
    if e.busy then .error .reentrant
    else if e.session.isSome then .error .alreadyReading
    else
      let (c, previous) := c.install (sessionHandlers r.engine)
      let w := w.modifyConn r.conn fun _ => c
      let w := w.put r.engine r.conn (e.start r callback c.size.cols previous)
      .ok (if e.queue.hasNext then w.scheduleDelivery r.engine else w)
  | _, _ => .ok w

/-- Input queued by the host, behind what is queued already. -/
def queueInput (w : World) (n : Nat) (e : Engine) (t : Text) : World :=
  let e := { e with queue := e.queue.append t }
  let w := w.setEngine n e
  if e.canDeliver then w.scheduleDelivery n else w

/-- Drops an engine; its session is gone with it, and no callback hears of that. -/
def drop (w : World) (n : Nat) : World :=
  match w.engine? n with
  | none => w
  | some e =>
    let w := { w with engines := w.engines.set n none }
    match e.session with
    | none => w
    | some s => w.restore s.conn s.previous

end World

end LineEditor
