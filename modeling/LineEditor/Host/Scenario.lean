import LineEditor.Host.Machine

/-!
Scenarios: steps that a host takes one after the other, each with a report of what can be seen
afterwards on the connection and the engine of the step. A callback of a scenario may read the next
line with the same request, as long as there is one.
-/
namespace LineEditor

/-- What a host does in a step. -/
inductive Act where
  /-- Text arrives in one read. -/
  | type (t : Text)
  /-- Text arrives in one read for each code point. -/
  | typeEach (t : Text)
  /-- Each key arrives in a read of its own. -/
  | press (keys : List Key)
  | receive (bytes : List UInt8)
  /-- Text arrives, and no task runs. -/
  | feed (t : Text)
  | runTasks
  | runDelayed
  | endOfStream
  | resize (s : Size)
  /-- Installs handlers of the host for what is asked for. -/
  | listen (input size signal : Bool)
  | removeHandlers
  | dropEngine
  /-- Reads a line, and the next one as well if asked for. -/
  | start (p : Prompt) (h : Option Handler) (again run : Bool)
  | queue (t : Text)
  | resume (run : Bool)
  | bind (e : KeyEvent) (k : Command)
  | session (calls : List SessionCall)
  | history (calls : List HistoryCall)
  | style

/-- A step, for an engine and a connection. -/
structure Step where
  engine : Nat
  conn : Nat
  act : Act

/-- What a step shows of an engine. -/
structure EngineView where
  paused : Bool
  vi : ViState
  buffer : Option Buffer
  /-- The shown prompt and the continuation lines, and whether an action has the focus. -/
  session : Option (Text × Text × Bool)
  deriving DecidableEq, Repr

/-- What can be seen after a step. -/
structure StepView where
  reply : Reply
  output : Text
  cursor : Nat × Nat
  bells : Nat
  waiting : Nat × Nat
  listens : Bool × Bool
  lines : List (Option Text)
  notes : List Note
  reading : Bool
  engine : Option EngineView

namespace Act

/-- The mark of the host's own handlers. -/
def hostOwner : Owner := .host 0

/-- The handlers after the host installed its own. -/
def listenTo (input size signal : Bool) (h : Handlers) : Handlers :=
  { input := if input then some hostOwner else h.input
    size := if size then some hostOwner else h.size
    signal := if signal then some hostOwner else h.signal }

/-- A read of some text, after which the tasks run. -/
def read (conn : Nat) (t : Text) : List Call :=
  [.feed conn (Utf8.encodeText t), .runTasks conn]

/-- The calls of a step, where `n` is the callback of a line that it starts. -/
def calls (n engine conn : Nat) : Act → List Call
  | type t => read conn t
  | typeEach t => t.flatMap fun c => read conn [c]
  | press keys => keys.flatMap fun k => read conn k.codePoints
  | receive bytes => [.feed conn bytes, .runTasks conn]
  | feed t => [.feed conn (Utf8.encodeText t)]
  | runTasks => [.runTasks conn]
  | runDelayed => [.runDelayed conn]
  | endOfStream => [.endOfStream conn]
  | resize s => [.resize conn s]
  | listen input size signal => [.setHandlers conn (listenTo input size signal)]
  | removeHandlers => [.setHandlers conn fun _ => {}]
  | dropEngine => [.drop engine]
  | start p h _ run =>
    .readline { engine, conn, prompt := p, handler := h } n ::
      if run then [.runTasks conn] else []
  | queue t => [.queue engine t]
  | resume run => .resume engine :: if run then [.runTasks conn] else []
  | bind e k => [.bind engine e k]
  | session cs => [.session engine cs]
  | history cs => [.history engine cs]
  | style => [.style engine]

end Act

/-- The host of a scenario: callback `n` belongs to the line that step `n` starts. -/
def Host.ofSteps (steps : List Step) : Host where
  onLine n line :=
    match steps[n]? with
    | some { engine, conn, act := .start p h true _ } =>
      if line.isSome then [.readline { engine, conn, prompt := p, handler := h } n] else []
    | _ => []

/-- What can be seen of an engine. -/
def Engine.view (e : Engine) : EngineView :=
  { paused := e.session.any Session.paused
    vi := e.keymap.vi
    buffer := e.session.map Session.buffer
    session := e.session.map fun s => (s.shown.text, s.line.text, s.focus.isSome) }

namespace World

/-- What can be seen on a connection and an engine, with the answer of a step. -/
def view (w : World) (engine conn : Nat) (reply : Reply) : StepView :=
  let c := (w.conns[conn]?).getD (.new {} {})
  let e := w.engine? engine
  { reply
    output := c.output.toList
    cursor := c.screen.cursor
    bells := c.screen.bells
    waiting := (c.tasks.length, c.delayed.length)
    listens := (c.handlers.input.isSome, c.handlers.signal.isSome)
    lines := w.journal.lines.toList
    notes := w.journal.notes.toList
    reading := e.any fun e => e.session.isSome
    engine := e.map Engine.view }

/-- Forgets what was seen on a connection. -/
def forget (w : World) (conn : Nat) : World :=
  let w := w.modifyConn conn fun c => { c with output := #[] }
  { w with journal := { w.journal with lines := #[], notes := #[] } }

end World

namespace Scenario

/-- Some calls, each done before the next one, with the answer of the first. -/
def perform (host : Host) (w : World) (calls : List Call) : World × Reply :=
  let go (w : World) (c : Call) : World × Reply :=
    let (m, reply) := Machine.call ⟨w, []⟩ c
    ((m.settle host).world, reply)
  match calls with
  | [] => (w, .nothing)
  | c :: rest =>
    let (w, reply) := go w c
    (rest.foldl (fun w c => (go w c).1) w, reply)

/-- Step number `n`: the world after it, and what can be seen then. -/
def step (host : Host) (w : World) (n : Nat) (s : Step) : World × StepView :=
  let (w, reply) := perform host w (s.act.calls n s.engine s.conn)
  (w.forget s.conn, w.view s.engine s.conn reply)

/-- Steps in turn, with what can be seen after each. -/
def run (w : World) (steps : List Step) : World × List StepView :=
  let host := Host.ofSteps steps
  collectEach (fun w (s, n) => step host w n s) w steps.zipIdx

end Scenario

end LineEditor
