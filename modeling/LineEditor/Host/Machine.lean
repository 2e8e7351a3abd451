import LineEditor.Host.Script

/-!
A host at work with engines and connections. Everything that has to be done is a job on a stack, and
one step does the topmost job, which may put others on top of it: running the tasks of a connection,
draining the queue of an engine, the script of a completion handler, the callback that receives a
line. Nested work is therefore visible between any two steps, and a step never loops.

Main definitions: `Machine.call` is a call of the host, `Machine.step?` does a job, and
`Machine.settle` goes on until nothing is left to do. Main statements: `steps_add` cuts a run in
two, and `steps_of_settled` says that a machine with nothing left to do stays as it is.
-/
namespace LineEditor

/-- What a host may do. -/
inductive Call where
  | readline (r : Request) (callback : Nat)
  /-- Input for an engine, as if it had been typed. -/
  | queue (engine : Nat) (t : Text)
  | resume (engine : Nat)
  | session (engine : Nat) (calls : List SessionCall)
  | history (engine : Nat) (calls : List HistoryCall)
  | bind (engine : Nat) (e : KeyEvent) (k : Command)
  | style (engine : Nat)
  | drop (engine : Nat)
  /-- Bytes arrive; no task runs. -/
  | feed (conn : Nat) (bytes : List UInt8)
  | runTasks (conn : Nat)
  | runDelayed (conn : Nat)
  | endOfStream (conn : Nat)
  | resize (conn : Nat) (s : Size)
  /-- Changes the handlers of a connection. -/
  | setHandlers (conn : Nat) (f : Handlers → Handlers)

/-- A host: what each of its callbacks does with the line it receives. -/
structure Host where
  onLine : Nat → Option Text → List Call

/-- Something that has to be done. -/
inductive Job where
  /-- Run the tasks of a connection until none waits. -/
  | tasks (conn : Nat)
  /-- Handle the queued input of an engine as far as possible. -/
  | deliver (engine : Nat)
  /-- Ask for the handling of queued input. -/
  | schedule (engine : Nat)
  /-- Give a line to a callback. -/
  | callback (n : Nat) (line : Option Text)
  | call (c : Call)
  /-- Go on with the script of a completion handler. -/
  | script (engine : Nat) (c : Completion) (h : ScriptedHandler) (rest : List ScriptStep)
  /-- Calls on a session that nobody waits for. -/
  | background (engine : Nat) (calls : List SessionCall)
  /-- The end of a pause that nobody waits for. -/
  | resume (engine : Nat)
  | note (n : Note)

/-- What a call leads to: the world, what has to be done next, and the answer. -/
structure Called where
  world : World
  jobs : List Job := []
  reply : Reply

/-- A world, and what has to be done in it, the next job first. -/
structure Machine where
  world : World
  jobs : List Job := []

/-- The callback of a session that is over. -/
def Job.ofFinished : Option Finished → List Job
  | none => []
  | some f => [.callback f.callback f.line]

/-- The connection of an engine's session. -/
def Engine.conn (e : Engine) : Nat := (e.session.map Session.conn).getD 0

namespace World

/-- A call of an engine that is neither dropped nor busy. -/
def callEngine (w : World) (n : Nat) (f : Engine → Called) : Called :=
  match w.engine? n with
  | none => { world := w, reply := .noEngine }
  | some e => if e.busy then { world := w, reply := .engineError .reentrant } else f e

/-- Ends the pause of an engine. -/
def callResume (w : World) (n : Nat) (e : Engine) : Called :=
  match e.resume (w.size e.conn).cols with
  | .error err => { world := w, reply := .engineError err }
  | .ok (e', f) =>
    { world := (w.put n e.conn e').close f
      jobs := Job.ofFinished f ++ [.schedule n]
      reply := .done }

/-- Calls on the session of an engine. -/
def callSession (w : World) (n : Nat) (e : Engine) (calls : List SessionCall) : Called :=
  match e.answers (w.size e.conn) calls with
  | .error err => { world := w, reply := .engineError err }
  | .ok (e', replies, f) =>
    { world := (w.put n e.conn e').close f
      jobs := Job.ofFinished f
      reply := .replies replies }

/-- Calls on the history of an engine. -/
def callHistory (w : World) (n : Nat) (e : Engine) (calls : List HistoryCall) : Called :=
  let (history, replies) := collectEach HistoryCall.run e.history calls
  { world := w.setEngine n { e with history }, reply := .replies replies }

/-- A call of the host. -/
def call (w : World) : Call → Called
  | .readline r callback =>
    w.callEngine r.engine fun _ =>
      match w.readline r callback with
      | .ok w => { world := w, reply := .done }
      | .error e => { world := w, reply := .engineError e }
  | .queue n t => w.callEngine n fun e => { world := w.queueInput n e t, reply := .done }
  | .resume n => w.callEngine n (w.callResume n)
  | .session n calls => w.callEngine n fun e => w.callSession n e calls
  | .history n calls => w.callEngine n fun e => w.callHistory n e calls
  | .bind n event k =>
    w.callEngine n fun e =>
      { world := w.setEngine n { e with keymap := e.keymap.bind event k }, reply := .done }
  | .style n => w.callEngine n fun e => { world := w, reply := .name e.keymap.style.name }
  | .drop n => { world := w.drop n, reply := .nothing }
  | .feed conn bytes => { world := w.feed conn bytes, reply := .nothing }
  | .runTasks conn => { world := w, jobs := [.tasks conn], reply := .nothing }
  | .runDelayed conn =>
    { world := w.modifyConn conn (·.releaseDelayed), jobs := [.tasks conn], reply := .nothing }
  | .endOfStream conn => { world := w.endOfStream conn, jobs := [.tasks conn], reply := .nothing }
  | .resize conn s => { world := w.resize conn s, jobs := [.tasks conn], reply := .nothing }
  | .setHandlers conn f =>
    { world := w.modifyConn conn fun c => { c with handlers := f c.handlers }, reply := .nothing }

end World

namespace Machine

/-- Another world, and jobs to do before all others. -/
def goOn (m : Machine) (w : World) (jobs : List Job) : Machine := ⟨w, jobs ++ m.jobs⟩

/-- A call of the host, with its answer. What the call leads to is put on the stack. -/
def call (m : Machine) (c : Call) : Machine × Reply :=
  let r := m.world.call c
  (m.goOn r.world r.jobs, r.reply)

/-- A call that nobody waits for: its answer becomes a note, once everything is done that it leads
to. -/
def callLater (m : Machine) (c : Call) (n : Reply → Note) : Machine :=
  let r := m.world.call c
  m.goOn r.world (r.jobs ++ [.note (n r.reply)])

/-- A call out of a callback: only a refusal is noted. -/
def callBack (m : Machine) (c : Call) : Machine :=
  let r := m.world.call c
  match r.reply with
  | .engineError e => m.goOn (r.world.note (.restarted e)) r.jobs
  | _ => m.goOn r.world r.jobs

/-- A task of a connection. -/
def runTask (m : Machine) : Task → Machine
  | .deliver n =>
    match m.world.engine? n with
    | none => m
    | some e =>
      if e.busy then m else m.goOn (m.world.setEngine n { e with scheduled := false }) [.deliver n]
  | .resize n s => m.goOn (m.world.receiveSize n s) []
  | .background n calls resume =>
    m.goOn m.world ((calls.map (Job.background n)).toList ++ if resume then [.resume n] else [])

/-- The first waiting task of a connection, and then the others. -/
def runTasks (m : Machine) (conn : Nat) : Machine :=
  match m.world.conns[conn]?.bind Connection.popTask with
  | none => m
  | some (t, c) => (m.goOn (m.world.modifyConn conn fun _ => c) [.tasks conn]).runTask t

/-- An event of an engine's queue handled, and then the rest of the queue. -/
def deliver (m : Machine) (n : Nat) : Machine :=
  match m.world.engine? n with
  | none => m
  | some e =>
    if e.busy then m
    else
      match e.step? with
      | none => m
      | some (.settled e' f) =>
        m.goOn ((m.world.put n e.conn e').close f) (Job.ofFinished f ++ [.deliver n])
      | some (.script e' c h) =>
        let h := { h with calls := h.calls + 1 }
        let w := (m.world.put n e.conn { e' with busy := true }).note (.completeCalled h.calls)
        m.goOn w [.script n c h h.script, .deliver n]

/-- The end of a script: the handler goes back into the session, and the engine is free again. -/
def endScript (m : Machine) (n : Nat) (c : Completion) (h : ScriptedHandler) : Machine :=
  match m.world.engine? n with
  | none => m
  | some e =>
    match e.desk? with
    | none => m
    | some d =>
      let (c, d) := d.endCompletion c (.scripted h) h.deferred
      let (e', f) := ({ e with busy := false }.put (d.settleFocus (.complete c))).takeFinished
      m.goOn ((m.world.put n e.conn e').close f) (Job.ofFinished f)

/-- A step of a script, and then the rest of it. -/
def scriptStep (m : Machine) (n : Nat) (c : Completion) (h : ScriptedHandler)
    (s : ScriptStep) (rest : List ScriptStep) : Machine :=
  match m.world.engine? n with
  | none => m
  | some e =>
    let w := m.world
    let others : List Job := [.script n c h rest]
    match s with
    | .setAsk ask => m.goOn w [.script n c { h with ask } rest]
    | .feed t => m.goOn (w.feed e.conn (Utf8.encodeText t)) others
    | .runTasks => m.goOn w (.tasks e.conn :: others)
    | .resize s => m.goOn (w.resize e.conn s) (.tasks e.conn :: others)
    | .schedule calls resume =>
      let task := Task.background n calls resume
      let w := w.modifyConn e.conn fun c => if h.delayed then c.schedule task else c.execute task
      m.goOn w others
    | s =>
      match e.desk? with
      | none => m
      | some d => m.goOn (w.put n e.conn (e.put (d.scriptStep (w.size e.conn) s))) others

/-- Gives a line to a callback of the host. -/
def callback (host : Host) (m : Machine) (n : Nat) (line : Option Text) : Machine :=
  let journal := m.world.journal
  m.goOn { m.world with journal := { journal with lines := journal.lines.push line } }
    ((host.onLine n line).map .call)

/-- Does a job. -/
def run (host : Host) (m : Machine) : Job → Machine
  | .tasks conn => m.runTasks conn
  | .deliver n => m.deliver n
  | .schedule n => m.goOn (m.world.scheduleDelivery n) []
  | .callback n line => m.callback host n line
  | .call c => m.callBack c
  | .script n c h [] => m.endScript n c h
  | .script n c h (s :: rest) => m.scriptStep n c h s rest
  | .background n calls => m.callLater (.session n calls) .background
  | .resume n => m.callLater (.resume n) .resumed
  | .note n => m.goOn (m.world.note n) []

/-- Does the next job; none if nothing is left to do. -/
def step? (host : Host) (m : Machine) : Option Machine :=
  match m.jobs with
  | [] => none
  | j :: rest => some (run host { m with jobs := rest } j)

/-- At most `n` jobs. -/
def steps (host : Host) : Nat → Machine → Machine
  | 0, m => m
  | n + 1, m =>
    match m.step? host with
    | none => m
    | some m => steps host n m

@[simp] theorem steps_zero (host : Host) (m : Machine) : m.steps host 0 = m := rfl

theorem steps_succ (host : Host) (n : Nat) (m : Machine) :
    m.steps host (n + 1) = ((m.step? host).map (steps host n)).getD m := by
  rw [steps]
  cases m.step? host <;> rfl

/-- A machine with nothing left to do stays as it is. -/
theorem steps_of_settled (host : Host) (n : Nat) {m : Machine} (h : m.step? host = none) :
    m.steps host n = m := by
  cases n with
  | zero => rfl
  | succ n => simp [steps_succ, h]

theorem steps_add (host : Host) (n k : Nat) (m : Machine) :
    m.steps host (n + k) = (m.steps host n).steps host k := by
  induction n generalizing m with
  | zero => simp
  | succ n ih =>
    rw [Nat.succ_add, steps_succ, steps_succ]
    cases h : m.step? host with
    | none => simp [steps_of_settled host k h]
    | some m' => simpa using ih m'

/-- How many jobs a settling may take. -/
def patience : Nat := 1000000000000

/-- Goes on until nothing is left to do. -/
def settle (host : Host) (m : Machine) : Machine := steps host patience m

end Machine

end LineEditor
