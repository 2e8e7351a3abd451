import LineEditor.Session.Answer

/-!
The engine: an editor with at most one session. Input is queued as it arrives and is handled event
by event while a session is read that is not paused. The interrupt character drops the line and
starts over, the end of file character on an empty buffer ends the session, and every other event
goes to the desk.

Main definitions: `start` begins a session, `step?` handles the next queued event, `takeFinished`
ends a session whose outcome is settled, `resume` ends a pause.
-/
namespace LineEditor

/-- An editor with at most one session. -/
structure Engine extends Editor where
  session : Option Session := none
  /-- The width the screen was drawn for when the terminal changed its size during a pause. -/
  pendingResize : Option Nat := none
  /-- Whether a delivery of the queued input was asked for and has not begun. -/
  scheduled : Bool := false
  /-- Whether the script of a completion handler is running. -/
  busy : Bool := false

/-- What to read: on which connection, behind which prompt, and with which completion handler. -/
structure Request where
  engine : Nat
  conn : Nat
  prompt : Prompt
  handler : Option Handler

/-- A session that is over: the callback that receives the line, and the handlers to put back. -/
structure Finished where
  callback : Nat
  line : Option Text
  conn : Nat
  previous : Handlers
  deriving DecidableEq, Repr

/-- A session before anything is typed. -/
def Session.begin (r : Request) (config : Config) (callback width : Nat) (previous : Handlers) :
    Session :=
  { conn := r.conn
    prompt := r.prompt
    current := r.prompt
    shown := r.prompt
    continuation := ⟨config.continuation⟩
    width
    handler := r.handler
    callback
    previous }

/-- A session with everything typed dropped, for the same prompt, callback and handlers. -/
def Session.restart (s : Session) : Session :=
  { conn := s.conn
    prompt := s.prompt
    current := s.prompt
    shown := s.prompt
    continuation := s.continuation
    width := s.width
    handler := s.handler
    callback := s.callback
    previous := s.previous }

/-- The line a settled outcome stands for. -/
def Outcome.line? : Outcome → Option (Option Text)
  | reading => none
  | accepted line => some (some line)
  | eof => some none

/-- A line in the log. -/
def describeLine : Option Text → Text
  | some line => "Some(".toList ++ Text.literal line ++ [')']
  | none => "None".toList

/-- The question of a session's completion handler dropped. -/
def Desk.dropQuestion (d : Desk) : Desk :=
  match d.session.handler with
  | none => d
  | some h =>
    let (h, d) := d.setAsk h false
    { d with session.handler := some h }

/-- Drops the line and starts over on a new row. -/
def Desk.startOver (d : Desk) : Desk :=
  let d := (d.log .debug .engine "interrupt" []).newLine.dropQuestion
  Desk.redraw { toEditor := d.toEditor.freshLine, session := d.session.restart }

namespace Engine

/-- An engine with lines in its history, oldest first. -/
def new (config : Config) (lines : List Text) : Engine :=
  { config
    keymap := .new config.style
    history := .ofEntries config.historyLimit lines }

/-- The desk of the session. -/
def desk? (e : Engine) : Option Desk :=
  e.session.map fun s => { toEditor := e.toEditor, session := s }

/-- The engine with its desk as work left it. -/
def put (e : Engine) (d : Desk) : Engine :=
  { e with toEditor := d.toEditor, session := some d.session }

/-- Whether a session is read that is not paused. -/
def isListening (e : Engine) : Bool := e.session.any fun s => !s.paused

/-- Whether queued input can be handled. -/
def canDeliver (e : Engine) : Bool := e.queue.hasNext && e.isListening

/-- Begins a session. -/
def start (e : Engine) (r : Request) (callback width : Nat) (previous : Handlers) : Engine :=
  let editor := e.toEditor.freshLine.log .debug .engine "readline"
    [("prompt", .quoted r.prompt.text)]
  let session := Session.begin r e.config callback width previous
  let d := Desk.redraw { toEditor := editor, session }
  { e with toEditor := d.toEditor, session := some d.session, pendingResize := none }

/-- Ends a session whose outcome is settled. -/
def takeFinished (e : Engine) : Engine × Option Finished :=
  match e.session with
  | none => (e, none)
  | some s =>
    match s.outcome.line? with
    | none => (e, none)
    | some line =>
      let editor := e.toEditor.log .debug .engine "line done"
        [("maybe_line", .plain (describeLine line))]
      ({ e with toEditor := editor, session := none },
        some { callback := s.callback, line, conn := s.conn, previous := s.previous })

/-- How the handling of an event ends. -/
inductive Handled where
  | settled (e : Engine) (f : Option Finished)
  /-- The script of a completion handler has to be run. -/
  | script (e : Engine) (c : Completion) (h : ScriptedHandler)

/-- An event handled, for the session at a desk. -/
def handle (e : Engine) (d : Desk) (event : KeyEvent) : Handled :=
  let single := event.singleCodePoint?
  if single = some e.config.controls.interrupt then
    .settled { e.put d.startOver with pendingResize := none } none
  else if single = some e.config.controls.eof && d.session.buffer.isEmpty then
    let d := d.log .debug .engine "end of file" []
    let (e, f) := (e.put { d with session.outcome := .eof }).takeFinished
    .settled e f
  else
    match d.dispatch event with
    | .finished d =>
      let (e, f) := (e.put d).takeFinished
      .settled e f
    | .script c h d => .script (e.put d) c h

/-- The next queued event handled; none if no input can be handled. -/
def step? (e : Engine) : Option Handled :=
  if e.isListening then
    match e.queue.next e.keymap.recognizes, e.desk? with
    | some (event, queue), some d => some (handle e { d with queue } event)
    | _, _ => none
  else none

/-- A pause ended, on a terminal of `width` columns: a change of width that arrived meanwhile is
carried out, and a session whose outcome is settled ends. -/
def resume (e : Engine) (width : Nat) : Except EngineError (Engine × Option Finished) :=
  match e.desk? with
  | none => .error .noInteraction
  | some d =>
    if d.session.paused then
      let d := d.resume
      let d := match d.session.outcome, e.pendingResize with
        | .reading, some old => if old = width then d else d.resize old width
        | _, _ => d
      let d := d.log .debug .engine "resume" []
      .ok { e.put d with pendingResize := none }.takeFinished
    else .error .notPaused

/-- The terminal changed its size: the line is drawn again, or later if the session is paused. -/
def resized (e : Engine) (size : Size) : Engine :=
  match e.desk? with
  | none => e
  | some d =>
    if d.session.paused then
      let d := d.log .debug .engine "resize deferred" [("size", .plain size.describe)]
      { e.put d with pendingResize := some (e.pendingResize.getD d.session.width) }
    else if d.session.width ≠ size.cols then e.put (d.resize d.session.width size.cols)
    else e

/-- Calls on the session, on a terminal of a size. A session that they settle ends, unless it is
paused. -/
def answers (e : Engine) (size : Size) (calls : List SessionCall) :
    Except EngineError (Engine × List Reply × Option Finished) :=
  match e.desk? with
  | none => .error .noInteraction
  | some d =>
    let (d, replies) := d.answers size calls
    let e := e.put d
    if d.session.paused then .ok (e, replies, none)
    else
      let (e, f) := e.takeFinished
      .ok (e, replies, f)

end Engine

end LineEditor
