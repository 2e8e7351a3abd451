import LineEditor.Session.Dispatch

/-!
Calls on a session from outside of an action. They work on what is shown and on the state of the
session, and each has an answer.
-/
namespace LineEditor

/-- A value under a key, instead of what was there. -/
def Session.setData (s : Session) (key value : Text) : Session :=
  { s with data := (key, value) :: s.data.filter fun e => e.1 ≠ key }

/-- The value under a key. -/
def Session.getData? (s : Session) (key : Text) : Option Text :=
  (s.data.find? fun e => e.1 = key).map Prod.snd

/-- What a host can see of a session on a terminal of a size. -/
def Session.info (s : Session) (size : Size) : SessionInfo :=
  { prompt := s.prompt.text
    current := s.current.text
    shown := s.shown.text
    continuation := s.continuation.text
    shownWidth := s.shown.width
    width := s.width
    paused := s.paused
    outcome := s.outcome
    hasHandler := s.handler.isSome
    hasFocus := s.focus.isSome
    dataCount := s.data.length
    line := s.line.text
    size }

/-- How a session ends that was given a line, or none at the end of file. -/
def Outcome.ofLine : Option Text → Outcome
  | some line => .accepted line
  | none => .eof

namespace Desk

/-- One call on the session, on a terminal of a size. -/
def answer (size : Size) (d : Desk) : SessionCall → Desk × Reply
  | .refresh b => (d.refresh b, .nothing)
  | .refreshPrompt p b => (d.refreshWith p b, .nothing)
  | .insert t =>
    match d.session.buffer.insert t with
    | .ok b => (d.refresh b, .nothing)
    | .error e => (d, .editError e)
  | .setPrompt p => ({ d with session.current := p }, .nothing)
  | .redraw => (d.redraw, .nothing)
  | .resetDisplay => (d.resetDisplay, .nothing)
  | .newLine => (d.newLine, .nothing)
  | .clearScreen => (d.clearScreen, .nothing)
  | .resize old new => (d.resize old new, .nothing)
  | .write t => (d.write t, .nothing)
  | .bell => (d.bell, .nothing)
  | .pause => (d.pause, .nothing)
  | .resume => (d.resume, .nothing)
  | .finish line => ({ d with session.outcome := .ofLine line }, .nothing)
  | .setLine t => ({ d with session.line := .ofText t }, .nothing)
  | .takeHandler => ({ d with session.handler := none }, .flag d.session.handler.isSome)
  | .setHandler words =>
    let handler := .candidates { completer := .ofWords words }
    ({ d with session.handler := some handler }, .nothing)
  | .setData key value => ({ d with session := d.session.setData key value }, .nothing)
  | .getData key => (d, .text? (d.session.getData? key))
  | .info => (d, .info (d.session.info size))

/-- Several calls in turn. -/
def answers (size : Size) (d : Desk) (calls : List SessionCall) : Desk × List Reply :=
  collectEach (answer size) d calls

end Desk

end LineEditor
