import LineEditor.Action.Basic
import LineEditor.Buffer.KillRing
import LineEditor.Buffer.Undo
import LineEditor.Completion.Handler
import LineEditor.Config
import LineEditor.Key.Queue
import LineEditor.Log.Entry

/-!
The state of editing. A session is the reading of one line; an editor is what outlives a line; a
desk is both together, which is what an action works at. Whatever is to be written, rung or logged
is put on the desk's list of effects, in order, for the connection to take.
-/
namespace LineEditor

/-- Who owns a handler of a connection: an engine, or the host, with a mark of its own. -/
inductive Owner where
  | engine (n : Nat)
  | host (mark : Nat)
  deriving DecidableEq, Repr

/-- The handlers installed on a connection. -/
structure Handlers where
  input : Option Owner := none
  size : Option Owner := none
  signal : Option Owner := none
  deriving DecidableEq, Repr

/-- The reading of one line. It owns what is on the screen: the prompt that was drawn, the buffer
behind it and the cursor. -/
structure Session where
  conn : Nat
  prompt : Prompt
  /-- The continuation prompt while continuation lines are read. -/
  current : Prompt
  /-- The prompt on the screen, which is not the current one while an action shows its own. -/
  shown : Prompt
  continuation : Prompt
  buffer : Buffer := .empty
  /-- The continuation lines so far. -/
  line : Buffer := .empty
  paused : Bool := false
  width : Nat
  outcome : Outcome := .reading
  data : List (Text × Text) := []
  focus : Option Action := none
  handler : Option Handler := none
  /-- Which of the host's callbacks receives the line. -/
  callback : Nat
  /-- Whether the last edit was a typed character. -/
  typing : Bool := false
  /-- The handlers to put back when the session ends. -/
  previous : Handlers := {}

/-- Something a host is told about the work of scripted handlers and of its own handlers. -/
inductive Note where
  | completeCalled (n : Nat)
  | askSet (ask : Bool)
  | probed (r : Reply)
  | newestKill (t : Option Text)
  | undoDepth (n : Nat)
  | history (r : Reply)
  | killRange (killed : Bool)
  | queryItems (n : Nat)
  | session (rs : List Reply)
  | background (r : Reply)
  | resumed (r : Reply)
  | restarted (e : EngineError)
  | input (t : Text)
  | resized (s : Size)
  | signal (s : Signal) (c : Char)

/-- Something to do outside of the editor. -/
inductive Effect where
  | write (t : Text)
  /-- Text that draws a whole frame; the cursor has to be at column 0 of an empty row. -/
  | draw (t : Text)
  | ring
  | log (e : Log.Entry)
  | note (n : Note)

/-- What outlives a line, with the effects that were not taken yet. -/
structure Editor where
  config : Config
  keymap : Keymap
  queue : EventQueue := {}
  history : History
  kills : KillRing := .new KillRing.defaultLimit
  undo : UndoStack := .new UndoStack.defaultLimit
  effects : List Effect := []

/-- What an action works at. -/
structure Desk extends Editor where
  session : Session

namespace Editor

/-- An effect behind the others. -/
def emit (d : Editor) (e : Effect) : Editor := { d with effects := d.effects ++ [e] }

/-- An entry for the log. -/
def log (d : Editor) (level : Log.Level) (site : Log.Site) (message : String)
    (fields : List (String × Log.Value)) : Editor :=
  d.emit (.log ⟨level, site, message, fields⟩)

/-- What a new line starts with: inserting, nothing to undo, and both history cursors back. -/
def freshLine (d : Editor) : Editor :=
  { d with keymap := d.keymap.reset, undo := d.undo.clear, history := d.history.reset }

end Editor

namespace Desk

/-- An effect behind the others. -/
def emit (d : Desk) (e : Effect) : Desk := { d with toEditor := d.toEditor.emit e }

/-- An entry for the log. -/
def log (d : Desk) (level : Log.Level) (site : Log.Site) (message : String)
    (fields : List (String × Log.Value)) : Desk :=
  { d with toEditor := d.toEditor.log level site message fields }

/-- Input stops being delivered. -/
def pause (d : Desk) : Desk := { d with session.paused := true }

/-- Input is delivered again. -/
def resume (d : Desk) : Desk := { d with session.paused := false }

/-- The Vi state set. -/
def setVi (d : Desk) (v : ViState) : Desk :=
  if d.keymap.style = .vi then
    { d with keymap := d.keymap.setVi v }.log .trace .keymap "vi status"
      [("vi_status", .name v.name)]
  else d

end Desk

end LineEditor
