import LineEditor.Reply
import LineEditor.Display.Frame
import LineEditor.Keymap.Basic

/-!
What hosts and completion handlers ask for, as data: calls on a session from outside of an action,
and the steps of a scripted completion handler, which runs inside of one.
-/
namespace LineEditor

/-- A call on the session that is being read. -/
inductive SessionCall where
  | refresh (b : Buffer)
  | refreshPrompt (p : Prompt) (b : Buffer)
  | insert (t : Text)
  | setPrompt (p : Prompt)
  | redraw
  | resetDisplay
  | newLine
  | clearScreen
  | resize (old new : Nat)
  /-- Text for the terminal. -/
  | write (t : Text)
  | bell
  | pause
  | resume
  /-- Ends the session with a line, or at the end of file. -/
  | finish (line : Option Text)
  /-- Replaces the continuation lines so far. -/
  | setLine (t : Text)
  | takeHandler
  | setHandler (words : List Text)
  | setData (key value : Text)
  | getData (key : Text)
  | info
  deriving DecidableEq, Repr

/-- A call of the engine that an action must not make. -/
inductive EngineProbe where
  | viStatus | style | queueEvent | resume | withHistory | withSession | bind | readline
  | isReading | isPaused | buffer | describe
  deriving DecidableEq, Repr

/-- A step of a scripted completion handler. -/
inductive ScriptStep where
  | probe (p : EngineProbe)
  | queue (t : Text)
  | kill (t : Text)
  | newestKill
  | undoDepth
  | history (c : HistoryCall)
  /-- Applies the action of a command. -/
  | apply (k : Command)
  /-- Applies a command as one that finishes in one step. -/
  | basic (k : Command)
  | killRange (first last : Nat)
  | applyEdit (b : Buffer)
  | setVi (v : ViState)
  | bind (e : KeyEvent) (k : Command)
  | queryItems
  /-- Sets whether the handler is asking. -/
  | setAsk (ask : Bool)
  | session (calls : List SessionCall)
  /-- Input arrives on the connection. -/
  | feed (t : Text)
  /-- The connection runs its tasks. -/
  | runTasks
  /-- The terminal changes its size. -/
  | resize (s : Size)
  /-- Work for later: calls on the session, and whether the session is resumed then. -/
  | schedule (calls : Option (List SessionCall)) (resume : Bool)
  deriving DecidableEq, Repr

end LineEditor
