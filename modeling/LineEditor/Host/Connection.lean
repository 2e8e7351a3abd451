import LineEditor.Display.Screen
import LineEditor.Input.Control
import LineEditor.Session.Basic
import LineEditor.Text.Utf8

/-!
A connection to a terminal. Input arrives as bytes, is decoded and split, and goes to the handlers
that are installed; output lands on a screen and in a transcript, where a newline also returns to
column 0. Tasks wait in the order they came until somebody runs them; delayed tasks wait apart.
Installing handlers gives the ones they replace, so that they can be put back.
-/
namespace LineEditor

/-- How newlines are written. -/
inductive NewlineMode where
  | translate | raw
  deriving DecidableEq, Repr

/-- A text as a terminal receives it: in translating mode a carriage return goes before each
newline. -/
def NewlineMode.apply (m : NewlineMode) (t : Text) : Text :=
  match m with
  | raw => t
  | translate => t.flatMap fun c => if c = '\n' then ['\r', c] else [c]

/-- Work that waits on a connection. -/
inductive Task where
  /-- Handle the queued input of an engine. -/
  | deliver (engine : Nat)
  /-- Tell an engine the new size. -/
  | resize (engine : Nat) (s : Size)
  /-- Calls on the session of an engine, and whether the session is resumed then. -/
  | background (engine : Nat) (calls : Option (List SessionCall)) (resume : Bool)
  deriving DecidableEq, Repr

/-- A connection to a terminal. -/
structure Connection where
  size : Size
  controls : ControlChars
  decoder : Utf8.Decoder := {}
  handlers : Handlers := {}
  tasks : List Task := []
  delayed : List Task := []
  screen : Screen
  output : Array Char := #[]

namespace Connection

/-- A connection to an empty terminal. -/
def new (size : Size) (controls : ControlChars) : Connection :=
  { size, controls, screen := .blank size.cols }

/-- Writes a text. -/
def write (c : Connection) (t : Text) : Connection :=
  let t := NewlineMode.translate.apply t
  { c with screen := c.screen.write t, output := c.output ++ t }

/-- Installs handlers, with those that they replace. -/
def install (c : Connection) (h : Handlers) : Connection × Handlers :=
  ({ c with handlers := h }, c.handlers)

/-- Work behind what waits already. -/
def execute (c : Connection) (t : Task) : Connection := { c with tasks := c.tasks ++ [t] }

/-- Work that waits for a delay. -/
def schedule (c : Connection) (t : Task) : Connection := { c with delayed := c.delayed ++ [t] }

/-- The first of the waiting tasks taken off. -/
def popTask (c : Connection) : Option (Task × Connection) :=
  match c.tasks with
  | [] => none
  | t :: rest => some (t, { c with tasks := rest })

/-- All delays have passed. -/
def releaseDelayed (c : Connection) : Connection :=
  { c with tasks := c.tasks ++ c.delayed, delayed := [] }

/-- The terminal has a new size. -/
def setSize (c : Connection) (s : Size) : Connection :=
  { c with size := s, screen := c.screen.setWidth s.cols }

/-- What code points are delivered, each piece with the owner of the handler that takes it. -/
def deliveries (c : Connection) (t : Text) : List (Owner × Delivery) :=
  (c.controls.split c.handlers.signal.isSome t).filterMap fun d =>
    match d with
    | .read _ => c.handlers.input.map fun o => (o, d)
    | .signal .. => c.handlers.signal.map fun o => (o, d)

/-- Bytes arrive. -/
def receive (c : Connection) (bytes : List UInt8) : Connection × List (Owner × Delivery) :=
  let (decoder, t) := c.decoder.decode bytes
  ({ c with decoder }, c.deliveries t)

/-- The stream of bytes ends. -/
def endOfStream (c : Connection) : Connection × List (Owner × Delivery) :=
  let (decoder, last) := c.decoder.finish
  ({ c with decoder }, c.deliveries last.toList)

end Connection

end LineEditor
