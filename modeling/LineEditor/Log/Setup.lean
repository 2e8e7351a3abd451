import LineEditor.Log.Entry

/-!
Where a host sends the log. A line editor owns the terminal, so the usual choice is a file. Setting
up is refused for a path without a file name, and when another log is in place already.
-/
namespace LineEditor.Log

/-- A display the log may go to. -/
inductive Display where
  | stdout | stderr
  deriving DecidableEq, Repr

/-- The name of a display. -/
def Display.name : Display → String
  | stdout => "stdout"
  | stderr => "stderr"

/-- Where the log goes and how much it keeps. -/
structure Setup where
  level : Level := .debug
  display : Option Display := none
  file : Option String := none
  deriving DecidableEq, Repr

/-- Why a log cannot be set up. -/
inductive SetupError where
  | noFileName (path : String)
  | alreadyInstalled
  deriving DecidableEq, Repr

/-- The wording of a refusal. -/
def SetupError.message : SetupError → String
  | noFileName path => "Can't use " ++ path ++ " as a log file, it has no file name."
  | alreadyInstalled =>
    "Can't install tracing subscriber: a global default trace dispatcher has already been set"

namespace Setup

/-- The file used when none is named. -/
def defaultFile : String := "readline_debug.log"

/-- A log in a file. -/
def toFile (file : Option String) (level : Level) : Setup :=
  { level, file := some (file.getD defaultFile) }

/-- A log on a display. -/
def toDisplay (display : Display) (level : Level) : Setup := { level, display := some display }

/-- A log both in a file and on a display. -/
def toBoth (file : Option String) (display : Display) (level : Level) : Setup :=
  { level, display := some display, file := some (file.getD defaultFile) }

/-- No log. -/
def disabled : Setup := { level := .off }

/-- Whether a log goes nowhere. -/
def isDisabled (s : Setup) : Bool := s.display.isNone && s.file.isNone

/-- Whether a path ends in a file name: its last part, empty parts and single dots aside, is there
and does not lead to the parent directory. -/
def hasFileName (path : String) : Bool :=
  let parts := (path.splitOn "/").filter fun part => part != "" && part != "."
  match parts.getLast? with
  | some last => last != ".."
  | none => false

/-- How many layers a log has: its level, its display and its file; none if it goes nowhere. -/
def layers (s : Setup) : Except SetupError (Option Nat) :=
  if s.isDisabled then .ok none
  else
    match s.file with
    | some path =>
      if hasFileName path then .ok (some (2 + s.display.toList.length))
      else .error (.noFileName path)
    | none => .ok (some (1 + s.display.toList.length))

/-- Sets up a log beside one that may be in place already. A log that goes nowhere needs no
setting up. -/
def install (s : Setup) (inPlace : Bool) : Except SetupError Unit := do
  match ← s.layers with
  | none => .ok ()
  | some _ => if inPlace then .error .alreadyInstalled else .ok ()

end Setup

end LineEditor.Log
