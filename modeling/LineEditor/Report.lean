import LineEditor.Buffer.Basic
import LineEditor.Log.Entry

/-!
The errors that callers of an engine see, and how an error is reported to a user. Conditions that
end a session (a line, the end of file, an interrupt) are no errors.
-/
namespace LineEditor

/-- Why a call of the engine is refused. -/
inductive EngineError where
  | alreadyReading
  | noInteraction
  | notPaused
  | reentrant
  | io (message : Text)
  deriving DecidableEq, Repr

namespace EngineError

/-- The wording of an error. -/
def message : EngineError → Text
  | alreadyReading => "readline is already reading a line on this engine".toList
  | noInteraction => "there is no active interaction".toList
  | notPaused => "the active interaction is not paused".toList
  | reentrant => "the engine was called from inside one of its own actions".toList
  | io message => message

/-- The code of an error. -/
def code : EngineError → String
  | alreadyReading => programName ++ "::already_reading"
  | noInteraction => programName ++ "::no_interaction"
  | notPaused => programName ++ "::not_paused"
  | reentrant => programName ++ "::reentrant"
  | io _ => programName ++ "::io"

/-- What to do about an error. -/
def help : EngineError → Option String
  | alreadyReading => some "wait for the line callback to run before calling readline again"
  | reentrant => some "defer the call with Connection::execute or Connection::schedule"
  | noInteraction | notPaused | io _ => none

end EngineError

/-- A message for the user, with a code and advice if there are any. -/
structure Report where
  message : Text
  code : Option String := none
  help : Option String := none
  deriving DecidableEq, Repr

namespace Report

/-- The report of an engine error. -/
def ofEngineError (e : EngineError) : Report := ⟨e.message, some e.code, e.help⟩

/-- The report of an edit error. -/
def ofEditError (e : EditError) : Report := { message := e.message }

/-- The lines of a text. -/
def splitLines : Text → List Text
  | [] => [[]]
  | c :: rest =>
    if c = '\n' then [] :: splitLines rest
    else
      match splitLines rest with
      | line :: lines => (c :: line) :: lines
      | [] => [[c]]

/-- The lines of a report: the code and an empty line, the message with a mark before its first
line and a bar before the others, the advice, an empty line and the address for issues. -/
def lines (r : Report) (issues : String) : List Text :=
  (match r.code with
    | some code => [code.toList, []]
    | none => []) ++
  (match splitLines r.message with
    | first :: others =>
      ("  × ".toList ++ first) :: others.map ("  │ ".toList ++ ·)
    | [] => []) ++
  (match r.help with
    | some help => ["  help: ".toList ++ help.toList]
    | none => []) ++
  [[], "  ".toList ++ issues.toList]

/-- A report as it is printed: every line ends in a newline. -/
def render (r : Report) (issues : String) : Text := (r.lines issues).flatMap (· ++ ['\n'])

end Report

end LineEditor
