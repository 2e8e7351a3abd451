import LineEditor.Display.Frame
import LineEditor.History
import LineEditor.Key.Event
import LineEditor.Keymap.Command

/-!
Incremental history search: what a key asks of it and what it shows. While it has focus the prompt
names the direction and the query, followed by the matching entry with the cursor on the match.
Most keys that are bound to something else end the search and keep the result.

Main definitions: `Search.input` takes a key, `Search.prompt` and `Search.shownBuffer` are what is
shown.
-/
namespace LineEditor

/-- What the last key asked of a search. -/
inductive SearchStatus where
  | notStarted
  /-- The query got longer. -/
  | input
  /-- On to older entries. -/
  | previous
  /-- On to newer entries. -/
  | next
  /-- The query got shorter. -/
  | delete
  /-- Take the result and accept it. -/
  | accept
  /-- Take the result and go on editing. -/
  | exit
  /-- Give up, with an empty line. -/
  | interrupt
  /-- Take the entry before the result. -/
  | movePrevious
  /-- Take the entry after the result. -/
  | moveNext
  /-- Take the result, with the cursor at its end. -/
  | moveRight
  deriving DecidableEq, Repr

/-- The name of a status in the log. -/
def SearchStatus.name : SearchStatus → String
  | notStarted => "NotStarted"
  | input => "Input"
  | previous => "Prev"
  | next => "Next"
  | delete => "Delete"
  | accept => "End"
  | exit => "Exit"
  | interrupt => "Interrupt"
  | movePrevious => "MovePrev"
  | moveNext => "MoveNext"
  | moveRight => "MoveRight"

/-- A search under way. -/
structure Search where
  direction : Direction
  status : SearchStatus := .notStarted
  query : Text := []
  result : Option Text := none
  deriving DecidableEq, Repr

namespace Search

/-- The command that starts a search in this direction. -/
def command (s : Search) : Command :=
  match s.direction with
  | .reverse => .reverseSearchHistory
  | .forward => .forwardSearchHistory

/-- What a key asks for that is bound to `bound`, where a key that is not bound is a character of
the query or ends the search. -/
def statusFor (bound : Option Command) (e : KeyEvent) : SearchStatus :=
  if e = .key .escape then .exit
  else
    match bound with
    | some .interrupt => .interrupt
    | some .acceptLine => .accept
    | some .reverseSearchHistory => .previous
    | some .forwardSearchHistory => .next
    | some .backwardDeleteChar => .delete
    | some .previousHistory => .movePrevious
    | some .nextHistory => .moveNext
    | some .forwardChar => .moveRight
    | some _ => .exit
    | none => if e.isPrintable then .input else .exit

/-- The next key, with what it is bound to. -/
def input (s : Search) (bound : Option Command) (e : KeyEvent) : Search :=
  let status := statusFor bound e
  match status, e with
  | .input, .char c => { s with status, query := s.query ++ [c] }
  | _, _ => { s with status }

/-- Whether the next key goes to the search. -/
def keepsFocus (s : Search) : Bool :=
  match s.status with
  | .input | .previous | .next | .delete => true
  | _ => false

/-- The result for editing, with the cursor at its end. -/
def resultBuffer (s : Search) : Buffer := Buffer.ofText (s.result.getD [])

/-- The prompt while a search has focus. -/
def prompt (s : Search) : Prompt :=
  let label := match s.direction with
    | .reverse => "reverse"
    | .forward => "forward"
  ⟨['('] ++ label.toList ++ "-i-search) `".toList ++ s.query ++ "': ".toList⟩

/-- The result with the cursor on the first occurrence of the query. -/
def shownBuffer (s : Search) : Buffer :=
  match Text.indexOf? s.query (s.result.getD []) with
  | some n => s.resultBuffer.setCursor n
  | none => s.resultBuffer

end Search

end LineEditor
