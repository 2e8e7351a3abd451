import LineEditor.Input.Control
import LineEditor.Keymap.Basic
import LineEditor.History

/-!
The settings of an engine.
-/
namespace LineEditor

/-- What to do when an edit is refused. -/
inductive BellStyle where
  | audible | none
  deriving DecidableEq, Repr

namespace BellStyle

/-- The name of a bell style. -/
def name : BellStyle → String
  | audible => "audible"
  | none => "none"

/-- The bell style of that name. -/
def ofName? (s : String) : Option BellStyle := [audible, none].find? fun x => x.name == s

end BellStyle

/-- The settings of an engine. -/
structure Config where
  style : EditStyle := .emacs
  controls : ControlChars := {}
  historyLimit : Nat := History.defaultLimit
  continuation : Text := ['>', ' ']
  bell : BellStyle := .audible
  /-- More candidates than this are listed only after a question. -/
  queryItems : Nat := 100
  deriving DecidableEq, Repr

end LineEditor
