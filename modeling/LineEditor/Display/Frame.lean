import LineEditor.Text.Visible
import LineEditor.Buffer.Basic

/-!
The composite line: a prompt followed by a buffer. Every visible code point of the prompt and every
code point of the buffer takes one column, so offset `k` of the composite line is at row `k / width`
and column `k % width`, counted from the row the prompt starts on.
-/
namespace LineEditor

/-- A row and a column. -/
structure Point where
  row : Nat := 0
  col : Nat := 0
  deriving DecidableEq, Repr

/-- Where an offset of the composite line is on a terminal of `width` columns, where 0 columns count
as 1. -/
def position (offset width : Nat) : Point :=
  ⟨offset / max width 1, offset % max width 1⟩

/-- The text before the buffer, which may hold escape sequences. -/
structure Prompt where
  text : Text
  deriving DecidableEq, Repr

/-- The columns a prompt takes. -/
def Prompt.width (p : Prompt) : Nat := (Text.visible p.text).length

/-- A prompt and the buffer behind it. -/
structure Frame where
  prompt : Prompt
  buffer : Buffer
  deriving DecidableEq, Repr

namespace Frame

/-- The columns a frame takes. -/
def length (f : Frame) : Nat := f.prompt.width + f.buffer.length

/-- The offset of the cursor. -/
def cursor (f : Frame) : Nat := f.prompt.width + f.buffer.cursor

/-- The place behind the last code point. -/
def endPosition (f : Frame) (width : Nat) : Point := position f.length width

/-- The place of the cursor. -/
def cursorPosition (f : Frame) (width : Nat) : Point := position f.cursor width

end Frame

end LineEditor
