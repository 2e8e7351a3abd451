import LineEditor.Display.Redraw
import LineEditor.Session.Basic

/-!
What a session shows. Every change of the buffer goes through `refreshWith`, which writes the update
from the frame on the screen, the shown prompt and the buffer, to the new one. `redraw` draws the
current prompt and the buffer from scratch, for which the cursor has to be at column 0 of an empty
row.
-/
namespace LineEditor

/-- The frame on the screen. -/
def Session.frame (s : Session) : Frame := ⟨s.shown, s.buffer⟩

namespace Desk

/-- Text for the terminal. -/
def write (d : Desk) (t : Text) : Desk := if t.isEmpty then d else d.emit (.write t)

/-- A refused edit: the bell, as far as the bell style rings it. -/
def bell (d : Desk) : Desk :=
  (d.log .trace .session "bell" [("bell_style", .name d.config.bell.name)]).emit .ring

/-- Shows a buffer behind a prompt, which may be a temporary one. -/
def refreshWith (d : Desk) (p : Prompt) (b : Buffer) : Desk :=
  let d := d.write (Draw.renderAll (Frame.update d.session.frame ⟨p, b⟩ d.session.width))
  { d with session := { d.session with shown := p, buffer := b } }

/-- Shows a buffer behind the current prompt. -/
def refresh (d : Desk) (b : Buffer) : Desk := d.refreshWith d.session.current b

/-- Draws the current prompt and the buffer from scratch. -/
def redraw (d : Desk) : Desk :=
  let frame : Frame := ⟨d.session.current, d.session.buffer⟩
  let d := d.emit (.draw (Draw.renderAll (frame.redraw d.session.width)))
  { d with session.shown := d.session.current }

/-- Empties the buffer and draws the current prompt. -/
def resetDisplay (d : Desk) : Desk := redraw { d with session.buffer := .empty }

/-- Goes behind what is shown and starts a new row. -/
def newLine (d : Desk) : Desk :=
  let d := d.write
    (Draw.renderAll (d.session.frame.moveToEnd d.session.width ++ [.newline]))
  { d with session.buffer := d.session.buffer.moveToEnd }

/-- Clears the screen and draws on its first row. -/
def clearScreen (d : Desk) : Desk := (d.write (Draw.renderAll LineEditor.clearScreen)).redraw

/-- The terminal changed its width. -/
def resize (d : Desk) (old new : Nat) : Desk :=
  let d := d.log .debug .session "resize" [("old_width", .number old), ("new_width", .number new)]
  let d := d.write (Draw.renderAll (d.session.frame.resize old new))
  { d with session.width := new }

end Desk

end LineEditor
