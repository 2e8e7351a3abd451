import LineEditor.Display.Frame
import LineEditor.Display.Draw

/-!
Turns one rendering of the composite line into another. Only relative motion and erasing to the end
of a row are used, since nobody knows which row of the terminal the prompt starts on.

A terminal that prints into its last column leaves the cursor there until the next code point
arrives. Whenever a write ends on a row boundary the wrap is forced by a space and a return to
column 0, so that the cursor is where `position` says.

Main definitions: `redraw` draws a frame on an empty row, `update` turns the frame on the screen
into another one, `resize` draws it again for another width, and `moveToEnd` goes behind it.
-/
namespace LineEditor

/-- Moves the cursor from one place to another. -/
def moveTo (source target : Point) : List Draw :=
  (if target.row < source.row then [.up (source.row - target.row)]
    else if source.row < target.row then [.down (target.row - source.row)]
    else []) ++
  (if target.col = source.col then []
    else if target.col = 0 then [.carriageReturn]
    else if source.col < target.col then [.right (target.col - source.col)]
    else [.left (source.col - target.col)])

/-- Forces the wrap after a write that ended at offset `stop`, if that is a row boundary. -/
def settleWrap (stop width : Nat) : List Draw :=
  if stop % max width 1 = 0 then [.text [' '], .carriageReturn] else []

/-- Erases `n` rows below the cursor, which ends up at the start of the last of them. -/
def eraseRowsBelow (n : Nat) : List Draw :=
  (List.replicate n [Draw.down 1, .carriageReturn, .eraseRight]).flatten

/-- Erases `n` rows above the row of the cursor and that row itself, from the bottom up. -/
def eraseRowsUpward (n : Nat) : List Draw :=
  (List.replicate n [Draw.eraseRight, .up 1]).flatten ++ [.eraseRight]

namespace Frame

/-- Draws a frame. The cursor has to be at column 0 of an empty row. -/
def redraw (f : Frame) (width : Nat) : List Draw :=
  [.text f.prompt.text, .text f.buffer.text] ++
  (if f.length = 0 then [] else settleWrap f.length width) ++
  [.eraseRight] ++
  moveTo (f.endPosition width) (f.cursorPosition width)

/-- The offset at which writing starts that turns one frame into another: the first difference, or
the start of the line if the prompts differ. -/
def firstChange (old new : Frame) : Nat :=
  if old.prompt = new.prompt then
    new.prompt.width + Text.sharedLength old.buffer.text new.buffer.text
  else 0

/-- Turns the frame on the screen into another one; nothing is written for the same frame. -/
def update (old new : Frame) (width : Nat) : List Draw :=
  let same := old.prompt = new.prompt
  let diff := firstChange old new
  if diff < new.length ∨ new.length < old.length ∨ ¬ same then
    let stop := if diff < new.length then new.length else diff
    let stopAt := position stop width
    let lastRow := (old.length - 1) / max width 1
    moveTo (old.cursorPosition width) (position diff width) ++
    (if same then [] else [.text new.prompt.text]) ++
    [.text (new.buffer.text.drop (diff - new.prompt.width))] ++
    (if diff < new.length then settleWrap new.length width else []) ++
    (if new.length < old.length then
      .eraseRight :: eraseRowsBelow (lastRow - stopAt.row) ++
      moveTo (if stopAt.row < lastRow then ⟨lastRow, 0⟩ else stopAt) (new.cursorPosition width)
    else moveTo stopAt (new.cursorPosition width))
  else moveTo (old.cursorPosition width) (new.cursorPosition width)

/-- Goes behind the last code point of the frame on the screen. -/
def moveToEnd (f : Frame) (width : Nat) : List Draw :=
  moveTo (f.cursorPosition width) (f.endPosition width)

/-- Draws a frame again after the terminal changed from `old` to `new` columns. Rows are taken not
to reflow, so the rows of the old drawing and the row of the cursor both follow the old width. -/
def resize (f : Frame) (old new : Nat) : List Draw :=
  let cursorRow := (f.cursorPosition old).row
  let endRow := (f.endPosition old).row
  .carriageReturn ::
  (if cursorRow < endRow then [.down (endRow - cursorRow)] else []) ++
  eraseRowsUpward endRow ++
  f.redraw new

end Frame

/-- Clears the screen and goes to its first row. -/
def clearScreen : List Draw := [.eraseScreen, .home]

end LineEditor
