import LineEditor.Session.Edit

/-!
The commands that finish in one step: motions, deletions, edits, stepping through the history,
clearing the screen and switching the Vi state.
-/
namespace LineEditor

/-- The buffer after a motion; none for a command that is no motion. -/
def Buffer.move? (b : Buffer) : Command → Option Buffer
  | .backwardChar => some (b.moveBy (-1))
  | .forwardChar => some (b.moveBy 1)
  | .beginningOfLine => some (b.setCursor 0)
  | .endOfLine => some b.moveToEnd
  | .backwardWord => some (b.setCursor (b.previousWordStart b.cursor))
  | .forwardWord => some (b.setCursor (b.nextWordEnd b.cursor))
  | .viForwardWord => some (b.setCursor (b.nextWordStart b.cursor))
  | _ => none

/-- What a command cuts: the first place and the one behind the last; none for a command that cuts
nothing. -/
def Buffer.killSpan? (b : Buffer) : Command → Option (Nat × Nat)
  | .killLine | .viChangeToEnd => some (b.cursor, b.length)
  | .backwardKillLine => some (0, b.cursor)
  | .killWholeLine => some (0, b.length)
  | .killWord => some (b.cursor, b.nextWordEnd b.cursor)
  | .backwardKillWord => some (b.previousWordStart b.cursor, b.cursor)
  | .unixWordRubout => some (b.previousBlankWordStart b.cursor, b.cursor)
  | _ => none

namespace Desk

/-- Shows what the history fetched, if it fetched anything. -/
def showFetched (d : Desk) (fetched : History × Option Text) : Desk :=
  let d := { d with history := fetched.1 }
  match fetched.2 with
  | some line => d.refresh (.ofText line)
  | none => d

/-- A command that finishes in one step, before the session is resumed. -/
def basicStep (d : Desk) (k : Command) : Desk :=
  let b := d.session.buffer
  match k with
  | .backwardChar | .forwardChar | .beginningOfLine | .endOfLine | .backwardWord | .forwardWord
  | .viForwardWord => d.refresh ((b.move? k).getD b)
  | .backwardDeleteChar =>
    if b.cursor = 0 then d.bell else d.killRange (b.cursor - 1) b.cursor
  | .deleteChar =>
    if b.cursor = b.length then d.bell else d.applyEdit (b.delete 1).1
  | .killLine | .backwardKillLine | .killWholeLine | .killWord | .backwardKillWord
  | .unixWordRubout =>
    let span := (b.killSpan? k).getD (0, 0)
    d.killRange span.1 span.2
  | .transposeChars =>
    match b.transpose with
    | some b => d.applyEdit b
    | none => d.bell
  | .yank => d.yank false
  | .viPasteAfter => d.yank true
  | .undo => d.undoEdit
  | .previousHistory => d.showFetched d.history.previous
  | .nextHistory => d.showFetched d.history.next
  | .clearScreen => d.clearScreen
  | .interrupt => d.bell
  | .viCommandMode => (d.setVi .command).refresh (b.moveBy (-1))
  | .viInsert => d.setVi .insert
  | .viAppend => (d.setVi .insert).refresh (b.moveBy 1)
  | .viInsertBol => (d.setVi .insert).refresh (b.setCursor 0)
  | .viAppendEol => (d.setVi .insert).refresh b.moveToEnd
  | .viChangeToEnd => (d.killRange b.cursor b.length).setVi .insert
  | .acceptLine | .reverseSearchHistory | .forwardSearchHistory | .complete | .viDeleteOperator
  | .viChangeOperator =>
    d.log .warn .basic "not a basic action" [("action", .quoted k.name.toList)]

/-- A command that finishes in one step. -/
def basic (d : Desk) (k : Command) : Desk := (d.basicStep k).resume

end Desk

end LineEditor
