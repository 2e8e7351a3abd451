import LineEditor.Buffer.Words
import LineEditor.Session.Display

/-!
Edits of the shown buffer. An edit that can be undone leaves a snapshot of the buffer before it; cut
text goes to the kill ring, and yank takes the newest cut text back out.
-/
namespace LineEditor.Desk

/-- Remembers the shown buffer for undo. -/
def snapshot (d : Desk) : Desk := { d with undo := d.undo.push (.ofBuffer d.session.buffer) }

/-- Shows a buffer and remembers the one before it. -/
def applyEdit (d : Desk) (b : Buffer) : Desk := d.snapshot.refresh b

/-- Cuts the code points from `first` up to `last`; nothing happens for an empty range. -/
def killRange (d : Desk) (first last : Nat) : Desk :=
  if last ≤ first then d
  else
    let (b, removed) := d.session.buffer.deleteRange first last
    applyEdit { d with kills := d.kills.add removed } b

/-- Inserts the newest cut text at the cursor, or behind the code point after it. -/
def yank (d : Desk) (behind : Bool) : Desk :=
  match d.kills.newest? with
  | none => d.bell
  | some t =>
    let b := d.session.buffer
    let b := if behind && !b.isEmpty then b.moveBy 1 else b
    match b.insert t with
    | .ok b => d.applyEdit b
    | .error e => (d.log .debug .basic "yank rejected" [("err", .plain e.message)]).bell

/-- Takes back the newest edit. -/
def undoEdit (d : Desk) : Desk :=
  match d.undo.pop with
  | some (s, undo) => { d with undo }.refresh s.restore
  | none => d.bell

/-- Inserts a typed code point. A run of typed code points is undone in one step. -/
def selfInsert (d : Desk) (e : KeyEvent) : Desk :=
  match e with
  | .key _ => d.bell
  | .char c =>
    if e.isPrintable && d.keymap.acceptsInsertion then
      match d.session.buffer.insert [c] with
      | .error err => (d.log .debug .engine "insert rejected" [("err", .plain err.message)]).bell
      | .ok b =>
        let d := if d.session.typing then d else d.snapshot
        let d := d.refresh b
        { d with session.typing := true }
    else d.bell

end LineEditor.Desk
