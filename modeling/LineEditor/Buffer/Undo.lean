import LineEditor.Buffer.Basic

/-!
Undo keeps full snapshots of the buffer, each taken before an edit, newest first. The stack is
bounded and never empty by its bound; a snapshot equal to the newest one is not kept twice.
-/
namespace LineEditor

/-- A buffer as it was. -/
structure Snapshot where
  text : Text
  cursor : Nat
  deriving DecidableEq, Repr

namespace Snapshot

/-- The snapshot of a buffer. -/
def ofBuffer (b : Buffer) : Snapshot := ⟨b.text, b.cursor⟩

/-- The buffer a snapshot was taken of. -/
def restore (s : Snapshot) : Buffer := Buffer.clamp s.text s.cursor

end Snapshot

/-- Snapshots, newest first, and how many are kept at most. -/
structure UndoStack where
  limit : Nat
  snapshots : List Snapshot := []
  deriving DecidableEq, Repr

namespace UndoStack

/-- How many snapshots an engine keeps. -/
def defaultLimit : Nat := 50

/-- An empty stack that keeps at least one snapshot. -/
def new (limit : Nat) : UndoStack := { limit := max limit 1 }

/-- A snapshot on top, unless it is there already; the oldest one goes when there is no room. -/
def push (u : UndoStack) (s : Snapshot) : UndoStack :=
  if u.snapshots.head? = some s then u
  else { u with snapshots := (s :: u.snapshots).take u.limit }

/-- The newest snapshot taken off. -/
def pop (u : UndoStack) : Option (Snapshot × UndoStack) :=
  match u.snapshots with
  | [] => none
  | s :: rest => some (s, { u with snapshots := rest })

/-- No snapshots. -/
def clear (u : UndoStack) : UndoStack := { u with snapshots := [] }

end UndoStack

end LineEditor
