import LineEditor.Text.Basic

/-!
The kill ring: killed text goes in, newest first, and yank takes the newest entry back out. The
ring is bounded and empty text is not kept.
-/
namespace LineEditor

/-- Killed texts, newest first, and how many are kept at most. -/
structure KillRing where
  limit : Nat
  entries : List Text := []
  deriving DecidableEq, Repr

namespace KillRing

/-- How many killed texts an engine keeps. -/
def defaultLimit : Nat := 10

/-- An empty ring that keeps at least one entry. -/
def new (limit : Nat) : KillRing := { limit := max limit 1 }

/-- A killed text put in front. -/
def add (r : KillRing) (t : Text) : KillRing :=
  if t.isEmpty then r else { r with entries := (t :: r.entries).take r.limit }

/-- The entry at a place, where 0 is the newest. -/
def get? (r : KillRing) (n : Nat) : Option Text := r.entries[n]?

/-- The newest entry. -/
def newest? (r : KillRing) : Option Text := r.get? 0

end KillRing

end LineEditor
