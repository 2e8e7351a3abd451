import LineEditor.Text.Basic

/-!
Accepted lines, oldest first, with two independent cursors: one for stepping through the entries
and one for substring search. The fetch cursor at the number of entries is past the newest one.
Blank lines and a repeat of the newest entry are not stored, and the oldest entry goes when there
is no room; storing a line puts both cursors back.
-/
namespace LineEditor

/-- Where a search goes. -/
inductive Direction where
  | reverse | forward
  deriving DecidableEq, Repr

/-- The name of a direction. -/
def Direction.name : Direction → String
  | .reverse => "Reverse"
  | .forward => "Forward"

/-- Lines, oldest first, with the two cursors. -/
structure History where
  limit : Nat
  entries : List Text := []
  /-- The entry that was fetched last. -/
  fetched : Nat := 0
  /-- The entry that was found last. -/
  found : Option Nat := none
  direction : Direction := .reverse
  deriving DecidableEq, Repr

namespace History

/-- How many lines are kept unless told otherwise. -/
def defaultLimit : Nat := 500

/-- An empty history that keeps at least one line. -/
def new (limit : Nat) : History := { limit := max limit 1 }

/-- The fetch cursor past the newest entry. -/
def resetFetch (h : History) : History := { h with fetched := h.entries.length }

/-- No search position, and the search goes to older entries. -/
def resetSearch (h : History) : History := { h with found := none, direction := .reverse }

/-- Both cursors back. -/
def reset (h : History) : History := h.resetFetch.resetSearch

/-- Whether a line is stored behind `entries`: it is neither blank nor a repeat. -/
def stores (entries : List Text) (line : Text) : Bool :=
  !Text.isBlank line && entries.getLast? != some line

/-- The newest `limit` of some lines. -/
def newest (limit : Nat) (entries : List Text) : List Text :=
  entries.drop (entries.length - limit)

/-- A line added. -/
def push (h : History) (line : Text) : History :=
  if stores h.entries line then
    reset { h with entries := newest h.limit (h.entries ++ [line]) }
  else h.reset

/-- A history that lines were added to. -/
def ofEntries (limit : Nat) (lines : List Text) : History := lines.foldl push (new limit)

/-- No entries. -/
def clear (h : History) : History := reset { h with entries := [] }

/-- The entry at a place, where 0 is the oldest. -/
def get? (h : History) (n : Nat) : Option Text := h.entries[n]?

/-- A step toward older entries; none once the oldest entry has been fetched. -/
def previous (h : History) : History × Option Text :=
  if h.fetched = 0 then (h, none)
  else
    let n := min h.fetched h.entries.length - 1
    ({ h with fetched := n }, h.get? n)

/-- A step toward newer entries; none past the newest one. -/
def next (h : History) : History × Option Text :=
  if h.entries.length ≤ h.fetched + 1 then (h.resetFetch, none)
  else ({ h with fetched := h.fetched + 1 }, h.get? (h.fetched + 1))

/-- The search direction set. -/
def aim (h : History) (d : Direction) : History := { h with direction := d }

/-- The places that a search from `start` looks at, in order. -/
def searchOrder (h : History) (start : Nat) : List Nat :=
  match h.direction with
  | .reverse => (List.range (start + 1)).reverse
  | .forward => (List.range h.entries.length).drop start

/-- The nearest entry with `query` in it, from `start` on. It becomes the fetched and the found
one; if there is none nothing changes. -/
def scan (h : History) (query : Text) (start : Nat) : History × Option Text :=
  match (h.searchOrder start).find? fun n => (h.get? n).any (Text.includes · query) with
  | none => (h, none)
  | some n => ({ h with found := some n, fetched := n }, h.get? n)

/-- The nearest entry with `query` in it, the last found one included, so that a longer query that
still matches keeps its entry. -/
def search (h : History) (query : Text) : History × Option Text :=
  let last := h.entries.length - 1
  if h.entries.isEmpty then (h, none)
  else
    h.scan query <| match h.found, h.direction with
      | some n, _ => min n last
      | none, .reverse => last
      | none, .forward => 0

/-- The nearest entry with `query` in it behind the last found one. -/
def searchAgain (h : History) (query : Text) : History × Option Text :=
  match h.found, h.direction with
  | none, _ => h.search query
  | some 0, .reverse => (h, none)
  | some (n + 1), .reverse => h.scan query n
  | some n, .forward =>
    if h.entries.length ≤ n + 1 then (h, none) else h.scan query (n + 1)

end History

end LineEditor
