import LineEditor.Session.Edit

/-!
Incremental search at work: what the last key asked for is done on the history, and either the
search is shown, or it is over and its result is shown for editing. A search that is accepted leaves
an enter behind the queued input.
-/
namespace LineEditor.Desk

/-- Shows the search prompt and the result. -/
def showSearch (d : Desk) (s : Search) : Desk := d.refreshWith s.prompt s.shownBuffer

/-- A match becomes the result; without one the bell rings. -/
def takeMatch (d : Desk) (s : Search) (found : History × Option Text) : Search × Desk :=
  let d := { d with history := found.1 }
  match found.2 with
  | some t => ({ s with result := some t }, d)
  | none => (s, d.bell)

/-- On to the next match in a direction. Turning around searches from the last match on. -/
def searchOn (d : Desk) (s : Search) (heading : Direction) : Search × Desk :=
  let (s, d) :=
    if s.query.isEmpty then (s, d)
    else if d.history.direction = heading then d.takeMatch s (d.history.searchAgain s.query)
    else d.takeMatch s ((d.history.aim heading).search s.query)
  ({ s with direction := heading }, d)

/-- The first step: the text of the line, if there is any, is the query. -/
def startSearch (d : Desk) (s : Search) : Search × Desk :=
  let d := { d with history := d.history.resetSearch.aim s.direction }
  let d := if d.keymap.isViCommand then d.setVi .insert else d
  let text := d.session.buffer.text
  let s := { s with status := .input }
  if text.isEmpty then (s, d)
  else
    let (history, result) := d.history.search text
    ({ s with result, query := text }, { d with history })

/-- A longer query: without a match it is dropped again. -/
def extendSearch (d : Desk) (s : Search) : Search × Desk :=
  let (history, found) := d.history.search s.query
  let d := { d with history }
  match found with
  | some t => ({ s with result := some t }, d)
  | none => ({ s with query := s.query.dropLast }, d.bell)

/-- A shorter query; an empty one has no result. -/
def shortenSearch (d : Desk) (s : Search) : Search × Desk :=
  let query := s.query.dropLast
  if query.isEmpty then
    ({ s with query, result := none },
      { d with history := d.history.resetSearch.aim s.direction })
  else
    let (history, found) := d.history.search query
    ({ s with query, result := found.or s.result }, { d with history })

/-- Shows a fetched entry, or the result if there is none. -/
def showNeighbour (d : Desk) (s : Search) (fetched : History × Option Text) : Desk :=
  { d with history := fetched.1 }.refresh <|
    match fetched.2 with
    | some line => .ofText line
    | none => s.resultBuffer

/-- What the last key asked for. -/
def searchStep (d : Desk) (s : Search) : Search × Desk :=
  match s.status with
  | .notStarted => d.startSearch s
  | .input => d.extendSearch s
  | .previous => d.searchOn s .reverse
  | .next => d.searchOn s .forward
  | .delete => d.shortenSearch s
  | .accept =>
    let d := d.refresh s.resultBuffer
    (s, if s.result.isSome then { d with queue := d.queue.append Key.enter.codePoints } else d)
  | .exit | .moveRight => (s, d.refresh s.resultBuffer)
  | .interrupt => (s, d.refresh .empty)
  | .movePrevious => (s, d.showNeighbour s d.history.previous)
  | .moveNext => (s, d.showNeighbour s d.history.next)

/-- A search applied. -/
def search (d : Desk) (s : Search) : Search × Desk :=
  let (s, d) := d.searchStep s
  let d :=
    if s.keepsFocus then d.showSearch s
    else
      let d := d.log .debug .searchHistory "search done"
        [("status", .name s.status.name), ("query", .quoted s.query)]
      { d with history := d.history.resetSearch }
  (s, d.resume)

end LineEditor.Desk
