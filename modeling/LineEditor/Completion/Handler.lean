import LineEditor.Completion.Candidates
import LineEditor.Session.Call

/-!
Completion handlers: the usual one, which works with candidates, and scripted ones, which stand for
whatever a host may plug in. Both may hold a question; while they do, the next key is its answer.
-/
namespace LineEditor

/-- The usual handler: its candidates, and those that wait for the answer to its question. -/
structure CandidateHandler where
  completer : Completer
  ask : Bool := false
  pending : List Text := []

/-- A handler that runs a script each time, and whether its work goes on afterwards. -/
structure ScriptedHandler where
  script : List ScriptStep
  /-- The session stays paused until somebody resumes it. -/
  deferred : Bool := false
  /-- Work for later waits for a delay. -/
  delayed : Bool := false
  ask : Bool := false
  calls : Nat := 0
  deriving DecidableEq, Repr

/-- A completion handler. -/
inductive Handler where
  | candidates (h : CandidateHandler)
  | scripted (h : ScriptedHandler)

namespace Handler

/-- Whether a handler holds a question. -/
def asks : Handler → Bool
  | candidates h => h.ask
  | scripted h => h.ask

end Handler

end LineEditor
