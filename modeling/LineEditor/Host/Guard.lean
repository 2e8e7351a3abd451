import LineEditor.Host.Connection

/-!
Guards: each installs a set of handlers of its own on one connection and puts the ones it replaced
back when it is dropped. Guards may be dropped in any order, and a second drop does nothing.
-/
namespace LineEditor

/-- What a handler of a guard was called with. -/
inductive GuardCall where
  | delivered (d : Delivery)
  | resized (s : Size)
  deriving DecidableEq, Repr

/-- A connection with the handlers that each guard replaced, until the guard is dropped. -/
structure Guarded where
  conn : Connection
  guards : List (Option Handlers) := []

namespace Guarded

/-- The calls that go to handlers of guards, with the number of the guard. -/
def calls (ds : List (Owner × Delivery)) : List (Nat × GuardCall) :=
  ds.filterMap fun d =>
    match d with
    | (.host n, d) => some (n, .delivered d)
    | (.engine _, _) => none

/-- A new guard that installs handlers of the kinds asked for, with the handlers it replaces. -/
def install (g : Guarded) (input size signal : Bool) : Guarded × Handlers :=
  let own (asked : Bool) : Option Owner := if asked then some (.host g.guards.length) else none
  let (conn, previous) :=
    g.conn.install { input := own input, size := own size, signal := own signal }
  ({ conn, guards := g.guards ++ [some previous] }, previous)

/-- A guard dropped. -/
def drop (g : Guarded) (n : Nat) : Guarded :=
  match g.guards[n]?.join with
  | none => g
  | some previous =>
    { conn := { g.conn with handlers := previous }, guards := g.guards.set n none }

/-- Text is typed. -/
def type (g : Guarded) (t : Text) : Guarded × List (Nat × GuardCall) :=
  let (conn, ds) := g.conn.receive (Utf8.encodeText t)
  ({ g with conn }, calls ds)

/-- The terminal changes its size. -/
def resize (g : Guarded) (s : Size) : Guarded × List (Nat × GuardCall) :=
  ({ g with conn := g.conn.setSize s },
    match g.conn.handlers.size with
    | some (.host n) => [(n, .resized s)]
    | _ => [])

/-- Which handlers a guard replaced, in words. -/
def describe (previous : Handlers) : String :=
  "HandlerGuard \x7b prev_stdin: " ++ toString previous.input.isSome ++
    ", prev_size: " ++ toString previous.size.isSome ++
    ", prev_event: " ++ toString previous.signal.isSome ++ " \x7d"

end Guarded

end LineEditor
