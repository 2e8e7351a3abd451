import LineEditor.Key.Event

/-!
Code points that wait to become key events. Parsing happens when an event is taken out and not
when input is added, so what counts as a key is decided at that moment: the longest sequence of a
recognized key that is fully present wins, and otherwise the first code point stands for itself.
There is no timeout, so a lone escape at the end of the queue is the escape key.
-/
namespace LineEditor

/-- Input that has arrived and has not been read as events. -/
structure EventQueue where
  pending : Text := []
  deriving DecidableEq, Repr

namespace EventQueue

/-- Input added behind what is queued. -/
def append (q : EventQueue) (t : Text) : EventQueue := ⟨q.pending ++ t⟩

/-- Whether anything is queued. -/
def hasNext (q : EventQueue) : Bool := !q.pending.isEmpty

/-- The longest sequence of a recognized key that `pending` starts with: its length and key. -/
def longest? (recognizes : Key → Bool) (pending : Text) : Option (Nat × Key) :=
  Key.sequences.foldl (fun best e =>
    if best.all (fun b => b.1 < e.1.length) && recognizes e.2 && e.1.isPrefixOf pending
    then some (e.1.length, e.2) else best) none

/-- The next event and what stays queued. -/
def next (recognizes : Key → Bool) (q : EventQueue) : Option (KeyEvent × EventQueue) :=
  match q.pending with
  | [] => none
  | c :: rest =>
    match longest? recognizes (c :: rest) with
    | some (n, k) => some (.key k, ⟨(c :: rest).drop n⟩)
    | none => some (.char c, ⟨rest⟩)

/-- At most `n` events in a row, and what stays queued. -/
def take (recognizes : Key → Bool) : Nat → EventQueue → List KeyEvent × EventQueue
  | 0, q => ([], q)
  | n + 1, q =>
    match q.next recognizes with
    | none => ([], q)
    | some (e, q) =>
      let (es, q) := take recognizes n q
      (e :: es, q)

/-- All events: each takes at least one code point. -/
def drain (recognizes : Key → Bool) (q : EventQueue) : List KeyEvent × EventQueue :=
  q.take recognizes q.pending.length

end EventQueue

end LineEditor
