import LineEditor.History
import LineEditor.Report

/-!
What calls of the editor answer, and the calls that a host may make on a history.
-/
namespace LineEditor

/-- Terminal size in columns and rows. -/
structure Size where
  cols : Nat := 80
  rows : Nat := 24
  deriving DecidableEq, Repr

/-- How a size appears in the log. -/
def Size.describe (s : Size) : Text :=
  "Size \x7b col_width: ".toList ++ Nat.toDigits 10 s.cols ++ ", row_height: ".toList ++
    Nat.toDigits 10 s.rows ++ " \x7d".toList

/-- How far a session has come. -/
inductive Outcome where
  | reading
  | accepted (line : Text)
  | eof
  deriving DecidableEq, Repr

/-- What a host can see of a session. -/
structure SessionInfo where
  prompt : Text
  current : Text
  shown : Text
  continuation : Text
  shownWidth : Nat
  width : Nat
  paused : Bool
  outcome : Outcome
  hasHandler : Bool
  hasFocus : Bool
  dataCount : Nat
  line : Text
  size : Size
  deriving DecidableEq, Repr

/-- The answer of a call. -/
inductive Reply where
  | nothing
  | done
  | flag (b : Bool)
  | number (n : Nat)
  | name (s : String)
  | text? (t : Option Text)
  | texts (ts : List Text)
  | info (i : SessionInfo)
  | replies (rs : List Reply)
  | editError (e : EditError)
  | engineError (e : EngineError)
  | noEngine
  deriving Repr

/-- A call on a history. -/
inductive HistoryCall where
  | push (line : Text)
  | get (n : Nat)
  | length
  | isEmpty
  | clear
  | previous
  | next
  | resetFetch
  | direction
  | aim (d : Direction)
  | search (query : Text)
  | searchAgain (query : Text)
  | resetSearch
  | all
  deriving DecidableEq, Repr

namespace HistoryCall

/-- Carries a call out. -/
def run (h : History) : HistoryCall → History × Reply
  | push line => (h.push line, .nothing)
  | get n => (h, .text? (h.get? n))
  | length => (h, .number h.entries.length)
  | isEmpty => (h, .flag h.entries.isEmpty)
  | clear => (h.clear, .nothing)
  | previous => h.previous.map id .text?
  | next => h.next.map id .text?
  | resetFetch => (h.resetFetch, .nothing)
  | direction => (h, .name h.direction.name)
  | aim d => (h.aim d, .nothing)
  | search query => (h.search query).map id .text?
  | searchAgain query => (h.searchAgain query).map id .text?
  | resetSearch => (h.resetSearch, .nothing)
  | all => (h, .texts h.entries)

end HistoryCall

end LineEditor
