import LineEditor.Text.Basic

/-!
Whether accumulated input is complete. A backslash escapes the next character except inside single
quotes, and an open quote ends at the next unescaped quote of its kind.
-/
namespace LineEditor

/-- How a line ends. -/
inductive QuoteStatus where
  | complete
  /-- The input ends in an unescaped backslash. -/
  | escaping
  /-- A quote is still open. -/
  | quoted
  deriving DecidableEq, Repr

namespace QuoteStatus

/-- The name of a status in the log. -/
def name : QuoteStatus → String
  | .complete => "Complete"
  | .escaping => "Escaping"
  | .quoted => "Quoted"

/-- The scanner between two characters: whether the next one is escaped, and the open quote. -/
structure Scanner where
  escaping : Bool := false
  quote : Option Char := none
  deriving DecidableEq, Repr

/-- One character. -/
def Scanner.step (s : Scanner) (c : Char) : Scanner :=
  if s.escaping then { s with escaping := false }
  else if c = '\\' ∧ s.quote ≠ some '\'' then { s with escaping := true }
  else if c = '"' ∨ c = '\'' then
    match s.quote with
    | none => { s with quote := some c }
    | some q => if q = c then { s with quote := none } else s
  else s

/-- What the scanner says about the text so far. -/
def Scanner.status (s : Scanner) : QuoteStatus :=
  if s.escaping then .escaping
  else if s.quote.isSome then .quoted
  else .complete

/-- How a text ends. -/
def scan (t : Text) : QuoteStatus := (t.foldl Scanner.step {}).status

end QuoteStatus

end LineEditor
