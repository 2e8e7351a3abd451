import LineEditor.Text.Literal

/-!
What the editor logs. An entry has a level, the part of the editor it comes from, a message and
fields; a line of the log is the level in five columns, the path of that part, the message and each
field with its value. A log keeps the entries at its level or a more severe one.
-/
namespace LineEditor

/-- The name under which the editor logs and codes its errors. -/
def programName : String := "r3bl_readline"

namespace Log

/-- How severe an entry is, and how much a log keeps. -/
inductive Level where
  | off | error | warn | info | debug | trace
  deriving DecidableEq, Repr

namespace Level

/-- The name of a level. -/
def name : Level → String
  | off => "off"
  | error => "error"
  | warn => "warn"
  | info => "info"
  | debug => "debug"
  | trace => "trace"

/-- The level of that name. -/
def ofName? (s : String) : Option Level :=
  [off, error, warn, info, debug, trace].find? fun l => l.name == s

/-- A level as it stands in a line, five columns wide. -/
def label : Level → String
  | off => "  OFF"
  | error => "ERROR"
  | warn => " WARN"
  | info => " INFO"
  | debug => "DEBUG"
  | trace => "TRACE"

/-- Levels by decreasing severity. -/
def rank : Level → Nat
  | off => 0
  | error => 1
  | warn => 2
  | info => 3
  | debug => 4
  | trace => 5

/-- Whether a log of level `l` keeps entries of level `entry`. -/
def keeps (l entry : Level) : Bool := entry.rank ≤ l.rank

end Level

/-- The part of the editor an entry comes from. -/
inductive Site where
  | engine | session | keymap | completion
  | acceptLine | basic | complete | searchHistory | viOperator
  deriving DecidableEq, Repr

/-- The path of a part of the editor. -/
def Site.path : Site → String
  | .engine => programName ++ "::readline"
  | .session => programName ++ "::interaction"
  | .acceptLine => programName ++ "::actions::accept_line"
  | .basic => programName ++ "::actions::basic"
  | .complete => programName ++ "::actions::complete"
  | .searchHistory => programName ++ "::actions::search_history"
  | .viOperator => programName ++ "::actions::vi_operator"
  | .completion => programName ++ "::completion"
  | .keymap => programName ++ "::editing::edit_mode"

/-- The value of a field. -/
inductive Value where
  /-- Written as it is. -/
  | plain (t : Text)
  /-- Written between double quotes. -/
  | quoted (t : Text)
  | number (n : Nat)
  deriving DecidableEq, Repr

/-- The written form of a value. -/
def Value.render : Value → Text
  | plain t => t
  | quoted t => Text.literal t
  | number n => Nat.toDigits 10 n

/-- A value that is a name. -/
def Value.name (s : String) : Value := .plain s.toList

/-- An entry of the log. -/
structure Entry where
  level : Level
  site : Site
  message : String
  fields : List (String × Value) := []
  deriving DecidableEq, Repr

/-- The line of an entry. -/
def Entry.render (e : Entry) : Text :=
  e.level.label.toList ++ [' '] ++ e.site.path.toList ++ [':', ' '] ++ e.message.toList ++
    e.fields.flatMap fun f => [' '] ++ f.1.toList ++ ['='] ++ f.2.render

end Log

end LineEditor
