import LineEditor.Action.Search

/-!
Actions: commands at work. Most commands finish in one step. Search, completion and the Vi operators
may need more keys; such an action keeps the focus, is handed every following key together with what
the key is bound to, and is applied again, until it lets go.

Main definitions: `Action.ofCommand`, `Action.input` and `Action.keepsFocus`.
-/
namespace LineEditor

/-- What a Vi operator does with the text that the motion covers. -/
inductive ViOperation where
  | delete | change
  deriving DecidableEq, Repr

/-- The name of an operation in the log. -/
def ViOperation.name : ViOperation → String
  | delete => "Delete"
  | change => "Change"

/-- The command of an operation. -/
def ViOperation.command : ViOperation → Command
  | delete => .viDeleteOperator
  | change => .viChangeOperator

/-- A Vi operator: before its motion is known, or with what the motion key is bound to. -/
structure ViOperator where
  operation : ViOperation
  motion : Option (Option Command) := none
  deriving DecidableEq, Repr

/-- Completion: the answer to its question, and whether one is pending. -/
structure Completion where
  answer : Option KeyEvent := none
  asking : Bool := false
  deriving DecidableEq, Repr

/-- A command at work. -/
inductive Action where
  | acceptLine
  | search (s : Search)
  | complete (c : Completion)
  | operator (o : ViOperator)
  /-- A command that finishes in one step. -/
  | basic (k : Command)
  deriving DecidableEq, Repr

namespace Action

/-- The action of a command. -/
def ofCommand : Command → Action
  | .acceptLine => acceptLine
  | .reverseSearchHistory => search { direction := .reverse }
  | .forwardSearchHistory => search { direction := .forward }
  | .complete => complete {}
  | .viDeleteOperator => operator { operation := .delete }
  | .viChangeOperator => operator { operation := .change }
  | k => basic k

/-- The command an action stands for. -/
def command : Action → Command
  | acceptLine => .acceptLine
  | search s => s.command
  | complete _ => .complete
  | operator o => o.operation.command
  | basic k => k

/-- The next key while the action has focus, with what the key is bound to. -/
def input (bound : Option Command) (e : KeyEvent) : Action → Action
  | search s => search (s.input bound e)
  | complete c => complete { c with answer := some e }
  | operator o => operator { o with motion := some bound }
  | a => a

/-- Whether the next key goes to the action. -/
def keepsFocus : Action → Bool
  | search s => s.keepsFocus
  | complete c => c.asking
  | operator o => o.motion.isNone
  | acceptLine | basic _ => false

end Action

end LineEditor
