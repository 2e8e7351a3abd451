import LineEditor.Session.Accept
import LineEditor.Session.Completing
import LineEditor.Session.Operating
import LineEditor.Session.Searching

/-!
Key events at a desk. The action that has the focus takes every event; otherwise the command that
the event is bound to is applied, and an event that is not bound inserts itself. The session is
paused while an action is applied, and the action resumes it when it is done.
-/
namespace LineEditor.Desk

/-- How the application of an action ends. -/
inductive Applied where
  | finished (a : Action) (d : Desk)
  /-- The script of a completion handler has to be run. -/
  | script (c : Completion) (h : ScriptedHandler) (d : Desk)

/-- An action applied. -/
def apply (d : Desk) : Action → Applied
  | .acceptLine => .finished .acceptLine d.acceptLine
  | .search s =>
    let (s, d) := d.search s
    .finished (.search s) d
  | .complete c =>
    match d.beginCompletion c with
    | .finished c d => .finished (.complete c) d
    | .script c h d => .script c h d
  | .operator o => .finished (.operator o) (d.operate o)
  | .basic k => .finished (.basic k) (d.basic k)

/-- A command applied from inside of an action. The handler whose script runs is not in the session,
so no other script starts here. -/
def applyInside (d : Desk) (k : Command) : Desk :=
  match d.apply (.ofCommand k) with
  | .finished _ d => d
  | .script c h d => (d.endCompletion c (.scripted h) false).2

/-- The focus kept by an action that asks for more keys. -/
def settleFocus (d : Desk) (a : Action) : Desk :=
  if a.keepsFocus then { d with session.focus := some a } else d

/-- The action that an event is for. -/
def actionFor (d : Desk) (e : KeyEvent) : Option Action :=
  let bound := d.keymap.lookup? e
  match d.session.focus with
  | some a => some (a.input bound e)
  | none => bound.map .ofCommand

/-- Prepares the application of an action. -/
def beginAction (d : Desk) (a : Action) (e : KeyEvent) : Desk :=
  let d := d.log .trace .engine "apply"
    [("action", .quoted a.command.name.toList), ("event", .plain e.describe)]
  { d with session := { d.session with focus := none, typing := false, paused := true } }

/-- How the handling of an event ends. -/
inductive Dispatched where
  | finished (d : Desk)
  | script (c : Completion) (h : ScriptedHandler) (d : Desk)

/-- An event handled. -/
def dispatch (d : Desk) (e : KeyEvent) : Dispatched :=
  match d.actionFor e with
  | none => .finished (d.selfInsert e)
  | some a =>
    match (d.beginAction a e).apply a with
    | .finished a d => .finished (d.settleFocus a)
    | .script c h d => .script c h d

end LineEditor.Desk
