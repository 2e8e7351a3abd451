import LineEditor.Keymap.Bindings

/-!
The active key map. In Emacs style there is one table; in Vi style there are two, and which one is
active depends on whether text is inserted or commands are given.
-/
namespace LineEditor

/-- A style of editing. -/
inductive EditStyle where
  | emacs | vi
  deriving DecidableEq, Repr

namespace EditStyle

/-- The name of a style. -/
def name : EditStyle → String
  | .emacs => "emacs"
  | .vi => "vi"

/-- The style of that name. -/
def ofName? (s : String) : Option EditStyle := [emacs, vi].find? fun x => x.name == s

end EditStyle

/-- What Vi style is doing. -/
inductive ViState where
  | insert | command
  deriving DecidableEq, Repr

/-- The name of a state in the log. -/
def ViState.name : ViState → String
  | .insert => "Insert"
  | .command => "Command"

/-- The tables of a style, and the Vi state, which stays at inserting in Emacs style. -/
structure Keymap where
  style : EditStyle
  vi : ViState := .insert
  /-- The Emacs table or the Vi table for inserting. -/
  bindings : Bindings
  /-- The Vi table for commands. -/
  commandBindings : Bindings
  deriving DecidableEq, Repr

namespace Keymap

/-- The default tables of a style. -/
def new : EditStyle → Keymap
  | .emacs => { style := .emacs, bindings := .emacs, commandBindings := {} }
  | .vi => { style := .vi, bindings := .viInsert, commandBindings := .viCommand }

/-- The Vi state set; Emacs style has none. -/
def setVi (m : Keymap) (v : ViState) : Keymap := if m.style = .vi then { m with vi := v } else m

/-- Whether Vi commands are given. -/
def isViCommand (m : Keymap) : Bool := m.style = .vi && m.vi = .command

/-- The state a new line starts in. -/
def reset (m : Keymap) : Keymap := { m with vi := .insert }

/-- The active table. -/
def active (m : Keymap) : Bindings := if m.isViCommand then m.commandBindings else m.bindings

/-- What an event is bound to in the active table. -/
def lookup? (m : Keymap) (e : KeyEvent) : Option Command := m.active.lookup? e

/-- An event bound in the active table. -/
def bind (m : Keymap) (e : KeyEvent) (k : Command) : Keymap :=
  if m.isViCommand then { m with commandBindings := m.commandBindings.bind e k }
  else { m with bindings := m.bindings.bind e k }

/-- Whether the sequences of a key are read as one event: Vi style has no meta chords. -/
def recognizes (m : Keymap) (k : Key) : Bool :=
  match m.style with
  | .emacs => true
  | .vi => !k.isMeta

/-- Whether a printable code point that is not bound is inserted. -/
def acceptsInsertion (m : Keymap) : Bool := !m.isViCommand

end Keymap

end LineEditor
