import LineEditor.Key.Event
import LineEditor.Keymap.Command

/-!
Binding tables: which command a key event stands for. The three default tables are here; the table
for inserting in Vi style is the Emacs table without its meta chords, together with the escape key.
-/
namespace LineEditor

/-- A binding table: at most one entry for an event. -/
structure Bindings where
  entries : List (KeyEvent × Command) := []
  deriving DecidableEq, Repr

namespace Bindings

/-- What an event is bound to. -/
def lookup? (b : Bindings) (e : KeyEvent) : Option Command :=
  (b.entries.find? fun x => x.1 = e).map Prod.snd

/-- An event without its binding. -/
def unbind (b : Bindings) (e : KeyEvent) : Bindings := ⟨b.entries.filter fun x => x.1 ≠ e⟩

/-- An event bound to a command, instead of what it was bound to. -/
def bind (b : Bindings) (e : KeyEvent) (k : Command) : Bindings :=
  ⟨(e, k) :: (b.unbind e).entries⟩

/-- Some events, bound to commands in turn. -/
def ofGroups (groups : List (List KeyEvent × Command)) : Bindings :=
  groups.foldl (fun b g => g.1.foldl (fun b e => b.bind e g.2) b) {}

/-- The Emacs table. -/
def emacs : Bindings := ofGroups [
  ([.key .ctrlA, .key .home], .beginningOfLine),
  ([.key .ctrlE, .key .endKey], .endOfLine),
  ([.key .ctrlB, .key .left], .backwardChar),
  ([.key .ctrlF, .key .right], .forwardChar),
  ([.key .enter, .key .ctrlJ], .acceptLine),
  ([.key .ctrlP, .key .up], .previousHistory),
  ([.key .ctrlN, .key .down], .nextHistory),
  ([.key .backspace, .key .ctrlH], .backwardDeleteChar),
  ([.key .delete, .key .ctrlD], .deleteChar),
  ([.key .ctrlR], .reverseSearchHistory),
  ([.key .ctrlS], .forwardSearchHistory),
  ([.key .ctrlG], .interrupt),
  ([.key .tab], .complete),
  ([.key .ctrlUnderscore], .undo),
  ([.key .ctrlY], .yank),
  ([.key .ctrlK], .killLine),
  ([.key .ctrlU], .backwardKillLine),
  ([.key .ctrlW], .unixWordRubout),
  ([.key .metaD], .killWord),
  ([.key .metaF, .key .ctrlRight], .forwardWord),
  ([.key .metaB, .key .ctrlLeft], .backwardWord),
  ([.key .metaBackspace], .backwardKillWord),
  ([.key .ctrlT], .transposeChars),
  ([.key .ctrlL], .clearScreen)]

/-- Whether an event is a meta chord. -/
def isMetaChord : KeyEvent → Bool
  | .key k => k.isMeta
  | .char _ => false

/-- The Vi table for inserting. -/
def viInsert : Bindings :=
  bind ⟨emacs.entries.filter fun x => !isMetaChord x.1⟩ (.key .escape) .viCommandMode

/-- The Vi table for commands. -/
def viCommand : Bindings := ofGroups [
  ([.char 'h', .key .left, .key .backspace], .backwardChar),
  ([.char 'l', .char ' ', .key .right], .forwardChar),
  ([.char '0', .char '^', .key .home], .beginningOfLine),
  ([.char '$', .key .endKey], .endOfLine),
  ([.char 'w'], .viForwardWord),
  ([.char 'b'], .backwardWord),
  ([.char 'e'], .forwardWord),
  ([.char 'i', .key .insert], .viInsert),
  ([.char 'a'], .viAppend),
  ([.char 'I'], .viInsertBol),
  ([.char 'A'], .viAppendEol),
  ([.char 'x', .key .delete], .deleteChar),
  ([.char 'X'], .backwardDeleteChar),
  ([.char 'D'], .killLine),
  ([.char 'C'], .viChangeToEnd),
  ([.char 'd'], .viDeleteOperator),
  ([.char 'c'], .viChangeOperator),
  ([.char 'p'], .viPasteAfter),
  ([.char 'P'], .yank),
  ([.char 'u'], .undo),
  ([.char 'k', .char '-', .key .up], .previousHistory),
  ([.char 'j', .char '+', .key .down], .nextHistory),
  ([.char '/', .key .ctrlR], .reverseSearchHistory),
  ([.char '?'], .forwardSearchHistory),
  ([.key .enter, .key .ctrlJ], .acceptLine),
  ([.key .ctrlG], .interrupt),
  ([.key .ctrlL], .clearScreen)]

end Bindings

end LineEditor
