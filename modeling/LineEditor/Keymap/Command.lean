import LineEditor.Text.Basic

/-!
Everything a key can be bound to, with the names that users know the commands by.
-/
namespace LineEditor

/-- An editing command. -/
inductive Command where
  | acceptLine | backwardChar | forwardChar | beginningOfLine | endOfLine | backwardWord
  | forwardWord | viForwardWord | backwardDeleteChar | deleteChar | killLine | backwardKillLine
  | killWholeLine | killWord | backwardKillWord | unixWordRubout | transposeChars | yank
  | viPasteAfter | undo | previousHistory | nextHistory | reverseSearchHistory
  | forwardSearchHistory | complete | clearScreen | interrupt | viCommandMode | viInsert
  | viAppend | viInsertBol | viAppendEol | viChangeToEnd | viDeleteOperator | viChangeOperator
  deriving DecidableEq, Repr

namespace Command

/-- Every command, in the order of the type. -/
def all : List Command := [
  .acceptLine, .backwardChar, .forwardChar, .beginningOfLine, .endOfLine, .backwardWord,
  .forwardWord, .viForwardWord, .backwardDeleteChar, .deleteChar, .killLine, .backwardKillLine,
  .killWholeLine, .killWord, .backwardKillWord, .unixWordRubout, .transposeChars, .yank,
  .viPasteAfter, .undo, .previousHistory, .nextHistory, .reverseSearchHistory,
  .forwardSearchHistory, .complete, .clearScreen, .interrupt, .viCommandMode, .viInsert,
  .viAppend, .viInsertBol, .viAppendEol, .viChangeToEnd, .viDeleteOperator, .viChangeOperator]

/-- The name of a command. -/
def name : Command → String
  | .acceptLine => "accept-line"
  | .backwardChar => "backward-char"
  | .forwardChar => "forward-char"
  | .beginningOfLine => "beginning-of-line"
  | .endOfLine => "end-of-line"
  | .backwardWord => "backward-word"
  | .forwardWord => "forward-word"
  | .viForwardWord => "vi-forward-word"
  | .backwardDeleteChar => "backward-delete-char"
  | .deleteChar => "delete-char"
  | .killLine => "kill-line"
  | .backwardKillLine => "backward-kill-line"
  | .killWholeLine => "kill-whole-line"
  | .killWord => "kill-word"
  | .backwardKillWord => "backward-kill-word"
  | .unixWordRubout => "unix-word-rubout"
  | .transposeChars => "transpose-chars"
  | .yank => "yank"
  | .viPasteAfter => "vi-paste-after"
  | .undo => "undo"
  | .previousHistory => "previous-history"
  | .nextHistory => "next-history"
  | .reverseSearchHistory => "reverse-search-history"
  | .forwardSearchHistory => "forward-search-history"
  | .complete => "complete"
  | .clearScreen => "clear-screen"
  | .interrupt => "interrupt"
  | .viCommandMode => "vi-command-mode"
  | .viInsert => "vi-insert"
  | .viAppend => "vi-append"
  | .viInsertBol => "vi-insert-bol"
  | .viAppendEol => "vi-append-eol"
  | .viChangeToEnd => "vi-change-to-end"
  | .viDeleteOperator => "vi-delete-operator"
  | .viChangeOperator => "vi-change-operator"

/-- The command of that name; names are case sensitive. -/
def ofName? (s : String) : Option Command := all.find? fun k => k.name == s

end Command

end LineEditor
