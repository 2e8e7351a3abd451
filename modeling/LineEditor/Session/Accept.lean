import LineEditor.Input.Quote
import LineEditor.Session.Display

/-!
Accepting a line. The shown text is added to the continuation lines. If these are complete they are
stored in the history and end the session; otherwise a trailing backslash is dropped, or a newline
is kept inside the open quote, and reading goes on behind the continuation prompt.
-/
namespace LineEditor

/-- The continuation lines with a text behind them, or unchanged if the text is refused. -/
def Buffer.extended (line : Buffer) (t : Text) : Buffer := ((line.insert t).toOption).getD line

/-- What of the continuation lines is kept for the next line. -/
def Buffer.continued (line : Buffer) : QuoteStatus → Buffer
  | .complete => line
  | .escaping => (line.delete (-1)).1
  | .quoted => line.extended ['\n']

namespace Desk

/-- Extends the continuation lines, logging a refusal. -/
def extendLine (d : Desk) (t : Text) (refusal : String) : Desk :=
  let d := match d.session.line.insert t with
    | .ok _ => d
    | .error e => d.log .warn .acceptLine refusal [("err", .plain e.message)]
  { d with session.line := d.session.line.extended t }

/-- Ends the line, or goes on with a continuation line. -/
def acceptLine (d : Desk) : Desk :=
  let shown := d.session.buffer.text
  let d := d.newLine.extendLine shown "buffer text rejected by line"
  let status := QuoteStatus.scan d.session.line.text
  let d := match status with
    | .complete =>
      let line := d.session.line.text
      let d := d.log .debug .acceptLine "accept line" [("line", .quoted line)]
      { d with
        history := d.history.push line
        session.outcome := .accepted line }
    | .escaping | .quoted =>
      let d := { d with session.line := d.session.line.continued status }
      let d := d.log .debug .acceptLine "continuation line" [("status", .name status.name)]
      resetDisplay { d with session.current := d.session.continuation }
  resume { d with undo := d.undo.clear }

end Desk

end LineEditor
