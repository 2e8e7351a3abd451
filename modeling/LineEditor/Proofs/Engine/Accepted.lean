import LineEditor.Proofs.Buffer.Spans
import LineEditor.Proofs.Engine.Core
import LineEditor.Proofs.Session.Only

/-!
Accepting what is shown. Insertable text that is shown behind no continuation lines, and is
complete, is the line: it goes to the callback and to the history as it is.

Main definition: `Engine.Accepting`. Main statements: `Desk.acceptLine_of_complete` and
`Engine.step?_of_accepting`.
-/
namespace LineEditor

/-! ### Lines -/

/-- Without continuation lines the line is what it is extended by. -/
theorem Buffer.text_extended {line : Buffer} (hline : line.text = []) {t : Text}
    (ht : t.Only (isInsertable · = true)) : (line.extended t).text = t := by
  have hbefore : line.before = [] := by rw [before, hline, List.take_nil]
  have hafter : line.after = [] := by rw [after, hline, List.drop_nil]
  rw [extended, insert_eq_ok line ht, hbefore, hafter]
  exact List.append_nil t

namespace Desk

variable {d : Desk} {event : KeyEvent}

theorem history_extendLine (d : Desk) (t : Text) (refusal : String) :
    (d.extendLine t refusal).history = d.history := by
  simp only [Desk.extendLine]
  split
  · rfl
  · rfl

/-- Text that is shown behind no continuation lines, and is complete, is the line. -/
theorem acceptLine_of_complete (hshown : d.session.buffer.text.Only (Buffer.isInsertable · = true))
    (hline : d.session.line.text = [])
    (hcomplete : QuoteStatus.scan d.session.buffer.text = .complete) :
    d.acceptedLine = [some d.session.buffer.text] ∧
      d.acceptLine.history = d.history.push d.session.buffer.text := by
  have htext := Buffer.text_extended hline hshown
  refine ⟨?_, ?_⟩
  · simp only [Desk.acceptedLine]
    rw [htext, hcomplete]
  · have hextended : (d.newLine.extendLine d.session.buffer.text
        "buffer text rejected by line").session.line.text = d.session.buffer.text := by
      rw [line_extendLine_newLine, htext]
    have hhistory : (d.newLine.extendLine d.session.buffer.text
        "buffer text rejected by line").history = d.history := by
      rw [history_extendLine]
      exact d.history_write _
    simp only [Desk.acceptLine]
    rw [hextended, hcomplete, ← hhistory]
    rfl

theorem dispatch_acceptLine (haction : d.actionFor event = some .acceptLine) :
    d.dispatch event = .finished (d.beginAction .acceptLine event).acceptLine := by
  rw [Desk.dispatch, haction]
  rfl

end Desk

/-! ### Events -/

namespace Engine

variable {e : Engine} {d : Desk}

/-- The next event accepts the line that is shown at a desk. -/
def Accepting (e : Engine) (d : Desk) : Prop :=
  ∃ event, e.next? = some (d, event) ∧ d.actionFor event = some .acceptLine ∧
    ¬ e.Interrupts event ∧ ¬ e.AtEof d event

/-- The line is over with what is shown, and that goes to the history. -/
theorem step?_of_accepting (haccept : e.Accepting d)
    (hshown : d.session.buffer.text.Only (Buffer.isInsertable · = true))
    (hline : d.session.line.text = [])
    (hcomplete : QuoteStatus.scan d.session.buffer.text = .complete) :
    ∃ e', e.step? = some (.settled e' (some {
        callback := d.session.callback
        line := some d.session.buffer.text
        conn := d.session.conn
        previous := d.session.previous })) ∧
      e'.session = none ∧ e'.queue = d.queue ∧
      e'.history = e.history.push d.session.buffer.text := by
  obtain ⟨event, hnext, haction, hinterrupt, heof⟩ := haccept
  obtain ⟨s, queue, -, -, -, hd⟩ := next?_eq_some hnext
  have hhistory : d.history = e.history := by rw [hd]
  obtain ⟨haccepted, hpushed⟩ := Desk.acceptLine_of_complete
    (d := d.beginAction .acceptLine event) hshown hline hcomplete
  have hkept := (d.beginAction .acceptLine event).kept_acceptLine
  rw [haccepted] at hkept
  rw [step?_eq, hnext, Option.map_some, handle_eq, if_neg hinterrupt, if_neg heof,
    Desk.dispatch_acceptLine haction]
  generalize (d.beginAction .acceptLine event).acceptLine = d' at hkept hpushed ⊢
  have hcore := congrArg Kept.core hkept
  have hended : d'.session.outcome.line? = some (some d.session.buffer.text) :=
    congrArg (fun core => core.outcome.line?) hcore
  have hcallback : d'.session.callback = d.session.callback := congrArg Core.callback hcore
  have hconn : d'.session.conn = d.session.conn := congrArg Core.conn hcore
  have hprevious : d'.session.previous = d.session.previous := congrArg Core.previous hcore
  have hover := takeFinished_of_line (e := e.put d') rfl hended
  rw [hcallback, hconn, hprevious] at hover
  refine ⟨(e.put d').takeFinished.1, ?_, ?_, ?_, ?_⟩
  · dsimp only
    rw [hover]
  · rw [hover]
  · rw [hover]
    exact (congrArg Core.queue hcore).trans (EventQueue.append_nil _)
  · rw [hover, ← hhistory]
    exact hpushed

end Engine

end LineEditor
