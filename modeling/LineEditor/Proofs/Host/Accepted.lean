import LineEditor.Proofs.Engine.Accepted
import LineEditor.Proofs.Host.Rules

/-!
Accepting never loses what is shown. As long as only insertable text may be shown, a line that is
accepted without continuation lines is given to the callback as it is shown, and the same text is
pushed to the history; text that is not insertable can only come from the host.

Main definition: `Rules.insertable`. Main statement: `Machine.accepted_of_play`.
-/
namespace LineEditor

/-- Only insertable text may be shown, and any candidates may be offered. -/
def Rules.insertable : Rules where
  shows c := Buffer.isInsertable c = true
  holds c := Buffer.isInsertable c = true
  employs
    | .candidates _ => True
    | .scripted _ => False
  edits _ := True
  shows_of_printable c hc := by
    rw [Buffer.isInsertable, hc]
    rfl
  holds_of_insertable _ hc := hc
  offers _ _ _ _ _ _ _ _ _ hc := hc
  employs_candidates _ _ _ _ := trivial
  employs_scripted _ _ _ h := h

namespace World

variable {w : World} {n : Nat} {e : Engine}

theorem engine?_put_eq (hn : w.engine? n = some e) (conn : Nat) (e' : Engine)
    (f : Option Finished) :
    ((w.put n conn e').close f).engine? n = some { e' with effects := [] } := by
  have hlt : n < w.engines.length := by
    by_contra hle
    rw [World.engine?, List.getElem?_eq_none (Nat.not_lt.1 hle)] at hn
    cases hn
  rw [World.engine?, engines_close, engines_put, List.getElem?_set_self hlt]
  rfl

end World

namespace Machine

variable {R : Rules} {host : Host} {m : Machine} {n : Nat} {jobs : List Job} {e : Engine} {d : Desk}

/-- Whatever was done before, a line that is accepted without continuation lines is given to the
callback as it is shown, and is pushed to the history. -/
theorem accepted_of_play (hshows : ∀ c, R.shows c → Buffer.isInsertable c = true)
    (hholds : ∀ c, R.holds c → R.shows c) (hscripts : R.Scripts) (hhost : host.Obeys R)
    {moves : List Move} (hmoves : ∀ x ∈ moves, x.Obeys R) (hm : m.Obeys R)
    (hjobs : (m.play host moves).jobs = .deliver n :: jobs)
    (hn : (m.play host moves).world.engine? n = some e) (hfree : e.busy = false)
    (haccept : e.Accepting d) (hline : d.session.line.text = [])
    (hcomplete : QuoteStatus.scan d.session.buffer.text = .complete) :
    ((m.play host moves).move host .step).jobs =
        .callback d.session.callback (some d.session.buffer.text) :: .deliver n :: jobs ∧
      ∃ e', ((m.play host moves).move host .step).world.engine? n = some e' ∧ e'.session = none ∧
        e'.history = e.history.push d.session.buffer.text := by
  have hobeys := obeys_play hscripts hhost hmoves hm fun line _ hheld => hheld.mono hholds
  generalize m.play host moves = m' at hjobs hn hobeys ⊢
  obtain ⟨w, jobs'⟩ := m'
  obtain ⟨event, hnext, -⟩ := id haccept
  have hdesk := (hobeys.world.engines n e hn).next hnext
  obtain ⟨e', hstep, hsession, -, hhistory⟩ := Engine.step?_of_accepting haccept
    (hdesk.session.buffer.mono hshows) hline hcomplete
  have hmove : (⟨w, jobs'⟩ : Machine).move host .step =
      ⟨(w.put n e.conn e').close (some {
          callback := d.session.callback
          line := some d.session.buffer.text
          conn := d.session.conn
          previous := d.session.previous }),
        .callback d.session.callback (some d.session.buffer.text) :: .deliver n :: jobs⟩ := by
    cases hjobs
    change (Machine.mk w jobs).deliver n = _
    rw [Machine.deliver, hn]
    dsimp only
    rw [if_neg (by rw [hfree]; decide), hstep]
    rfl
  rw [hmove]
  exact ⟨rfl, _, World.engine?_put_eq hn e.conn e' _, hsession, hhistory⟩

set_option maxRecDepth 4000 in
/-- An entry of the history is recalled and accepted. -/
theorem accepted_of_play_recalled :
    let r : Request := { engine := 0, conn := 0, prompt := ⟨['>', ' ']⟩, handler := none }
    let start : Machine := ⟨.solo (.new {} [['h', 'i']]) (.new {} {}) {}, []⟩
    let moves : List Move := [.call (.readline r 0), .call (.feed 0 [27, 91, 65, 13]),
      .call (.runTasks 0), .step, .step]
    let host : Host := ⟨fun _ _ => []⟩
    ((start.play host moves).move host .step).jobs =
      [.callback 0 (some ['h', 'i']), .deliver 0, .tasks 0] := by
  intro r start moves host
  have hlines : ∀ line ∈ [['h', 'i']], Text.Only Rules.insertable.shows line :=
    List.forall_mem_singleton.2 <|
      List.all_eq_true.1 (by decide : ['h', 'i'].all Buffer.isInsertable = true)
  have he : (Engine.new {} [['h', 'i']]).Obeys .insertable := Engine.obeys_new trivial hlines
  have hc : (Connection.new {} {}).Obeys .insertable := Connection.obeys_new _ _ _
  have hm : start.Obeys .insertable := ⟨World.obeys_solo he hc _, List.forall_mem_nil _⟩
  have hscripts : Rules.insertable.Scripts := fun _ hemployed => False.elim hemployed
  have hhost : host.Obeys .insertable := fun _ _ => List.forall_mem_nil _
  have hmoves : ∀ x ∈ moves, x.Obeys .insertable := by
    simp [moves, r, Move.Obeys, Call.Obeys]
  have hread : ((start.play host moves).world.engine? 0).bind (fun e =>
      e.next?.map fun x => (x.1.actionFor x.2,
        e.busy || decide (e.Interrupts x.2) || decide (e.AtEof x.1 x.2),
        x.1.session.line.text, x.1.session.buffer.text, x.1.session.callback)) =
      some (some .acceptLine, false, [], ['h', 'i'], 0) := by
    decide +kernel
  have hjobs : (start.play host moves).jobs = [.deliver 0, .tasks 0] := by
    simp only [start, moves, host, r]
    rfl
  obtain ⟨e, hn, hread⟩ := Option.bind_eq_some_iff.1 hread
  obtain ⟨⟨d, event⟩, hnext, hread⟩ := Option.map_eq_some_iff.1 hread
  simp only [Prod.mk.injEq, Bool.or_eq_false_iff, decide_eq_false_iff_not] at hread
  obtain ⟨haction, ⟨⟨hfree, hinterrupt⟩, heof⟩, hline, hshown, hcallback⟩ := hread
  have haccepted := accepted_of_play (fun _ hc => hc) (fun _ hc => hc) hscripts hhost hmoves hm
    hjobs hn hfree ⟨event, hnext, haction, hinterrupt, heof⟩ hline (by rw [hshown]; decide)
  rw [hshown, hcallback] at haccepted
  exact haccepted.1

/-- A tab in an entry of the history is shown, and nothing is left of the entry when it is accepted.
-/
theorem lost_of_recalled_tab :
    let r : Request := { engine := 0, conn := 0, prompt := ⟨['>', ' ']⟩, handler := none }
    let start : Machine := ⟨.solo (.new {} [['a', '\t', 'b']]) (.new {} {}) {}, []⟩
    let host : Host := ⟨fun _ _ => []⟩
    let recalled := start.play host [.call (.readline r 0), .call (.feed 0 [27, 91, 65, 13]),
      .call (.runTasks 0), .step, .step]
    ((recalled.world.engine? 0).bind Engine.session).map (fun s => s.buffer.text) =
        some ['a', '\t', 'b'] ∧
      (recalled.play host [.step, .step]).world.journal.lines = #[some []] := by
  decide +kernel

end Machine

end LineEditor
