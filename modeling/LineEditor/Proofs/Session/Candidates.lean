import LineEditor.Proofs.Completion.Words
import LineEditor.Proofs.Session.Traces

/-!
The usual completion handler at a desk. It is taken out of the session, works and is put back; candidates
that it lists, at once or after its question, are listed below the line, and the line that is drawn again
below them has the cursor at its end.

Main definition: `Desk.LeftBy`, how the work of a handler leaves a desk. Main statements:
`dispatch_candidates`, which event makes a handler work, and `listed_at_end`.
-/
namespace LineEditor.Desk

variable {d d' : Desk} {h : CandidateHandler} {c : Completion} {e : KeyEvent}

/-- The desk that an event leaves, if no script has to be run. -/
def Dispatched.desk? : Dispatched → Option Desk
  | finished d => some d
  | script .. => none

/-! ### A handler at work -/

/-- The desk at which a handler works for an event: the handler is not in the session. -/
def atWork (d : Desk) (c : Completion) (e : KeyEvent) : Desk :=
  { d.beginAction (.complete c) e with session.handler := none }

theorem trace_atWork (d : Desk) (c : Completion) (e : KeyEvent) :
    (d.atWork c e).trace = { d.trace with typing := false } := d.trace_beginAction (.complete c) e

/-- How the work of a handler leaves a desk: with what it shows and leaves for undo, with the handler
back, and with the focus on its question while it asks. -/
structure LeftBy (d' : Desk) (r : CandidateHandler × Desk) : Prop where
  buffer_eq : d'.session.buffer = r.2.session.buffer
  trace_eq : d'.trace = r.2.trace
  handler_eq : d'.session.handler = some (.candidates r.1)
  focus : r.1.ask = true → ∃ c, d'.session.focus = some (.complete c)

/-- The handler is back, the session resumed, and the focus kept while the handler asks. -/
theorem leftBy_settleFocus (r : CandidateHandler × Desk) (c : Completion) :
    (settleFocus (r.2.endCompletion c (.candidates r.1) false).2
      (.complete (r.2.endCompletion c (.candidates r.1) false).1)).LeftBy r := by
  refine ⟨buffer_settleFocus .., ?_, ?_, fun hask => ?_⟩
  · rw [trace_settleFocus, trace_endCompletion]
  · rw [settleFocus]
    split <;> rfl
  · have hkeeps : (Action.complete (r.2.endCompletion c (.candidates r.1) false).1).keepsFocus = true :=
      hask
    rw [settleFocus, if_pos hkeeps]
    exact ⟨_, rfl⟩

/-- A handler works for every event of a completion, except for one that says no to its question. -/
theorem dispatch_candidates (haction : d.actionFor e = some (.complete c))
    (hhandler : d.session.handler = some (.candidates h))
    (hanswer : h.ask = true → isYes c.answer = true) :
    ∃ d', d.dispatch e = .finished d' ∧ d'.LeftBy ((d.atWork c e).completeFrom h) := by
  have hgoes : ((Handler.candidates h).asks && !isYes c.answer) = false := by
    change (h.ask && !isYes c.answer) = false
    cases hask : h.ask with
    | false => rfl
    | true =>
      rw [hanswer hask]
      rfl
  have hbegun : (d.beginAction (.complete c) e).session.handler = some (.candidates h) := hhandler
  rw [dispatch, haction]
  dsimp only [apply]
  rw [beginCompletion, hbegun]
  dsimp only
  rw [hgoes]
  exact ⟨_, rfl, leftBy_settleFocus ((d.atWork c e).completeFrom h) _⟩

theorem buffer_newLine (d : Desk) : d.newLine.session.buffer = d.session.buffer.moveToEnd :=
  congrArg (fun s : Session => s.buffer.moveToEnd) (d.session_write _)

theorem buffer_listCandidates (d : Desk) (candidates : List Text) :
    (d.listCandidates candidates).session.buffer = d.session.buffer := by
  change (d.write _).session.buffer = _
  rw [session_write]

theorem buffer_askBeforeListing (d : Desk) (count : Nat) :
    (d.askBeforeListing count).session.buffer = d.session.buffer.moveToEnd :=
  (congrArg Session.buffer (session_write ..)).trans d.buffer_newLine

/-- A handler whose question is said yes to lists the candidates that wait, and the line stays. -/
theorem buffer_completeFrom_of_asking (hask : h.ask = true) :
    (d.completeFrom h).2.session.buffer = d.session.buffer := by
  rw [completeFrom, if_pos hask]
  exact (buffer_listCandidates ..).trans (congrArg Session.buffer (session_write ..))

/-- The desk with what a handler tells the log of its candidates. -/
def logged (d : Desk) (h : CandidateHandler) : Desk :=
  d.log .debug .completion "complete" [("word", .quoted d.session.buffer.word),
    ("candidates", .number (h.completer.candidates d.session.buffer.word).length)]

theorem trace_logged (d : Desk) (h : CandidateHandler) : (d.logged h).trace = d.trace := d.trace_log ..

/-- What a handler does by its candidates while it holds no question. -/
theorem completeFrom_eq (hcalm : h.ask = false) : d.completeFrom h =
    let candidates := h.completer.candidates d.session.buffer.word
    match candidates with
    | [] => (h, (d.logged h).bell)
    | [single] => (h, (d.logged h).replaceWord (single ++ [' ']))
    | _ =>
      let shared := commonStart candidates
      if d.session.buffer.word.length < shared.length then (h, (d.logged h).replaceWord shared)
      else if d.config.queryItems < candidates.length then
        ({ h with ask := true, pending := candidates }, (d.logged h).askBeforeListing candidates.length)
      else (h, (d.logged h).newLine.listCandidates candidates) := by
  rw [completeFrom, if_neg (Bool.eq_false_iff.1 hcalm)]
  rfl

theorem completeFrom_of_none (hcalm : h.ask = false)
    (hc : h.completer.candidates d.session.buffer.word = []) :
    d.completeFrom h = (h, (d.logged h).bell) := by
  rw [completeFrom_eq hcalm]
  dsimp only
  rw [hc]

theorem completeFrom_of_single {single : Text} (hcalm : h.ask = false)
    (hc : h.completer.candidates d.session.buffer.word = [single]) :
    d.completeFrom h = (h, (d.logged h).replaceWord (single ++ [' '])) := by
  rw [completeFrom_eq hcalm]
  dsimp only
  rw [hc]

theorem completeFrom_of_longer {x y : Text} {rest : List Text} (hcalm : h.ask = false)
    (hc : h.completer.candidates d.session.buffer.word = x :: y :: rest)
    (hlonger : d.session.buffer.word.length < (commonStart (x :: y :: rest)).length) :
    d.completeFrom h = (h, (d.logged h).replaceWord (commonStart (x :: y :: rest))) := by
  rw [completeFrom_eq hcalm]
  dsimp only
  rw [hc]
  exact if_pos hlonger

/-! ### Lists -/

/-- Candidates that do not extend the word are listed, or asked about. -/
theorem completeFrom_of_short (hcalm : h.ask = false)
    (hmany : 2 ≤ (h.completer.candidates d.session.buffer.word).length)
    (hshort : (commonStart (h.completer.candidates d.session.buffer.word)).length ≤
      d.session.buffer.word.length) :
    (d.completeFrom h).2.session.buffer = d.session.buffer.moveToEnd ∧
      (d.completeFrom h).2.trace = d.trace ∧ (d.completeFrom h).1.completer = h.completer ∧
      (d.completeFrom h).1.ask =
        decide (d.config.queryItems < (h.completer.candidates d.session.buffer.word).length) := by
  have hlogged : (d.logged h).session.buffer = d.session.buffer := rfl
  rw [completeFrom_eq hcalm]
  dsimp only
  split
  · rename_i hnone
    rw [hnone] at hmany
    cases hmany
  · rename_i single hsingle
    rw [hsingle] at hmany
    exact absurd hmany (Nat.lt_irrefl 1)
  · rw [if_neg (Nat.not_lt.2 hshort)]
    split
    · rename_i hitems
      refine ⟨?_, ?_, rfl, (decide_eq_true hitems).symm⟩
      · rw [buffer_askBeforeListing, hlogged]
      · rw [trace_askBeforeListing, trace_logged]
    · rename_i hitems
      refine ⟨?_, ?_, rfl, hcalm.trans (decide_eq_false hitems).symm⟩
      · rw [buffer_listCandidates, buffer_newLine, hlogged]
      · rw [trace_listCandidates, trace_newLine, trace_logged]

/-- Candidates that do not extend the word are listed, at once or after the question; the line keeps its
text and its cursor goes to the end, and so it is when a question is said yes to. -/
theorem listed_at_end (haction : d.actionFor e = some (.complete c))
    (hhandler : d.session.handler = some (.candidates h)) (hcalm : h.ask = false)
    (hmany : 2 ≤ (h.completer.candidates d.session.buffer.word).length)
    (hshort : (commonStart (h.completer.candidates d.session.buffer.word)).length ≤
      d.session.buffer.word.length) :
    ∃ d', d.dispatch e = .finished d' ∧
      d'.session.buffer = d.session.buffer.moveToEnd ∧
      (d.config.queryItems < (h.completer.candidates d.session.buffer.word).length →
        ∀ y, isYes (some y) = true → ∃ d'', d'.dispatch y = .finished d'' ∧
          d''.session.buffer = d.session.buffer.moveToEnd) := by
  obtain ⟨d', hd', hleft⟩ := dispatch_candidates haction hhandler fun hask => by
    rw [hcalm] at hask
    cases hask
  obtain ⟨hshown, -, -, hasks⟩ := completeFrom_of_short (d := d.atWork c e) hcalm hmany hshort
  have hend : d'.session.buffer = d.session.buffer.moveToEnd := hleft.buffer_eq.trans hshown
  refine ⟨d', hd', hend, fun hitems y hy => ?_⟩
  have hask : ((d.atWork c e).completeFrom h).1.ask = true := hasks.trans (decide_eq_true hitems)
  obtain ⟨c', hfocus⟩ := hleft.focus hask
  have hnext : d'.actionFor y = some (.complete { c' with answer := some y }) := by
    rw [actionFor, hfocus]
    rfl
  obtain ⟨d'', hd'', hlisted⟩ := dispatch_candidates hnext hleft.handler_eq fun _ => hy
  refine ⟨d'', hd'', ?_⟩
  rw [hlisted.buffer_eq, buffer_completeFrom_of_asking hask]
  exact hend

/-- A list of two words for a `g` that stands before an `x`. -/
theorem listed_at_end_two :
    let h : CandidateHandler := { completer := .ofWords [['g', 'i', 't'], ['g', 'o']] }
    let session : Session := { conn := 0, prompt := ⟨['>', ' ']⟩, current := ⟨['>', ' ']⟩,
                               shown := ⟨['>', ' ']⟩, continuation := ⟨['>', ' ']⟩, width := 80,
                               buffer := .ofSides ['g'] [' ', 'x'], handler := some (.candidates h),
                               callback := 0 }
    let d : Desk := { config := { queryItems := 1 }, keymap := .new .emacs, history := .ofEntries 10 [],
                      session }
    ∃ d' d'', d.dispatch (.key .tab) = .finished d' ∧ d'.dispatch (.char 'y') = .finished d'' ∧
      d''.session.buffer = .ofText ['g', ' ', 'x'] := by
  intro h session d
  have hwords : h.completer.candidates d.session.buffer.word = [['g', 'i', 't'], ['g', 'o']] := by
    change (Completer.ofWords _).candidates _ = _
    rw [Completer.ofWords_of_pairwise (by decide +kernel)]
    decide +kernel
  have haction : d.actionFor (.key .tab) = some (.complete {}) := by decide +kernel
  have hmany : 2 ≤ (h.completer.candidates d.session.buffer.word).length := by
    rw [hwords]
    decide
  have hshort : (commonStart (h.completer.candidates d.session.buffer.word)).length ≤
      d.session.buffer.word.length := by
    rw [hwords]
    decide +kernel
  have hitems : d.config.queryItems < (h.completer.candidates d.session.buffer.word).length := by
    rw [hwords]
    decide
  obtain ⟨d', hd', -, hyes⟩ := listed_at_end haction rfl rfl hmany hshort
  obtain ⟨d'', hd'', hlisted⟩ := hyes hitems (.char 'y') rfl
  exact ⟨d', d'', hd', hd'', hlisted⟩

/-- The list of two words for a `g` that stands before an `x` moves the cursor behind the `x`. -/
theorem moved_by_list :
    let h : CandidateHandler := { completer := .ofWords [['g', 'i', 't'], ['g', 'o']] }
    let session : Session := { conn := 0, prompt := ⟨['>', ' ']⟩, current := ⟨['>', ' ']⟩,
                               shown := ⟨['>', ' ']⟩, continuation := ⟨['>', ' ']⟩, width := 80,
                               buffer := .ofSides ['g'] [' ', 'x'], handler := some (.candidates h),
                               callback := 0 }
    let d : Desk := { config := {}, keymap := .new .emacs, history := .ofEntries 10 [], session }
    let candidates := h.completer.candidates d.session.buffer.word
    let shown := (d.dispatch (.key .tab)).desk?.map (·.session.buffer)
    2 ≤ candidates.length ∧ candidates.length ≤ d.config.queryItems ∧
      (commonStart candidates).length ≤ d.session.buffer.word.length ∧
      d.session.buffer.cursor = 1 ∧ shown = some (.ofText ['g', ' ', 'x']) := by
  rw [Completer.ofWords_of_pairwise (by decide +kernel)]
  decide +kernel

end LineEditor.Desk
