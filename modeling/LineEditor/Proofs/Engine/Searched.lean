import LineEditor.Proofs.Engine.Accepted
import LineEditor.Proofs.Host.Play
import LineEditor.Proofs.Host.Solo
import LineEditor.Proofs.Session.Rules

/-!
Accepting a search. The match that is shown becomes the text of the line, and an enter is left
behind the input that waits: if none waits the enter is next, and the match is the line; otherwise
the input is handled first, on a line that holds the match.

Main definition: `Engine.AcceptKey`. Main statement: `Engine.step?_of_searching`.
-/
namespace LineEditor

/-! ### Searches -/

/-- A key that accepts a line accepts a search, unless it is escape. -/
theorem Search.input_accept (q : Search) {event : KeyEvent} (hescape : event ≠ .key .escape) :
    q.input (some .acceptLine) event = { q with status := .accept } := by
  simp only [Search.input, Search.statusFor, if_neg hescape]

namespace Desk

variable {d : Desk} {q : Search} {r : Text} {event : KeyEvent}

/-- The match is shown, and an enter is queued. -/
theorem search_accept (hstatus : q.status = .accept) (hresult : q.result = some r) :
    d.search q = (q, Desk.resume { (d.refresh (.ofText r)).log .debug .searchHistory "search done"
        [("status", .name q.status.name), ("query", .quoted q.query)] with
      queue := d.queue.append Key.enter.codePoints
      history := d.history.resetSearch }) := by
  have hkeeps : q.keepsFocus = false := by rw [Search.keepsFocus, hstatus]
  have hshown : q.resultBuffer = .ofText r := by rw [Search.resultBuffer, hresult, Option.getD_some]
  have hstep : d.searchStep q = (q, { d.refresh (.ofText r) with
      queue := d.queue.append Key.enter.codePoints }) := by
    have hqueue : (d.refresh (.ofText r)).queue = d.queue :=
      congrArg (fun k : Kept => k.core.queue) (d.kept_refresh (.ofText r))
    simp only [Desk.searchStep, hstatus, hshown, hresult, Option.isSome_some, if_true, hqueue]
  have hhistory : (d.refresh (.ofText r)).history = d.history := d.history_write _
  rw [Desk.search, hstep]
  simp only [hkeeps, Bool.false_eq_true, if_false, ← hhistory]
  rfl

/-- A search with a match lets go at an accepting key: the match is shown, with an enter behind the
input that waits. -/
theorem dispatch_search_accept (hescape : event ≠ .key .escape)
    (hbound : d.keymap.lookup? event = some .acceptLine)
    (hfocus : d.session.focus = some (.search q)) (hresult : q.result = some r) :
    ∃ d', d.dispatch event = .finished d' ∧
      (d'.config = d.config ∧ d'.keymap = d.keymap) ∧
      (d'.session.buffer = .ofText r ∧ d'.session.line = d.session.line ∧
        d'.session.focus = none) ∧
      d'.core = { d.core with queue := d.queue.append Key.enter.codePoints, paused := false } := by
  have haction : d.actionFor event = some (.search { q with status := .accept }) := by
    simp only [Desk.actionFor, hfocus, hbound, Action.input, Search.input_accept q hescape]
  have hsearch := search_accept (d := d.beginAction (.search { q with status := .accept }) event)
    (q := { q with status := .accept }) rfl hresult
  have hdispatch : d.dispatch event = .finished (((d.beginAction
      (.search { q with status := .accept }) event).search { q with status := .accept }).2.settleFocus
        (.search { q with status := .accept })) := by
    rw [Desk.dispatch, haction]
    simp only [Desk.apply, hsearch]
  rw [hsearch] at hdispatch
  refine ⟨_, hdispatch, ?_⟩
  simp only [Desk.refresh, Desk.refreshWith, Desk.write]
  split
  · exact ⟨⟨rfl, rfl⟩, ⟨rfl, rfl, rfl⟩, rfl⟩
  · exact ⟨⟨rfl, rfl⟩, ⟨rfl, rfl, rfl⟩, rfl⟩

end Desk

/-! ### Queues -/

/-- An enter that waits alone is the enter key. -/
theorem EventQueue.next_enter (m : Keymap) :
    EventQueue.next m.recognizes ⟨Key.enter.codePoints⟩ = some (.key .enter, ⟨[]⟩) := by
  obtain ⟨style, vi, bindings, commandBindings⟩ := m
  have hemacs : EventQueue.next (fun _ => true) ⟨Key.enter.codePoints⟩ =
      some (.key .enter, ⟨[]⟩) := by
    decide +kernel
  have hvi : EventQueue.next (fun k => !k.isMeta) ⟨Key.enter.codePoints⟩ =
      some (.key .enter, ⟨[]⟩) := by
    decide +kernel
  cases style with
  | emacs => exact hemacs
  | vi => exact hvi

namespace Engine

variable {e : Engine} {s : Session} {q : Search} {r u : Text} {event : KeyEvent}

/-- An event that accepts the line, and a search: not an interrupt, and never the end of file. -/
structure AcceptKey (e : Engine) (event : KeyEvent) : Prop where
  bound : e.keymap.lookup? event = some .acceptLine
  not_escape : event ≠ .key .escape
  not_interrupt : ¬ e.Interrupts event
  not_eof : event.singleCodePoint? ≠ some e.config.controls.eof

theorem AcceptKey.not_atEof (h : e.AcceptKey event) (d : Desk) : ¬ e.AtEof d event := by
  rw [AtEof, Bool.and_eq_true, decide_eq_true_iff]
  rintro ⟨heof, -⟩
  exact h.not_eof heof

/-- What an accepting key does depends on the bindings and the settings only. -/
theorem AcceptKey.congr {e' : Engine} (h : e.AcceptKey event) (hconfig : e'.config = e.config)
    (hkeymap : e'.keymap = e.keymap) : e'.AcceptKey event := by
  obtain ⟨hbound, hescape, hinterrupt, heof⟩ := h
  refine ⟨?_, hescape, ?_, ?_⟩
  · rw [hkeymap]
    exact hbound
  · rw [Interrupts, hconfig]
    exact hinterrupt
  · rw [hconfig]
    exact heof

/-- An enter that waits alone accepts what is shown, if no action has the focus. -/
theorem accepting_enter (hs : e.session = some s) (hlisten : s.paused = false)
    (hfocus : s.focus = none) (hqueue : e.queue = ⟨Key.enter.codePoints⟩)
    (henter : e.AcceptKey (.key .enter)) :
    e.Accepting { toEditor := { e.toEditor with queue := ⟨[]⟩ }, session := s } := by
  have hlistens : e.isListening = true := isListening_eq_true.2 ⟨s, hs, hlisten⟩
  refine ⟨.key .enter, ?_, ?_, henter.not_interrupt, henter.not_atEof _⟩
  · rw [next?, if_pos hlistens, hqueue, EventQueue.next_enter, desk?, hs]
    rfl
  · simp only [Desk.actionFor, hfocus, henter.bound]
    rfl

/-- An accepting key in a search with a match: the match becomes the text of the line, with an enter
queued behind the input that waits. If none waits the enter is next, and the match is the line. -/
theorem step?_of_searching (hs : e.session = some s) (hlisten : s.paused = false)
    (hreading : s.outcome = .reading) (hfocus : s.focus = some (.search q))
    (hresult : q.result = some r)
    (hnext : e.queue.next e.keymap.recognizes = some (event, ⟨u⟩)) (haccept : e.AcceptKey event) :
    ∃ e' s', e.step? = some (.settled e' none) ∧ e'.session = some s' ∧
      (s'.buffer = .ofText r ∧ s'.line = s.line ∧ s'.focus = none) ∧
      e'.queue.pending = u ++ Key.enter.codePoints ∧
      (u = [] → s.line.text = [] → r.Only (Buffer.isInsertable · = true) →
        QuoteStatus.scan r = .complete → e.AcceptKey (.key .enter) →
        ∃ e'', e'.step? = some (.settled e'' (some ⟨s.callback, some r, s.conn, s.previous⟩)) ∧
          e''.queue.pending = []) := by
  let d : Desk := { toEditor := { e.toEditor with queue := ⟨u⟩ }, session := s }
  have hlistens : e.isListening = true := isListening_eq_true.2 ⟨s, hs, hlisten⟩
  have hdesk : e.next? = some (d, event) := by
    rw [next?, if_pos hlistens, hnext, desk?, hs]
    rfl
  obtain ⟨d', hdispatch, ⟨hconfig, hkeymap⟩, ⟨hbuffer, hline', hlet⟩, hcore⟩ :=
    Desk.dispatch_search_accept (d := d) haccept.not_escape haccept.bound hfocus hresult
  have hqueue : d'.queue = ⟨u ++ Key.enter.codePoints⟩ := congrArg Core.queue hcore
  have hopen : (e.put d').takeFinished = (e.put d', none) := by
    apply takeFinished_of_reading
    rintro s' ⟨⟩
    exact (congrArg Core.outcome hcore).trans hreading
  refine ⟨e.put d', d'.session, ?_, rfl, ⟨hbuffer, hline', hlet⟩, congrArg _ hqueue, ?_⟩
  · rw [step?_eq, hdesk, Option.map_some, handle_eq, if_neg haccept.not_interrupt,
      if_neg (haccept.not_atEof d), hdispatch]
    dsimp only
    rw [hopen]
  · intro hu hline hr hcomplete henter
    -- the enter is the next event, and nothing has the focus any more
    have hshown : d'.session.buffer.text = r := by
      rw [hbuffer]
      rfl
    have haccepting := accepting_enter (e := e.put d') rfl (congrArg Core.paused hcore) hlet
      (by rw [hu] at hqueue; exact hqueue) (henter.congr hconfig hkeymap)
    obtain ⟨e'', hstep, -, hleft, -⟩ := step?_of_accepting haccepting (by rwa [hshown])
      (by rw [hline']; exact hline) (by rwa [hshown])
    have hcallback : d'.session.callback = s.callback := congrArg Core.callback hcore
    have hconn : d'.session.conn = s.conn := congrArg Core.conn hcore
    have hprevious : d'.session.previous = s.previous := congrArg Core.previous hcore
    rw [hshown, hcallback, hconn, hprevious] at hstep
    exact ⟨e'', hstep, congrArg EventQueue.pending hleft⟩

/-- An enter accepts the match of a search when nothing waits behind it. -/
theorem step?_of_searching_alone :
    let r : Request := { engine := 0, conn := 0, prompt := ⟨['>', ' ']⟩, handler := none }
    let q : Search :=
      { direction := .reverse, status := .input, query := ['a'], result := some ['a', 'b'] }
    let s : Session := { Session.begin r {} 0 80 {} with focus := some (.search q) }
    let e : Engine := { Engine.new {} [['a', 'b']] with session := some s, queue := ⟨['\r']⟩ }
    ∃ e' e'', e.step? = some (.settled e' none) ∧
      e'.step? = some (.settled e'' (some ⟨0, some ['a', 'b'], 0, {}⟩)) ∧
      e''.queue.pending = [] := by
  intro r q s e
  have hnext : e.queue.next e.keymap.recognizes = some (.key .enter, ⟨[]⟩) := by
    decide +kernel
  have henter : e.AcceptKey (.key .enter) := by
    refine ⟨?_, ?_, ?_, ?_⟩
    · decide +kernel
    · decide
    · decide
    · decide
  obtain ⟨e', -, hstep, -, -, -, haccepted⟩ :=
    step?_of_searching (s := s) (q := q) rfl rfl rfl rfl rfl hnext henter
  have hinsertable : Text.Only (Buffer.isInsertable · = true) ['a', 'b'] :=
    List.all_eq_true.1 (by decide : ['a', 'b'].all Buffer.isInsertable = true)
  obtain ⟨e'', hover, hleft⟩ := haccepted rfl rfl hinsertable (by decide) henter
  exact ⟨e', e'', hstep, hover, hleft⟩

end Engine

/-- Input that waits behind the enter is typed behind the match before the line is accepted. -/
theorem Machine.typed_behind_match :
    let r : Request := { engine := 0, conn := 0, prompt := ⟨['>', ' ']⟩, handler := none }
    let start : Machine := ⟨.solo (.new {} [['a', 'b']]) (.new {} {}) {}, []⟩
    let host : Host := ⟨fun _ _ => []⟩
    let searching := start.play host
      [.call (.readline r 0), .call (.feed 0 [18, 97]), .call (.runTasks 0), .step, .step, .step,
        .step, .step]
    ((searching.world.engine? 0).bind Engine.session).map (fun s => s.buffer.text) =
        some ['a', 'b'] ∧
      ((searching.play host [.call (.feed 0 [13, 120]), .call (.runTasks 0), .step, .step, .step,
        .step, .step]).world.journal.lines) = #[some ['a', 'b', 'x']] := by
  decide +kernel

end LineEditor
