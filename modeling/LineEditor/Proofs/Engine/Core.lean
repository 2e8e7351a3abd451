import LineEditor.Proofs.Session.Core

/-!
What an engine does to its queue and its session, told by the core of the session's desk: which
input waits, who receives the line, whether it has ended and whether input is held back.

Main definitions: `Engine.core?`, `Engine.next?`, the event that is handled next, and `givenBy` and
`endsBy`, what its handling leaves in the queue and ends the session with. Main statements:
`handle_cases`, `takeFinished_cases`, `resume_cases` and `answers_cases`, all that can happen to the
core.
-/
namespace LineEditor

/-! ### Queues -/

namespace EventQueue

variable {q q' : EventQueue} {event : KeyEvent} {recognizes : Key → Bool}

/-- The code points that the next event takes. -/
def taken (recognizes : Key → Bool) (q : EventQueue) : Text :=
  match q.next recognizes with
  | none => []
  | some (_, q') => q.pending.take (q.pending.length - q'.pending.length)

/-- What an event takes is in front, and the rest stays. -/
theorem taken_append (h : q.next recognizes = some (event, q')) :
    q.taken recognizes ++ q'.pending = q.pending := by
  have hdrop : ∃ n, q'.pending = q.pending.drop n := by
    obtain ⟨pending⟩ := q
    unfold next at h
    cases pending with
    | nil => cases h
    | cons c rest =>
      dsimp only at h
      split at h
      · rename_i n k hlongest
        cases h
        exact ⟨n, rfl⟩
      · cases h
        exact ⟨1, rfl⟩
  obtain ⟨n, hn⟩ := hdrop
  unfold taken
  rw [h]
  dsimp only
  rw [hn, List.length_drop]
  by_cases hle : n ≤ q.pending.length
  · rw [Nat.sub_sub_self hle, List.take_append_drop]
  · have hdropped : q.pending.drop n = [] := List.drop_eq_nil_of_le (by omega)
    rw [hdropped, List.append_nil, List.take_of_length_le (by omega)]

end EventQueue

namespace Engine

/-- What of the session does not concern the text. -/
def core? (e : Engine) : Option Core := e.desk?.map Desk.core

variable {e : Engine} {d : Desk} {s : Session} {k : Core} {line : Option Text}

@[simp] theorem core?_put (e : Engine) (d : Desk) : (e.put d).core? = some d.core := rfl

theorem desk?_of_session (hs : e.session = some s) :
    e.desk? = some { toEditor := e.toEditor, session := s } := by
  rw [desk?, hs]
  rfl

theorem core?_of_session (hs : e.session = some s) :
    e.core? = some (Desk.core { toEditor := e.toEditor, session := s }) := by
  rw [core?, desk?_of_session hs]
  rfl

theorem desk_of_core? (hk : e.core? = some k) :
    ∃ d, e.desk? = some d ∧ e.session = some d.session ∧ k = d.core := by
  unfold core? desk? at *
  cases hs : e.session with
  | none =>
    rw [hs] at hk
    cases hk
  | some s =>
    rw [hs] at hk
    exact ⟨_, rfl, rfl, (Option.some.inj hk).symm⟩

theorem queue_of_core? (hk : e.core? = some k) : e.queue = k.queue := by
  unfold core? desk? at hk
  obtain ⟨d, hd, rfl⟩ := Option.map_eq_some_iff.1 hk
  obtain ⟨s, -, rfl⟩ := Option.map_eq_some_iff.1 hd
  rfl

theorem canDeliver_of_core? (hk : e.core? = some k) :
    e.canDeliver = (k.queue.hasNext && !k.paused) := by
  obtain ⟨d, -, hs, rfl⟩ := desk_of_core? hk
  unfold canDeliver isListening
  rw [hs, queue_of_core? hk]
  rfl

/-! ### The end of a session -/

/-- A session whose outcome is open goes on. -/
theorem takeFinished_of_reading (h : ∀ s, e.session = some s → s.outcome = .reading) :
    e.takeFinished = (e, none) := by
  unfold takeFinished
  cases hs : e.session with
  | none => rfl
  | some s =>
    dsimp only
    rw [h s hs]
    rfl

/-- A session whose outcome is settled ends, and its callback is told the line. -/
theorem takeFinished_of_line (hs : e.session = some s) (hline : s.outcome.line? = some line) :
    e.takeFinished =
      ({ e with
          toEditor := e.toEditor.log .debug .engine "line done"
            [("maybe_line", .plain (describeLine line))]
          session := none },
        some { callback := s.callback, line, conn := s.conn, previous := s.previous }) := by
  unfold takeFinished
  rw [hs]
  dsimp only
  rw [hline]

/-- A session goes on or ends; the queue stays as it is. -/
theorem takeFinished_cases (hk : e.core? = some k) :
    (k.outcome = .reading ∧ e.takeFinished = (e, none)) ∨
    ∃ line e', k.outcome.line? = some line ∧
      e.takeFinished = (e', some ⟨k.callback, line, k.conn, k.previous⟩) ∧
      e'.session = none ∧ e'.queue = e.queue ∧ e'.scheduled = e.scheduled ∧ e'.busy = e.busy := by
  obtain ⟨d, -, hs, rfl⟩ := desk_of_core? hk
  cases hline : d.session.outcome.line? with
  | none =>
    have hreading : d.session.outcome = .reading := by
      cases houtcome : d.session.outcome with
      | reading => rfl
      | accepted line =>
        rw [houtcome] at hline
        cases hline
      | eof =>
        rw [houtcome] at hline
        cases hline
    exact .inl ⟨hreading, takeFinished_of_reading fun s' hs' =>
      Option.some.inj (hs.symm.trans hs') ▸ hreading⟩
  | some line => exact .inr ⟨line, _, hline, takeFinished_of_line hs hline, rfl, rfl, rfl, rfl⟩

/-! ### Events -/

/-- The next event, with the desk that it is handled at. -/
def next? (e : Engine) : Option (Desk × KeyEvent) :=
  if e.isListening then
    match e.queue.next e.keymap.recognizes, e.desk? with
    | some (event, queue), some d => some ({ d with queue }, event)
    | _, _ => none
  else none

theorem step?_eq (e : Engine) : e.step? = e.next?.map fun x => e.handle x.1 x.2 := by
  unfold step? next?
  split
  · split <;> simp_all
  · rfl

/-- Nothing is next in an empty queue. -/
theorem next?_of_empty (h : e.queue.pending = []) : e.next? = none := by
  have hqueue : e.queue.next e.keymap.recognizes = none := by
    rw [EventQueue.next, h]
  rw [next?, hqueue]
  exact ite_self none

theorem isListening_eq_true :
    e.isListening = true ↔ ∃ s, e.session = some s ∧ s.paused = false := by
  unfold isListening
  cases e.session <;> simp

/-- An event is handled for a session that is not paused, and it is taken out of the queue first. -/
theorem next?_eq_some {event : KeyEvent} (h : e.next? = some (d, event)) :
    ∃ s queue, e.session = some s ∧ s.paused = false ∧
      e.queue.next e.keymap.recognizes = some (event, queue) ∧
      d = { toEditor := { e.toEditor with queue }, session := s } := by
  unfold next? at h
  split at h
  · rename_i hlisten
    obtain ⟨s, hs, hpaused⟩ := isListening_eq_true.1 hlisten
    unfold desk? at h
    rw [hs, Option.map_some] at h
    cases hnext : e.queue.next e.keymap.recognizes with
    | none =>
      rw [hnext] at h
      cases h
    | some r =>
      obtain ⟨event', queue⟩ := r
      rw [hnext] at h
      cases h
      exact ⟨s, queue, hs, hpaused, rfl, rfl⟩
  · cases h

/-- A queue that holds anything has an event. -/
theorem next?_eq_none (h : e.next? = none) : e.canDeliver = false := by
  unfold canDeliver
  cases hlisten : e.isListening with
  | false => exact Bool.and_false _
  | true =>
    obtain ⟨s, hs, -⟩ := isListening_eq_true.1 hlisten
    unfold next? desk? at h
    rw [if_pos hlisten, hs, Option.map_some] at h
    cases hqueue : e.queue.pending with
    | nil =>
      unfold EventQueue.hasNext
      rw [hqueue]
      rfl
    | cons c rest =>
      unfold EventQueue.next at h
      rw [hqueue] at h
      dsimp only at h
      split at h
      · cases h
      · rename_i hnone
        split at hnone <;> simp at hnone

theorem step?_eq_some {r : Handled} (h : e.step? = some r) :
    ∃ s event queue, e.session = some s ∧ s.paused = false ∧
      e.queue.next e.keymap.recognizes = some (event, queue) ∧
      r = e.handle { toEditor := { e.toEditor with queue }, session := s } event := by
  rw [step?_eq, Option.map_eq_some_iff] at h
  obtain ⟨⟨d, event⟩, hnext, rfl⟩ := h
  obtain ⟨s, queue, hs, hpaused, hqueue, rfl⟩ := next?_eq_some hnext
  exact ⟨s, event, queue, hs, hpaused, hqueue, rfl⟩

/-- Whether an event is the interrupt character. -/
def Interrupts (e : Engine) (event : KeyEvent) : Prop :=
  event.singleCodePoint? = some e.config.controls.interrupt

/-- Whether an event is the end of file character behind an empty buffer. -/
def AtEof (e : Engine) (d : Desk) (event : KeyEvent) : Prop :=
  (event.singleCodePoint? = some e.config.controls.eof && d.session.buffer.isEmpty) = true

instance (e : Engine) (event : KeyEvent) : Decidable (e.Interrupts event) :=
  inferInstanceAs (Decidable (_ = _))

instance (e : Engine) (d : Desk) (event : KeyEvent) : Decidable (e.AtEof d event) :=
  inferInstanceAs (Decidable (_ = true))

/-- What the handling of an event leaves in the queue. -/
def givenBy (e : Engine) (d : Desk) (event : KeyEvent) : Text :=
  if e.Interrupts event ∨ e.AtEof d event then [] else d.givenBy event

/-- What an event ends the session with. -/
def endsBy (e : Engine) (d : Desk) (event : KeyEvent) : List (Option Text) :=
  if e.Interrupts event then [] else if e.AtEof d event then [none] else d.endsBy event

theorem handle_eq (e : Engine) (d : Desk) (event : KeyEvent) : e.handle d event =
    if e.Interrupts event then .settled { e.put d.startOver with pendingResize := none } none
    else if e.AtEof d event then
      let d' := { d.log .debug .engine "end of file" [] with session.outcome := .eof }
      .settled (e.put d').takeFinished.1 (e.put d').takeFinished.2
    else
      match d.dispatch event with
      | .finished d' => .settled (e.put d').takeFinished.1 (e.put d').takeFinished.2
      | .script c h d' => .script (e.put d') c h := rfl

/-- An interrupt starts over; any other event may end the session or leave input in the queue, or a
script has to be run. -/
theorem handle_cases (e : Engine) (event : KeyEvent) (hlisten : d.session.paused = false) :
    (e.Interrupts event ∧ e.handle d event =
      .settled { e.put d.startOver with pendingResize := none } none) ∨
    (¬ e.Interrupts event ∧ ∃ d', e.handle d event =
        .settled (e.put d').takeFinished.1 (e.put d').takeFinished.2 ∧
      d'.core = { d.core with
        queue := d.core.queue.append (e.givenBy d event)
        outcome := d.core.outcome.after (e.endsBy d event) }) ∨
    (¬ e.Interrupts event ∧ ∃ c h d', e.handle d event = .script (e.put d') c h ∧
      d'.core = { d.core with paused := true } ∧
      e.givenBy d event = [] ∧ e.endsBy d event = []) := by
  rw [handle_eq]
  by_cases hinterrupt : e.Interrupts event
  · exact .inl ⟨hinterrupt, if_pos hinterrupt⟩
  · rw [if_neg hinterrupt]
    refine .inr ?_
    by_cases heof : e.AtEof d event
    · have hgiven : e.givenBy d event = [] := if_pos (.inr heof)
      have hends : e.endsBy d event = [none] := (if_neg hinterrupt).trans (if_pos heof)
      rw [if_pos heof, hgiven, hends, EventQueue.append_nil]
      exact .inl ⟨hinterrupt, _, rfl, rfl⟩
    · have hgiven : e.givenBy d event = d.givenBy event := if_neg (not_or.2 ⟨hinterrupt, heof⟩)
      have hends : e.endsBy d event = d.endsBy event :=
        (if_neg hinterrupt).trans (if_neg heof)
      have hcore := d.core_dispatch event hlisten
      rw [if_neg heof, hgiven, hends]
      cases hr : d.dispatch event with
      | finished d' =>
        rw [hr] at hcore
        exact .inl ⟨hinterrupt, d', rfl, hcore⟩
      | script c h d' =>
        rw [hr] at hcore
        exact .inr ⟨hinterrupt, c, h, d', rfl, hcore⟩

/-! ### Calls -/

@[simp] theorem core?_start (e : Engine) (r : Request) (callback width : Nat) (previous : Handlers) :
    (e.start r callback width previous).core? = some
      { queue := e.queue, conn := r.conn, callback, previous, outcome := .reading
        paused := false } := rfl

@[simp] theorem core?_resized (e : Engine) (size : Size) : (e.resized size).core? = e.core? := by
  unfold resized
  cases hd : e.desk? with
  | none => rfl
  | some d =>
    have hcore : e.core? = some d.core := by
      unfold core?
      rw [hd]
      rfl
    rw [hcore]
    dsimp only
    split
    · rfl
    · split
      · exact congrArg (fun k : Kept => some k.core) (d.kept_resize ..)
      · exact hcore

theorem flags_resized (e : Engine) (size : Size) :
    (e.resized size).scheduled = e.scheduled ∧ (e.resized size).busy = e.busy := by
  unfold resized
  split
  · exact ⟨rfl, rfl⟩
  · dsimp only
    split
    · exact ⟨rfl, rfl⟩
    · split <;> exact ⟨rfl, rfl⟩

theorem resume_eq_error (hk : e.core? = none) (width : Nat) :
    e.resume width = .error .noInteraction := by
  unfold core? at hk
  unfold resume
  rw [Option.map_eq_none_iff.1 hk]

theorem answers_eq_error (hk : e.core? = none) (size : Size) (calls : List SessionCall) :
    e.answers size calls = .error .noInteraction := by
  unfold core? at hk
  unfold answers
  rw [Option.map_eq_none_iff.1 hk]

/-- A desk once a change of width that was kept back is carried out. -/
def catchUp (e : Engine) (width : Nat) (d : Desk) : Desk :=
  match d.session.outcome, e.pendingResize with
  | .reading, some old => if old = width then d else d.resize old width
  | _, _ => d

theorem catchUp_eq (e : Engine) (width : Nat) (d : Desk) :
    e.catchUp width d = d ∨ ∃ old, e.catchUp width d = d.resize old width := by
  unfold catchUp
  split
  · split
    · exact .inl rfl
    · exact .inr ⟨_, rfl⟩
  · exact .inl rfl

theorem resume_eq (hd : e.desk? = some d) (width : Nat) :
    e.resume width = if d.session.paused then
      .ok { e.put ((e.catchUp width d.resume).log .debug .engine "resume" []) with
        pendingResize := none }.takeFinished
    else .error .notPaused := by
  rw [resume, hd]
  rfl

/-- A session is resumed from its desk. -/
theorem of_resume_eq_ok {width : Nat} {r : Engine × Option Finished} (h : e.resume width = .ok r) :
    ∃ d, e.desk? = some d ∧
      { e.put ((e.catchUp width d.resume).log .debug .engine "resume" []) with
        pendingResize := none }.takeFinished = r := by
  cases hd : e.desk? with
  | none =>
    rw [resume, hd] at h
    cases h
  | some d =>
    rw [resume_eq hd] at h
    split at h
    · exact ⟨d, rfl, Except.ok.inj h⟩
    · cases h

/-- The end of a pause: a session that is ended meanwhile is over now. -/
theorem resume_cases (hk : e.core? = some k) (width : Nat) :
    (k.paused = false ∧ e.resume width = .error .notPaused) ∨
    (k.paused = true ∧ ∃ e' : Engine, e.resume width = .ok e'.takeFinished ∧
      e'.core? = some { k with paused := false } ∧ e'.scheduled = e.scheduled ∧
      e'.busy = e.busy) := by
  obtain ⟨d, hd, -, rfl⟩ := desk_of_core? hk
  rw [resume_eq hd]
  cases hpaused : d.session.paused with
  | false => exact .inl ⟨hpaused, rfl⟩
  | true =>
    refine .inr ⟨hpaused, _, rfl, congrArg some ?_, rfl, rfl⟩
    obtain hsame | ⟨old, hresized⟩ := e.catchUp_eq width d.resume
    · rw [hsame]
      rfl
    · rw [hresized]
      exact congrArg Kept.core (d.resume.kept_resize old width)

/-- Calls on the session may end it, at once or when its pause ends. -/
theorem answers_cases (hk : e.core? = some k) (size : Size) (calls : List SessionCall) :
    ∃ (e' : Engine) (replies : List Reply), e'.core? = some { k with
        outcome := k.outcome.after (SessionCall.ends calls)
        paused := calls.foldl SessionCall.holding k.paused } ∧
      e'.scheduled = e.scheduled ∧ e'.busy = e.busy ∧
      e.answers size calls = if calls.foldl SessionCall.holding k.paused then
        .ok (e', replies, none) else .ok (e'.takeFinished.1, replies, e'.takeFinished.2) := by
  obtain ⟨d, hd, -, rfl⟩ := desk_of_core? hk
  have hcore := d.core_answers size calls
  have hpaused : (d.answers size calls).1.session.paused =
      calls.foldl SessionCall.holding d.core.paused := congrArg Core.paused hcore
  refine ⟨e.put (d.answers size calls).1, (d.answers size calls).2, congrArg some hcore, rfl, rfl,
    ?_⟩
  unfold answers
  rw [hd, ← hpaused]

/-! ### Scripts -/

/-- The engine after a script, before a session that was ended meanwhile is taken out. -/
def afterScript (e : Engine) (d : Desk) (c : Completion) (h : ScriptedHandler) : Engine :=
  { e with busy := false }.put ((d.endCompletion c (.scripted h) h.deferred).2.settleFocus
    (.complete (d.endCompletion c (.scripted h) h.deferred).1))

@[simp] theorem core?_afterScript (e : Engine) (d : Desk) (c : Completion) (h : ScriptedHandler) :
    (e.afterScript d c h).core? = some { d.core with paused := d.core.paused && h.deferred } :=
  congrArg (fun k : Kept => some k.core)
    ((Desk.kept_settleFocus ..).trans (d.kept_endCompletion c (.scripted h) h.deferred))

end Engine

/-- A step of a script that works at the desk. -/
def ScriptStep.AtDesk : ScriptStep → Prop
  | .setAsk _ | .feed _ | .runTasks | .resize _ | .schedule .. => False
  | _ => True

end LineEditor
