import LineEditor.Proofs.Host.Accounts
import LineEditor.Proofs.Host.Calm
import LineEditor.Proofs.Host.Rules
import LineEditor.Proofs.Key.Cuts
import Mathlib.Data.Prod.Lex

/-!
One line after the other. A host whose callback begins the next line reads lines on one connection,
and whatever is left to do is of few kinds: what the last event led to, the rest of the queue, and
tasks that ask for the queue to be handled. Only the first kind does anything; so a step either does
what a machine does in which all input is there and no task waits, or leaves such a machine as it
is.

Main definitions: `Rules.inward`, the handlers that work on their action only, `Stage`, a machine
that reads line after line, `Stage.ahead`, the machine with all input there, and `Stage.toDo`, which
gets less with every step. Main statement: `Stage.Reading.next`.
-/
namespace LineEditor

/-! ### Handlers -/

/-- Whether a step of a script works on the action only: it puts no input into the queue, runs and adds
no tasks and changes no size. Input that it lets arrive is refused, and work for later has to wait for a
delay. -/
def ScriptStep.inward (delayed : Bool) : ScriptStep → Bool
  | .queue _ | .runTasks | .resize _ => false
  | .schedule .. => delayed
  | _ => true

/-- A handler that works on its action only and is done when it returns. -/
def Handler.Inward : Handler → Prop
  | .candidates _ => True
  | .scripted h => h.deferred = false ∧ ∀ s ∈ h.script, s.inward h.delayed = true

/-- Anything may be shown and held, in one style, with handlers that work on their action only. -/
def Rules.inward (style : EditStyle) : Rules where
  shows _ := True
  holds _ := True
  employs := Handler.Inward
  edits s := s = style
  shows_of_printable _ _ := trivial
  holds_of_insertable _ _ := trivial
  offers _ _ _ _ _ _ _ _ _ _ := trivial
  employs_candidates _ _ _ _ := trivial
  employs_scripted _ _ _ h := h

section Inward

variable (style : EditStyle)

theorem SessionCall.obeys_inward (k : SessionCall) : k.Obeys (.inward style) :=
  k.obeys_of_any (fun _ => trivial) (fun _ => trivial) fun _ => trivial

theorem ScriptStep.obeys_inward (s : ScriptStep) : s.Obeys (.inward style) := by
  cases s
  case kill t => exact fun _ _ => trivial
  case history c =>
    cases c
    case push line => exact fun _ _ => trivial
    all_goals exact trivial
  case applyEdit b => exact fun _ _ => trivial
  case session calls => exact fun k _ => k.obeys_inward style
  case schedule calls resume =>
    cases calls with
    | none => trivial
    | some calls => exact fun k _ => k.obeys_inward style
  all_goals exact trivial

theorem Rules.scripts_inward : (Rules.inward style).Scripts := fun _ _ s _ => s.obeys_inward style

end Inward

/-- A step that works on the action only leaves no input. -/
theorem ScriptStep.given_of_inward {s : ScriptStep} {delayed : Bool} (h : s.inward delayed = true) :
    s.given = [] := by
  cases s
  case queue t => cases h
  all_goals rfl

/-- A step that works on the action only sets a question, lets input arrive, leaves work that waits for
a delay or works at the desk. -/
theorem ScriptStep.cases_of_inward {s : ScriptStep} {delayed : Bool} (h : s.inward delayed = true) :
    (∃ ask, s = .setAsk ask) ∨ (∃ t, s = .feed t) ∨
      (delayed = true ∧ ∃ calls resume, s = .schedule calls resume) ∨ s.AtDesk := by
  cases s
  case setAsk ask => exact .inl ⟨ask, rfl⟩
  case feed t => exact .inr (.inl ⟨t, rfl⟩)
  case schedule calls resume => exact .inr (.inr (.inl ⟨h, calls, resume, rfl⟩))
  case runTasks | resize => cases h
  all_goals exact .inr (.inr (.inr trivial))

/-! ### Stages -/

/-- What the last event led to: nothing, a callback, the next line or a script. -/
inductive Phase (r : Request) (e : Engine) : List Job → Prop
  | reading {k : Core} (hk : e.core? = some k) (hconn : k.conn = 0) (hlisten : k.paused = false)
      (hreading : k.outcome = .reading) (hfree : e.busy = false) : Phase r e []
  | ended (n : Nat) (line : Option Text) (hnone : e.session = none) (hfree : e.busy = false) :
      Phase r e [.callback n line]
  | again (n : Nat) (hnone : e.session = none) (hfree : e.busy = false) :
      Phase r e [.call (.readline r n)]
  | scripted {k : Core} (c : Completion) (h : ScriptedHandler) (rest : List ScriptStep)
      (hk : e.core? = some k) (hconn : k.conn = 0) (hbusy : e.busy = true)
      (hdeferred : h.deferred = false) (hrest : ∀ s ∈ rest, s.inward h.delayed = true) :
      Phase r e [.script 0 c h rest]

/-- How much is left of what the last event led to. -/
def Job.weight : Job → Nat
  | .callback .. => 2
  | .call _ => 1
  | .script _ _ _ rest => rest.length + 3
  | _ => 0

/-- One engine on one connection that reads line after line. -/
structure Stage where
  engine : Engine
  conn : Connection
  journal : Journal
  /-- What the last event led to. -/
  urgent : List Job
  /-- Whether the rest of the queue is being handled. -/
  delivering : Bool
  /-- How often the tasks are to be run. -/
  runs : Nat

/-- The engine whose next event a job handles. -/
def Job.engine? (w : World) : Job → Option Engine
  | .deliver n => w.engine? n
  | _ => none

/-- The next job handles a key that accepts lines, for a search that has found something. -/
def Machine.AcceptsMatch (m : Machine) : Prop :=
  ∃ e ∈ m.jobs.head?.bind (Job.engine? m.world), e.AcceptsMatch

instance (m : Machine) : Decidable m.AcceptsMatch :=
  inferInstanceAs (Decidable (∃ e ∈ m.jobs.head?.bind (Job.engine? m.world), e.AcceptsMatch))

/-- A session without an event that led to anything is read. -/
theorem Phase.of_nil {r : Request} {e : Engine} (h : Phase r e []) :
    ∃ k, e.core? = some k ∧ k.conn = 0 ∧ k.paused = false ∧ k.outcome = .reading ∧
      e.busy = false := by
  cases h with
  | reading hk hconn hlisten hreading hfree => exact ⟨_, hk, hconn, hlisten, hreading, hfree⟩

theorem Engine.core?_settled (e : Engine) : e.settled.core? = e.core? := by
  rw [core?, core?, desk?, desk?, Option.map_map, Option.map_map]
  rfl

theorem Engine.conn_of_core? {e : Engine} {k : Core} (hk : e.core? = some k) :
    e.conn = k.conn := by
  obtain ⟨d, -, hs, rfl⟩ := desk_of_core? hk
  rw [Engine.conn, hs]
  rfl

theorem Engine.queue_of_desk? {e : Engine} {d : Desk} (hd : e.desk? = some d) :
    d.queue = e.queue := by
  obtain ⟨s, -, rfl⟩ := Option.map_eq_some_iff.1 hd
  rfl

theorem Engine.session_of_core? {e : Engine} {k : Core} (hk : e.core? = some k) :
    e.session.isSome = true := by
  obtain ⟨d, -, hs, -⟩ := desk_of_core? hk
  rw [hs]
  rfl

/-- The event that is next in the queue of a session that is read. -/
theorem Engine.next?_of_core? {e : Engine} {k : Core} {event : KeyEvent} {queue : EventQueue}
    (hk : e.core? = some k) (hlisten : k.paused = false)
    (hnext : e.queue.next e.keymap.recognizes = some (event, queue)) :
    ∃ d, e.next? = some (d, event) ∧ d.queue = queue := by
  obtain ⟨d, hd, hs, rfl⟩ := desk_of_core? hk
  have hlistens : e.isListening = true := isListening_eq_true.2 ⟨d.session, hs, hlisten⟩
  rw [next?, if_pos hlistens, hnext, hd]
  exact ⟨_, rfl, rfl⟩

namespace Stage

/-- The machine of a stage. -/
def machine (s : Stage) : Machine :=
  ⟨.solo s.engine s.conn s.journal,
    s.urgent ++ ((if s.delivering then [.deliver 0] else []) ++
      List.replicate s.runs (.tasks 0))⟩

/-- The machine with input that has not arrived, and without tasks. -/
def ahead (t : Text) (s : Stage) : Machine :=
  ⟨.solo (s.engine.calm (s.engine.queue.append t)) s.conn.calm s.journal,
    s.urgent ++ [.deliver 0]⟩

/-- What is left to do: the queue, what the last event led to, which is one job at most, and tasks.
-/
def toDo (s : Stage) : Nat ×ₗ Nat ×ₗ Nat :=
  toLex (s.engine.queue.pending.length, toLex ((s.urgent.head?.map Job.weight).getD 0,
    2 * s.conn.tasks.length + (if s.delivering then 1 else 0) + s.runs))

/-- A stage of a machine that reads line after line. -/
structure Reading (r : Request) (s : Stage) : Prop where
  phase : Phase r s.engine s.urgent
  delivers : s.urgent ≠ [] → s.delivering = true
  runs_pos : s.delivering = true → 0 < s.runs
  tasks_eq : s.conn.tasks = if s.engine.scheduled then [.deliver 0] else []
  decoder_eq : s.conn.decoder = {}
  handlers_eq : s.engine.session.isSome = true → s.conn.handlers = World.sessionHandlers 0
  /-- Input that waits will be handled. -/
  awake : s.engine.queue.pending ≠ [] → s.delivering = true ∨ s.engine.scheduled = true

/-- A step from one stage to the next, seen from a machine that is ahead by `t`. -/
structure Next (host : Host) (r : Request) (t : Text) (s s' : Stage) : Prop where
  move_eq : s.machine.move host .step = s'.machine
  reading : s'.Reading r
  ahead_eq : s'.ahead t = s.ahead t ∨
    ¬ (s.ahead t).AcceptsMatch ∧ s'.ahead t = (s.ahead t).advance host
  queue_eq : s'.engine.queue = s.engine.queue ∨ ∃ event,
    s.engine.queue.next s.engine.keymap.recognizes = some (event, s'.engine.queue)
  less : s'.toDo < s.toDo
  works : 0 < s'.runs ∨ s'.conn.tasks = []

variable {host : Host} {r : Request} {t : Text} {s s' : Stage}

/-- The machine that is ahead, with one job from the last event. -/
theorem ahead_of_urgent {job : Job} (h : s.urgent = [job]) :
    s.ahead t = ⟨.solo (s.engine.calm (s.engine.queue.append t)) s.conn.calm s.journal,
      [job, .deliver 0]⟩ := by
  rw [ahead, h]
  rfl

/-- What the last event led to accepts nothing. -/
theorem not_acceptsMatch_of_urgent {job : Job} (h : s.urgent = [job])
    (hjob : ∀ w, job.engine? w = none) : ¬ (s.ahead t).AcceptsMatch := by
  rw [ahead_of_urgent h]
  rintro ⟨e, he, -⟩
  rw [Option.mem_def, List.head?_cons, Option.bind_some, hjob] at he
  cases he

/-! ### Less to do -/

theorem toDo_lt_of_queue
    (h : s'.engine.queue.pending.length < s.engine.queue.pending.length) : s'.toDo < s.toDo :=
  Prod.Lex.toLex_lt_toLex.2 (.inl h)

theorem toDo_lt_of_urgent (hqueue : s'.engine.queue = s.engine.queue)
    (h : (s'.urgent.head?.map Job.weight).getD 0 < (s.urgent.head?.map Job.weight).getD 0) :
    s'.toDo < s.toDo := by
  refine Prod.Lex.toLex_lt_toLex.2 (.inr ⟨?_, Prod.Lex.toLex_lt_toLex.2 (.inl h)⟩)
  rw [hqueue]

theorem toDo_lt_of_rest (hqueue : s'.engine.queue = s.engine.queue) (hurgent : s'.urgent = s.urgent)
    (h : 2 * s'.conn.tasks.length + (if s'.delivering then 1 else 0) + s'.runs <
      2 * s.conn.tasks.length + (if s.delivering then 1 else 0) + s.runs) : s'.toDo < s.toDo := by
  refine Prod.Lex.toLex_lt_toLex.2 (.inr ⟨?_, Prod.Lex.toLex_lt_toLex.2 (.inr ⟨?_, h⟩)⟩)
  · rw [hqueue]
  · rw [hurgent]

/-! ### Tasks -/

/-- Tasks that wait are run, or none waits any more; neither is seen ahead. -/
theorem Reading.next_tasks (h : s.Reading r) (hurgent : s.urgent = [])
    (hdelivering : s.delivering = false) (hruns : 0 < s.runs) : ∃ s', s.Next host r t s' := by
  obtain ⟨k, hk, hconn, hlisten, hreading, hfree⟩ := (hurgent ▸ h.phase).of_nil
  obtain ⟨runs, hsucc⟩ := Nat.exists_eq_succ_of_ne_zero (Nat.pos_iff_ne_zero.1 hruns)
  have hmachine : s.machine = ⟨.solo s.engine s.conn s.journal,
      .tasks 0 :: List.replicate runs (.tasks 0)⟩ := by
    rw [machine, hurgent, hdelivering, hsucc]
    rfl
  have htasks := h.tasks_eq
  cases hscheduled : s.engine.scheduled with
  | true =>
    rw [hscheduled, if_pos rfl] at htasks
    refine ⟨{ s with
      engine := { s.engine with scheduled := false }
      conn := { s.conn with tasks := [] }
      delivering := true }, ?_, ?_, .inl rfl, .inl rfl, toDo_lt_of_rest rfl rfl ?_, .inl hruns⟩
    · rw [hmachine, Machine.move_task hfree htasks, machine, hurgent, hsucc]
      rfl
    · refine ⟨?_, fun _ => rfl, fun _ => hruns, rfl, h.decoder_eq, h.handlers_eq, fun _ => .inl rfl⟩
      rw [hurgent]
      exact .reading hk hconn hlisten hreading hfree
    · rw [htasks, hdelivering]
      exact Nat.add_lt_add_right Nat.one_lt_two s.runs
  | false =>
    rw [hscheduled, if_neg Bool.false_ne_true] at htasks
    refine ⟨{ s with runs }, ?_, ?_, .inl rfl, .inl rfl, toDo_lt_of_rest rfl rfl ?_, .inr htasks⟩
    · rw [hmachine, Machine.move_tasks htasks, machine, hurgent, hdelivering]
      rfl
    · refine { h with runs_pos := fun hdelivers => ?_ }
      rw [hdelivering] at hdelivers
      cases hdelivers
    · rw [hsucc]
      exact Nat.lt_succ_self _

/-! ### Events -/

/-- Nothing waits any more; that is not seen ahead. -/
theorem Reading.next_delivered (h : s.Reading r) (hurgent : s.urgent = [])
    (hdelivering : s.delivering = true) (hempty : s.engine.queue.pending = []) :
    ∃ s', s.Next host r t s' := by
  obtain ⟨k, hk, hconn, hlisten, hreading, hfree⟩ := (hurgent ▸ h.phase).of_nil
  have hnone : s.engine.step? = none := by
    rw [Engine.step?_eq, Engine.next?_of_empty hempty]
    rfl
  refine ⟨{ s with delivering := false }, ?_, ?_, .inl rfl, .inl rfl, toDo_lt_of_rest rfl rfl ?_,
    .inl (h.runs_pos hdelivering)⟩
  · rw [machine, machine, hurgent, hdelivering]
    exact Machine.move_delivered hfree hnone
  · exact { h with
      delivers := fun hne => absurd hurgent hne
      runs_pos := nofun
      awake := fun hne => absurd hempty hne }
  · rw [hdelivering]
    exact Nat.add_lt_add_right (Nat.lt_succ_self _) s.runs

/-- The stage after work that left a session, or that ended it. -/
def after (s : Stage) (e : Engine) (f : Option Finished) : Stage where
  engine := e.settled
  conn := (s.conn.settle e).closed f
  journal := s.journal.settle e
  urgent := Job.ofFinished f
  delivering := true
  runs := s.runs

/-- A session that goes on is read, and one that is over is given to its callback. -/
theorem Reading.after {e e' : Engine} {k : Core} {f : Option Finished} (h : s.Reading r)
    (hgoes : e.Goes k e' f) (hfree : e.busy = false) (hscheduled : e.scheduled = s.engine.scheduled)
    (hconn : k.conn = 0) (hlisten : k.paused = false) (hreading : k.outcome = .reading)
    (hdelivering : s.delivering = true) (hsession : s.engine.session.isSome = true) :
    (s.after e' f).Reading r := by
  obtain ⟨⟨hbusy, hasked⟩, hgoes⟩ := hgoes
  obtain ⟨screen, output, hsettled⟩ := s.conn.settle_eq e'
  have htasks : ((s.conn.settle e').closed f).tasks =
      if e'.settled.scheduled then [.deliver 0] else [] := by
    have hkept : ((s.conn.settle e').closed f).tasks = s.conn.tasks := by
      rw [hsettled]
      cases f with
      | none => rfl
      | some f => rfl
    have hsame : e'.settled.scheduled = s.engine.scheduled := hasked.trans hscheduled
    rw [hkept, hsame]
    exact h.tasks_eq
  have hdecoder : ((s.conn.settle e').closed f).decoder = {} := by
    rw [hsettled]
    cases f with
    | none => exact h.decoder_eq
    | some f => exact h.decoder_eq
  refine ⟨?_, fun _ => rfl, fun _ => h.runs_pos hdelivering, htasks, hdecoder, ?_,
    fun _ => .inl rfl⟩
  · cases f with
    | none =>
      have hcore : e'.settled.core? = some k := e'.core?_settled.trans hgoes
      exact .reading hcore hconn hlisten hreading (hbusy.trans hfree)
    | some f => exact .ended _ _ hgoes.1 (hbusy.trans hfree)
  · intro hsome
    cases f with
    | none =>
      change (s.conn.settle e').handlers = _
      rw [hsettled]
      exact h.handlers_eq hsession
    | some f =>
      have hnone : e'.session = none := hgoes.1
      change e'.session.isSome = true at hsome
      rw [hnone] at hsome
      cases hsome

/-- What waits and was not asked for is not seen in the stage after some work. -/
theorem ahead_after {e : Engine} {f : Option Finished} {u : Text} (hqueue : e.queue = ⟨u⟩) :
    (s.after e f).ahead t = ⟨.solo (e.calm ⟨u ++ t⟩).settled
      ((s.conn.calm.settle (e.calm ⟨u ++ t⟩)).closed f) (s.journal.settle (e.calm ⟨u ++ t⟩)),
      Job.ofFinished f ++ [.deliver 0]⟩ := by
  have hsettled : e.settled.queue = ⟨u⟩ := hqueue
  rw [Connection.settle_calm, Connection.closed_calm, ahead, Stage.after]
  dsimp only
  rw [hsettled]
  rfl

/-- The next event of a stage, here and ahead; it accepts no match and leaves `u` in the queue. -/
structure Event (s : Stage) (t : Text) (event : KeyEvent) (u : Text) : Prop where
  urgent_eq : s.urgent = []
  delivers : s.delivering = true
  next_eq : s.engine.queue.next s.engine.keymap.recognizes = some (event, ⟨u⟩)
  next_ahead : (s.engine.queue.append t).next s.engine.keymap.recognizes = some (event, ⟨u ++ t⟩)
  never : ¬ s.engine.AcceptsMatch

section Event

variable {event : KeyEvent} {u : Text}

theorem Event.machine_eq (he : s.Event t event u) : s.machine =
    ⟨.solo s.engine s.conn s.journal, .deliver 0 :: List.replicate s.runs (.tasks 0)⟩ := by
  rw [machine, he.urgent_eq, he.delivers]
  rfl

theorem Event.ahead_eq (he : s.Event t event u) : s.ahead t =
    ⟨.solo (s.engine.calm (s.engine.queue.append t)) s.conn.calm s.journal, [.deliver 0]⟩ := by
  rw [ahead, he.urgent_eq]
  rfl

theorem Event.quiet (he : s.Event t event u) : ¬ (s.ahead t).AcceptsMatch := by
  rw [he.ahead_eq]
  rintro ⟨e, ⟨⟩, haccepts⟩
  exact he.never ((Engine.acceptsMatch_calm he.next_eq he.next_ahead).1 haccepts)

theorem Event.step_ahead (he : s.Event t event u) :
    (s.engine.calm (s.engine.queue.append t)).step? =
      s.engine.step?.map (Engine.Handled.calm ⟨u ++ t⟩) :=
  s.engine.step?_calm (s.engine.queue.append t) he.next_eq he.next_ahead
    fun _ _ hd => Engine.givenBy_eq_nil he.never hd

/-- An event leaves less in the queue. -/
theorem Event.queue_eq (he : s.Event t event u) (x : Stage) (hqueue : x.engine.queue = ⟨u⟩) :
    s.engine.queue.next s.engine.keymap.recognizes = some (event, x.engine.queue) ∧
      x.toDo < s.toDo := by
  refine ⟨hqueue ▸ he.next_eq, toDo_lt_of_queue ?_⟩
  rw [hqueue]
  exact EventQueue.length_lt_of_next he.next_eq

variable {e : Engine} {k : Core} (hk : s.engine.core? = some k) (hconn : k.conn = 0)
  (hfree : s.engine.busy = false)

include hk hconn hfree

/-- An event after which the session goes on or is over. -/
theorem Reading.next_settled {f : Option Finished} (h : s.Reading r) (he : s.Event t event u)
    (hlisten : k.paused = false) (hreading : k.outcome = .reading)
    (hstep : s.engine.step? = some (.settled e f))
    (hgoes : s.engine.Goes { k with queue := ⟨u⟩ } e f) : ∃ s', s.Next host r t s' := by
  have hconn' : s.engine.conn = 0 := (Engine.conn_of_core? hk).trans hconn
  have hsession := Engine.session_of_core? hk
  have hqueue : e.queue = ⟨u⟩ := hgoes.queue_eq
  have hf : ∀ x, f = some x → x.conn = 0 := fun x hx => (hgoes.conn_eq x hx).trans hconn
  obtain ⟨hnext, hless⟩ := he.queue_eq (s.after e f) hqueue
  refine ⟨s.after e f, ?_, ?_, .inr ⟨he.quiet, ?_⟩, .inr ⟨event, hnext⟩, hless,
    .inl (h.runs_pos he.delivers)⟩
  · rw [he.machine_eq]
    exact Machine.move_settled hfree hconn' hstep hf
  · exact h.after hgoes hfree rfl hconn hlisten hreading he.delivers hsession
  · have hstep' := he.step_ahead
    rw [hstep] at hstep'
    rw [ahead_after hqueue, Machine.advance, he.ahead_eq,
      Machine.move_settled (e := s.engine.calm _) hfree hconn' hstep' hf,
      Connection.settle_calm, Connection.closed_calm]
    rfl

/-- An event for which a script is to be run. -/
theorem Reading.next_script {c : Completion} {k' : ScriptedHandler} {style : EditStyle}
    (h : s.Reading r) (he : s.Event t event u) (hobeys : s.engine.Obeys (.inward style))
    (hstep : s.engine.step? = some (.script e c k'))
    (hgoes : s.engine.Goes { k with queue := ⟨u⟩, paused := true } e none) :
    ∃ s', s.Next host r t s' := by
  have hconn' : s.engine.conn = 0 := (Engine.conn_of_core? hk).trans hconn
  have hsession := Engine.session_of_core? hk
  obtain ⟨hdeferred, hinward⟩ := (hobeys.step hstep fun _ _ _ _ _ _ => trivial).1
  have hcore : ({ e.settled with busy := true } : Engine).core? =
      some { k with queue := ⟨u⟩, paused := true } := e.core?_settled.trans hgoes.2
  have hqueue : ({ e.settled with busy := true } : Engine).queue = ⟨u⟩ :=
    Engine.queue_of_core? hgoes.2
  obtain ⟨screen, output, hsettled⟩ := s.conn.settle_eq e
  obtain ⟨hnext, hless⟩ := he.queue_eq ⟨{ e.settled with busy := true }, s.conn.settle e,
    (s.journal.settle e).note (.completeCalled (k'.calls + 1)),
    [.script 0 c { k' with calls := k'.calls + 1 } k'.script], true, s.runs⟩ hqueue
  refine ⟨_, ?_, ?_, .inr ⟨he.quiet, ?_⟩, .inr ⟨event, hnext⟩, hless,
    .inl (h.runs_pos he.delivers)⟩
  · rw [he.machine_eq]
    exact Machine.move_script hfree hconn' hstep
  · refine ⟨.scripted c _ _ hcore hconn rfl hdeferred hinward, fun _ => rfl,
      fun _ => h.runs_pos he.delivers, ?_, ?_, fun _ => ?_, fun _ => .inl rfl⟩
    · have hscheduled : e.scheduled = s.engine.scheduled := hgoes.1.2
      change (s.conn.settle e).tasks = if e.scheduled then _ else _
      rw [Connection.tasks_settle, hscheduled]
      exact h.tasks_eq
    · rw [hsettled]
      exact h.decoder_eq
    · rw [hsettled]
      exact h.handlers_eq hsession
  · have hstep' := he.step_ahead
    rw [hstep] at hstep'
    rw [ahead_of_urgent rfl, Machine.advance, he.ahead_eq,
      Machine.move_script (e := s.engine.calm _) hfree hconn' hstep', Connection.settle_calm, hqueue]
    rfl

end Event

/-- An event in front of a cut is handled, here and ahead. -/
theorem Reading.next_event (h : s.Reading r) (hurgent : s.urgent = [])
    (hdelivering : s.delivering = true) (hsome : s.engine.queue.pending ≠ []) {style : EditStyle}
    (hobeys : s.engine.Obeys (.inward style))
    (hcut : EventQueue.Cuts s.engine.keymap.recognizes (s.engine.queue.pending ++ t) t)
    (hnever : ¬ s.engine.AcceptsMatch) : ∃ s', s.Next host r t s' := by
  obtain ⟨k, hk, hconn, hlisten, hreading, hfree⟩ := (hurgent ▸ h.phase).of_nil
  obtain ⟨event, u, hnext, hnext'⟩ := hcut.next_eq hsome
  have he : s.Event t event u := ⟨hurgent, hdelivering, hnext, hnext', hnever⟩
  obtain ⟨d, hd, hleft⟩ := Engine.next?_of_core? hk hlisten hnext
  have hcases := Engine.step?_cases hk hlisten hreading hd (Engine.givenBy_eq_nil hnever hd)
  rw [hleft] at hcases
  rcases hcases with ⟨e, f, hstep, hgoes⟩ | ⟨e, c, k', hstep, hgoes⟩
  · exact h.next_settled hk hconn hfree he hlisten hreading hstep hgoes
  · exact h.next_script hk hconn hfree he hobeys hstep hgoes

/-! ### What an event leads to -/

/-- While what the last event led to is not done, the rest of the queue is being handled. -/
theorem Reading.of_urgent {job : Job} (h : s.Reading r) (hurgent : s.urgent = [job]) :
    Phase r s.engine [job] ∧ s.delivering = true :=
  ⟨hurgent ▸ h.phase, h.delivers (hurgent ▸ List.cons_ne_nil _ _)⟩

/-- The line that is over is given to its callback. -/
theorem Reading.next_over {n : Nat} {line : Option Text} (h : s.Reading r)
    (hhost : host.onLine n line = [.readline r n]) (hurgent : s.urgent = [.callback n line]) :
    ∃ s', s.Next host r t s' := by
  obtain ⟨hphase, hdelivering⟩ := h.of_urgent hurgent
  cases hphase with
  | ended n line hnone hfree =>
    refine ⟨{ s with
      journal := { s.journal with lines := s.journal.lines.push line }
      urgent := [.call (.readline r n)] }, ?_, ?_,
      .inr ⟨not_acceptsMatch_of_urgent hurgent fun _ => rfl, ?_⟩, .inl rfl,
      toDo_lt_of_urgent rfl ?_, .inl (h.runs_pos hdelivering)⟩
    · rw [machine, hurgent]
      refine (Machine.move_callback n line).trans ?_
      rw [hhost]
      rfl
    · exact { h with
        phase := .again n hnone hfree
        delivers := fun _ => hdelivering }
    · rw [ahead_of_urgent hurgent, Machine.advance, Machine.move_callback, hhost]
      rfl
    · rw [hurgent]
      exact Nat.lt_succ_self _

/-- The stage in which a line has begun. -/
def begin (r : Request) (n : Nat) (e : Engine) (c : Connection) (j : Journal) (delivering : Bool)
    (runs : Nat) : Stage where
  engine :=
    { (e.start r n c.size.cols c.handlers).settled with
      scheduled := e.queue.hasNext || e.scheduled }
  conn :=
    { ({ c with handlers := World.sessionHandlers 0 } : Connection).settle
        (e.start r n c.size.cols c.handlers) with
      tasks := if e.queue.hasNext || e.scheduled then [.deliver 0] else [] }
  journal := j.settle (e.start r n c.size.cols c.handlers)
  urgent := []
  delivering
  runs

theorem begin_eq {e : Engine} {c : Connection} (hconn : r.conn = 0) (hfree : e.busy = false)
    (htasks : c.tasks = if e.scheduled then [.deliver 0] else []) (j : Journal) (n : Nat)
    (delivering : Bool) (runs : Nat) :
    (if e.queue.hasNext then (World.reading e c j r n).scheduleDelivery 0
      else World.reading e c j r n) = (begin r n e c j delivering runs).machine.world := by
  have hsession : ∀ s, (e.start r n c.size.cols c.handlers).settled.session = some s →
      s.conn = 0 := by
    rintro s ⟨⟩
    exact hconn
  exact World.asked_solo hsession hfree rfl
    ((Connection.tasks_settle { c with handlers := World.sessionHandlers 0 } _).trans htasks) _

theorem reading_begin {e : Engine} {c : Connection} (hconn : r.conn = 0) (hfree : e.busy = false)
    (hdecoder : c.decoder = {}) (j : Journal) (n : Nat) {delivering : Bool} {runs : Nat}
    (hruns : delivering = true → 0 < runs) : (begin r n e c j delivering runs).Reading r := by
  obtain ⟨screen, output, hsettled⟩ := ({ c with handlers := World.sessionHandlers 0 } :
    Connection).settle_eq (e.start r n c.size.cols c.handlers)
  have hcore : (e.start r n c.size.cols c.handlers).settled.core? = some
      ⟨e.queue, r.conn, n, c.handlers, .reading, false⟩ :=
    (Engine.core?_settled _).trans (e.core?_start r n c.size.cols c.handlers)
  refine ⟨.reading hcore hconn rfl rfl hfree, fun hne => absurd rfl hne, hruns, rfl, ?_,
    fun _ => ?_, fun hne => .inr ?_⟩
  · rw [begin, hsettled]
    exact hdecoder
  · rw [begin, hsettled]
  · have hwaits : e.queue.hasNext = true := by
      rw [EventQueue.hasNext, Bool.not_eq_true', List.isEmpty_eq_false_iff]
      exact hne
    change (e.queue.hasNext || e.scheduled) = true
    rw [hwaits, Bool.true_or]

/-- The callback begins the next line. -/
theorem Reading.next_again {n : Nat} (h : s.Reading r) (hengine : r.engine = 0) (hconn : r.conn = 0)
    (hurgent : s.urgent = [.call (.readline r n)]) : ∃ s', s.Next host r t s' := by
  obtain ⟨hphase, hdelivering⟩ := h.of_urgent hurgent
  cases hphase with
  | again n hnone hfree =>
    refine ⟨begin r n s.engine s.conn s.journal s.delivering s.runs, ?_,
      reading_begin hconn hfree h.decoder_eq s.journal n h.runs_pos,
      .inr ⟨not_acceptsMatch_of_urgent hurgent fun _ => rfl, ?_⟩, .inl rfl,
      toDo_lt_of_urgent rfl ?_, .inl (h.runs_pos hdelivering)⟩
    · rw [machine, hurgent]
      refine (Machine.move_readline hengine hconn hfree hnone n).trans ?_
      rw [begin_eq hconn hfree h.tasks_eq s.journal n s.delivering s.runs]
      rfl
    · rw [ahead_of_urgent hurgent, Machine.advance_readline hengine hconn hfree hnone n]
      rfl
    · rw [hurgent]
      exact Nat.zero_lt_one

/-- The facts of a stage in which a script is run. -/
theorem Reading.of_script {c : Completion} {h : ScriptedHandler} {rest : List ScriptStep}
    (hs : s.Reading r) (hurgent : s.urgent = [.script 0 c h rest]) :
    ∃ d, s.engine.desk? = some d ∧ s.engine.session = some d.session ∧ d.session.conn = 0 ∧
      s.engine.conn = 0 ∧ s.engine.busy = true ∧ h.deferred = false ∧
      (∀ s ∈ rest, s.inward h.delayed = true) ∧ s.delivering = true := by
  obtain ⟨hphase, hdelivering⟩ := hs.of_urgent hurgent
  cases hphase with
  | scripted c h rest hk hconn hbusy hdeferred hrest =>
    have hconn' := (Engine.conn_of_core? hk).trans hconn
    obtain ⟨d, hd, hsession, rfl⟩ := Engine.desk_of_core? hk
    exact ⟨d, hd, hsession, hconn, hconn', hbusy, hdeferred, hrest, hdelivering⟩

/-- A script ends, and so may the line. -/
theorem Reading.next_endScript {c : Completion} {h : ScriptedHandler} (hs : s.Reading r)
    (hurgent : s.urgent = [.script 0 c h []]) : ∃ s', s.Next host r t s' := by
  obtain ⟨d, hd, hsession, hconn, hconn', -, hdeferred, -, hdelivering⟩ := hs.of_script hurgent
  have hcore := s.engine.core?_afterScript d c h
  rw [hdeferred, Bool.and_false] at hcore
  have hgoes := Engine.goes_takeFinished hcore
  have hf : ∀ x, (s.engine.afterScript d c h).takeFinished.2 = some x → x.conn = 0 :=
    fun x hx => (hgoes.conn_eq x hx).trans hconn
  have hqueue : (s.engine.afterScript d c h).takeFinished.1.queue = s.engine.queue :=
    hgoes.queue_eq.trans (Engine.queue_of_desk? hd)
  refine ⟨s.after (s.engine.afterScript d c h).takeFinished.1
    (s.engine.afterScript d c h).takeFinished.2, ?_, ?_,
    .inr ⟨not_acceptsMatch_of_urgent hurgent fun _ => rfl, ?_⟩, .inl hqueue, ?_,
    .inl (hs.runs_pos hdelivering)⟩
  · rw [machine, hurgent, hdelivering]
    exact Machine.move_endScript hd hconn' hf
  · have hsome : s.engine.session.isSome = true := by
      rw [hsession]
      rfl
    exact hs.after hgoes rfl rfl hconn rfl rfl hdelivering hsome
  · have hd' := Engine.desk?_calm_of_some (s.engine.queue.append t) hd
    have hended := s.engine.afterScript_calm (s.engine.queue.append t)
      (s.engine.queue.append t) d c h
    have htaken := (s.engine.afterScript d c h).takeFinished_calm (s.engine.queue.append t)
    rw [ahead_after hqueue, Machine.advance, ahead_of_urgent hurgent,
      Machine.move_endScript hd' hconn' (by rw [hended, htaken]; exact hf), hended, htaken,
      Connection.settle_calm, Connection.closed_calm, Connection.settle_calm,
      Connection.closed_calm]
    rfl
  · refine toDo_lt_of_urgent hqueue ?_
    rw [hurgent]
    change ((Job.ofFinished _).head?.map Job.weight).getD 0 < 3
    cases (s.engine.afterScript d c h).takeFinished.2 with
    | none => decide
    | some f => exact Nat.lt_succ_self 2

section Script

variable {c : Completion} {h : ScriptedHandler} {x : ScriptStep} {rest : List ScriptStep}

/-- A step of a script is less to do. -/
theorem toDo_lt_of_script {h' : ScriptedHandler} (hurgent : s.urgent = [.script 0 c h (x :: rest)])
    (hqueue : s'.engine.queue = s.engine.queue) (hurgent' : s'.urgent = [.script 0 c h' rest]) :
    s'.toDo < s.toDo := by
  refine toDo_lt_of_urgent hqueue ?_
  rw [hurgent, hurgent']
  exact Nat.lt_succ_self _

/-- A step of a script works at the desk. -/
theorem Reading.next_deskStep (hs : s.Reading r)
    (hurgent : s.urgent = [.script 0 c h (x :: rest)]) (hdesk : x.AtDesk) :
    ∃ s', s.Next host r t s' := by
  obtain ⟨d, hd, hsession, hconn, hconn', hbusy, hdeferred, hinward, hdelivering⟩ :=
    hs.of_script hurgent
  rw [List.forall_mem_cons] at hinward
  have hgiven := ScriptStep.given_of_inward hinward.1
  obtain ⟨paused, hcore⟩ := d.core_scriptStep s.conn.size x
  rw [hgiven, EventQueue.append_nil] at hcore
  obtain ⟨screen, output, hsettled⟩ :=
    s.conn.settle_eq (s.engine.put (d.scriptStep s.conn.size x))
  have hqueue : (s.engine.put (d.scriptStep s.conn.size x)).settled.queue = s.engine.queue :=
    (congrArg Core.queue hcore).trans (Engine.queue_of_desk? hd)
  refine ⟨⟨(s.engine.put (d.scriptStep s.conn.size x)).settled,
    s.conn.settle (s.engine.put (d.scriptStep s.conn.size x)),
    s.journal.settle (s.engine.put (d.scriptStep s.conn.size x)),
    [.script 0 c h rest], true, s.runs⟩, ?_, ?_,
    .inr ⟨not_acceptsMatch_of_urgent hurgent fun _ => rfl, ?_⟩, .inl hqueue,
    toDo_lt_of_script hurgent hqueue rfl, .inl (hs.runs_pos hdelivering)⟩
  · rw [machine, hurgent, hdelivering]
    exact Machine.move_scriptStep hd hconn' hdesk rest
  · have hk : (s.engine.put (d.scriptStep s.conn.size x)).settled.core? =
        some (d.scriptStep s.conn.size x).core := Engine.core?_settled _
    rw [hcore] at hk
    refine ⟨.scripted c h rest hk hconn hbusy hdeferred hinward.2, fun _ => rfl,
      fun _ => hs.runs_pos hdelivering, (Connection.tasks_settle ..).trans hs.tasks_eq, ?_, ?_,
      fun _ => .inl rfl⟩
    · rw [hsettled]
      exact hs.decoder_eq
    · intro _
      rw [hsettled]
      refine hs.handlers_eq ?_
      rw [hsession]
      rfl
  · have hd' := Engine.desk?_calm_of_some (s.engine.queue.append t) hd
    have hsize : s.conn.calm.size = s.conn.size := rfl
    rw [ahead_of_urgent rfl, Machine.advance, ahead_of_urgent hurgent,
      Machine.move_scriptStep hd' hconn' hdesk, hsize,
      d.requeue_scriptStep (s.engine.queue.append t) s.conn.size x hgiven, Engine.put_calm,
      Connection.settle_calm, hqueue]
    rfl

/-- A step of a script sets a question, lets input arrive that is refused, leaves work that waits for a
delay, or works at the desk. -/
theorem Reading.next_scriptStep (hs : s.Reading r)
    (hurgent : s.urgent = [.script 0 c h (x :: rest)]) : ∃ s', s.Next host r t s' := by
  obtain ⟨d, hd, hsession, hconn, hconn', hbusy, hdeferred, hinward, hdelivering⟩ :=
    hs.of_script hurgent
  rw [List.forall_mem_cons] at hinward
  have hk : s.engine.core? = some d.core := by
    rw [Engine.core?, hd]
    rfl
  have hquiet : ¬ (s.ahead t).AcceptsMatch := not_acceptsMatch_of_urgent hurgent fun _ => rfl
  rcases ScriptStep.cases_of_inward hinward.1 with
    ⟨ask, rfl⟩ | ⟨u, rfl⟩ | ⟨hdelayed, calls, resume, rfl⟩ | hdesk
  · refine ⟨{ s with urgent := [.script 0 c { h with ask } rest] }, ?_, ?_, .inr ⟨hquiet, ?_⟩,
      .inl rfl, toDo_lt_of_script hurgent rfl rfl, .inl (hs.runs_pos hdelivering)⟩
    · rw [machine, hurgent]
      exact Machine.move_setAsk ask rest
    · exact { hs with
        phase := .scripted c _ rest hk hconn hbusy hdeferred hinward.2
        delivers := fun _ => hdelivering }
    · rw [Machine.advance, ahead_of_urgent hurgent, Machine.move_setAsk]
      rfl
  · have hhandlers : s.conn.handlers = World.sessionHandlers 0 :=
      hs.handlers_eq (Engine.session_of_core? hk)
    refine ⟨{ s with journal := s.journal.refuse u, urgent := [.script 0 c h rest] }, ?_, ?_,
      .inr ⟨hquiet, ?_⟩, .inl rfl, toDo_lt_of_script hurgent rfl rfl,
      .inl (hs.runs_pos hdelivering)⟩
    · rw [machine, hurgent]
      exact Machine.move_feed hbusy hconn' hs.decoder_eq hhandlers u rest
    · exact { hs with
        phase := .scripted c _ rest hk hconn hbusy hdeferred hinward.2
        delivers := fun _ => hdelivering }
    · have hbusy' : (s.engine.calm (s.engine.queue.append t)).busy = true := hbusy
      have hdecoder : s.conn.calm.decoder = {} := hs.decoder_eq
      rw [Machine.advance, ahead_of_urgent hurgent,
        Machine.move_feed hbusy' hconn' hdecoder hhandlers]
      rfl
  · refine ⟨{ s with
        conn := s.conn.schedule (.background 0 calls resume)
        urgent := [.script 0 c h rest] }, ?_, ?_, .inr ⟨hquiet, ?_⟩, .inl rfl,
      toDo_lt_of_script hurgent rfl rfl, .inl (hs.runs_pos hdelivering)⟩
    · rw [machine, hurgent]
      exact Machine.move_schedule hconn' hdelayed calls resume rest
    · exact { hs with
        phase := .scripted c _ rest hk hconn hbusy hdeferred hinward.2
        delivers := fun _ => hdelivering }
    · have hconn'' : (s.engine.calm (s.engine.queue.append t)).conn = 0 := hconn'
      rw [Machine.advance, ahead_of_urgent hurgent, Machine.move_schedule hconn'' hdelayed]
      rfl
  · exact hs.next_deskStep hurgent hdesk

end Script

/-! ### Steps -/

/-- There is a next stage as long as there is anything to do, if no match is accepted. -/
theorem Reading.next (h : s.Reading r) (hengine : r.engine = 0) (hconn : r.conn = 0)
    (hhost : ∀ n line, host.onLine n line = [.readline r n]) {style : EditStyle}
    (hobeys : s.engine.Obeys (.inward style))
    (hcut : EventQueue.Cuts s.engine.keymap.recognizes (s.engine.queue.pending ++ t) t)
    (hquiet : ¬ s.machine.AcceptsMatch) (hjobs : s.machine.jobs ≠ []) :
    ∃ s', s.Next host r t s' := by
  cases hurgent : s.urgent with
  | nil =>
    cases hdelivering : s.delivering with
    | false =>
      refine h.next_tasks hurgent hdelivering (Nat.pos_of_ne_zero fun hnone => hjobs ?_)
      rw [machine, hurgent, hdelivering, hnone]
      rfl
    | true =>
      by_cases hempty : s.engine.queue.pending = []
      · exact h.next_delivered hurgent hdelivering hempty
      · refine h.next_event hurgent hdelivering hempty hobeys hcut fun haccepts => hquiet ?_
        rw [machine, hurgent, hdelivering]
        exact ⟨s.engine, rfl, haccepts⟩
  | cons job urgent =>
    have hphase := h.phase
    rw [hurgent] at hphase
    cases hphase with
    | ended n line hnone hfree => exact h.next_over (hhost n line) hurgent
    | again n hnone hfree => exact h.next_again hengine hconn hurgent
    | scripted c k rest hk hconn' hbusy hdeferred hrest =>
      cases rest with
      | nil => exact h.next_endScript hurgent
      | cons x rest => exact h.next_scriptStep hurgent

end Stage

end LineEditor
