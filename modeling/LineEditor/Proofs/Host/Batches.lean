import LineEditor.Proofs.Host.Delivery
import LineEditor.Proofs.Host.Reading
import LineEditor.Proofs.Host.Shown

/-!
Reads of any size. Input that arrives in several reads, each of which ends where an event ends,
leads to the same world as the same input in one read, whenever the tasks are run: both runs go
where the machine goes that has all of the input from the beginning.

Main definitions: `Machine.Reads`, what a host does that only reads, `Machine.Settles`, where the
machine goes that has all input, and `Stage.Ready`, a stage in which some reads are still to come.
Main statements: `Stage.Ready.next` for a step, `Stage.Ready.play` for a run and
`Machine.batches_of_play`.
-/
namespace LineEditor

/-! ### Hosts that read on -/

/-- A line on the one connection, with a handler that works on its action only. -/
structure Request.Inward (r : Request) : Prop where
  engine_eq : r.engine = 0
  conn_eq : r.conn = 0
  handler : ∀ h, r.handler = some h → h.Inward

/-- A host whose callback begins the next line at once. -/
def Host.readsOn (r : Request) : Host := ⟨fun n _ => [.readline r n]⟩

theorem Host.obeys_readsOn {r : Request} (hr : r.Inward) (style : EditStyle) :
    (Host.readsOn r).Obeys (.inward style) :=
  fun _ _ => List.forall_mem_singleton.2 hr.handler

/-- Whether a call lets input arrive or runs tasks. -/
def Call.reads : Call → Bool
  | .feed conn _ | .runTasks conn => conn == 0
  | _ => false

/-- The bytes that arrive with a move. -/
def Move.bytes? : Move → Option (List UInt8)
  | .call (.feed _ bytes) => some bytes
  | _ => none

namespace Machine

/-- What a host does that only reads: between tasks input arrives, or tasks are run. -/
def Reads (m : Machine) : Move → Prop
  | .call c => m.BetweenTasks ∧ c.reads = true
  | .step => True

instance (m : Machine) : (x : Move) → Decidable (m.Reads x)
  | .call c => inferInstanceAs (Decidable (m.BetweenTasks ∧ c.reads = true))
  | .step => inferInstanceAs (Decidable True)

/-- A machine in which no task waits comes to rest in a world and accepts no match before. -/
inductive Settles (host : Host) (w : World) : Machine → Prop
  | rest : Settles host w ⟨w, []⟩
  | step {m : Machine} (hjobs : m.jobs ≠ []) (hquiet : ¬ m.AcceptsMatch)
      (h : Settles host w (m.advance host)) : Settles host w m

variable {host : Host} {w : World} {m : Machine}

/-- While there is anything to do no match is accepted, and the world after the step is the same. -/
theorem Settles.advance (h : m.Settles host w) (hjobs : m.jobs ≠ []) :
    ¬ m.AcceptsMatch ∧ (m.advance host).Settles host w := by
  cases h with
  | rest => exact absurd rfl hjobs
  | step _ hquiet h => exact ⟨hquiet, h⟩

/-- There is one world in which a machine comes to rest. -/
theorem Settles.unique {w' : World} (h : m.Settles host w) (h' : m.Settles host w') : w = w' := by
  induction h with
  | rest =>
    cases h' with
    | rest => rfl
    | step hjobs => exact absurd rfl hjobs
  | step hjobs _ _ ih => exact ih (h'.advance hjobs).2

/-- When nothing is left to do no task is being run. -/
theorem betweenTasks_of_rest (hrest : m.jobs = []) : m.BetweenTasks := by
  rw [BetweenTasks, hrest]
  exact List.forall_mem_nil _

/-- All input arrives in one read, and the tasks are to be run. -/
def atOnce (host : Host) (m : Machine) (t : Text) : Machine :=
  m.play host [.call (.feed 0 (Utf8.encodeText t)), .call (.runTasks 0)]

/-- A machine that has come to rest accepts nothing any more. -/
theorem quiet_of_rest {n : Nat} (hrest : (m.steps host n).jobs = [])
    (h : ∀ k < n, ¬ (m.steps host k).AcceptsMatch) (k : Nat) : ¬ (m.steps host k).AcceptsMatch := by
  by_cases hk : k < n
  · exact h k hk
  · obtain ⟨l, rfl⟩ := Nat.exists_eq_add_of_le (Nat.not_lt.1 hk)
    have hnone : (m.steps host n).step? host = none := by
      rw [step?, hrest]
    rw [steps_add, steps_of_settled host l hnone, AcceptsMatch, hrest]
    rintro ⟨e, he, -⟩
    cases he

theorem steps_succ_move (n : Nat) : m.steps host (n + 1) = (m.move host .step).steps host n := by
  rw [steps_succ, move]
  cases h : m.step? host with
  | none => exact (steps_of_settled host n h).symm
  | some m' => rfl

end Machine

/-! ### Stages with reads to come -/

/-- Which sequences are read as one event depends on the style only. -/
theorem Keymap.recognizes_of_style {m m' : Keymap} (h : m.style = m'.style) :
    m.recognizes = m'.recognizes := by
  funext k
  rw [recognizes, recognizes, h]

theorem EventQueue.append_append (q : EventQueue) (t u : Text) :
    (q.append t).append u = q.append (t ++ u) := by
  rw [append, append, append, List.append_assoc]

/-- Input that arrives goes to the queue of the engine, and its handling is asked for. -/
theorem World.feed_free {e : Engine} {c : Connection} (hfree : e.busy = false)
    (hdecoder : c.decoder = {}) (hhandlers : c.handlers = sessionHandlers 0) (j : Journal)
    (t : Text) : (solo e c j).feed 0 (Utf8.encodeText t) =
      if !t.isEmpty then (solo { e with queue := e.queue.append t } c j).scheduleDelivery 0
      else solo { e with queue := e.queue.append t } c j := by
  rw [feed_solo hdecoder hhandlers]
  cases t with
  | nil =>
    rw [EventQueue.append_nil]
    rfl
  | cons x t =>
    change (solo e c j).receiveInput 0 (x :: t) = _
    rw [receiveInput, engine?_solo]
    dsimp only
    rw [if_neg (by rw [hfree]; decide), setEngine_solo]
    rfl

namespace Stage

variable {r : Request} {style : EditStyle} {t : Text} {ts : List Text} {s s' : Stage} {w : World}

/-- A stage at which some reads are still to come, each up to where an event ends. -/
structure Ready (r : Request) (style : EditStyle) (ts : List Text) (s : Stage) : Prop where
  reading : s.Reading r
  obeys : s.machine.Obeys (.inward style)
  cuts : ∀ n, EventQueue.Cuts s.engine.keymap.recognizes
    (s.engine.queue.pending ++ ts.flatten) (ts.drop n).flatten

theorem Ready.engine_obeys (h : s.Ready r style ts) : s.engine.Obeys (.inward style) :=
  h.obeys.world.engines 0 _ rfl

/-- A move that keeps to the rules may be made by everyone who shows and holds anything. -/
theorem Ready.obeys_move (h : s.Ready r style ts) (hr : r.Inward) {x : Move}
    (hx : x.Obeys (.inward style)) :
    (s.machine.move (.readsOn r) x).Obeys (.inward style) :=
  h.obeys.move (Rules.scripts_inward style) (Host.obeys_readsOn hr style) hx fun _ _ _ _ => trivial

/-- A step does not go over the end of a read. -/
theorem Ready.next (h : s.Ready r style ts) (hr : r.Inward) (hquiet : ¬ s.machine.AcceptsMatch)
    (hjobs : s.machine.jobs ≠ []) :
    ∃ s', s.Next (.readsOn r) r ts.flatten s' ∧ s'.Ready r style ts := by
  have hcut := h.cuts 0
  rw [List.drop_zero] at hcut
  have hhost : ∀ n line, (Host.readsOn r).onLine n line = [.readline r n] := fun _ _ => rfl
  obtain ⟨s', hnext⟩ := h.reading.next hr.engine_eq hr.conn_eq hhost h.engine_obeys hcut hquiet
    hjobs
  have hobeys : s'.machine.Obeys (.inward style) := by
    rw [← hnext.move_eq]
    exact h.obeys_move hr trivial
  refine ⟨s', hnext, hnext.reading, hobeys, fun n => ?_⟩
  have hstyle : s'.engine.keymap.recognizes = s.engine.keymap.recognizes :=
    Keymap.recognizes_of_style
      ((hobeys.world.engines 0 _ rfl).editor.style.trans h.engine_obeys.editor.style.symm)
  rw [hstyle]
  rcases hnext.queue_eq with hqueue | ⟨event, hevent⟩
  · rw [hqueue]
    exact h.cuts n
  · have hsome : s.engine.queue.pending ≠ [] := List.ne_nil_of_length_pos
      (Nat.lt_of_le_of_lt (Nat.zero_le _) (EventQueue.length_lt_of_next hevent))
    obtain ⟨event', u, hevent', hbehind⟩ := hcut.next_eq hsome
    have hleft : s'.engine.queue = ⟨u⟩ :=
      congrArg Prod.snd (Option.some.inj (hevent.symm.trans hevent'))
    rw [hleft]
    refine (h.cuts n).of_next hbehind ?_
    have hdropped : (ts.drop n).flatten <:+ ts.flatten :=
      ⟨(ts.take n).flatten, by rw [← List.flatten_append, List.take_append_drop]⟩
    rw [List.length_append]
    exact Nat.lt_of_le_of_lt hdropped.length_le
      (Nat.lt_add_of_pos_left (List.length_pos_iff.2 hsome))

/-! ### Coming to rest -/

theorem ahead_jobs_ne_nil : (s.ahead t).jobs ≠ [] :=
  List.append_ne_nil_of_right_ne_nil _ (List.cons_ne_nil _ _)

/-- A match that is accepted is accepted ahead, too. -/
theorem Ready.acceptsMatch_ahead (h : s.Ready r style ts) (haccepts : s.machine.AcceptsMatch) :
    (s.ahead ts.flatten).AcceptsMatch := by
  obtain ⟨e, he, haccepts⟩ := haccepts
  have hphase := h.reading.phase
  cases hurgent : s.urgent with
  | cons job urgent =>
    rw [hurgent] at hphase
    rw [machine, hurgent] at he
    cases hphase <;> cases he
  | nil =>
    cases hdelivering : s.delivering with
    | false =>
      rw [machine, hurgent, hdelivering] at he
      cases hruns : s.runs <;> rw [hruns] at he <;> cases he
    | true =>
      rw [machine, hurgent, hdelivering] at he
      have he : s.engine = e := Option.some.inj he
      subst he
      have hsome : s.engine.queue.pending ≠ [] := by
        intro hempty
        obtain ⟨x, hx, -⟩ := haccepts
        rw [Engine.next?_of_empty hempty] at hx
        cases hx
      have hcut := h.cuts 0
      rw [List.drop_zero] at hcut
      obtain ⟨event, u, hnext, hnext'⟩ := hcut.next_eq hsome
      rw [ahead, hurgent]
      exact ⟨_, rfl, (Engine.acceptsMatch_calm hnext hnext').2 haccepts⟩

/-- When nothing is left to do, no task waits and no input. -/
theorem Reading.of_rest (h : s.Reading r) (hworks : 0 < s.runs ∨ s.conn.tasks = [])
    (hjobs : s.machine.jobs = []) : s.urgent = [] ∧ s.conn.tasks = [] ∧
      s.engine.scheduled = false ∧ s.engine.queue.pending = [] := by
  obtain ⟨hurgent, hrest⟩ := List.append_eq_nil_iff.1 hjobs
  obtain ⟨hdelivers, hruns⟩ := List.append_eq_nil_iff.1 hrest
  have hdelivering : s.delivering ≠ true := by
    intro hdelivering
    rw [hdelivering] at hdelivers
    cases hdelivers
  have htasks : s.conn.tasks = [] := by
    refine hworks.resolve_left fun hpos => ?_
    rw [(List.replicate_eq_nil_iff _).1 hruns] at hpos
    exact Nat.lt_irrefl 0 hpos
  have hscheduled : s.engine.scheduled ≠ true := by
    intro hscheduled
    have hasked := h.tasks_eq
    rw [hscheduled, htasks] at hasked
    cases hasked
  refine ⟨hurgent, htasks, Bool.eq_false_iff.2 hscheduled, ?_⟩
  by_contra hne
  exact (h.awake hne).elim hdelivering hscheduled

/-- When nothing is left to do, there is nothing to do ahead, either. -/
theorem Reading.settles_of_rest (h : s.Reading r) (hworks : 0 < s.runs ∨ s.conn.tasks = [])
    (hjobs : s.machine.jobs = []) (host : Host) : (s.ahead []).Settles host s.machine.world := by
  obtain ⟨hurgent, htasks, hscheduled, hempty⟩ := h.of_rest hworks hjobs
  obtain ⟨k, -, -, -, -, hfree⟩ := (hurgent ▸ h.phase).of_nil
  have hnext : s.engine.next? = none := Engine.next?_of_empty hempty
  have hahead : s.ahead [] = ⟨.solo s.engine s.conn s.journal, [.deliver 0]⟩ := by
    rw [ahead, hurgent, EventQueue.append_nil, Engine.calm_self hscheduled,
      Connection.calm_self htasks]
    rfl
  have hadvance : (s.ahead []).advance host = ⟨.solo s.engine s.conn s.journal, []⟩ := by
    rw [hahead, Machine.advance, Machine.move_delivered hfree (by rw [Engine.step?_eq, hnext]; rfl),
      World.calm_solo, Engine.calm_self hscheduled, Connection.calm_self htasks]
  refine .step ahead_jobs_ne_nil ?_ ?_
  · rw [hahead]
    rintro ⟨e, he, x, hx, -⟩
    cases he
    rw [hnext] at hx
    cases hx
  · rw [hadvance]
    exact .rest

/-- A step and what is ahead come to rest in the same world. -/
theorem Next.settles {host : Host} (h : s.Next host r t s') :
    (s.ahead t).Settles host w ↔ (s'.ahead t).Settles host w := by
  rcases h.ahead_eq with hsame | ⟨hquiet, hadvance⟩
  · rw [hsame]
  · rw [hadvance]
    exact ⟨fun h => (h.advance ahead_jobs_ne_nil).2, fun h => .step ahead_jobs_ne_nil hquiet h⟩

/-- A run in which all input is there and no match is accepted goes where the machine goes that is
ahead. -/
theorem Ready.exists_settles (h : s.Ready r style []) (hr : r.Inward)
    (hworks : 0 < s.runs ∨ s.conn.tasks = [])
    (hquiet : ∀ n, ¬ (s.machine.steps (.readsOn r) n).AcceptsMatch) :
    ∃ w, (s.ahead []).Settles (.readsOn r) w := by
  -- on what is left to do, which gets less with every step, whether or not it is seen ahead
  induction hx : s.toDo using WellFoundedLT.induction generalizing s with
  | ind x ih =>
    by_cases hjobs : s.machine.jobs = []
    · exact ⟨_, h.reading.settles_of_rest hworks hjobs _⟩
    · obtain ⟨s', hnext, hready⟩ := h.next hr (hquiet 0) hjobs
      obtain ⟨w, hw⟩ := ih s'.toDo (hx ▸ hnext.less) hready hnext.works (fun n => by
        rw [← hnext.move_eq, ← Machine.steps_succ_move]
        exact hquiet (n + 1)) rfl
      exact ⟨w, hnext.settles.2 hw⟩

/-- A run in which all input is there comes to a stage in which nothing is left to do. -/
theorem Ready.drained (h : s.Ready r style []) (hr : r.Inward)
    (hw : (s.ahead []).Settles (.readsOn r) w) :
    ∃ n s', s.machine.steps (.readsOn r) n = Stage.machine s' ∧ s'.machine.jobs = [] ∧
      Stage.Ready r style [] s' ∧ (Stage.ahead [] s').Settles (.readsOn r) w ∧
      (0 < s.runs ∨ s.conn.tasks = [] → 0 < s'.runs ∨ s'.conn.tasks = []) := by
  -- as there, with the moves ahead deciding that no match is accepted here
  induction hx : s.toDo using WellFoundedLT.induction generalizing s with
  | ind x ih =>
    by_cases hjobs : s.machine.jobs = []
    · exact ⟨0, s, rfl, hjobs, h, hw, id⟩
    · have hquiet := (hw.advance ahead_jobs_ne_nil).1
      obtain ⟨s', hnext, hready⟩ := h.next hr (mt h.acceptsMatch_ahead hquiet) hjobs
      obtain ⟨n, s'', hn, hrest, hlast, hw', hworks⟩ :=
        ih s'.toDo (hx ▸ hnext.less) hready (hnext.settles.1 hw) rfl
      refine ⟨n + 1, s'', ?_, hrest, hlast, hw', fun _ => hworks hnext.works⟩
      rw [Machine.steps_succ_move, hnext.move_eq]
      exact hn

/-- A run in which all input is there comes to rest where the machine goes that is ahead. -/
theorem Ready.steps_of_settles (h : s.Ready r style []) (hr : r.Inward)
    (hworks : 0 < s.runs ∨ s.conn.tasks = []) (hw : (s.ahead []).Settles (.readsOn r) w) :
    ∃ n, s.machine.steps (.readsOn r) n = ⟨w, []⟩ := by
  obtain ⟨n, s', hn, hrest, hlast, hw', hworks'⟩ := h.drained hr hw
  refine ⟨n, ?_⟩
  rw [hn, hw'.unique (hlast.reading.settles_of_rest (hworks' hworks) hrest _), ← hrest]

/-! ### Reads -/

/-- Between tasks the last event has led to nothing more, and the queue is not being handled. -/
theorem Reading.of_between (h : s.Reading r) (hbetween : s.machine.BetweenTasks) :
    s.urgent = [] ∧ s.delivering = false := by
  have hphase := h.phase
  have hurgent : s.urgent = [] := by
    cases hurgent : s.urgent with
    | nil => rfl
    | cons job urgent =>
      have hmem : job ∈ s.machine.jobs := by
        rw [machine, hurgent]
        exact List.mem_cons_self
      have hjob := hbetween job hmem
      rw [hurgent] at hphase
      cases hphase <;> cases hjob
  refine ⟨hurgent, ?_⟩
  cases hdelivering : s.delivering with
  | false => rfl
  | true =>
    have hmem : Job.deliver 0 ∈ s.machine.jobs := by
      rw [machine, hurgent, hdelivering]
      exact List.mem_cons_self
    cases hbetween _ hmem

/-- The stage after a read has arrived. -/
def fed (s : Stage) (t : Text) : Stage :=
  { s with
    engine := { s.engine with
      queue := s.engine.queue.append t
      scheduled := !t.isEmpty || s.engine.scheduled }
    conn := { s.conn with
      tasks := if !t.isEmpty || s.engine.scheduled then [.deliver 0] else [] } }

/-- The stage after the tasks were asked to be run. -/
def running (s : Stage) : Stage := { s with runs := s.runs + 1 }

/-- A read was there before, ahead. -/
theorem ahead_fed : (s.fed t).ahead ts.flatten = s.ahead (t :: ts).flatten := by
  rw [ahead, fed]
  dsimp only
  rw [EventQueue.append_append, ← List.flatten_cons]
  rfl

theorem Reading.feed_eq (h : s.Reading r) (hbetween : s.machine.BetweenTasks) (host : Host)
    (t : Text) :
    s.machine.move host (.call (.feed 0 (Utf8.encodeText t))) = (s.fed t).machine := by
  obtain ⟨k, hk, hconn, -, -, hfree⟩ := ((h.of_between hbetween).1 ▸ h.phase).of_nil
  have hsome := Engine.session_of_core? hk
  obtain ⟨d, -, hsession, rfl⟩ := Engine.desk_of_core? hk
  have hfed : s.machine.world.feed 0 (Utf8.encodeText t) = (s.fed t).machine.world := by
    refine (World.feed_free hfree h.decoder_eq (h.handlers_eq hsome) _ t).trans ?_
    refine World.asked_solo (e := { s.engine with queue := s.engine.queue.append t }) ?_ hfree hsome
      h.tasks_eq _
    intro x hx
    rw [Option.some.inj (hx.symm.trans hsession)]
    exact hconn
  exact congrArg (Machine.mk · s.machine.jobs) hfed

/-- A read that has arrived is not to come any more. -/
theorem Ready.fed (h : s.Ready r style (t :: ts)) (hr : r.Inward)
    (hbetween : s.machine.BetweenTasks) : (s.fed t).Ready r style ts := by
  have hurgent := (h.reading.of_between hbetween).1
  have hdelivering := (h.reading.of_between hbetween).2
  obtain ⟨k, hk, hconn, hlisten, hreading, hfree⟩ := (hurgent ▸ h.reading.phase).of_nil
  obtain ⟨d, -, hsession, rfl⟩ := Engine.desk_of_core? hk
  refine ⟨?_, ?_, fun n => ?_⟩
  · refine { h.reading with phase := ?_, tasks_eq := rfl, awake := fun hne => .inr ?_ }
    · have hcore : (s.fed t).engine.core? = some (Desk.core
          { toEditor := (s.fed t).engine.toEditor, session := d.session }) :=
        Engine.core?_of_session hsession
      have hphase : Phase r (s.fed t).engine [] := .reading hcore hconn hlisten hreading hfree
      rw [← hurgent] at hphase
      exact hphase
    · change (!t.isEmpty || s.engine.scheduled) = true
      cases t with
      | cons x t => rfl
      | nil =>
        have hwaits : s.engine.queue.pending ≠ [] := by
          rw [Stage.fed] at hne
          dsimp only at hne
          rw [EventQueue.append_nil] at hne
          exact hne
        refine (h.reading.awake hwaits).resolve_left ?_
        rw [hdelivering]
        exact Bool.false_ne_true
  · rw [← h.reading.feed_eq hbetween (.readsOn r)]
    exact h.obeys_move hr trivial
  · have hcut := h.cuts (n + 1)
    rw [List.flatten_cons, ← List.append_assoc, List.drop_succ_cons] at hcut
    exact hcut

theorem Reading.runTasks_eq (h : s.Reading r) (hbetween : s.machine.BetweenTasks) (host : Host) :
    s.machine.move host (.call (.runTasks 0)) = s.running.machine := by
  obtain ⟨hurgent, hdelivering⟩ := h.of_between hbetween
  rw [machine, machine, running, hurgent, hdelivering]
  rfl

/-- Tasks that are to be run do not matter to what is to come. -/
theorem Ready.running (h : s.Ready r style ts) (hr : r.Inward)
    (hbetween : s.machine.BetweenTasks) : s.running.Ready r style ts := by
  refine ⟨{ h.reading with runs_pos := fun _ => Nat.succ_pos _ }, ?_, h.cuts⟩
  rw [← h.reading.runTasks_eq hbetween (.readsOn r)]
  exact h.obeys_move hr trivial

/-- Reads that are still to come may come in one. -/
theorem Ready.whole (h : s.Ready r style ts) : s.Ready r style [ts.flatten] := by
  refine ⟨h.reading, h.obeys, fun n => ?_⟩
  rw [List.flatten_singleton]
  cases n with
  | zero =>
    have hcut := h.cuts 0
    rw [List.drop_zero] at hcut
    rw [List.drop_zero, List.flatten_singleton]
    exact hcut
  | succ n =>
    have hcut := h.cuts ts.length
    rw [List.drop_length] at hcut
    rw [List.drop_succ_cons, List.drop_nil]
    exact hcut

/-- The stage in which all reads have come in one, and the tasks are to be run. -/
theorem Ready.atOnce (h : s.Ready r style ts) (hr : r.Inward) (hrest : s.machine.jobs = []) :
    ∃ s', s.machine.atOnce (.readsOn r) ts.flatten = Stage.machine s' ∧
      Stage.Ready r style [] s' ∧ Stage.ahead [] s' = s.ahead ts.flatten ∧ 0 < Stage.runs s' := by
  have hbetween : s.machine.BetweenTasks := Machine.betweenTasks_of_rest hrest
  have hbetween' : (s.fed ts.flatten).machine.BetweenTasks := hbetween
  have hfed := h.whole.fed hr hbetween
  have hahead : (s.fed ts.flatten).ahead ([] : List Text).flatten = s.ahead [ts.flatten].flatten :=
    ahead_fed
  rw [List.flatten_singleton] at hahead
  refine ⟨(s.fed ts.flatten).running, ?_, hfed.running hr hbetween', hahead, Nat.succ_pos _⟩
  rw [Machine.atOnce, Machine.play_cons, Machine.play_cons, Machine.play_nil,
    h.reading.feed_eq hbetween, hfed.reading.runTasks_eq hbetween']

/-- What is left of a run is done, and the tasks are run once more. -/
theorem Ready.finish (h : s.Ready r style []) (hr : r.Inward)
    (hw : (s.ahead []).Settles (.readsOn r) w) :
    ∃ k l, ((s.machine.steps (.readsOn r) k).move (.readsOn r) (.call (.runTasks 0))).steps
      (.readsOn r) l = ⟨w, []⟩ := by
  obtain ⟨k, s', hsteps, hrest, hready, hw', -⟩ := h.drained hr hw
  have hbetween : s'.machine.BetweenTasks := Machine.betweenTasks_of_rest hrest
  obtain ⟨l, hl⟩ := (hready.running hr hbetween).steps_of_settles hr (.inl (Nat.succ_pos _)) hw'
  refine ⟨k, l, ?_⟩
  rw [hsteps, hready.reading.runTasks_eq hbetween]
  exact hl

/-! ### Runs -/

/-- Along a run what is ahead stays the same or goes on towards the same world. -/
theorem Ready.play (h : s.Ready r style ts) (hr : r.Inward)
    (hw : (s.ahead ts.flatten).Settles (.readsOn r) w) (moves : List Move)
    (hadmits : s.machine.Admits Machine.Reads (.readsOn r) moves)
    (hreads : moves.filterMap Move.bytes? = ts.map Utf8.encodeText) :
    ∃ s', s.machine.play (.readsOn r) moves = Stage.machine s' ∧ Stage.Ready r style [] s' ∧
      (Stage.ahead [] s').Settles (.readsOn r) w := by
  -- the moves go on from stage to stage; only a read changes what is to come
  induction moves generalizing s ts with
  | nil =>
    cases ts with
    | nil => exact ⟨s, rfl, h, hw⟩
    | cons t ts => cases hreads
  | cons x moves ih =>
    obtain ⟨hx, hadmits⟩ := hadmits
    rw [Machine.play_cons]
    cases x with
    | step =>
      by_cases hjobs : s.machine.jobs = []
      · have hstays : s.machine.move (.readsOn r) .step = s.machine := by
          rw [Machine.move, Machine.step?, hjobs]
          rfl
        rw [hstays] at hadmits ⊢
        exact ih h hw hadmits hreads
      · have hquiet := (hw.advance ahead_jobs_ne_nil).1
        obtain ⟨s', hnext, hready⟩ := h.next hr (mt h.acceptsMatch_ahead hquiet) hjobs
        rw [hnext.move_eq] at hadmits ⊢
        exact ih hready (hnext.settles.1 hw) hadmits hreads
    | call c =>
      obtain ⟨hbetween, hcall⟩ := hx
      cases c
      case feed conn bytes =>
        have hzero : conn = 0 := beq_iff_eq.1 hcall
        subst hzero
        cases ts with
        | nil => cases hreads
        | cons t ts =>
          obtain ⟨rfl, hrest⟩ := List.cons.inj hreads
          rw [h.reading.feed_eq hbetween] at hadmits ⊢
          exact ih (h.fed hr hbetween) (ahead_fed ▸ hw) hadmits hrest
      case runTasks conn =>
        have hzero : conn = 0 := beq_iff_eq.1 hcall
        subst hzero
        rw [h.reading.runTasks_eq hbetween] at hadmits ⊢
        exact ih (h.running hr hbetween) hw hadmits hreads
      all_goals cases hcall

/-- Nothing is left to do when a line has begun. -/
theorem begin_ready {e : Engine} {c : Connection} (h : e.Idle c) (hdecoder : c.decoder = {})
    (j : Journal) (hr : r.Inward) (n : Nat)
    (hcuts : ∀ k, EventQueue.Cuts e.keymap.recognizes (e.queue.pending ++ ts.flatten)
      (ts.drop k).flatten) :
    Machine.begun e c j r n = (begin r n e c j false 0).machine ∧
      (begin r n e c j false 0).Ready r e.keymap.style ts := by
  have htasks : c.tasks = if e.scheduled then [.deliver 0] else [] := by
    rw [h.tasks_eq, h.scheduled_eq]
    rfl
  have hbegun : Machine.begun e c j r n = (begin r n e c j false 0).machine := by
    rw [Machine.begun, Machine.call,
      World.call_readline hr.engine_eq hr.conn_eq h.free h.session_eq,
      begin_eq hr.conn_eq h.free htasks j n false 0]
    rfl
  have hengine : e.Obeys (.inward e.keymap.style) :=
    ⟨⟨rfl, fun _ _ _ _ => trivial, fun _ _ _ _ => trivial, fun _ _ _ _ => trivial⟩,
      fun s hs => by rw [h.session_eq] at hs; cases hs⟩
  have hidle : (⟨.solo e c j, []⟩ : Machine).Obeys (.inward e.keymap.style) := by
    refine ⟨World.obeys_solo hengine ?_ j, List.forall_mem_nil _⟩
    rw [Connection.Obeys, h.tasks_eq, h.delayed_eq]
    exact List.forall_mem_nil _
  refine ⟨hbegun, reading_begin hr.conn_eq h.free hdecoder j n fun hdelivering => ?_, ?_, hcuts⟩
  · exact absurd hdelivering Bool.false_ne_true
  · rw [← hbegun]
    exact hidle.move (x := .call (.readline r n)) (Rules.scripts_inward _)
      (Host.obeys_readsOn hr e.keymap.style) hr.handler fun _ _ _ _ => trivial

end Stage

/-! ### Batches -/

namespace Machine

/-- It does not matter how input is cut into reads. An engine on one connection, whose host begins
the next line with every callback, comes to rest in one world when all input arrives in one read;
when it arrives in several reads that each end where an event ends, and the tasks are run at any
time, it comes to the same world once everything is done and the tasks are run. No key may accept a
line for a search that has found something. -/
theorem batches_of_play {e : Engine} {c : Connection} (h : e.Idle c) (hdecoder : c.decoder = {})
    (j : Journal) {r : Request} (hr : r.Inward) (n : Nat) {ts : List Text}
    (hcuts : ∀ k, EventQueue.Cuts e.keymap.recognizes (e.queue.pending ++ ts.flatten)
      (ts.drop k).flatten)
    (hquiet : ∀ k, ¬ (((begun e c j r n).atOnce (.readsOn r) ts.flatten).steps
      (.readsOn r) k).AcceptsMatch) :
    ∃ w : World,
      (∃ k, ((begun e c j r n).atOnce (.readsOn r) ts.flatten).steps (.readsOn r) k = ⟨w, []⟩) ∧
      ∀ moves : List Move, (begun e c j r n).Admits Reads (.readsOn r) moves →
        moves.filterMap Move.bytes? = ts.map Utf8.encodeText →
        ∃ k l, ((((begun e c j r n).play (.readsOn r) moves).steps (.readsOn r) k).move
          (.readsOn r) (.call (.runTasks 0))).steps (.readsOn r) l = ⟨w, []⟩ := by
  obtain ⟨hbegun, hready⟩ := Stage.begin_ready h hdecoder j hr n hcuts
  obtain ⟨s, honce, hlast, hahead, hruns⟩ := hready.atOnce hr rfl
  rw [hbegun] at hquiet ⊢
  rw [honce] at hquiet ⊢
  obtain ⟨w, hw⟩ := hlast.exists_settles hr (.inl hruns) hquiet
  refine ⟨w, hlast.steps_of_settles hr (.inl hruns) hw, ?_⟩
  -- the run in several reads goes towards the world to which the run in one read goes
  intro moves hadmits hreads
  rw [hahead] at hw
  obtain ⟨s', hplay, hready', hw'⟩ := hready.play hr hw moves hadmits hreads
  rw [hplay]
  exact hready'.finish hr hw'

/-- A line and the beginning of the next one, at once or in two reads. -/
theorem batches_of_play_two :
    let r : Request := { engine := 0, conn := 0, prompt := ⟨['>', ' ']⟩, handler := none }
    let start : Machine := begun (.new {} []) (.new {} {}) {} r 0
    let moves : List Move := [.call (.feed 0 [97, 13]), .call (.runTasks 0), .step, .step, .step,
      .step, .step, .step, .step, .call (.feed 0 [98])]
    ∃ w : World,
      (∃ k, (start.atOnce (.readsOn r) ['a', '\r', 'b']).steps (.readsOn r) k = ⟨w, []⟩) ∧
      ∃ k l, (((start.play (.readsOn r) moves).steps (.readsOn r) k).move (.readsOn r)
        (.call (.runTasks 0))).steps (.readsOn r) l = ⟨w, []⟩ := by
  intro r start moves
  have hidle : (Engine.new {} []).Idle (Connection.new {} {}) := ⟨rfl, rfl, rfl, rfl, rfl⟩
  have hr : r.Inward := ⟨rfl, rfl, nofun⟩
  have hcuts : ∀ k, EventQueue.Cuts (Engine.new {} []).keymap.recognizes
      ((Engine.new {} []).queue.pending ++ [['a', '\r'], ['b']].flatten)
      (([['a', '\r'], ['b']] : List Text).drop k).flatten := by
    rintro (_ | _ | k)
    · exact ⟨0, rfl⟩
    · exact ⟨2, by decide +kernel⟩
    · rw [List.drop_succ_cons, List.drop_succ_cons, List.drop_nil]
      exact ⟨3, by decide +kernel⟩
  have hrest : ((start.atOnce (.readsOn r) ['a', '\r', 'b']).steps (.readsOn r) 10).jobs = [] :=
    List.isEmpty_iff.1 (by decide +kernel)
  have hquiet := quiet_of_rest hrest (by decide +kernel)
  have hadmits : start.Admits Reads (.readsOn r) moves := by decide +kernel
  obtain ⟨w, honce, hcut⟩ := batches_of_play hidle rfl {} hr 0 hcuts hquiet
  exact ⟨w, honce, hcut moves hadmits (by decide)⟩

end Machine

/-! ### Scripts that tell the reads apart -/

namespace ScriptedHandler

/-- A line with a handler for its completions. -/
def request (h : ScriptedHandler) : Request :=
  { engine := 0, conn := 0, prompt := ⟨['>', ' ']⟩, handler := some (.scripted h) }

/-- A new engine that reads lines with a handler for their completions. -/
def reader (h : ScriptedHandler) : Machine := .begun (.new {} []) (.new {} {}) {} h.request 0

/-- All input comes in one read. -/
def inOne (h : ScriptedHandler) (t u : Text) : Machine := h.reader.atOnce (.readsOn h.request) (t ++ u)

/-- Two reads, with all that the first one leads to in between. -/
def twoReads (t u : Text) : List Move :=
  [.call (.feed 0 (Utf8.encodeText t)), .call (.runTasks 0)] ++ List.replicate 20 .step ++
    [.call (.feed 0 (Utf8.encodeText u))]

/-- The input comes in two reads, and the tasks are run after each. -/
def inTwo (h : ScriptedHandler) (t u : Text) : Machine :=
  (h.reader.play (.readsOn h.request) (twoReads t u)).move (.readsOn h.request) (.call (.runTasks 0))

/-- The text on the line of a machine with nothing left to do. -/
def restingLine? (m : Machine) : Option Text :=
  if m.jobs.isEmpty then ((m.world.engine? 0).bind Engine.session).map (·.buffer.text) else none

/-- With this handler, which does not defer, it matters whether some input comes in one read or in two:
the first one ends where an event ends, no key accepts a match, and when nothing is left to do the line
holds one text or another. -/
structure Tells (h : ScriptedHandler) (t u one two : Text) : Prop where
  deferred_eq : h.deferred = false
  cuts : EventQueue.Cuts (Engine.new {} []).keymap.recognizes (t ++ u) u
  admits : h.reader.Admits Machine.Reads (.readsOn h.request) (twoReads t u)
  quiet : ∀ k, ¬ ((h.inOne t u).steps (.readsOn h.request) k).AcceptsMatch
  one_eq : restingLine? ((h.inOne t u).steps (.readsOn h.request) 20) = some one
  two_eq : restingLine? ((h.inTwo t u).steps (.readsOn h.request) 20) = some two
  ne : one ≠ two

/-- It is enough to look until nothing is left to do. -/
theorem Tells.of_runs {h : ScriptedHandler} {t u one two : Text} (hdeferred : h.deferred = false)
    (hcuts : EventQueue.Cuts (Engine.new {} []).keymap.recognizes (t ++ u) u)
    (hadmits : h.reader.Admits Machine.Reads (.readsOn h.request) (twoReads t u))
    (hquiet : ∀ k < 20, ¬ ((h.inOne t u).steps (.readsOn h.request) k).AcceptsMatch)
    (hone : restingLine? ((h.inOne t u).steps (.readsOn h.request) 20) = some one)
    (htwo : restingLine? ((h.inTwo t u).steps (.readsOn h.request) 20) = some two)
    (hne : one ≠ two) : h.Tells t u one two := by
  have hrest : ((h.inOne t u).steps (.readsOn h.request) 20).jobs = [] := by
    refine List.isEmpty_iff.1 ?_
    by_contra hjobs
    rw [restingLine?, if_neg hjobs] at hone
    cases hone
  exact ⟨hdeferred, hcuts, hadmits, Machine.quiet_of_rest hrest hquiet, hone, htwo, hne⟩

/-- Input that a handler puts into the queue, and work that it leaves for later, come behind the input
that waits there already, and the first read may have brought more or less of it. Tasks that a handler
runs, or a change of the size for it, find the engine busy, and the one that was to handle the next read
may be among them. -/
theorem tells_reads_apart :
    Tells { script := [.queue ['x']] } ['\t'] ['a'] ['a', 'x'] ['x', 'a'] ∧
      Tells { script := [.schedule (some [.insert ['x']]) false] } ['\t'] ['a'] ['a', 'x'] ['x', 'a'] ∧
      Tells { script := [.runTasks] } ['a', '\r', '\t'] ['b'] ['b'] [] ∧
      Tells { script := [.resize {}] } ['a', '\r', '\t'] ['b'] ['b'] [] := by
  have hcuts : EventQueue.Cuts (Engine.new {} []).keymap.recognizes (['\t'] ++ ['a']) ['a'] :=
    ⟨1, by decide +kernel⟩
  have hcuts' : EventQueue.Cuts (Engine.new {} []).keymap.recognizes (['a', '\r', '\t'] ++ ['b'])
      ['b'] := ⟨3, by decide +kernel⟩
  refine ⟨.of_runs rfl hcuts ?_ ?_ ?_ ?_ ?_, .of_runs rfl hcuts ?_ ?_ ?_ ?_ ?_,
    .of_runs rfl hcuts' ?_ ?_ ?_ ?_ ?_, .of_runs rfl hcuts' ?_ ?_ ?_ ?_ ?_⟩
  all_goals decide +kernel

end ScriptedHandler

end LineEditor
