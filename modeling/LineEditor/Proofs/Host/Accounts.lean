import LineEditor.Proofs.Engine.Core
import LineEditor.Proofs.Host.Solo

/-!
The account of the input of one engine on one connection: what is queued, whether a delivery was asked
for, and which deliveries wait. Input that arrives is entered in it, and so is what an event takes.

Main definitions: `Engine.Attends` and `World.Attends`. Main statements: one lemma for each thing that
enters input, `Engine.Attends.work` for work on the session, and `Engine.Attends.handle` for events.
-/
namespace LineEditor

/-! ### Accounts -/

/-- The deliveries that are asked for are those that wait, and queued input that a session could take
is asked for, now or later. -/
structure Engine.Attends (e : Engine) (c : Connection) (later : Prop) (pending : Text) : Prop where
  conn_eq : ∀ s, e.session = some s → s.conn = 0
  reading : e.busy = true → ∃ s, e.session = some s
  queue_eq : e.queue.pending = pending
  count_eq : c.tasks.count (.deliver 0) = if e.scheduled then 1 else 0
  delayed : .deliver 0 ∉ c.delayed
  waits : e.canDeliver = true → e.scheduled = true ∨ later

/-- Such an account of one engine on one connection. -/
inductive World.Attends (busy : Bool) (later : Prop) (pending : Text) : World → Prop where
  | solo (e : Engine) (c : Connection) (j : Journal) (hbusy : e.busy = busy)
      (h : e.Attends c later pending) : Attends busy later pending (.solo e c j)

namespace Engine.Attends

variable {e e' : Engine} {c c' : Connection} {later later' : Prop} {pending : Text}

theorem mono (h : e.Attends c later pending) (hlater : later → later') :
    e.Attends c later' pending :=
  { h with waits := fun hcan => (h.waits hcan).imp_right hlater }

/-- Other work that waits on the connection is no concern. -/
theorem setConn (h : e.Attends c later pending)
    (htasks : c'.tasks.count (.deliver 0) = c.tasks.count (.deliver 0))
    (hdelayed : ∀ t ∈ c'.delayed, t ∈ c.delayed ∨ t ≠ .deliver 0) :
    e.Attends c' later pending where
  conn_eq := h.conn_eq
  reading := h.reading
  queue_eq := h.queue_eq
  count_eq := htasks.trans h.count_eq
  delayed := by
    intro hmem
    rcases hdelayed _ hmem with hmem | hne
    · exact h.delayed hmem
    · exact hne rfl
  waits := h.waits

theorem core_conn {k : Core} (h : e.Attends c later pending) (hk : e.core? = some k) :
    k.conn = 0 := by
  obtain ⟨d, -, hs, rfl⟩ := Engine.desk_of_core? hk
  exact h.conn_eq _ hs

theorem core_queue {k : Core} (h : e.Attends c later pending) (hk : e.core? = some k) :
    k.queue.pending = pending := by
  rw [← Engine.queue_of_core? hk]
  exact h.queue_eq

theorem desk (h : e.Attends c later pending) (hbusy : e.busy = true) :
    ∃ d, e.desk? = some d ∧ e.core? = some d.core := by
  obtain ⟨s, hs⟩ := h.reading hbusy
  obtain ⟨d, hd, -, hk⟩ := Engine.desk_of_core? (Engine.core?_of_session hs)
  exact ⟨d, hd, (Engine.core?_of_session hs).trans (congrArg some hk)⟩

theorem conn (h : e.Attends c later pending) : e.conn = 0 := Engine.conn_eq_zero h.conn_eq

end Engine.Attends

/-! ### Input -/

/-- What an engine's handler is given of some deliveries. -/
def Connection.given (ds : List (Owner × Delivery)) : Text :=
  ds.flatMap fun
    | (.engine 0, .read t) => t
    | _ => []

namespace World.Attends

variable {busy : Bool} {later later' : Prop} {pending : Text} {w : World}

theorem mono (h : w.Attends busy later pending) (hlater : later → later') :
    w.Attends busy later' pending := by
  obtain ⟨e, c, j, hbusy, h⟩ := h
  exact .solo e c j hbusy (h.mono hlater)

theorem note (h : w.Attends busy later pending) (n : Note) :
    (w.note n).Attends busy later pending := by
  obtain ⟨e, c, j, hbusy, h⟩ := h
  exact .solo e c (j.note n) hbusy h

/-- Once handling is asked for nothing is left to ask for. -/
theorem scheduleDelivery (h : w.Attends false later pending) :
    (w.scheduleDelivery 0).Attends false False pending := by
  obtain ⟨e, c, j, hbusy, h⟩ := h
  rw [scheduleDelivery_solo _ _ _ h.conn_eq]
  split
  · rename_i hsame
    refine .solo e c j hbusy { h with waits := fun hcan => .inl ?_ }
    rw [hbusy, Bool.false_or, Bool.or_eq_true] at hsame
    rcases hsame with hscheduled | hnone
    · exact hscheduled
    · unfold Engine.canDeliver Engine.isListening at hcan
      rw [Option.isNone_iff_eq_none.1 hnone] at hcan
      simp at hcan
  · rename_i hasked
    rw [hbusy, Bool.false_or, Bool.or_eq_true, not_or, Bool.not_eq_true] at hasked
    refine .solo _ _ j hbusy { h with count_eq := ?_, waits := fun _ => .inl rfl }
    have hcount := h.count_eq
    rw [hasked.1] at hcount
    simp only [Connection.execute, List.count_append, hcount]
    rfl

theorem receiveInput (h : w.Attends false later pending) (t : Text) :
    (w.receiveInput 0 t).Attends false False (pending ++ t) := by
  obtain ⟨e, c, j, hbusy, h⟩ := h
  unfold World.receiveInput
  rw [engine?_solo]
  dsimp only
  rw [if_neg (by rw [hbusy]; decide), setEngine_solo]
  have hqueued : (World.solo { e with queue := e.queue.append t } c j).Attends false True
      (pending ++ t) :=
    .solo _ c j hbusy { h with
      queue_eq := congrArg (· ++ t) h.queue_eq
      waits := fun _ => .inr trivial }
  exact hqueued.scheduleDelivery

theorem deliver (h : w.Attends false later pending) (x : Owner × Delivery) :
    (w.deliver x).Attends false later (pending ++ Connection.given [x]) := by
  have hsame : pending ++ [] = pending := List.append_nil _
  rcases x with ⟨n | n, t | ⟨s, c⟩⟩
  · cases n with
    | zero =>
      have hgiven : Connection.given [(.engine 0, .read t)] = t := List.append_nil _
      rw [hgiven]
      exact (h.receiveInput t).mono False.elim
    | succ n =>
      change (w.receiveInput (n + 1) t).Attends false later (pending ++ [])
      rw [hsame]
      obtain ⟨e, c, j, hbusy, h⟩ := h
      exact .solo e c j hbusy h
  · have hnone : Connection.given [(.engine n, .signal s c)] = [] := by cases n <;> rfl
    rw [hnone, hsame]
    exact h
  · change (w.note (.input t)).Attends false later (pending ++ [])
    rw [hsame]
    exact h.note _
  · change (w.note (.signal s c)).Attends false later (pending ++ [])
    rw [hsame]
    exact h.note _

theorem deliverAll (h : w.Attends false later pending) (ds : List (Owner × Delivery)) :
    (ds.foldl World.deliver w).Attends false later (pending ++ Connection.given ds) := by
  induction ds generalizing w pending with
  | nil =>
    rw [Connection.given, List.flatMap_nil, List.append_nil]
    exact h
  | cons x ds ih =>
    have hcons : Connection.given (x :: ds) = Connection.given [x] ++ Connection.given ds := by
      simp [Connection.given]
    rw [hcons, ← List.append_assoc]
    exact ih (h.deliver x)

theorem feed (h : w.Attends false later pending) (conn : Nat) (bytes : List UInt8) :
    (w.feed conn bytes).Attends false later (pending ++ Connection.given
      ((w.conns[conn]?.map fun c => (c.receive bytes).2).getD [])) := by
  obtain ⟨e, c, j, hbusy, h⟩ := h
  cases conn with
  | succ n =>
    change (World.solo e c j).Attends false later (pending ++ [])
    rw [List.append_nil]
    exact .solo e c j hbusy h
  | zero =>
    have hdecoded : (World.solo e (c.receive bytes).1 j).Attends false later pending :=
      .solo e _ j hbusy (h.setConn rfl fun t ht => .inl ht)
    exact hdecoded.deliverAll _

theorem endOfStream (h : w.Attends false later pending) (conn : Nat) :
    (w.endOfStream conn).Attends false later (pending ++ Connection.given
      ((w.conns[conn]?.map fun c => c.endOfStream.2).getD [])) := by
  obtain ⟨e, c, j, hbusy, h⟩ := h
  cases conn with
  | succ n =>
    change (World.solo e c j).Attends false later (pending ++ [])
    rw [List.append_nil]
    exact .solo e c j hbusy h
  | zero =>
    have hdecoded : (World.solo e c.endOfStream.1 j).Attends false later pending :=
      .solo e _ j hbusy (h.setConn rfl fun t ht => .inl ht)
    exact hdecoded.deliverAll _

/-- Input queued by the host is asked for if a session could take it. -/
theorem queueInput {e : Engine} (h : w.Attends false later pending) (hw : w.engine? 0 = some e)
    (t : Text) : (w.queueInput 0 e t).Attends false later (pending ++ t) := by
  obtain ⟨e', c, j, hbusy, h⟩ := h
  cases Option.some.inj hw
  unfold World.queueInput
  dsimp only
  rw [setEngine_solo]
  have hqueued : ∀ later', ({ e with queue := e.queue.append t }.canDeliver = true → later') →
      (World.solo { e with queue := e.queue.append t } c j).Attends false later' (pending ++ t) :=
    fun later' hlater => .solo _ c j hbusy { h with
      queue_eq := congrArg (· ++ t) h.queue_eq
      waits := fun hcan => .inr (hlater hcan) }
  split
  · exact (hqueued True fun _ => trivial).scheduleDelivery.mono False.elim
  · rename_i hcannot
    exact hqueued later fun hcan => absurd hcan hcannot

theorem releaseDelayed (h : w.Attends busy later pending) (conn : Nat) :
    (w.modifyConn conn (·.releaseDelayed)).Attends busy later pending := by
  obtain ⟨e, c, j, hbusy, h⟩ := h
  cases conn with
  | succ n =>
    rw [modifyConn_solo_succ]
    exact .solo e c j hbusy h
  | zero =>
    refine .solo e c.releaseDelayed j hbusy (h.setConn ?_ fun t ht => ?_)
    · have hnone := List.count_eq_zero.2 h.delayed
      simp only [Connection.releaseDelayed, List.count_append, hnone, Nat.add_zero]
    · cases ht

theorem resize (h : w.Attends busy later pending) (conn : Nat) (s : Size) :
    (w.resize conn s).Attends busy later pending := by
  obtain ⟨e, c, j, hbusy, h⟩ := h
  cases conn with
  | succ n =>
    unfold World.resize
    rw [modifyConn_solo_succ]
    exact .solo e c j hbusy h
  | zero =>
    have hsized : (World.solo e (c.setSize s) j).Attends busy later pending :=
      .solo e _ j hbusy (h.setConn rfl fun t ht => .inl ht)
    unfold World.resize
    dsimp only
    rw [modifyConn_solo, conns_solo, Option.bind_some]
    split
    · exact hsized
    · refine .solo e _ j hbusy (h.setConn ?_ fun t ht => .inl ht)
      simp only [Connection.execute, Connection.setSize, List.count_append]
      rfl
    · exact hsized.note _

theorem setHandlers (h : w.Attends busy later pending) (conn : Nat) (f : Handlers → Handlers) :
    (w.modifyConn conn fun c => { c with handlers := f c.handlers }).Attends busy later pending := by
  obtain ⟨e, c, j, hbusy, h⟩ := h
  cases conn with
  | succ n =>
    rw [modifyConn_solo_succ]
    exact .solo e c j hbusy h
  | zero => exact .solo e _ j hbusy (h.setConn rfl fun t ht => .inl ht)

end World.Attends

namespace Engine.Attends

variable {e e' : Engine} {c : Connection} {j : Journal} {later later' : Prop}
  {pending pending' : Text}

/-- What an engine leaves is carried out, and the handlers of a session that is over are put back. -/
theorem put (h : e'.Attends c later pending) (f : Option Finished) :
    (((World.solo e c j).put 0 0 e').close f).Attends e'.busy later pending := by
  rw [World.put_solo]
  obtain ⟨handlers, hclose⟩ := World.close_solo e'.settled (c.settle e') (j.settle e') f
  rw [hclose]
  refine .solo e'.settled _ _ rfl { h with count_eq := ?_, delayed := ?_ }
  · exact (congrArg (List.count _) (Connection.tasks_settle c e')).trans h.count_eq
  · rw [Connection.delayed_settle]
    exact h.delayed

/-- Work of an engine on its session that asks for no delivery. -/
theorem work {k : Core} {t : Engine} (h : e.Attends c later pending) (hk : t.core? = some k)
    (hconn : k.conn = 0) (hscheduled : t.scheduled = e.scheduled)
    (hwaits : k.queue.hasNext = true → k.paused = false → e.canDeliver = true ∨ later) :
    t.Attends c later k.queue.pending where
  conn_eq := by
    intro s hs
    cases (Engine.core?_of_session hs).symm.trans hk
    exact hconn
  reading := by
    obtain ⟨d, -, hs, -⟩ := Engine.desk_of_core? hk
    exact fun _ => ⟨_, hs⟩
  queue_eq := congrArg EventQueue.pending (Engine.queue_of_core? hk)
  count_eq := by
    rw [hscheduled]
    exact h.count_eq
  delayed := h.delayed
  waits := by
    intro hcan
    rw [Engine.canDeliver_of_core? hk, Bool.and_eq_true, Bool.not_eq_true'] at hcan
    rw [hscheduled]
    rcases hwaits hcan.1 hcan.2 with hbefore | hlater
    · exact h.waits hbefore
    · exact .inr hlater

/-- A session that ends takes nothing out of the queue. -/
theorem takeFinished (h : e.Attends c later pending) (hfree : e.busy = false) :
    e.takeFinished.1.busy = false ∧ e.takeFinished.1.Attends c later pending := by
  cases hk : e.core? with
  | none =>
    have hs : e.session = none := by
      unfold Engine.core? Engine.desk? at hk
      simpa using hk
    rw [Engine.takeFinished_of_reading fun s hs' => by rw [hs] at hs'; cases hs']
    exact ⟨hfree, h⟩
  | some k =>
    rcases Engine.takeFinished_cases hk with ⟨-, hgoes⟩ | ⟨line, e', -, hends, hs, hqueue, hflags, hb⟩
    · rw [hgoes]
      exact ⟨hfree, h⟩
    · rw [hends]
      refine ⟨hb.trans hfree, ?_, ?_, ?_, ?_, h.delayed, ?_⟩
      · intro s hs'
        rw [hs] at hs'
        cases hs'
      · intro hbusy
        rw [hb, hfree] at hbusy
        cases hbusy
      · exact (congrArg EventQueue.pending hqueue).trans h.queue_eq
      · rw [hflags]
        exact h.count_eq
      · intro hcan
        unfold Engine.canDeliver Engine.isListening at hcan
        rw [hs] at hcan
        simp at hcan

end Engine.Attends

/-- A new size is no concern of the queue. -/
theorem World.Attends.receiveSize {later : Prop} {pending : Text} {w : World}
    (h : w.Attends false later pending) (n : Nat) (s : Size) :
    (w.receiveSize n s).Attends false later pending := by
  obtain ⟨e, c, j, hfree, h⟩ := h
  cases n with
  | succ n => exact .solo e c j hfree h
  | zero =>
    unfold World.receiveSize
    rw [engine?_solo]
    dsimp only
    rw [if_neg (by rw [hfree]; decide)]
    cases hs : e.session with
    | none => exact .solo e c j hfree h
    | some session =>
      dsimp only
      rw [h.conn_eq session hs]
      obtain ⟨hscheduled, hbusy⟩ := e.flags_resized s
      have hk := Engine.core?_of_session hs
      have hwork := h.work ((Engine.core?_resized e s).trans hk) (h.core_conn hk) hscheduled
        fun hqueue hpaused => .inl (by
          rw [Engine.canDeliver_of_core? hk]
          exact Bool.and_eq_true_iff.2 ⟨hqueue, by simpa using hpaused⟩)
      rw [h.core_queue hk] at hwork
      have hput := hwork.put (e := e) (j := j) none
      rw [hbusy.trans hfree] at hput
      exact hput

/-! ### Events -/

namespace Engine

/-- What the handling of the next event leaves in the queue. -/
def given (e : Engine) : Text := (e.next?.map fun x => e.givenBy x.1 x.2).getD []

/-- The code points that the next event takes, if it is handled. -/
def taken (e : Engine) : Text :=
  if e.next?.isSome then e.queue.taken e.keymap.recognizes else []

variable {e : Engine} {c : Connection} {d : Desk} {event : KeyEvent} {pending : Text}

/-- An event takes its code points from the front of the queue and leaves others at the back. -/
theorem Attends.handle (h : e.Attends c True pending) (hfree : e.busy = false)
    (hnext : e.next? = some (d, event)) :
    ∃ t, pending ++ e.given = e.taken ++ t ∧
      ((∃ e' f, e.handle d event = .settled e' f ∧ e'.busy = false ∧ e'.Attends c True t) ∨
      ∃ e' k s, e.handle d event = .script e' k s ∧ { e' with busy := true }.Attends c True t) := by
  obtain ⟨s, queue, hs, hpaused, hqueue, hd⟩ := next?_eq_some hnext
  have hlisten : d.session.paused = false := by rw [hd]; exact hpaused
  have hconn : d.core.conn = 0 := by rw [hd]; exact h.conn_eq s hs
  have hrest : d.core.queue = queue := by rw [hd]; rfl
  have htaken : e.taken ++ queue.pending = pending := by
    unfold taken
    rw [hnext, ← h.queue_eq]
    exact EventQueue.taken_append hqueue
  have hgiven : e.given = e.givenBy d event := by
    unfold given
    rw [hnext]
    rfl
  have hback : (d.core.queue.append e.given).pending = queue.pending ++ e.given := by
    rw [hrest]
    rfl
  refine ⟨queue.pending ++ e.given, by rw [← List.append_assoc, htaken], ?_⟩
  rw [← hback]
  rcases handle_cases e event hlisten with ⟨hinterrupt, hhandle⟩ | ⟨-, d', hhandle, hcore⟩ |
    ⟨-, k, s', d', hhandle, hcore, hnone, -⟩
  · have hnone : e.given = [] := hgiven.trans (if_pos (.inl hinterrupt))
    have hk : ({ e.put d.startOver with pendingResize := none } : Engine).core? =
      some { d.core with outcome := .reading, paused := false } := congrArg some d.core_startOver
    have hwork := h.work hk hconn rfl fun _ _ => .inr trivial
    rw [hnone, EventQueue.append_nil]
    exact .inl ⟨_, none, hhandle, hfree, hwork⟩
  · have hk := (core?_put e d').trans (congrArg some hcore)
    have hwork := h.work hk hconn rfl fun _ _ => .inr trivial
    rw [hgiven]
    exact .inl ⟨_, _, hhandle, hwork.takeFinished hfree⟩
  · have hk : ({ e.put d' with busy := true } : Engine).core? = some { d.core with paused := true } :=
      congrArg some hcore
    have hwork := h.work hk hconn rfl fun _ _ => .inr trivial
    rw [hgiven, hnone, EventQueue.append_nil]
    exact .inr ⟨_, k, s', hhandle, hwork⟩

end Engine

end LineEditor
