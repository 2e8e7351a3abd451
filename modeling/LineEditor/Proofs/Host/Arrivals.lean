import LineEditor.Proofs.Host.Play
import LineEditor.Proofs.Host.Solo

/-!
Input that arrives in a world of one engine and one connection. It is decoded, delivered and queued, and
its handling is asked for; whatever does not depend on which input waits stays as it is meanwhile.

Main definitions: `World.Alone`, what holds of the engine, the connection and the journal of such a world,
and `World.IgnoresInput`, what does not depend on input that waits. Main statements: `alone_call`, input
arrives, and `alone_runTasks`, the task that waits is begun.
-/
namespace LineEditor

/-- Deliveries of input are all that waits. -/
def Connection.OnlyDelivers (c : Connection) : Prop :=
  ∀ t ∈ c.tasks ++ c.delayed, ∃ n, t = .deliver n

/-- Whether a job belongs to the reading of a line without a script. -/
def Job.isReading : Job → Prop
  | .tasks _ | .deliver _ | .schedule _ | .callback .. | .note _ => True
  | .call _ | .script .. | .background .. | .resume _ => False

theorem Job.isReading_ofFinished (f : Option Finished) : ∀ j ∈ Job.ofFinished f, j.isReading := by
  cases f with
  | none => exact List.forall_mem_nil _
  | some f => exact List.forall_mem_singleton.2 trivial

/-- Whether a call lets input arrive or its tasks run. -/
def Call.isInput : Call → Bool
  | .queue .. | .feed .. | .runTasks _ | .runDelayed _ | .endOfStream _ => true
  | _ => false

namespace World

/-- One engine and one connection, and `Q` holds of them and of the journal. -/
inductive Alone (Q : Engine → Connection → Journal → Prop) : World → Prop where
  | solo {e : Engine} {c : Connection} {j : Journal} (h : Q e c j) : Alone Q (.solo e c j)

/-- What does not depend on which input waits, of an engine that is free for more. -/
structure IgnoresInput (Q : Engine → Connection → Journal → Prop) : Prop where
  free : ∀ {e c j}, Q e c j → e.busy = false
  tasks : ∀ {e c j}, Q e c j → c.OnlyDelivers
  conn_eq : ∀ {e c j}, Q e c j → ∀ s, e.session = some s → s.conn = 0
  engine : ∀ {e c j} queue scheduled, Q e c j → Q { e with queue, scheduled } c j
  connection : ∀ {e c j} decoder tasks delayed,
    (∀ t ∈ tasks ++ delayed, t ∈ c.tasks ++ c.delayed ∨ t = .deliver 0) →
      Q e c j → Q e { c with decoder, tasks, delayed } j
  journal : ∀ {e c j} notes log, Q e c j → Q e c { j with notes, log }

variable {Q R : Engine → Connection → Journal → Prop} {w : World} {e : Engine} {c : Connection}
  {j : Journal}

theorem Alone.mono (h : w.Alone Q) (hQ : ∀ e c j, Q e c j → R e c j) : w.Alone R := by
  obtain ⟨h⟩ := h
  exact .solo (hQ _ _ _ h)

theorem Alone.eq_solo (h : w.Alone Q) : ∃ e c, w = .solo e c w.journal ∧ Q e c w.journal := by
  obtain ⟨h⟩ := h
  exact ⟨_, _, rfl, h⟩

theorem alone_note (hQ : IgnoresInput Q) (h : w.Alone Q) (n : Note) : (w.note n).Alone Q := by
  obtain ⟨h⟩ := h
  exact .solo (hQ.journal _ _ h)

theorem alone_scheduleDelivery (hQ : IgnoresInput Q) (h : w.Alone Q) (n : Nat) :
    (w.scheduleDelivery n).Alone Q := by
  obtain @⟨e, c, j, h⟩ := h
  cases n with
  | succ n => exact .solo h
  | zero =>
    rw [scheduleDelivery_solo _ _ _ (hQ.conn_eq h)]
    split
    · exact .solo h
    · refine .solo (hQ.connection c.decoder (c.tasks ++ [Task.deliver 0]) c.delayed (fun t ht => ?_)
        (hQ.engine e.queue true h))
      simp only [List.mem_append, List.mem_singleton] at ht ⊢
      rcases ht with (ht | ht) | ht
      · exact .inl (.inl ht)
      · exact .inr ht
      · exact .inl (.inr ht)

theorem alone_receiveInput (hQ : IgnoresInput Q) (h : w.Alone Q) (n : Nat) (t : Text) :
    (w.receiveInput n t).Alone Q := by
  obtain @⟨e, c, j, h⟩ := h
  cases n with
  | succ n => exact .solo h
  | zero =>
    unfold World.receiveInput
    rw [engine?_solo]
    dsimp only
    rw [if_neg (by rw [hQ.free h]; decide), setEngine_solo]
    exact alone_scheduleDelivery hQ (.solo (hQ.engine _ e.scheduled h)) 0

theorem alone_deliverAll (hQ : IgnoresInput Q) (h : w.Alone Q) (xs : List (Owner × Delivery)) :
    (xs.foldl World.deliver w).Alone Q := by
  induction xs generalizing w with
  | nil => exact h
  | cons x xs ih =>
    refine ih ?_
    rcases x with ⟨n | n, t | ⟨s, c⟩⟩
    · exact alone_receiveInput hQ h n t
    · exact h
    · exact alone_note hQ h _
    · exact alone_note hQ h _

theorem alone_feed (hQ : IgnoresInput Q) (h : w.Alone Q) (conn : Nat) (bytes : List UInt8) :
    (w.feed conn bytes).Alone Q := by
  obtain @⟨e, c, j, h⟩ := h
  cases conn with
  | succ n => exact .solo h
  | zero =>
    exact alone_deliverAll hQ (.solo (hQ.connection _ c.tasks c.delayed (fun _ => .inl) h)) _

theorem alone_endOfStream (hQ : IgnoresInput Q) (h : w.Alone Q) (conn : Nat) :
    (w.endOfStream conn).Alone Q := by
  obtain @⟨e, c, j, h⟩ := h
  cases conn with
  | succ n => exact .solo h
  | zero =>
    exact alone_deliverAll hQ (.solo (hQ.connection _ c.tasks c.delayed (fun _ => .inl) h)) _

theorem alone_releaseDelayed (hQ : IgnoresInput Q) (h : w.Alone Q) (conn : Nat) :
    (w.modifyConn conn (·.releaseDelayed)).Alone Q := by
  obtain @⟨e, c, j, h⟩ := h
  cases conn with
  | succ n =>
    rw [modifyConn_solo_succ]
    exact .solo h
  | zero =>
    refine .solo (hQ.connection c.decoder (c.tasks ++ c.delayed) [] (fun t ht => .inl ?_) h)
    rwa [List.append_nil] at ht

theorem alone_queueInput (hQ : IgnoresInput Q) (h : w.Alone Q) (hw : w.engine? 0 = some e) (t : Text) :
    (w.queueInput 0 e t).Alone Q := by
  obtain @⟨e', c, j, h⟩ := h
  cases Option.some.inj hw
  have hqueued : (solo { e with queue := e.queue.append t } c j).Alone Q :=
    .solo (hQ.engine _ e.scheduled h)
  unfold World.queueInput
  dsimp only
  rw [setEngine_solo]
  split
  · exact alone_scheduleDelivery hQ hqueued 0
  · exact hqueued

theorem alone_call (hQ : IgnoresInput Q) (h : w.Alone Q) {k : Call} (hk : k.isInput = true) :
    (w.call k).world.Alone Q ∧ ∀ j ∈ (w.call k).jobs, j.isReading := by
  cases k
  case queue n t =>
    obtain @⟨e, c, j, h⟩ := h
    dsimp only [World.call]
    cases n with
    | succ n => exact ⟨.solo h, List.forall_mem_nil _⟩
    | zero =>
      rw [callEngine_solo _ _ _ (hQ.free h)]
      exact ⟨alone_queueInput hQ (.solo h) (engine?_solo ..) t, List.forall_mem_nil _⟩
  case feed conn bytes => exact ⟨alone_feed hQ h conn bytes, List.forall_mem_nil _⟩
  case runTasks conn => exact ⟨h, List.forall_mem_singleton.2 trivial⟩
  case runDelayed conn => exact ⟨alone_releaseDelayed hQ h conn, List.forall_mem_singleton.2 trivial⟩
  case endOfStream conn => exact ⟨alone_endOfStream hQ h conn, List.forall_mem_singleton.2 trivial⟩
  all_goals exact absurd hk Bool.false_ne_true

/-- The delivery that waits is begun. -/
theorem alone_runTasks (hQ : IgnoresInput Q) {m : Machine} (h : m.world.Alone Q) (conn : Nat) :
    ∃ w jobs, m.runTasks conn = m.goOn w jobs ∧ w.Alone Q ∧ ∀ j ∈ jobs, j.isReading := by
  obtain ⟨e, c, hw, h⟩ := h.eq_solo
  have hstays : ∃ w jobs, m = m.goOn w jobs ∧ w.Alone Q ∧ ∀ j ∈ jobs, j.isReading :=
    ⟨m.world, [], rfl, hw ▸ .solo h, List.forall_mem_nil _⟩
  unfold Machine.runTasks
  rw [hw]
  cases conn with
  | succ n => exact hstays
  | zero =>
    rw [conns_solo, Option.bind_some]
    unfold Connection.popTask
    have htasks := hQ.tasks h
    cases hwaiting : c.tasks with
    | nil => exact hstays
    | cons t rest =>
      rw [Connection.OnlyDelivers, hwaiting] at htasks
      obtain ⟨n, rfl⟩ := htasks t (List.mem_append_left _ (List.mem_cons_self ..))
      have hrest : Q e { c with tasks := rest } m.world.journal := by
        refine hQ.connection c.decoder rest c.delayed (fun t ht => .inl ?_) h
        rw [hwaiting]
        exact List.mem_cons_of_mem _ ht
      dsimp only
      rw [modifyConn_solo]
      unfold Machine.runTask
      dsimp only [Machine.goOn]
      cases n with
      | succ n => exact ⟨_, [.tasks 0], rfl, .solo hrest, List.forall_mem_singleton.2 trivial⟩
      | zero =>
        rw [engine?_solo]
        dsimp only
        rw [if_neg (by rw [hQ.free h]; decide), setEngine_solo]
        refine ⟨_, [.deliver 0, .tasks 0], rfl, .solo (hQ.engine e.queue false hrest), ?_⟩
        exact List.forall_mem_cons.2 ⟨trivial, List.forall_mem_singleton.2 trivial⟩

end World

end LineEditor
