import LineEditor.Proofs.Host.Accounts
import LineEditor.Proofs.Host.Play

/-!
No input and no wakeup is lost. Between tasks a delivery of input waits exactly if one was asked for,
and input that a session could take was asked for; what is consumed and what is still queued is what
was given, in order.

Main definitions: `Machine.Attends`, the account of a machine, `Move.given` and `Move.consumed`,
what a move gives and takes, and `Machine.Allows`, what a host may do when. Main statements:
`Machine.Attends.move`, `Machine.attends_play` and `Machine.delivered_of_play`.
-/
namespace LineEditor

/-! ### What is given and taken -/

/-- What a call gives to the handler of the engine or queues for it. -/
def Call.given (w : World) : Call → Text
  | .queue n t => if n = 0 then t else []
  | .feed conn bytes =>
    Connection.given ((w.conns[conn]?.map fun c => (c.receive bytes).2).getD [])
  | .endOfStream conn => Connection.given ((w.conns[conn]?.map fun c => c.endOfStream.2).getD [])
  | _ => []

/-- What a job gives to the handler of the engine or queues for it. -/
def Job.given (w : World) : Job → Text
  | .call c => c.given w
  | .deliver 0 => ((w.engine? 0).map Engine.given).getD []
  | .script 0 _ _ (s :: _) => s.given
  | _ => []

/-- The code points that a job takes out of the queue. -/
def Job.consumed (w : World) : Job → Text
  | .deliver 0 => ((w.engine? 0).map Engine.taken).getD []
  | _ => []

namespace Move

/-- What a move gives to the handler of the engine or queues for it. -/
def given (m : Machine) : Move → Text
  | .call c => c.given m.world
  | .step => (m.jobs.head?.map (Job.given m.world)).getD []

/-- The code points that a move takes out of the queue. -/
def consumed (m : Machine) : Move → Text
  | .call _ => []
  | .step => (m.jobs.head?.map (Job.consumed m.world)).getD []

end Move

/-! ### What a host may do -/

/-- Whether calls on a session neither pause nor resume it. -/
def SessionCall.steady (calls : List SessionCall) : Bool :=
  calls.all fun k => k ≠ .pause ∧ k ≠ .resume

theorem SessionCall.of_steady {calls : List SessionCall} (h : SessionCall.steady calls = true) :
    ∀ k ∈ calls, k ≠ .pause ∧ k ≠ .resume := by
  simpa [SessionCall.steady] using h

/-- Whether a call keeps the engine and changes no pause behind its back. -/
def Call.steady : Call → Bool
  | .session _ calls => SessionCall.steady calls
  | .drop n => n ≠ 0
  | _ => true

/-- Whether a step of a script works at the desk or leaves work for later, and runs no task itself. -/
def ScriptStep.steady : ScriptStep → Bool
  | .feed _ | .runTasks | .resize _ => false
  | _ => true

/-- Whether a job is one that a steady host may have to do. -/
def Job.steady : Job → Bool
  | .call c => c.steady
  | .background _ calls => SessionCall.steady calls
  | .script _ _ _ (s :: _) => s.steady
  | _ => true

namespace Machine

/-- Calls are made between tasks, and jobs are done at any time. -/
def Allows (m : Machine) : Move → Prop
  | .call c => m.BetweenTasks ∧ c.steady = true
  | .step => ∀ j ∈ m.jobs.head?, j.steady = true

instance (m : Machine) : (x : Move) → Decidable (m.Allows x)
  | .call c => inferInstanceAs (Decidable (m.BetweenTasks ∧ c.steady = true))
  | .step => inferInstanceAs (Decidable (∀ j ∈ m.jobs.head?, j.steady = true))

end Machine

/-! ### Calls -/

/-- Whether a job delivers input or asks for that. -/
def Job.delivers : Job → Prop
  | .deliver 0 | .schedule 0 => True
  | _ => False

/-- Whether a job is the script of a completion handler. -/
def Job.isScript : Job → Prop
  | .script .. => True
  | _ => False

/-- The account after a call, with the jobs that it leads to. -/
structure Called.Attends (r : Called) (later : Prop) (pending : Text) : Prop where
  world : r.world.Attends false (later ∨ ∃ j ∈ r.jobs, j.delivers) pending
  jobs : ∀ j ∈ r.jobs, ¬ j.isScript

theorem Called.Attends.givesNone {r : Called} {later : Prop} {pending : Text}
    (h : r.Attends later pending) : r.Attends later (pending ++ []) :=
  (List.append_nil pending).symm ▸ h

theorem Job.not_isScript_ofFinished (f : Option Finished) :
    ∀ j ∈ Job.ofFinished f, ¬ j.isScript := by
  cases f with
  | none => exact List.forall_mem_nil _
  | some f => exact List.forall_mem_singleton.2 id

namespace World.Attends

variable {later : Prop} {pending : Text} {w : World} {e : Engine} {c : Connection} {j : Journal}

/-- A call that leads to no job. -/
theorem called (h : w.Attends false later pending) (reply : Reply) :
    Called.Attends { world := w, reply } later pending :=
  ⟨h.mono .inl, List.forall_mem_nil _⟩

/-- A call after which tasks are run. -/
theorem calledTasks (h : w.Attends false later pending) (conn : Nat) (reply : Reply) :
    Called.Attends { world := w, jobs := [.tasks conn], reply } later pending :=
  ⟨h.mono .inl, List.forall_mem_singleton.2 id⟩

/-- A call of an engine that is there and free. -/
theorem callEngine (h : w.Attends false later pending) (n : Nat) {f : Engine → Called}
    {given : Text} (hgiven : n ≠ 0 → given = [])
    (hf : ∀ e c j, n = 0 → w = .solo e c j → e.busy = false → e.Attends c later pending →
      (f e).Attends later (pending ++ given)) :
    (w.callEngine n f).Attends later (pending ++ given) := by
  obtain ⟨e, c, j, hbusy, h⟩ := h
  cases n with
  | zero =>
    rw [callEngine_solo _ _ _ hbusy]
    exact hf e c j rfl rfl hbusy h
  | succ n =>
    rw [hgiven (Nat.succ_ne_zero n)]
    exact ((World.Attends.solo e c j hbusy h).called _).givesNone

end World.Attends

namespace Engine.Attends

variable {later : Prop} {pending : Text} {e e' : Engine} {c : Connection} {j : Journal}

/-- Changes of the engine that concern neither its queue nor its session. -/
theorem setEngine {t : Engine} (h : e.Attends c later pending) (hfree : t.busy = false)
    (hsession : t.session = e.session) (hqueue : t.queue = e.queue)
    (hscheduled : t.scheduled = e.scheduled) (reply : Reply) :
    Called.Attends { world := .solo t c j, reply } later pending := by
  refine (World.Attends.solo t c j hfree ⟨?_, ?_, ?_, ?_, h.delayed, ?_⟩).called reply
  · rw [hsession]
    exact h.conn_eq
  · rw [hfree]
    exact nofun
  · rw [hqueue]
    exact h.queue_eq
  · rw [hscheduled]
    exact h.count_eq
  · have hcan : t.canDeliver = e.canDeliver := by
      unfold Engine.canDeliver Engine.isListening
      rw [hqueue, hsession]
    rw [hcan, hscheduled]
    exact h.waits

/-- A session that ends is put back with its handlers, and its callback is called. -/
theorem finish (jobs : List Job) (h : e'.Attends c (later ∨ ∃ j ∈ jobs, j.delivers) pending)
    (hfree : e'.busy = false) (hjobs : ∀ j ∈ jobs, ¬ j.isScript) (reply : Reply) :
    Called.Attends
      { world := ((World.solo e c j).put 0 0 e'.takeFinished.1).close e'.takeFinished.2
        jobs := Job.ofFinished e'.takeFinished.2 ++ jobs
        reply } later pending := by
  obtain ⟨hfree', h'⟩ := h.takeFinished hfree
  refine ⟨?_, List.forall_mem_append.2 ⟨Job.not_isScript_ofFinished _, hjobs⟩⟩
  have hput := h'.put (e := e) (j := j) e'.takeFinished.2
  rw [hfree'] at hput
  refine hput.mono fun hlater => ?_
  rcases hlater with hlater | ⟨j', hj', hdelivers⟩
  · exact .inl hlater
  · exact .inr ⟨j', List.mem_append_right _ hj', hdelivers⟩

theorem callResume (h : e.Attends c later pending) (hfree : e.busy = false) :
    ((World.solo e c j).callResume 0 e).Attends later pending := by
  have hsame : (World.solo e c j).Attends false later pending := .solo e c j hfree h
  unfold World.callResume
  rw [h.conn]
  cases hk : e.core? with
  | none =>
    rw [Engine.resume_eq_error hk]
    exact hsame.called _
  | some k =>
    rcases Engine.resume_cases hk ((World.solo e c j).size 0).cols with
      ⟨-, herror⟩ | ⟨-, e', hok, hk', hscheduled, hbusy⟩
    · rw [herror]
      exact hsame.called _
    · rw [hok]
      have hasks : later ∨ ∃ j ∈ [Job.schedule 0], j.delivers :=
        .inr ⟨_, List.mem_singleton_self _, trivial⟩
      have hconn := h.core_conn hk
      have hwork := (h.mono fun _ => hasks).work hk' hconn hscheduled fun _ _ => .inr hasks
      rw [h.core_queue hk] at hwork
      exact finish _ hwork (hbusy.trans hfree) (List.forall_mem_singleton.2 id) .done

theorem callSession (h : e.Attends c later pending) (hfree : e.busy = false)
    {calls : List SessionCall} (hcalls : SessionCall.steady calls = true) :
    ((World.solo e c j).callSession 0 e calls).Attends later pending := by
  unfold World.callSession
  rw [h.conn]
  cases hk : e.core? with
  | none =>
    rw [Engine.answers_eq_error hk]
    exact (World.Attends.solo e c j hfree h).called _
  | some k =>
    obtain ⟨e', replies, hk', hscheduled, hbusy, hok⟩ :=
      Engine.answers_cases hk ((World.solo e c j).size 0) calls
    rw [Desk.foldl_holding (SessionCall.of_steady hcalls)] at hk' hok
    have hconn := h.core_conn hk
    have hwork := h.work hk' hconn hscheduled fun hqueue hpaused => .inl (by
      rw [Engine.canDeliver_of_core? hk]
      exact Bool.and_eq_true_iff.2 ⟨hqueue, by simpa using hpaused⟩)
    rw [h.core_queue hk] at hwork
    have hfree' : e'.busy = false := hbusy.trans hfree
    rw [hok]
    cases hpaused : k.paused with
    | true =>
      have hput := hwork.put (e := e) (j := j) none
      rw [hfree'] at hput
      exact hput.called _
    | false =>
      have hfinish := finish (e := e) (j := j) [] (hwork.mono .inl) hfree' (List.forall_mem_nil _)
        (.replies replies)
      rw [List.append_nil] at hfinish
      exact hfinish

theorem readline (h : e.Attends c later pending) (hfree : e.busy = false) {r : Request}
    (hengine : r.engine = 0) (callback : Nat) :
    (match (World.solo e c j).readline r callback with
      | .ok w => ({ world := w, reply := .done } : Called)
      | .error err => { world := .solo e c j, reply := .engineError err }).Attends later pending := by
  have hsame : (World.solo e c j).Attends false later pending := .solo e c j hfree h
  by_cases hconn : r.conn = 0
  · cases hs : e.session with
    | some s =>
      rw [World.readline_solo_of_session _ _ _ hengine hconn hfree (by rw [hs]; rfl)]
      exact hsame.called _
    | none =>
      have hasks : later → e.queue.hasNext = true ∨ later := .inr
      have hwork := (h.mono hasks).work (Engine.core?_start e r callback c.size.cols c.handlers)
        hconn rfl fun hqueue _ => .inr (.inl hqueue)
      have hreading : (World.reading e c j r callback).Attends false
          (e.queue.hasNext = true ∨ later) pending := by
        have hinstalled : (e.start r callback c.size.cols c.handlers).Attends
            { c with handlers := World.sessionHandlers 0 } (e.queue.hasNext = true ∨ later) _ :=
          hwork.setConn rfl fun t ht => .inl ht
        have hput := hinstalled.put (e := e) (j := j) none
        have hbusy : (e.start r callback c.size.cols c.handlers).busy = false := hfree
        rw [hbusy, World.put_solo] at hput
        exact h.queue_eq ▸ hput
      rw [World.readline_solo _ _ _ hengine hconn hfree hs]
      refine World.Attends.called ?_ _
      split
      · exact hreading.scheduleDelivery.mono False.elim
      · rename_i hempty
        exact hreading.mono fun hlater => hlater.elim (absurd · hempty) id
  · rw [World.readline_solo_of_conn _ _ _ hconn]
    exact hsame.called _

end Engine.Attends

/-- A call of the host keeps the account, with the jobs that it leads to. -/
theorem World.Attends.call {later : Prop} {pending : Text} {w : World}
    (h : w.Attends false later pending) {c : Call} (hc : c.steady = true) :
    (w.call c).Attends later (pending ++ c.given w) := by
  cases c with
  | readline r callback =>
    refine h.callEngine r.engine (fun _ => rfl) fun e c j hengine hw hfree he => ?_
    rw [hw]
    exact (he.readline hfree hengine callback).givesNone
  | queue n t =>
    refine h.callEngine n (fun hn => if_neg hn) fun e c j hn hw _ _ => ?_
    have ht : Call.given w (.queue n t) = t := if_pos hn
    rw [ht, hn]
    exact (h.queueInput (hw ▸ World.engine?_solo e c j) t).called _
  | resume n =>
    refine h.callEngine n (fun _ => rfl) fun e c j hn hw hfree he => ?_
    rw [hw, hn]
    exact (he.callResume hfree).givesNone
  | session n calls =>
    refine h.callEngine n (fun _ => rfl) fun e c j hn hw hfree he => ?_
    rw [hw, hn]
    exact (he.callSession hfree hc).givesNone
  | history n calls =>
    refine h.callEngine n (fun _ => rfl) fun e c j hn hw hfree he => ?_
    rw [hw, hn]
    have hset := he.setEngine (j := j) (t := { e with
      history := (collectEach HistoryCall.run e.history calls).1 }) hfree rfl rfl rfl
    exact (hset _).givesNone
  | bind n event k =>
    refine h.callEngine n (fun _ => rfl) fun e c j hn hw hfree he => ?_
    rw [hw, hn]
    have hset := he.setEngine (j := j) (t := { e with keymap := e.keymap.bind event k }) hfree rfl
      rfl rfl
    exact (hset _).givesNone
  | style n => exact h.callEngine n (fun _ => rfl) fun _ _ _ _ _ _ _ => (h.called _).givesNone
  | drop n =>
    obtain ⟨n, rfl⟩ := Nat.exists_eq_succ_of_ne_zero (of_decide_eq_true hc)
    obtain ⟨e, c, j, hfree, h⟩ := h
    exact ((World.Attends.solo e c j hfree h).called _).givesNone
  | feed conn bytes => exact (h.feed conn bytes).called _
  | runTasks conn => exact (h.calledTasks conn _).givesNone
  | runDelayed conn => exact ((h.releaseDelayed conn).calledTasks conn _).givesNone
  | endOfStream conn => exact (h.endOfStream conn).calledTasks conn _
  | resize conn s => exact ((h.resize conn s).calledTasks conn _).givesNone
  | setHandlers conn f => exact ((h.setHandlers conn f).called _).givesNone

/-! ### Jobs -/

/-- The account of a machine. The script of a completion handler is on top while it runs, and the
delivery that led to it goes on behind it. -/
inductive Machine.Attends (pending : Text) : Machine → Prop where
  | free {w : World} {jobs : List Job} (h : w.Attends false (∃ j ∈ jobs, j.delivers) pending)
      (hjobs : ∀ j ∈ jobs, ¬ j.isScript) : Attends pending ⟨w, jobs⟩
  | busy {w : World} {jobs : List Job} (k : Completion) (s : ScriptedHandler)
      (rest : List ScriptStep) (h : w.Attends true True pending) (hjobs : ∀ j ∈ jobs, ¬ j.isScript) :
      Attends pending ⟨w, .script 0 k s rest :: .deliver 0 :: jobs⟩

namespace Machine

variable {pending : Text} {w : World} {jobs new : List Job} {host : Host}

theorem attends_append
    (h : w.Attends false ((∃ j ∈ jobs, j.delivers) ∨ ∃ j ∈ new, j.delivers) pending)
    (hnew : ∀ j ∈ new, ¬ j.isScript) (hjobs : ∀ j ∈ jobs, ¬ j.isScript) :
    Attends pending ⟨w, new ++ jobs⟩ := by
  refine .free (h.mono ?_) (List.forall_mem_append.2 ⟨hnew, hjobs⟩)
  rintro (⟨j, hj, hdelivers⟩ | ⟨j, hj, hdelivers⟩)
  · exact ⟨j, List.mem_append_right _ hj, hdelivers⟩
  · exact ⟨j, List.mem_append_left _ hj, hdelivers⟩

/-- What a call leads to is done before what was left to do. -/
theorem attends_called {r : Called} (h : r.Attends (∃ j ∈ jobs, j.delivers) pending)
    (hjobs : ∀ j ∈ jobs, ¬ j.isScript) : Attends pending ⟨r.world, r.jobs ++ jobs⟩ :=
  attends_append h.world h.jobs hjobs

theorem attends_callBack (h : w.Attends false (∃ j ∈ jobs, j.delivers) pending)
    (hjobs : ∀ j ∈ jobs, ¬ j.isScript) {c : Call} (hc : c.steady = true) :
    Attends (pending ++ c.given w) (callBack ⟨w, jobs⟩ c) := by
  have hcalled := h.call hc
  unfold callBack
  dsimp only
  split
  · exact attends_append (hcalled.world.note _) hcalled.jobs hjobs
  · exact attends_called hcalled hjobs

theorem attends_callLater (h : w.Attends false (∃ j ∈ jobs, j.delivers) pending)
    (hjobs : ∀ j ∈ jobs, ¬ j.isScript) {c : Call} (hc : c.steady = true) (n : Reply → Note) :
    Attends (pending ++ c.given w) (callLater ⟨w, jobs⟩ c n) := by
  have hcalled := h.call hc
  refine attends_append (hcalled.world.mono (Or.imp_right ?_)) ?_ hjobs
  · rintro ⟨j, hj, hdelivers⟩
    exact ⟨j, List.mem_append_left _ hj, hdelivers⟩
  · exact List.forall_mem_append.2 ⟨hcalled.jobs, List.forall_mem_singleton.2 id⟩

/-- A task that waited is begun: a delivery is asked for no longer. -/
theorem attends_runTask {e : Engine} {c : Connection} {j : Journal} {rest : List Task}
    (t : Task) (hfree : e.busy = false)
    (h : e.Attends { c with tasks := t :: rest } (∃ j ∈ jobs, j.delivers) pending)
    (hjobs : ∀ j ∈ jobs, ¬ j.isScript) :
    Attends pending (runTask ⟨.solo e { c with tasks := rest } j, jobs⟩ t) := by
  have hother : t ≠ .deliver 0 →
      (World.solo e { c with tasks := rest } j).Attends false (∃ j ∈ jobs, j.delivers) pending := by
    intro ht
    refine .solo e _ j hfree (h.setConn ?_ fun t ht => .inl ht)
    exact (List.count_cons_of_ne ht).symm
  unfold runTask
  cases t with
  | deliver n =>
    cases n with
    | succ n => exact .free (hother (by simp)) hjobs
    | zero =>
      dsimp only
      rw [World.engine?_solo]
      dsimp only
      rw [if_neg (by rw [hfree]; decide), World.setEngine_solo]
      have hcount := h.count_eq
      simp only [List.count_cons_self] at hcount
      have hbegun : ({ e with scheduled := false } : Engine).Attends { c with tasks := rest } True
          pending := { h with
        count_eq := by
          split at hcount
          · exact Nat.succ.inj hcount
          · cases hcount
        waits := fun _ => .inr trivial }
      refine attends_append ?_ (List.forall_mem_singleton.2 id) hjobs
      refine (World.Attends.solo { e with scheduled := false } _ j hfree hbegun).mono fun _ => ?_
      exact .inr ⟨_, List.mem_singleton_self _, trivial⟩
  | resize n s => exact .free ((hother (by simp)).receiveSize n s) hjobs
  | background n calls resume =>
    refine attends_append ((hother (by simp)).mono .inl) ?_ hjobs
    cases calls <;> cases resume <;> simp [Job.isScript]

theorem attends_runTasks (h : w.Attends false (∃ j ∈ jobs, j.delivers) pending)
    (hjobs : ∀ j ∈ jobs, ¬ j.isScript) (conn : Nat) : Attends pending (runTasks ⟨w, jobs⟩ conn) := by
  have hsame := Attends.free h hjobs
  obtain ⟨e, c, j, hfree, h⟩ := h
  unfold runTasks
  cases conn with
  | succ n => exact hsame
  | zero =>
    dsimp only
    rw [World.conns_solo, Option.bind_some]
    unfold Connection.popTask
    cases htasks : c.tasks with
    | nil => exact hsame
    | cons t rest =>
      dsimp only
      rw [World.modifyConn_solo]
      refine attends_runTask t hfree (c := c) ?_ ?_
      · refine (h.mono ?_).setConn (by rw [htasks]) fun t ht => .inl ht
        rintro ⟨j, hj, hdelivers⟩
        exact ⟨j, List.mem_cons_of_mem _ hj, hdelivers⟩
      · exact List.forall_mem_cons.2 ⟨id, hjobs⟩

/-- An event is handled, and the rest of the queue after it; nothing is left to handle if there is no
event. -/
theorem attends_deliver (h : w.Attends false True pending) (hjobs : ∀ j ∈ jobs, ¬ j.isScript) :
    ∃ t, pending ++ Job.given w (.deliver 0) = Job.consumed w (.deliver 0) ++ t ∧
      Attends t (deliver ⟨w, jobs⟩ 0) := by
  obtain ⟨e, c, j, hfree, h⟩ := h
  have hgiven : Job.given (.solo e c j) (.deliver 0) = e.given := rfl
  have hconsumed : Job.consumed (.solo e c j) (.deliver 0) = e.taken := rfl
  rw [hgiven, hconsumed]
  unfold deliver
  dsimp only
  rw [World.engine?_solo]
  dsimp only
  rw [if_neg (by rw [hfree]; decide), Engine.step?_eq, h.conn]
  cases hnext : e.next? with
  | none =>
    have hnone : e.given = [] := by
      unfold Engine.given
      rw [hnext]
      rfl
    have hkept : e.taken = [] := by
      unfold Engine.taken
      rw [hnext]
      rfl
    rw [hnone, hkept, List.append_nil]
    refine ⟨pending, rfl, .free (.solo e c j hfree { h with waits := fun hcan => ?_ }) hjobs⟩
    rw [Engine.next?_eq_none hnext] at hcan
    cases hcan
  | some x =>
    obtain ⟨t, heq, hhandled⟩ := h.handle hfree hnext
    refine ⟨t, heq, ?_⟩
    rw [Option.map_some]
    rcases hhandled with ⟨e', f, hhandle, hfree', h'⟩ | ⟨e', k, s, hhandle, h'⟩
    · rw [hhandle]
      have hput := h'.put (e := e) (j := j) f
      rw [hfree'] at hput
      refine attends_append (hput.mono fun _ => .inr ⟨.deliver 0, by simp, trivial⟩) ?_ hjobs
      exact List.forall_mem_append.2
        ⟨Job.not_isScript_ofFinished f, List.forall_mem_singleton.2 id⟩
    · rw [hhandle]
      exact .busy k _ _ ((h'.put (e := e) (j := j) none).note _) hjobs

/-- The end of a script: its delivery goes on. -/
theorem attends_endScript (h : w.Attends true True pending) (hjobs : ∀ j ∈ jobs, ¬ j.isScript)
    (k : Completion) (s : ScriptedHandler) :
    Attends pending (endScript ⟨w, .deliver 0 :: jobs⟩ 0 k s) := by
  obtain ⟨e, c, j, hbusy, h⟩ := h
  obtain ⟨d, hd, hk⟩ := h.desk hbusy
  have hconn := h.core_conn hk
  have hwork := h.work (e.core?_afterScript d k s) hconn rfl fun _ _ => .inr trivial
  have hqueue := h.core_queue hk
  have hcalled := Engine.Attends.finish (e := e) (j := j) [] (hwork.mono .inl) rfl
    (List.forall_mem_nil _) .nothing
  rw [endScript_solo hd h.conn]
  refine attends_append ?_ (Job.not_isScript_ofFinished _) (List.forall_mem_cons.2 ⟨id, hjobs⟩)
  rw [← hqueue]
  exact hcalled.world.mono fun _ => .inl ⟨.deliver 0, List.mem_cons_self .., trivial⟩

/-- A step of a script works at the desk, or leaves work for later. -/
theorem attends_scriptStep (h : w.Attends true True pending) (hjobs : ∀ j ∈ jobs, ¬ j.isScript)
    (k : Completion) (s : ScriptedHandler) {step : ScriptStep} (hstep : step.steady = true)
    (rest : List ScriptStep) :
    Attends (pending ++ step.given) (scriptStep ⟨w, .deliver 0 :: jobs⟩ 0 k s step rest) := by
  obtain ⟨e, c, j, hbusy, h⟩ := h
  obtain ⟨d, hd, hk⟩ := h.desk hbusy
  have hsame : (World.solo e c j).Attends true True (pending ++ []) := by
    rw [List.append_nil]
    exact .solo e c j hbusy h
  have hdesk : step.AtDesk → Attends (pending ++ step.given)
      (scriptStep ⟨.solo e c j, .deliver 0 :: jobs⟩ 0 k s step rest) := by
    intro hat
    obtain ⟨paused, hcore⟩ := d.core_scriptStep c.size step
    have hconn := h.core_conn hk
    have hwork := h.work (t := e.put (d.scriptStep c.size step)) (congrArg some hcore) hconn rfl
      fun _ _ => .inr trivial
    have hput := hwork.put (e := e) (j := j) none
    have hqueue : (d.core.queue.append step.given).pending = pending ++ step.given :=
      congrArg (· ++ step.given) (h.core_queue hk)
    rw [scriptStep_solo hd h.conn k s hat rest, ← hqueue]
    exact .busy k s rest (hbusy ▸ hput) hjobs
  cases step
  case setAsk ask =>
    unfold scriptStep
    dsimp only
    rw [World.engine?_solo]
    exact .busy k _ rest hsame hjobs
  case schedule calls resume =>
    unfold scriptStep
    dsimp only
    rw [World.engine?_solo]
    dsimp only
    rw [h.conn, World.modifyConn_solo]
    refine .busy k s rest (.solo e _ j hbusy ?_) hjobs
    change e.Attends _ True (pending ++ [])
    rw [List.append_nil]
    cases s.delayed with
    | true =>
      refine h.setConn rfl fun t ht => ?_
      rcases List.mem_append.1 ht with ht | ht
      · exact .inl ht
      · rw [List.mem_singleton.1 ht]
        exact .inr (by simp)
    | false =>
      refine h.setConn ?_ fun t ht => .inl ht
      exact (List.count_append ..).trans (congrArg _ (List.count_singleton ..))
  case feed t => exact absurd hstep Bool.false_ne_true
  case runTasks => exact absurd hstep Bool.false_ne_true
  case resize s => exact absurd hstep Bool.false_ne_true
  all_goals exact hdesk trivial

/-- The account with a job taken off that delivers nothing. -/
theorem attends_other {j : Job} (h : w.Attends false (∃ j' ∈ j :: jobs, j'.delivers) pending)
    (hj : ¬ j.delivers) : w.Attends false (∃ j' ∈ jobs, j'.delivers) pending := by
  refine h.mono ?_
  rintro ⟨j', hj', hdelivers⟩
  rcases List.mem_cons.1 hj' with rfl | hj'
  · exact absurd hdelivers hj
  · exact ⟨j', hj', hdelivers⟩

/-- Any job but a script keeps the account. -/
theorem attends_run {j : Job} (h : w.Attends false (∃ j' ∈ j :: jobs, j'.delivers) pending)
    (hscript : ¬ j.isScript) (hjobs : ∀ j ∈ jobs, ¬ j.isScript) (hj : j.steady = true) :
    ∃ t, pending ++ j.given w = j.consumed w ++ t ∧ Attends t (run host ⟨w, jobs⟩ j) := by
  have hnone : pending ++ [] = [] ++ pending := List.append_nil _
  cases j with
  | tasks conn => exact ⟨pending, hnone, attends_runTasks (attends_other h id) hjobs conn⟩
  | deliver n =>
    cases n with
    | zero => exact attends_deliver (h.mono fun _ => trivial) hjobs
    | succ n =>
      refine ⟨pending, hnone, ?_⟩
      obtain ⟨e, c, j, hfree, he⟩ := attends_other h id
      exact .free (.solo e c j hfree he) hjobs
  | schedule n =>
    refine ⟨pending, hnone, ?_⟩
    cases n with
    | zero => exact .free (h.scheduleDelivery.mono False.elim) hjobs
    | succ n =>
      obtain ⟨e, c, j, hfree, he⟩ := attends_other h id
      exact .free (.solo e c j hfree he) hjobs
  | callback n line =>
    refine ⟨pending, hnone, ?_⟩
    obtain ⟨e, c, j, hfree, he⟩ := attends_other h id
    refine attends_append ((World.Attends.solo e c _ hfree he).mono .inl) ?_ hjobs
    rw [List.forall_mem_map]
    exact fun _ _ => id
  | call c => exact ⟨_, rfl, attends_callBack (attends_other h id) hjobs hj⟩
  | script n k s rest => exact absurd trivial hscript
  | background n calls =>
    have hc : (Call.session n calls).steady = true := hj
    exact ⟨_, rfl, attends_callLater (attends_other h id) hjobs hc _⟩
  | resume n =>
    have hc : (Call.resume n).steady = true := rfl
    exact ⟨_, rfl, attends_callLater (attends_other h id) hjobs hc _⟩
  | note n => exact ⟨pending, hnone, .free ((attends_other h id).note n) hjobs⟩

variable {m : Machine}

/-- A move keeps the account: what is queued then, and what was consumed, is what was queued before
and what was given. -/
theorem Attends.move (host : Host) (h : m.Attends pending) (x : Move) (hx : m.Allows x) :
    ∃ t, pending ++ x.given m = x.consumed m ++ t ∧ (m.move host x).Attends t := by
  cases x with
  | call c =>
    obtain ⟨hbetween, hc⟩ := hx
    cases h with
    | free h hjobs => exact ⟨_, rfl, attends_called (h.call hc) hjobs⟩
    | busy k s rest h hjobs =>
      exact absurd (hbetween _ (List.mem_cons_self ..)) Bool.false_ne_true
  | step =>
    cases h with
    | @free w jobs h hjobs =>
      cases jobs with
      | nil => exact ⟨pending, List.append_nil _, .free h hjobs⟩
      | cons j jobs =>
        rw [List.forall_mem_cons] at hjobs
        exact attends_run h hjobs.1 hjobs.2 (hx j rfl)
    | busy k s rest h hjobs =>
      cases rest with
      | nil => exact ⟨pending, List.append_nil _, attends_endScript h hjobs k s⟩
      | cons step rest => exact ⟨_, rfl, attends_scriptStep h hjobs k s (hx _ rfl) rest⟩

/-- Along a run the account is kept. -/
theorem attends_play (moves : List Move) (h : m.Attends pending)
    (hadmits : m.Admits Allows host moves) :
    ∃ t, pending ++ record (fun m x => x.given m) host m moves =
        record (fun m x => x.consumed m) host m moves ++ t ∧ (m.play host moves).Attends t := by
  -- what is queued changes with every move, and so do the two records
  induction moves generalizing m pending with
  | nil => exact ⟨pending, List.append_nil _, h⟩
  | cons x moves ih =>
    obtain ⟨t, hmove, hnext⟩ := h.move host x hadmits.1
    obtain ⟨t', hrest, hlast⟩ := ih hnext hadmits.2
    refine ⟨t', ?_, hlast⟩
    rw [record_cons, record_cons, ← List.append_assoc, hmove, List.append_assoc, hrest,
      List.append_assoc]

end Machine

/-! ### Between tasks -/

/-- An engine between two lines that asked for nothing, and a connection where nothing waits. -/
structure Engine.Idle (e : Engine) (c : Connection) : Prop where
  session_eq : e.session = none
  free : e.busy = false
  scheduled_eq : e.scheduled = false
  tasks_eq : c.tasks = []
  delayed_eq : c.delayed = []

theorem Engine.Idle.attends {e : Engine} {c : Connection} (h : e.Idle c) (j : Journal) :
    Machine.Attends e.queue.pending ⟨.solo e c j, []⟩ := by
  refine .free (.solo e c j h.free ⟨?_, ?_, rfl, ?_, ?_, ?_⟩) (List.forall_mem_nil _)
  · intro s hs
    rw [h.session_eq] at hs
    cases hs
  · intro hbusy
    rw [h.free] at hbusy
    cases hbusy
  · rw [h.tasks_eq, h.scheduled_eq]
    rfl
  · rw [h.delayed_eq]
    exact List.not_mem_nil
  · intro hcan
    unfold Engine.canDeliver Engine.isListening at hcan
    rw [h.session_eq] at hcan
    simp at hcan

theorem Engine.taken_of_not_listening {e : Engine} (h : e.isListening = false) : e.taken = [] := by
  have hnone : e.next? = none := by
    unfold Engine.next?
    rw [if_neg (by rw [h]; decide)]
  unfold Engine.taken
  rw [hnone]
  rfl

/-- The deliveries that wait on a connection are those that its engine asked for, and while input is
queued that a session could take one is asked for. -/
structure Engine.Awaits (e : Engine) (c : Connection) : Prop where
  count_eq : c.tasks.count (.deliver 0) = if e.scheduled then 1 else 0
  scheduled_of : e.isListening = true → e.queue.hasNext = true → e.scheduled = true
  empty_of : c.tasks = [] → e.isListening = true → e.queue.pending = []

namespace Machine

variable {m : Machine} {pending : Text} {host : Host}

/-- Between tasks nothing is left to do that delivers. -/
theorem BetweenTasks.not_delivers (h : m.BetweenTasks) : ¬ ∃ j ∈ m.jobs, j.delivers := by
  rintro ⟨j, hj, hdelivers⟩
  have htasks := h j hj
  cases j
  case tasks conn => exact hdelivers
  all_goals exact absurd htasks Bool.false_ne_true

theorem Attends.awaits (h : m.Attends pending) (hbetween : m.BetweenTasks) {e : Engine}
    {c : Connection} (he : m.world.engine? 0 = some e) (hc : m.world.conns[0]? = some c) :
    e.Awaits c := by
  cases h with
  | busy k s rest h hjobs =>
    exact absurd (hbetween _ (List.mem_cons_self ..)) Bool.false_ne_true
  | @free w jobs h hjobs =>
    have hnone : ¬ ∃ j ∈ jobs, j.delivers := hbetween.not_delivers
    obtain ⟨e', c', j, hfree, h⟩ := h
    cases he
    cases hc
    have hscheduled : e.isListening = true → e.queue.hasNext = true → e.scheduled = true := by
      intro hlisten hqueue
      exact (h.waits (Bool.and_eq_true_iff.2 ⟨hqueue, hlisten⟩)).resolve_right hnone
    refine ⟨h.count_eq, hscheduled, fun htasks hlisten => ?_⟩
    have hcount := h.count_eq
    rw [htasks] at hcount
    cases hpending : e.queue.pending with
    | nil => rfl
    | cons x rest =>
      have hqueue : e.queue.hasNext = true := by
        unfold EventQueue.hasNext
        rw [hpending]
        rfl
      rw [if_pos (hscheduled hlisten hqueue)] at hcount
      cases hcount

/-- While no session listens a move takes nothing out of the queue. -/
theorem consumed_of_not_listening {e : Engine} (he : m.world.engine? 0 = some e)
    (hsilent : e.isListening = false) (x : Move) : x.consumed m = [] := by
  have htaken := Engine.taken_of_not_listening hsilent
  cases x with
  | call c => rfl
  | step =>
    change (m.jobs.head?.map (Job.consumed m.world)).getD [] = []
    cases m.jobs.head? with
    | none => rfl
    | some j =>
      rw [Option.map_some, Option.getD_some]
      unfold Job.consumed
      split
      · rw [he]
        exact htaken
      · rfl

theorem Attends.pending_eq (h : m.Attends pending) :
    ∃ e c, m.world.engine? 0 = some e ∧ m.world.conns[0]? = some c ∧ e.queue.pending = pending := by
  cases h with
  | free h hjobs =>
    obtain ⟨e, c, j, -, h⟩ := h
    exact ⟨e, c, rfl, rfl, h.queue_eq⟩
  | busy k s rest h hjobs =>
    obtain ⟨e, c, j, -, h⟩ := h
    exact ⟨e, c, rfl, rfl, h.queue_eq⟩

/-- No input and no wakeup is lost: what was consumed along a run and what is queued then is what was
queued before and what was given, in order; between tasks a delivery waits exactly if one was asked
for, and one was if a session could take anything; and while no session listens a move adds to the
queue what it gives and takes nothing. -/
theorem delivered_of_play {e : Engine} {c : Connection} (h : e.Idle c) (j : Journal)
    (moves : List Move) (hadmits : (⟨.solo e c j, []⟩ : Machine).Admits Allows host moves) :
    let start : Machine := ⟨.solo e c j, []⟩
    let m := start.play host moves
    ∃ e' c', m.world.engine? 0 = some e' ∧ m.world.conns[0]? = some c' ∧
      e.queue.pending ++ record (fun m x => x.given m) host start moves =
        record (fun m x => x.consumed m) host start moves ++ e'.queue.pending ∧
      (m.BetweenTasks → e'.Awaits c') ∧
      (e'.isListening = false → ∀ x, m.Allows x → x.consumed m = [] ∧
        ∃ t, (m.move host x).world.engine? 0 = some t ∧
          t.queue.pending = e'.queue.pending ++ x.given m) := by
  intro start m
  obtain ⟨t, hrecord, hlast⟩ := attends_play moves (h.attends j) hadmits
  obtain ⟨e', c', he, hc, rfl⟩ := hlast.pending_eq
  refine ⟨e', c', he, hc, hrecord, fun hbetween => hlast.awaits hbetween he hc, ?_⟩
  intro hsilent x hx
  have hkeeps := consumed_of_not_listening he hsilent x
  obtain ⟨t, hmove, hnext⟩ := hlast.move host x hx
  obtain ⟨e'', c'', he'', -, rfl⟩ := hnext.pending_eq
  refine ⟨hkeeps, e'', he'', ?_⟩
  rw [hkeeps] at hmove
  exact hmove.symm

/-- A line and the beginning of the next one arrive at once. The callback of the first line reads the
next one, and the delivery that it asks for still waits when the first is over. -/
theorem delivered_of_play_typed :
    let r : Request := { engine := 0, conn := 0, prompt := ⟨['>', ' ']⟩, handler := none }
    let host : Host := ⟨fun _ _ => [.readline r 1]⟩
    let start : Machine := ⟨.solo (.new {} []) (.new {} {}) {}, []⟩
    let moves : List Move := [.call (.readline r 0), .call (.feed 0 [97, 13, 98]),
      .call (.runTasks 0), .step, .step, .step, .step, .step, .step, .step]
    ∃ e c, (start.play host moves).world.engine? 0 = some e ∧
      (start.play host moves).world.conns[0]? = some c ∧ e.Awaits c ∧
      ['a', '\r', 'b'] =
        record (fun m x => x.consumed m) host start moves ++ e.queue.pending := by
  intro r host start moves
  have hidle : (Engine.new {} []).Idle (Connection.new {} {}) := ⟨rfl, rfl, rfl, rfl, rfl⟩
  have hadmits : start.Admits Allows host moves := by decide +kernel
  have hbetween : (start.play host moves).BetweenTasks := by decide +kernel
  have hgiven : record (fun m x => x.given m) host start moves = ['a', '\r', 'b'] := by
    decide +kernel
  obtain ⟨e, c, he, hc, hrecord, hawaits, -⟩ := delivered_of_play hidle {} moves hadmits
  rw [hgiven] at hrecord
  have hstart : (⟨.solo (.new {} []) (.new {} {}) {}, []⟩ : Machine) = start := rfl
  rw [hstart] at hc
  exact ⟨e, c, he, hc, hawaits hbetween, hrecord⟩

end Machine

end LineEditor
