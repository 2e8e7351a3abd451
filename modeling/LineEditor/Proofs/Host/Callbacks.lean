import LineEditor.Proofs.Host.Ledger
import LineEditor.Proofs.Host.Play

/-!
Every line callback runs exactly once. Between tasks the callbacks that ran are those of the lines
that were begun, in order, without the one of the session that is read, and each received what its
session was ended with last.

Main definitions: `Move.happens`, what a move does to the lines that are read, `Machine.Keeps`, what a
host may do when, `Balanced`, the account of a run, and `Machine.Owes`, the invariant. Main statements:
`Machine.Owes.move`, `Machine.owes_play` and `Machine.callbacks_of_play`.
-/
namespace LineEditor

/-! ### Moves -/

/-- What a call does to the lines that are read: it begins one, or it works on the session. -/
def Call.happens (w : World) (c : Call) : List Happening :=
  match c, (w.call c).reply with
  | .readline _ callback, .done => [.started callback]
  | .session _ calls, .replies _ => (SessionCall.ends calls).map .ended
  | _, _ => []

/-- What the handling of the next event ends the session with. -/
def Engine.ends (e : Engine) : List (Option Text) :=
  if e.busy then [] else (e.next?.map fun x => e.endsBy x.1 x.2).getD []

/-- What a job does to the lines that are read. -/
def Job.happens (w : World) : Job → List Happening
  | .call c => c.happens w
  | .background n calls => (Call.session n calls).happens w
  | .deliver n => (((w.engine? n).map Engine.ends).getD []).map .ended
  | .script n _ _ (s :: _) => ((((w.engine? n).bind Engine.desk?).map s.ends).getD []).map .ended
  | .callback n line => [.ran n line]
  | _ => []

/-- What a move does to the lines that are read. -/
def Move.happens (m : Machine) : Move → List Happening
  | .call c => c.happens m.world
  | .step => (m.jobs.head?.map (Job.happens m.world)).getD []

/-- Whether a call keeps the engine, and reads on a connection that is there. -/
def Call.keeps (w : World) : Call → Bool
  | .readline r _ => r.conn < w.conns.length
  | .drop n => n ≠ 0
  | _ => true

/-- Whether the host may make the call that a job is. -/
def Job.keeps (w : World) : Job → Bool
  | .call c => c.keeps w
  | _ => true

namespace Machine

/-- Calls are made between tasks or by callbacks, and jobs are done at any time. -/
def Keeps (m : Machine) : Move → Prop
  | .call c => m.BetweenTasks ∧ c.keeps m.world = true
  | .step => ∀ j ∈ m.jobs.head?, j.keeps m.world = true

instance (m : Machine) : (x : Move) → Decidable (m.Keeps x)
  | .call c => inferInstanceAs (Decidable (m.BetweenTasks ∧ c.keeps m.world = true))
  | .step => inferInstanceAs (Decidable (∀ j ∈ m.jobs.head?, j.keeps m.world = true))

end Machine

/-! ### Calls -/

/-- Whether a job gives a line to a callback. -/
def Job.isCallback : Job → Bool
  | .callback .. => true
  | _ => false

/-- Whether a job is the script that keeps the engine busy. -/
def Job.occupies : Job → Bool
  | .script 0 .. => true
  | _ => false

/-- Whether a job neither gives a line to a callback nor keeps the engine busy. -/
def Job.Plain (j : Job) : Prop := j.isCallback = false ∧ j.occupies = false

/-- What is owed after a call: the callback of a session that is over is called before anything
else. -/
def Called.Owes (r : Called) (busy : Bool) (owes : Ledger) (lines : Array (Option Text)) : Prop :=
  ∃ owed f jobs, r.world.Owes busy owed lines ∧ r.jobs = Job.ofFinished f ++ jobs ∧
    (∀ j ∈ jobs, j.Plain) ∧ owes = owed ++ f.toList.map Finished.entry

/-- A call changes what is owed as it is told, and no callback receives anything. -/
def Call.Enters (c : Call) (w : World) (busy : Bool) (owed : Ledger)
    (lines : Array (Option Text)) : Prop :=
  ∃ owes, (w.call c).Owes busy owes lines ∧
    ∀ rest, (c.happens w).foldl Ledger.enter (owed ++ rest) = owes ++ rest

namespace World

variable {w : World} {e t : Engine} {busy : Bool} {owed : Ledger} {lines : Array (Option Text)}
  {n : Nat}

/-- A call that leads to jobs that are no concern. -/
theorem Owes.called (h : w.Owes busy owed lines) {jobs : List Job} (hjobs : ∀ j ∈ jobs, j.Plain)
    (reply : Reply) : Called.Owes { world := w, jobs, reply } busy owed lines :=
  ⟨owed, none, jobs, h, rfl, hjobs, (List.append_nil _).symm⟩

/-- A session that was ended is put back with its handlers, and its callback is called. -/
theorem Owes.finish {k : Core} (h : w.Owes busy owed lines) (hk : t.core? = some k)
    (hfree : t.busy = false) (conn : Nat) {jobs : List Job} (hjobs : ∀ j ∈ jobs, j.Plain)
    (reply : Reply) : Called.Owes
      { world := (w.put 0 conn t.takeFinished.1).close t.takeFinished.2
        jobs := Job.ofFinished t.takeFinished.2 ++ jobs
        reply } false [(k.callback, k.outcome)] lines := by
  obtain ⟨howes, heq⟩ := Engine.Owes.takeFinished hk hfree
  exact ⟨_, _, jobs, h.put howes conn _, rfl, hjobs, heq⟩

/-- A line begins only if none is read, and a call that is refused leaves the world. -/
theorem Owes.readline (h : w.Owes busy owed lines) {r : Request} (hn : w.engine? r.engine = some e)
    (hconn : r.conn < w.conns.length) (callback : Nat) :
    (∃ err, w.readline r callback = .error err) ∨
      ∃ w', w.readline r callback = .ok w' ∧ owed = [] ∧
        w'.Owes busy [(callback, .reading)] lines := by
  obtain ⟨hzero, -, he⟩ := h.engine? hn
  unfold World.readline
  rw [hn, List.getElem?_eq_getElem hconn]
  dsimp only
  cases hbusy : e.busy with
  | true => exact .inl ⟨_, rfl⟩
  | false =>
    cases hs : e.session with
    | some s => exact .inl ⟨_, rfl⟩
    | none =>
      have hnone : owed = [] := by
        rw [← he.active_eq]
        unfold Engine.active
        rw [hs]
        rfl
      have hstart : (e.start r callback w.conns[r.conn].size.cols w.conns[r.conn].handlers).Owes
          busy [(callback, .reading)] :=
        Engine.Owes.work (Engine.core?_start ..) he.busy_eq fun _ hended => absurd rfl hended
      have hinstalled : (w.modifyConn r.conn fun _ =>
          { w.conns[r.conn] with handlers := sessionHandlers 0 }).Owes busy owed lines :=
        h.congr rfl rfl
      have hput := hinstalled.put hstart r.conn none
      refine .inr ⟨_, rfl, hnone, ?_⟩
      rw [hzero]
      split
      · exact hput.scheduleDelivery 0
      · exact hput

theorem Owes.callResume (h : w.Owes busy owed lines) (hn : w.engine? n = some e) (hfree : e.busy = false) :
    (w.callResume n e).Owes busy owed lines := by
  obtain ⟨rfl, -, he⟩ := h.engine? hn
  unfold World.callResume
  cases hk : e.core? with
  | none =>
    rw [Engine.resume_eq_error hk]
    exact h.called (List.forall_mem_nil _) _
  | some k =>
    rcases Engine.resume_cases hk (w.size e.conn).cols with
      ⟨-, herror⟩ | ⟨-, t, hok, hk', -, hbusy⟩
    · rw [herror]
      exact h.called (List.forall_mem_nil _) _
    · rw [hok]
      have hothers : ∀ j ∈ [Job.schedule 0], j.Plain := List.forall_mem_singleton.2 ⟨rfl, rfl⟩
      have hfinish := h.finish hk' (hbusy.trans hfree) e.conn hothers .done
      rw [← he.active_eq, Engine.active_of_core? hk, ← he.busy_eq, hfree]
      exact hfinish

/-- Calls on the session may end it, any number of times. -/
theorem Owes.callSession (h : w.Owes busy owed lines) (hn : w.engine? n = some e) (hfree : e.busy = false)
    (calls : List SessionCall) :
    (∃ err, w.callSession n e calls = { world := w, reply := .engineError err }) ∨
      ∃ replies owes, (w.callSession n e calls).reply = .replies replies ∧
        (w.callSession n e calls).Owes busy owes lines ∧
        ∀ rest, ((SessionCall.ends calls).map Happening.ended).foldl Ledger.enter (owed ++ rest) =
          owes ++ rest := by
  obtain ⟨rfl, -, he⟩ := h.engine? hn
  unfold World.callSession
  cases hk : e.core? with
  | none =>
    rw [Engine.answers_eq_error hk]
    exact .inl ⟨_, rfl⟩
  | some k =>
    obtain ⟨t, replies, hk', -, hbusy, hok⟩ := Engine.answers_cases hk (w.size e.conn) calls
    have howes : owed = [(k.callback, k.outcome)] :=
      he.active_eq.symm.trans (Engine.active_of_core? hk)
    have hfree' : t.busy = false := hbusy.trans hfree
    have hbefore : busy = false := he.busy_eq.symm.trans hfree
    have hends := foldl_enter_ended (SessionCall.ends calls) k.callback k.outcome
    rw [hbefore] at h
    rw [hok, howes, hbefore]
    cases hpaused : calls.foldl SessionCall.holding k.paused with
    | true =>
      have hwork : t.Owes false _ := Engine.Owes.work hk' hfree' fun _ _ => hpaused
      have hput := h.put hwork e.conn none
      exact .inr ⟨replies, _, rfl, hput.called (List.forall_mem_nil _) _, hends⟩
    | false =>
      have hfinish := h.finish hk' hfree' e.conn (List.forall_mem_nil _) (.replies replies)
      rw [List.append_nil] at hfinish
      exact .inr ⟨replies, _, rfl, hfinish, hends⟩

/-- A call that has nothing to do with what is owed. -/
theorem Owes.entersNone {c : Call} {r : Called} (h : r.world.Owes busy owed lines) (hcall : w.call c = r)
    (hjobs : ∀ j ∈ r.jobs, j.Plain) (hhappens : c.happens w = []) : c.Enters w busy owed lines := by
  unfold Call.Enters
  rw [hcall, hhappens]
  exact ⟨owed, h.called hjobs r.reply, fun _ => rfl⟩

/-- A call that is refused does nothing. -/
theorem Owes.refused (h : w.Owes busy owed lines) {c : Call} {reply : Reply}
    (hcall : w.call c = { world := w, reply }) (hdone : reply ≠ .done)
    (hreplies : ∀ rs, reply ≠ .replies rs) : c.Enters w busy owed lines := by
  refine Owes.entersNone h hcall (List.forall_mem_nil _) ?_
  unfold Call.happens
  rw [hcall]
  dsimp only
  split
  · exact absurd rfl hdone
  · exact absurd rfl (hreplies _)
  · rfl

/-- A call of an engine is refused unless the engine is there and free. -/
theorem Owes.callEngine (h : w.Owes busy owed lines) {c : Call} {f : Engine → Called}
    (hc : w.call c = w.callEngine n f)
    (hf : ∀ e, w.engine? n = some e → e.busy = false → w.call c = f e → c.Enters w busy owed lines) :
    c.Enters w busy owed lines := by
  unfold World.callEngine at hc
  cases hn : w.engine? n with
  | none =>
    rw [hn] at hc
    exact h.refused hc nofun nofun
  | some e =>
    rw [hn] at hc
    cases hbusy : e.busy with
    | true =>
      dsimp only at hc
      rw [if_pos hbusy] at hc
      exact h.refused hc nofun nofun
    | false =>
      dsimp only at hc
      rw [if_neg (by rw [hbusy]; decide)] at hc
      exact hf e hn hbusy hc

/-- Any call of the host changes what is owed as it is told. -/
theorem Owes.call (h : w.Owes busy owed lines) {c : Call} (hc : c.keeps w = true) :
    c.Enters w busy owed lines := by
  cases c with
  | readline r callback =>
    refine h.callEngine rfl fun e hn _ hcall => ?_
    rcases h.readline hn (of_decide_eq_true hc) callback with ⟨err, herror⟩ | ⟨w', hok, rfl, howes⟩
    · rw [herror] at hcall
      exact h.refused hcall nofun nofun
    · rw [hok] at hcall
      unfold Call.Enters Call.happens
      rw [hcall]
      exact ⟨_, howes.called (List.forall_mem_nil _) _, fun _ => rfl⟩
  | queue n t =>
    refine h.callEngine rfl fun e hn _ hcall => ?_
    exact Owes.entersNone (h.queueInput hn t) hcall (List.forall_mem_nil _) rfl
  | resume n =>
    refine h.callEngine rfl fun e hn hfree hcall => ⟨owed, ?_, fun _ => rfl⟩
    rw [hcall]
    exact h.callResume hn hfree
  | session n calls =>
    refine h.callEngine rfl fun e hn hfree hcall => ?_
    rcases h.callSession hn hfree calls with ⟨err, herror⟩ | ⟨replies, owes, hreply, howes, hends⟩
    · exact h.refused (hcall.trans herror) nofun nofun
    · unfold Call.Enters Call.happens
      rw [hcall, hreply]
      exact ⟨owes, howes, hends⟩
  | history n calls =>
    refine h.callEngine rfl fun e hn _ hcall => ?_
    obtain ⟨rfl, -, he⟩ := h.engine? hn
    have hset : ({ e with history := (collectEach HistoryCall.run e.history calls).1 } :
      Engine).Owes busy owed := he.congr rfl rfl
    exact Owes.entersNone (h.setEngine hset) hcall (List.forall_mem_nil _) rfl
  | bind n event k =>
    refine h.callEngine rfl fun e hn _ hcall => ?_
    obtain ⟨rfl, -, he⟩ := h.engine? hn
    have hset : ({ e with keymap := e.keymap.bind event k } : Engine).Owes busy owed :=
      he.congr rfl rfl
    exact Owes.entersNone (h.setEngine hset) hcall (List.forall_mem_nil _) rfl
  | style n =>
    refine h.callEngine rfl fun e hn _ hcall => ?_
    exact Owes.entersNone h hcall (List.forall_mem_nil _) rfl
  | drop n =>
    have hgone : w.engine? n = none := by
      cases hn : w.engine? n with
      | none => rfl
      | some e => exact absurd (h.engine? hn).1 (of_decide_eq_true hc)
    have hcall : w.drop n = w := by
      unfold World.drop
      rw [hgone]
    refine Owes.entersNone ?_ rfl (List.forall_mem_nil _) rfl
    exact h.congr (congrArg World.engines hcall) (congrArg (·.journal.lines) hcall)
  | feed conn bytes => exact Owes.entersNone (h.feed conn bytes) rfl (List.forall_mem_nil _) rfl
  | runTasks conn => exact Owes.entersNone h rfl (List.forall_mem_singleton.2 ⟨rfl, rfl⟩) rfl
  | runDelayed conn =>
    exact Owes.entersNone (h.congr rfl rfl) rfl (List.forall_mem_singleton.2 ⟨rfl, rfl⟩) rfl
  | endOfStream conn =>
    exact Owes.entersNone (h.endOfStream conn) rfl (List.forall_mem_singleton.2 ⟨rfl, rfl⟩) rfl
  | resize conn s =>
    have hresized := h.congr (engines_resize conn s) (lines_resize conn s)
    exact Owes.entersNone hresized rfl (List.forall_mem_singleton.2 ⟨rfl, rfl⟩) rfl
  | setHandlers conn f => exact Owes.entersNone (h.congr rfl rfl) rfl (List.forall_mem_nil _) rfl

end World

/-! ### Events -/

namespace Engine

variable {e : Engine} {d : Desk} {event : KeyEvent} {owed : Ledger}

/-- A session of which an event is handled has not been ended. -/
theorem Owes.reading_of_next? (h : e.Owes false owed) (hnext : e.next? = some (d, event)) :
    d.session.paused = false ∧ d.core.outcome = .reading ∧
      owed = [(d.core.callback, d.core.outcome)] := by
  obtain ⟨s, queue, hs, hpaused, -, rfl⟩ := next?_eq_some hnext
  refine ⟨hpaused, ?_, ?_⟩
  · -- a session that was ended is paused, and a paused one handles no event
    by_cases hended : s.outcome = .reading
    · exact hended
    · rw [h.paused_of rfl s hs hended] at hpaused
      cases hpaused
  · rw [← h.active_eq, active_of_core? (core?_of_session hs)]
    rfl

/-- An interrupt keeps the session, any other event may end it, and a script keeps the engine busy. -/
theorem Owes.handle (h : e.Owes false owed) (hfree : e.busy = false)
    (hnext : e.next? = some (d, event)) :
    (∃ t f owed', e.handle d event = .settled t f ∧ t.Owes false owed' ∧
      ∀ rest, (e.ends.map Happening.ended).foldl Ledger.enter (owed ++ rest) =
        owed' ++ f.toList.map Finished.entry ++ rest) ∨
    ∃ t c s, e.handle d event = .script t c s ∧ ({ t with busy := true } : Engine).Owes true owed ∧
      e.ends = [] := by
  obtain ⟨hlisten, hreading, rfl⟩ := h.reading_of_next? hnext
  have hends : e.ends = e.endsBy d event := by
    unfold ends
    rw [if_neg (by rw [hfree]; decide), hnext]
    rfl
  rcases handle_cases e event hlisten with ⟨hinterrupt, hhandle⟩ | ⟨-, d', hhandle, hcore⟩ |
    ⟨-, c, s, d', hhandle, hcore, -, hnone⟩
  · have hnone : e.ends = [] := hends.trans (if_pos hinterrupt)
    have hk : ({ e.put d.startOver with pendingResize := none } : Engine).core? =
      some { d.core with outcome := .reading, paused := false } := congrArg some d.core_startOver
    have howes : Engine.Owes _ false _ := Owes.work hk hfree fun _ hended => absurd rfl hended
    rw [hnone, hreading]
    exact .inl ⟨_, none, _, hhandle, howes, fun _ => rfl⟩
  · have hk := (core?_put e d').trans (congrArg some hcore)
    obtain ⟨howes, hentry⟩ := Owes.takeFinished hk hfree
    refine .inl ⟨_, _, _, hhandle, howes, fun rest => ?_⟩
    rw [hends, ← hentry]
    exact foldl_enter_ended _ _ _ rest
  · have hk : ({ e.put d' with busy := true } : Engine).core? = some { d.core with paused := true } :=
      congrArg some hcore
    have howes : Engine.Owes _ true _ := Owes.work hk rfl nofun
    exact .inr ⟨_, c, s, hhandle, howes, hends.trans hnone⟩

end Engine

/-! ### Jobs -/

/-- The entries of the callbacks that ran, newest first. -/
def settled (rs : List (Nat × Option Text)) : Ledger := (rs.map fun r => (r.1, .ofLine r.2)).reverse

/-- The account of some happenings: what is owed, what was settled, and what the callbacks received behind
what was received before. -/
structure Balanced (before : List (Option Text)) (hs : List Happening) (owed : Ledger)
    (lines : Array (Option Text)) : Prop where
  ledger_eq : ledger hs = owed ++ settled (ran hs)
  lines_eq : lines.toList = before ++ (ran hs).map Prod.snd

/-- What is left to do below a callback: no other callback, and the script that keeps the engine
busy. -/
structure Job.Stacked (busy : Bool) (jobs : List Job) : Prop where
  callbacks : ∀ j ∈ jobs, j.isCallback = false
  scripts : jobs.countP Job.occupies = if busy then 1 else 0

/-- The account of a machine after some happenings. The callback of a session that is over is called
before anything else is done. -/
inductive Machine.Owes (before : List (Option Text)) (hs : List Happening) : Machine → Prop where
  | intro {w : World} {busy : Bool} {owed : Ledger} {lines : Array (Option Text)} {jobs : List Job}
      (f : Option Finished) (h : w.Owes busy owed lines) (hjobs : Job.Stacked busy jobs)
      (heq : Balanced before hs (owed ++ f.toList.map Finished.entry) lines) :
      Owes before hs ⟨w, Job.ofFinished f ++ jobs⟩

/-- Jobs that neither call a callback nor keep the engine busy may be done before all others. -/
theorem Job.Stacked.append {busy : Bool} {jobs new : List Job} (h : Job.Stacked busy jobs)
    (hnew : ∀ j ∈ new, j.Plain) : Job.Stacked busy (new ++ jobs) := by
  have hcount : new.countP Job.occupies = 0 := by
    rw [List.countP_eq_zero]
    intro j hj
    rw [(hnew j hj).2]
    decide
  refine ⟨List.forall_mem_append.2 ⟨fun j hj => (hnew j hj).1, h.callbacks⟩, ?_⟩
  rw [List.countP_append, hcount, Nat.zero_add]
  exact h.scripts

/-- A job that is taken off and is no script leaves the others as they are. -/
theorem Job.Stacked.tail {busy : Bool} {j : Job} {jobs : List Job}
    (h : Job.Stacked busy (j :: jobs)) (hj : j.occupies = false) : Job.Stacked busy jobs := by
  have hcount := h.scripts
  rw [List.countP_cons_of_neg (by rw [hj]; decide)] at hcount
  exact ⟨(List.forall_mem_cons.1 h.callbacks).2, hcount⟩

/-- The script is taken off: the engine was busy with it. -/
theorem Job.Stacked.tail_script {busy : Bool} {k : Completion} {s : ScriptedHandler}
    {rest : List ScriptStep} {jobs : List Job} (h : Job.Stacked busy (.script 0 k s rest :: jobs)) :
    busy = true ∧ Job.Stacked false jobs := by
  have hcount := h.scripts
  rw [List.countP_cons_of_pos rfl] at hcount
  cases busy with
  | false => cases hcount
  | true => exact ⟨rfl, (List.forall_mem_cons.1 h.callbacks).2, Nat.succ.inj hcount⟩

/-- The script is put on: the engine is busy with it. -/
theorem Job.Stacked.script {jobs : List Job} (h : Job.Stacked false jobs) (k : Completion)
    (s : ScriptedHandler) (rest : List ScriptStep) :
    Job.Stacked true (.script 0 k s rest :: jobs) := by
  refine ⟨List.forall_mem_cons.2 ⟨rfl, h.callbacks⟩, ?_⟩
  rw [List.countP_cons_of_pos rfl, h.scripts]
  rfl

/-- Where only tasks are left to do, the engine is not busy. -/
theorem Job.Stacked.free {busy : Bool} {jobs : List Job} (h : Job.Stacked busy jobs)
    (hjobs : ∀ j ∈ jobs, j.isTasks = true) : busy = false := by
  have hnone : jobs.countP Job.occupies = 0 := by
    rw [List.countP_eq_zero]
    intro j hj
    have htasks := hjobs j hj
    cases j
    case tasks conn => exact Bool.false_ne_true
    all_goals cases htasks
  have hcount := h.scripts
  rw [hnone] at hcount
  cases busy with
  | false => rfl
  | true => cases hcount

theorem ledger_append (hs hs' : List Happening) :
    ledger (hs ++ hs') = hs'.foldl Ledger.enter (ledger hs) := List.foldl_append ..

theorem ran_append (hs hs' : List Happening) : ran (hs ++ hs') = ran hs ++ ran hs' :=
  List.filterMap_append ..

theorem ran_ended (ends : List (Option Text)) : ran (ends.map .ended) = [] := by
  induction ends with
  | nil => rfl
  | cons line ends ih => exact ih

/-- A call runs no callback. -/
theorem Call.ran_happens (c : Call) (w : World) : ran (c.happens w) = [] := by
  unfold Call.happens
  split
  · rfl
  · exact ran_ended _
  · rfl

namespace Machine

variable {hs hs' : List Happening} {w w' : World} {e : Engine} {busy busy' : Bool}
  {owed owed' : Ledger} {before : List (Option Text)} {lines : Array (Option Text)}
  {jobs new : List Job} {host : Host} {n : Nat}

/-- What is done without a callback changes what is owed as it is told. -/
theorem owes_of_enters (f : Option Finished) (hran : ran hs' = []) (h : w.Owes busy owed' lines)
    (hjobs : Job.Stacked busy jobs) (heq : Balanced before hs owed lines)
    (henter : ∀ rest, hs'.foldl Ledger.enter (owed ++ rest) =
      owed' ++ f.toList.map Finished.entry ++ rest) :
    Owes before (hs ++ hs') ⟨w, Job.ofFinished f ++ jobs⟩ := by
  refine .intro f h hjobs ⟨?_, ?_⟩
  · rw [ledger_append, heq.ledger_eq, henter, ran_append, hran, List.append_nil]
  · rw [heq.lines_eq, ran_append, hran, List.append_nil]

/-- What is done without a callback, and leaves the session alone. -/
theorem owes_same (h : w.Owes busy owed lines) (hjobs : Job.Stacked busy jobs)
    (heq : Balanced before hs owed lines) : Owes before (hs ++ []) ⟨w, jobs⟩ :=
  owes_of_enters none rfl h hjobs heq fun _ => by simp

/-- What a call leads to is done before what was left to do. -/
theorem owes_called {r : Called} (hcalled : r.Owes busy owed' lines) (hran : ran hs' = [])
    (hjobs : Job.Stacked busy jobs) (hnew : ∀ j ∈ new, j.Plain)
    (heq : Balanced before hs owed lines)
    (henter : ∀ rest, hs'.foldl Ledger.enter (owed ++ rest) = owed' ++ rest)
    (hengines : w'.engines = r.world.engines)
    (hlines : w'.journal.lines = r.world.journal.lines) :
    Owes before (hs ++ hs') ⟨w', r.jobs ++ new ++ jobs⟩ := by
  obtain ⟨owed'', f, later, howes, hr, hplain, rfl⟩ := hcalled
  rw [hr, List.append_assoc, List.append_assoc]
  exact owes_of_enters f hran (howes.congr hengines hlines) ((hjobs.append hnew).append hplain) heq
    henter

theorem owes_callBack (h : w.Owes busy owed lines) (hjobs : Job.Stacked busy jobs)
    (heq : Balanced before hs owed lines) {c : Call} (hc : c.keeps w = true) :
    Owes before (hs ++ c.happens w) (callBack ⟨w, jobs⟩ c) := by
  obtain ⟨owes, hcalled, henter⟩ := h.call hc
  have hgoesOn : ∀ {w' : World}, w'.engines = (w.call c).world.engines →
      w'.journal.lines = (w.call c).world.journal.lines →
      Owes before (hs ++ c.happens w) ⟨w', (w.call c).jobs ++ jobs⟩ := by
    intro w' hengines hlines
    have howes := owes_called hcalled (c.ran_happens w) hjobs (List.forall_mem_nil _) heq henter
      hengines hlines
    rw [List.append_nil] at howes
    exact howes
  unfold callBack
  dsimp only
  split
  · exact hgoesOn rfl rfl
  · exact hgoesOn rfl rfl

theorem owes_callLater (h : w.Owes busy owed lines) (hjobs : Job.Stacked busy jobs)
    (heq : Balanced before hs owed lines) {c : Call} (hc : c.keeps w = true)
    (tell : Reply → Note) : Owes before (hs ++ c.happens w) (callLater ⟨w, jobs⟩ c tell) := by
  obtain ⟨owes, hcalled, henter⟩ := h.call hc
  exact owes_called hcalled (c.ran_happens w) hjobs (List.forall_mem_singleton.2 ⟨rfl, rfl⟩) heq
    henter rfl rfl

/-- A task that is begun leaves the session alone. -/
theorem owes_runTask (h : w.Owes busy owed lines) (hjobs : Job.Stacked busy jobs)
    (heq : Balanced before hs owed lines) (t : Task) :
    Owes before (hs ++ []) (runTask ⟨w, jobs⟩ t) := by
  have hsame := owes_same h hjobs heq
  unfold runTask
  cases t with
  | deliver n =>
    dsimp only
    split
    · exact hsame
    · rename_i e hn
      obtain ⟨rfl, -, he⟩ := h.engine? hn
      split
      · exact hsame
      · have hset : ({ e with scheduled := false } : Engine).Owes busy owed := he.congr rfl rfl
        exact owes_same (h.setEngine hset)
          (hjobs.append (List.forall_mem_singleton.2 ⟨rfl, rfl⟩)) heq
  | resize n s => exact owes_same (h.receiveSize n s) hjobs heq
  | background n calls resume =>
    refine owes_same h (hjobs.append ?_) heq
    cases calls <;> cases resume <;> simp [Job.Plain, Job.isCallback, Job.occupies]

theorem owes_runTasks (h : w.Owes busy owed lines) (hjobs : Job.Stacked busy jobs)
    (heq : Balanced before hs owed lines) (conn : Nat) :
    Owes before (hs ++ []) (runTasks ⟨w, jobs⟩ conn) := by
  have hothers : ∀ j ∈ [Job.tasks conn], j.Plain := List.forall_mem_singleton.2 ⟨rfl, rfl⟩
  unfold runTasks
  dsimp only
  split
  · exact owes_same h hjobs heq
  · rename_i t c _
    have hbegun : (w.modifyConn conn fun _ => c).Owes busy owed lines := h.congr rfl rfl
    exact owes_runTask hbegun (hjobs.append hothers) heq t

/-- The events of an engine: an interrupt starts over, and any other may end the session. -/
theorem owes_deliver (h : w.Owes busy owed lines) (hjobs : Job.Stacked busy jobs)
    (heq : Balanced before hs owed lines) (n : Nat) :
    Owes before (hs ++ Job.happens w (.deliver n)) (deliver ⟨w, jobs⟩ n) := by
  unfold deliver Job.happens
  dsimp only
  cases hn : w.engine? n with
  | none => exact owes_same h hjobs heq
  | some e =>
    obtain ⟨rfl, -, he⟩ := h.engine? hn
    rw [Option.map_some, Option.getD_some]
    dsimp only
    cases hbusy : e.busy with
    | true =>
      have hnone : e.ends = [] := if_pos hbusy
      rw [hnone]
      exact owes_same h hjobs heq
    | false =>
      rw [if_neg (by decide), Engine.step?_eq]
      cases hnext : e.next? with
      | none =>
        have hnone : e.ends = [] := by
          unfold Engine.ends
          rw [hnext]
          exact ite_self _
        rw [hnone]
        exact owes_same h hjobs heq
      | some x =>
        obtain ⟨d, event⟩ := x
        have hbefore : busy = false := he.busy_eq.symm.trans hbusy
        subst hbefore
        rw [Option.map_some]
        have hothers : ∀ j ∈ [Job.deliver 0], j.Plain := List.forall_mem_singleton.2 ⟨rfl, rfl⟩
        rcases he.handle hbusy hnext with ⟨t, f, owed', hhandle, howes, henter⟩ |
          ⟨t, c, s, hhandle, howes, hnone⟩
        · rw [hhandle]
          have hput := h.put howes e.conn f
          have hgoesOn := owes_of_enters f (ran_ended _) hput (hjobs.append hothers) heq henter
          rw [← List.append_assoc] at hgoesOn
          exact hgoesOn
        · rw [hhandle, hnone]
          have hput := h.put howes e.conn none
          exact owes_same (hput.congr rfl rfl) ((hjobs.append hothers).script c _ _) heq

/-- The end of a script: a session that was ended meanwhile is over. -/
theorem owes_endScript (h : w.Owes true owed lines) (hjobs : Job.Stacked false jobs)
    (heq : Balanced before hs owed lines) (k : Completion) (s : ScriptedHandler) :
    Owes before (hs ++ []) (endScript ⟨w, jobs⟩ 0 k s) := by
  obtain ⟨e, hw, he⟩ := h.engine
  obtain ⟨d, hd, rfl⟩ := he.desk
  obtain ⟨howes, hentry⟩ := Engine.Owes.takeFinished (e.core?_afterScript d k s) rfl
  have hput := h.put howes e.conn (e.afterScript d k s).takeFinished.2
  have hran : ran [] = [] := rfl
  have hends := owes_of_enters _ hran hput hjobs heq fun rest => congrArg (· ++ rest) hentry
  have hn := World.engine?_of_engines hw
  unfold endScript
  dsimp only
  rw [hn]
  dsimp only
  rw [hd]
  exact hends

/-- A step of a script may end the session, which is over when the script ends. -/
theorem owes_scriptStep (h : w.Owes true owed lines) (hjobs : Job.Stacked false jobs)
    (heq : Balanced before hs owed lines) (k : Completion) (s : ScriptedHandler)
    (step : ScriptStep) (rest : List ScriptStep) :
    Owes before (hs ++ Job.happens w (.script 0 k s (step :: rest)))
      (scriptStep ⟨w, jobs⟩ 0 k s step rest) := by
  have hothers := hjobs.script k s rest
  obtain ⟨e, hw, he⟩ := h.engine
  obtain ⟨d, hd, howed⟩ := he.desk
  have hn := World.engine?_of_engines hw
  have hhappens : Job.happens w (.script 0 k s (step :: rest)) = (step.ends d).map .ended := by
    unfold Job.happens
    dsimp only
    rw [hn, Option.bind_some, hd]
    rfl
  have hdesk : step.AtDesk → Owes before (hs ++ (step.ends d).map .ended)
      ⟨w.put 0 e.conn (e.put (d.scriptStep (w.size e.conn) step)), .script 0 k s rest :: jobs⟩ := by
    intro _
    obtain ⟨paused, hcore⟩ := d.core_scriptStep (w.size e.conn) step
    have hk := (e.core?_put (d.scriptStep (w.size e.conn) step)).trans (congrArg some hcore)
    have hwork := Engine.Owes.work hk he.busy_eq nofun
    have hput := h.put hwork e.conn none
    rw [howed] at heq
    exact owes_of_enters none (ran_ended _) hput hothers heq fun rest' => by
      rw [Option.toList_none, List.map_nil, List.append_nil]
      exact foldl_enter_ended _ _ _ rest'
  have hworld : ∀ {w' : World} {jobs' : List Job}, w'.engines = w.engines →
      w'.journal.lines = w.journal.lines → Job.Stacked true jobs' →
      Owes before (hs ++ []) ⟨w', jobs'⟩ := by
    intro w' jobs' hengines hlines hjobs'
    exact owes_same (h.congr hengines hlines) hjobs' heq
  rw [hhappens]
  unfold scriptStep
  dsimp only
  rw [hn]
  dsimp only
  cases step
  case setAsk ask => exact hworld rfl rfl (hjobs.script k _ rest)
  case feed t => exact owes_same (h.feed e.conn (Utf8.encodeText t)) hothers heq
  case runTasks =>
    have htasks : ∀ j ∈ [Job.tasks e.conn], j.Plain := List.forall_mem_singleton.2 ⟨rfl, rfl⟩
    exact hworld rfl rfl (hothers.append htasks)
  case resize size =>
    have htasks : ∀ j ∈ [Job.tasks e.conn], j.Plain := List.forall_mem_singleton.2 ⟨rfl, rfl⟩
    exact hworld (World.engines_resize e.conn size) (World.lines_resize e.conn size)
      (hothers.append htasks)
  case schedule calls resume => exact hworld rfl rfl hothers
  all_goals
    dsimp only
    rw [hd]
    exact hdesk trivial

/-- Any job but a callback changes what is owed as it is told. -/
theorem owes_run {j : Job} (h : w.Owes busy owed lines) (hjobs : Job.Stacked busy (j :: jobs))
    (heq : Balanced before hs owed lines) (hj : j.keeps w = true) :
    Owes before (hs ++ j.happens w) (run host ⟨w, jobs⟩ j) := by
  cases j with
  | tasks conn => exact owes_runTasks h (hjobs.tail rfl) heq conn
  | deliver n => exact owes_deliver h (hjobs.tail rfl) heq n
  | schedule n => exact owes_same (h.scheduleDelivery n) (hjobs.tail rfl) heq
  | callback n line => exact absurd (hjobs.callbacks _ (List.mem_cons_self ..)) nofun
  | call c => exact owes_callBack h (hjobs.tail rfl) heq hj
  | background n calls =>
    have hc : (Call.session n calls).keeps w = true := rfl
    exact owes_callLater h (hjobs.tail rfl) heq hc _
  | resume n =>
    have hc : (Call.resume n).keeps w = true := rfl
    exact owes_callLater h (hjobs.tail rfl) heq hc _
  | note n => exact owes_same (h.congr rfl rfl) (hjobs.tail rfl) heq
  | script n k s rest =>
    cases n with
    | zero =>
      obtain ⟨rfl, hothers⟩ := hjobs.tail_script
      cases rest with
      | nil => exact owes_endScript h hothers heq k s
      | cons step rest => exact owes_scriptStep h hothers heq k s step rest
    | succ n =>
      -- no other engine is there that could run a script
      have hgone : w.engine? (n + 1) = none := by
        cases hn : w.engine? (n + 1) with
        | none => rfl
        | some e => exact absurd (h.engine? hn).1 (Nat.succ_ne_zero n)
      have hsame := owes_same h (hjobs.tail rfl) heq
      cases rest with
      | nil =>
        unfold run endScript
        dsimp only
        rw [hgone]
        exact hsame
      | cons step rest =>
        unfold run scriptStep Job.happens
        dsimp only
        rw [hgone]
        exact hsame

/-- A callback receives what its session was ended with last. -/
theorem owes_callback (h : w.Owes busy owed lines) (hjobs : Job.Stacked busy jobs) (f : Finished)
    (heq : Balanced before hs (owed ++ [f.entry]) lines) :
    Owes before (hs ++ [.ran f.callback f.line]) (callback host ⟨w, jobs⟩ f.callback f.line) := by
  have hcalls : ∀ j ∈ (host.onLine f.callback f.line).map Job.call, j.Plain := by
    rw [List.forall_mem_map]
    exact fun _ _ => ⟨rfl, rfl⟩
  obtain ⟨hengine, hlines⟩ := h
  have hran : ran (hs ++ [.ran f.callback f.line]) = ran hs ++ [(f.callback, f.line)] :=
    ran_append ..
  refine .intro none ⟨hengine, congrArg (Array.push · f.line) hlines⟩ (hjobs.append hcalls) ⟨?_, ?_⟩
  · rw [ledger_append, hran, List.foldl_cons, List.foldl_nil, heq.ledger_eq]
    simp [Ledger.enter, settled, Finished.entry]
  · rw [Array.toList_push, heq.lines_eq, hran, List.map_append, List.append_assoc]
    rfl

variable {m : Machine}

/-- A move keeps the account. -/
theorem Owes.move (host : Host) (h : m.Owes before hs) (x : Move) (hx : m.Keeps x) :
    (m.move host x).Owes before (hs ++ x.happens m) := by
  obtain ⟨f, h, hjobs, heq⟩ := h
  -- a callback that waits is on top of the stack, so no call of the host comes before it
  rcases f with _ | f
  · rw [Option.toList_none, List.map_nil, List.append_nil] at heq
    rcases x with c | _
    · obtain ⟨owes, hcalled, henter⟩ := h.call hx.2
      have hcalls := owes_called hcalled (c.ran_happens _) hjobs (List.forall_mem_nil _) heq henter
        rfl rfl
      rw [List.append_nil] at hcalls
      exact hcalls
    · rename_i jobs
      rcases jobs with _ | ⟨j, jobs⟩
      · exact owes_same h hjobs heq
      · exact owes_run h hjobs heq (hx j rfl)
  · rcases x with c | _
    · exact absurd (hx.1 _ (List.mem_cons_self ..)) Bool.false_ne_true
    · exact owes_callback h hjobs f heq

/-- Nothing is owed while no session is read. -/
theorem owes_of_idle {w : World} {e : Engine} (hw : w.engines = [some e]) (hnone : e.session = none)
    (hfree : e.busy = false) : Owes w.journal.lines.toList [] ⟨w, []⟩ := by
  refine .intro none ⟨⟨e, hw, hfree, nofun, rfl, ?_⟩, rfl⟩ ⟨List.forall_mem_nil _, rfl⟩
    ⟨?_, (List.append_nil _).symm⟩
  · rintro _ s hs
    rw [hnone] at hs
    cases hs
  · simp [Engine.active, hnone, ledger, ran, settled]

/-- Along a run the account is kept. -/
theorem owes_play (moves : List Move) (h : m.Owes before hs) (hadmits : m.Admits Keeps host moves) :
    (m.play host moves).Owes before (hs ++ record (fun m x => x.happens m) host m moves) := by
  induction moves generalizing m hs with
  | nil =>
    rw [record_nil, List.append_nil]
    exact h
  | cons x moves ih =>
    rw [record_cons, ← List.append_assoc]
    exact ih (h.move host x hadmits.1) hadmits.2

/-- A session that handles an event has not ended. -/
theorem Owes.reading (h : m.Owes before hs) {n : Nat} {e : Engine} (hn : m.world.engine? n = some e)
    (hfree : e.busy = false) {d : Desk} {event : KeyEvent} (hnext : e.next? = some (d, event)) :
    d.session.outcome = .reading := by
  obtain ⟨_, h, -⟩ := h
  obtain ⟨-, -, he⟩ := h.engine? hn
  have hidle := he.busy_eq.symm.trans hfree
  subst hidle
  exact (he.reading_of_next? hnext).2.1

end Machine

/-! ### Between tasks -/

/-- The lines that were begun, without those whose callback ran. -/
theorem started_of_ledger {hs : List Happening} {owed : Ledger}
    (h : ledger hs = owed ++ settled (ran hs)) :
    started hs = (ran hs).map Prod.fst ++ (owed.map Prod.fst).reverse := by
  have hstarted : (ledger hs).map Prod.fst = (started hs).reverse :=
    (map_fst_foldl_enter hs []).trans (List.append_nil _)
  have hran : (settled (ran hs)).map Prod.fst = ((ran hs).map Prod.fst).reverse := by
    simp [settled, Function.comp_def]
  rw [h, List.map_append, hran] at hstarted
  rw [← List.reverse_reverse (started hs), ← hstarted, List.reverse_append, List.reverse_reverse]

/-- The account between tasks: every line that was begun is read or its callback ran, once and in
order, and every callback received what its session was ended with last. -/
structure Engine.Accounted (e : Engine) (hs : List Happening) : Prop where
  ledger_eq : ledger hs = e.active ++ settled (ran hs)
  started_eq : started hs = (ran hs).map Prod.fst ++ e.active.map Prod.fst
  length_eq : (ran hs).length + (if e.session.isSome then 1 else 0) = (started hs).length

theorem Engine.accounted {e : Engine} {hs : List Happening}
    (h : ledger hs = e.active ++ settled (ran hs)) : e.Accounted hs := by
  have hstarted := started_of_ledger h
  have hone : (e.active.map Prod.fst).reverse = e.active.map Prod.fst ∧
      (e.active.map Prod.fst).length = if e.session.isSome then 1 else 0 := by
    unfold active
    cases e.session <;> exact ⟨rfl, rfl⟩
  rw [hone.1] at hstarted
  refine ⟨h, hstarted, ?_⟩
  rw [hstarted, List.length_append, List.length_map, hone.2]

/-- An interrupt that was handled: nothing else is to be done then, and the session is the same but
for its text. -/
structure Machine.Interrupted (before after : Machine) (e t : Engine) : Prop where
  engines_eq : after.world.engines = [some t]
  jobs_eq : after.jobs = before.jobs
  core_eq : ∃ k queue, e.core? = some k ∧ t.core? = some { k with queue }

namespace Machine

variable {m : Machine} {hs : List Happening} {e : Engine} {busy : Bool} {owed : Ledger} {host : Host}

/-- An interrupt calls no callback and keeps the one of the session. -/
theorem interrupted (hw : m.world.engines = [some e]) (he : e.Owes false owed)
    (hjobs : m.jobs.head? = some (.deliver 0)) {d : Desk} {event : KeyEvent}
    (hnext : e.next? = some (d, event)) (hinterrupt : e.Interrupts event) :
    ∃ t, m.Interrupted (m.move host .step) e t := by
  obtain ⟨w, todo⟩ := m
  obtain ⟨jobs, rfl⟩ := List.head?_eq_some_iff.1 hjobs
  obtain ⟨-, hreading, -⟩ := he.reading_of_next? hnext
  obtain ⟨s, queue, hs, hpaused, -, hd⟩ := Engine.next?_eq_some hnext
  have hstep : e.step? = some (.settled { e.put d.startOver with pendingResize := none } none) := by
    rw [Engine.step?_eq, hnext, Option.map_some, Engine.handle_eq, if_pos hinterrupt]
  have hmove : (⟨w, .deliver 0 :: jobs⟩ : Machine).move host .step =
      ⟨w.put 0 e.conn { e.put d.startOver with pendingResize := none }, .deliver 0 :: jobs⟩ := by
    change deliver ⟨w, jobs⟩ 0 = _
    unfold deliver
    dsimp only
    rw [World.engine?_of_engines hw]
    dsimp only
    rw [if_neg (by rw [he.busy_eq]; decide), hstep]
    rfl
  have hrestarted : ({ e.put d.startOver with pendingResize := none, effects := [] } :
      Engine).core? = some { d.core with outcome := .reading, paused := false } :=
    congrArg some d.core_startOver
  have hsame : ({ d.core with outcome := .reading, paused := false } : Core) =
      { Desk.core { toEditor := e.toEditor, session := s } with queue } := by
    subst hd
    have houtcome : s.outcome = .reading := hreading
    simp only [Desk.core, houtcome, hpaused]
  rw [hmove]
  refine ⟨_, ?_, rfl, _, queue, Engine.core?_of_session hs, hrestarted.trans (congrArg some hsame)⟩
  rw [World.engines_put, hw]
  rfl

end Machine

/-- A line that cannot be begun changes nothing. -/
theorem World.readline_refused {w : World} {r : Request} {callback : Nat}
    (h : (w.call (.readline r callback)).reply ≠ .done) :
    (w.call (.readline r callback)).world = w ∧ (w.call (.readline r callback)).jobs = [] := by
  revert h
  unfold World.call World.callEngine
  dsimp only
  split
  · exact fun _ => ⟨rfl, rfl⟩
  · split
    · exact fun _ => ⟨rfl, rfl⟩
    · split
      · exact fun h => absurd rfl h
      · exact fun _ => ⟨rfl, rfl⟩

namespace Machine

/-- Every line callback runs exactly once. Along a run the callbacks that ran are the first of those
whose lines were begun, and each received what its session was ended with last; that is what the host
heard, and the calls that the host makes for it come next. Between tasks none is missing but the one of
the session that is read. A session that was ended is paused, unless a script runs; a line that cannot
be begun changes nothing; and an interrupt calls no callback and keeps the one of its session. -/
theorem callbacks_of_play {w : World} {e : Engine} (hw : w.engines = [some e])
    (hnone : e.session = none) (hfree : e.busy = false) (host : Host) (moves : List Move)
    (hadmits : (⟨w, []⟩ : Machine).Admits Keeps host moves) :
    let hs := record (fun m x => x.happens m) host ⟨w, []⟩ moves
    let m := (⟨w, []⟩ : Machine).play host moves
    ∃ t, m.world.engines = [some t] ∧
      (m.BetweenTasks → t.Accounted hs) ∧
      (ran hs).map Prod.fst <+: started hs ∧
      settled (ran hs) <:+ ledger hs ∧
      m.world.journal.lines.toList = w.journal.lines.toList ++ (ran hs).map Prod.snd ∧
      (∀ n line jobs, m.jobs = .callback n line :: jobs → Move.step.happens m = [.ran n line] ∧
        (m.move host .step).jobs = (host.onLine n line).map .call ++ jobs) ∧
      (m.BetweenTasks ∨ t.busy = false →
        ∀ s, t.session = some s → s.outcome ≠ .reading → s.paused = true) ∧
      (∀ r callback, (m.world.call (.readline r callback)).reply ≠ .done →
        (m.world.call (.readline r callback)).world = m.world ∧
        (m.world.call (.readline r callback)).jobs = []) ∧
      (t.busy = false → m.jobs.head? = some (.deliver 0) → ∀ d event,
        t.next? = some (d, event) → t.Interrupts event →
          Move.step.happens m = [] ∧ ∃ t', m.Interrupted (m.move host .step) t t') := by
  intro hs m
  have hlast : m.Owes w.journal.lines.toList hs :=
    owes_play moves (owes_of_idle hw hnone hfree) hadmits
  clear_value m hs
  obtain ⟨f, h, hjobs, heq⟩ := hlast
  obtain ⟨⟨t, ht, he⟩, hlines⟩ := h
  have hstarted := started_of_ledger heq.ledger_eq
  refine ⟨t, ht, ?_, ?_, ?_, ?_, ?_, ?_, fun _ _ => World.readline_refused, ?_⟩
  · intro hbetween
    rcases f with _ | f
    · have hledger := heq.ledger_eq
      rw [Option.toList_none, List.map_nil, List.append_nil, ← he.active_eq] at hledger
      exact Engine.accounted hledger
    · exact absurd (hbetween _ (List.mem_cons_self ..)) Bool.false_ne_true
  · exact ⟨_, hstarted.symm⟩
  · exact ⟨_, heq.ledger_eq.symm⟩
  · exact (congrArg Array.toList hlines).trans heq.lines_eq
  · rintro n line jobs hcallback
    rw [Move.happens, move, step?, hcallback]
    exact ⟨rfl, rfl⟩
  · rintro (hbetween | hidle)
    · exact he.paused_of (hjobs.free fun j hj => hbetween j (List.mem_append_right _ hj))
    · exact he.paused_of (he.busy_eq.symm.trans hidle)
  · intro hidle hdeliver d event hnext hinterrupt
    have hbefore := he.busy_eq.symm.trans hidle
    subst hbefore
    refine ⟨?_, interrupted ht he hdeliver hnext hinterrupt⟩
    have hends : t.ends = [] := by
      unfold Engine.ends
      rw [if_neg (by rw [hidle]; decide), hnext]
      exact if_pos hinterrupt
    unfold Move.happens
    rw [hdeliver, Option.map_some, Option.getD_some]
    unfold Job.happens
    dsimp only
    rw [World.engine?_of_engines ht, Option.map_some, Option.getD_some, hends]
    rfl

/-- The callback of the first line reads the next one, and a call that reads a third one meanwhile is
refused. The second line is ended out of the background, while the session is paused, and its callback
runs when the pause ends. -/
theorem callbacks_of_play_paused :
    let r : Request := { engine := 0, conn := 0, prompt := ⟨['>', ' ']⟩, handler := none }
    let host : Host := ⟨fun n _ => if n = 0 then [.readline r 1, .readline r 2] else []⟩
    let w : World := { engines := [some (.new {} [])], conns := [.new {} {}] }
    let moves : List Move := [.call (.readline r 0), .call (.feed 0 [97, 13]), .call (.runTasks 0),
      .step, .step, .step, .step, .step, .step, .step, .step,
      .call (.session 0 [.pause, .finish (some ['x']), .finish (some ['b'])]), .call (.resume 0),
      .step, .step]
    ∃ t, ((⟨w, []⟩ : Machine).play host moves).world.engines = [some t] ∧
      t.Accounted (record (fun m x => x.happens m) host ⟨w, []⟩ moves) ∧
      ran (record (fun m x => x.happens m) host ⟨w, []⟩ moves) =
        [(0, some ['a']), (1, some ['b'])] ∧
      ((⟨w, []⟩ : Machine).play host moves).world.journal.lines = #[some ['a'], some ['b']] := by
  intro r host w moves
  have hadmits : (⟨w, []⟩ : Machine).Admits Keeps host moves := by decide +kernel
  have hbetween : ((⟨w, []⟩ : Machine).play host moves).BetweenTasks := by decide +kernel
  have hran : ran (record (fun m x => x.happens m) host ⟨w, []⟩ moves) =
      [(0, some ['a']), (1, some ['b'])] := by decide +kernel
  obtain ⟨t, ht, haccounted, -, -, hlines, -⟩ := callbacks_of_play rfl rfl rfl host moves hadmits
  rw [hran] at hlines
  exact ⟨t, ht, haccounted hbetween, hran, Array.toList_inj.1 hlines⟩

end Machine

end LineEditor
