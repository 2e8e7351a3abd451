import LineEditor.Proofs.Engine.Works
import LineEditor.Proofs.Host.Callbacks

/-!
Who reads, and whose handlers are installed where, in a world of one engine and any connections. All
that a move can do to these is one step of a small system: a line begins, is worked on or is over, or
the host installs handlers; and the callback of a line that is over is what is done next.

Main definitions: `Standing` and `Standing.Next`, `World.standing?`, and `Move.deeds`, what is told of a
move. Main statements: `Machine.next_move`, and `Machine.standing_play`, what every step keeps is kept
along a run.
-/
namespace LineEditor

/-- What is done to the line that is read, or to the handlers of a connection by the host. -/
inductive Deed where
  | entry (x : Entry)
  | installed (conn : Nat) (f : Handlers → Handlers)

/-- Who reads in a world of one engine, and the handlers of its connections. -/
structure Standing where
  session : Option Session
  config : Config
  handlers : List Handlers

/-- All that a move does to a standing, with what is told of it and the session that is over then. -/
inductive Standing.Next (k : Standing) : List Deed → Option Finished → Standing → Prop where
  | rests : Next k [] none k
  | works {s s' : Session} {es : List Entry} (hs : k.session = some s) (h : s.Works s' es) :
      Next k (es.map .entry) none { k with session := some s' }
  | ends {s s' : Session} {es : List Entry} {line : Option Text} (hs : k.session = some s)
      (h : s.Works s' es) (houtcome : s'.outcome = .ofLine line) :
      Next k (es.map .entry) (some ⟨s.callback, line, s.conn, s.previous⟩)
        { k with session := none, handlers := k.handlers.set s.conn s.previous }
  | begins (r : Request) (callback width : Nat) {previous : Handlers} (hnone : k.session = none)
      (hprevious : k.handlers[r.conn]? = some previous) :
      Next k [.entry .begun] none
        { k with
          session := some (Session.begin r k.config callback width previous)
          handlers := k.handlers.set r.conn (World.sessionHandlers 0) }
  | installs (conn : Nat) (f : Handlers → Handlers) :
      Next k [.installed conn f] none { k with handlers := k.handlers.modify conn f }

/-- The settings are those from before, and a session reads on a connection that is there and
continuation lines behind their prompt. -/
structure Standing.Configured (config : Config) (k : Standing) : Prop where
  config_eq : k.config = config
  continuation_eq : ∀ s, k.session = some s → s.continuation = ⟨config.continuation⟩
  conn_lt : ∀ s, k.session = some s → s.conn < k.handlers.length

theorem Standing.configured_of_idle {config : Config} {k : Standing} (hconfig : k.config = config)
    (h : k.session = none) : k.Configured config := by
  refine ⟨hconfig, ?_, ?_⟩
  all_goals
    rintro s hs
    rw [h] at hs
    cases hs

/-- Every step keeps the settings. -/
theorem Standing.Configured.next {config : Config} {k k' : Standing} {ds : List Deed}
    {f : Option Finished} (h : k.Configured config) (hnext : k.Next ds f k') :
    k'.Configured config := by
  cases hnext with
  | rests => exact h
  | works hs hworks =>
    have hconn := congrArg Terms.conn hworks.terms_eq
    refine ⟨h.config_eq, ?_, ?_⟩
    · rintro s ⟨⟩
      exact (congrArg Terms.continuation hworks.terms_eq).trans (h.continuation_eq _ hs)
    · rintro s ⟨⟩
      exact lt_of_eq_of_lt hconn (h.conn_lt _ hs)
  | ends => exact ⟨h.config_eq, by rintro s ⟨⟩, by rintro s ⟨⟩⟩
  | begins r callback width hnone hprevious =>
    refine ⟨h.config_eq, ?_, ?_⟩
    · rintro s ⟨⟩
      exact congrArg (fun config => Prompt.mk config.continuation) h.config_eq
    · rintro s ⟨⟩
      rw [List.length_set]
      exact (List.getElem?_eq_some_iff.1 hprevious).1
  | installs conn f =>
    refine ⟨h.config_eq, h.continuation_eq, ?_⟩
    rintro s hs
    rw [List.length_modify]
    exact h.conn_lt s hs

namespace World

/-- The handlers of the connections. -/
def handlers (w : World) : List Handlers := w.conns.map Connection.handlers

/-- The standing of a world of one engine. -/
def standing? (w : World) : Option Standing :=
  match w.engines with
  | [some e] => some ⟨e.session, e.config, w.handlers⟩
  | _ => none

variable {w w' : World} {e t : Engine} {k : Standing} {n conn : Nat}

theorem standing?_eq (hw : w.engines = [some e]) :
    w.standing? = some ⟨e.session, e.config, w.handlers⟩ := by
  unfold standing?
  rw [hw]

theorem of_standing? (h : w.standing? = some k) :
    ∃ e, w.engines = [some e] ∧ k = ⟨e.session, e.config, w.handlers⟩ := by
  unfold standing? at h
  split at h
  · rename_i e hw
    exact ⟨e, hw, (Option.some.inj h).symm⟩
  · cases h

theorem engine?_of_standing? (h : w.standing? = some k) (hn : w.engine? n = some e) :
    n = 0 ∧ w.engines = [some e] ∧ k = ⟨e.session, e.config, w.handlers⟩ := by
  obtain ⟨e', hw, rfl⟩ := of_standing? h
  obtain ⟨rfl, rfl⟩ := eq_of_engines hw hn
  exact ⟨rfl, hw, rfl⟩

theorem standing?_congr (hengines : w'.engines = w.engines) (hhandlers : w'.handlers = w.handlers) :
    w'.standing? = w.standing? := by
  unfold standing?
  rw [hengines, hhandlers]

/-! ### What leaves a standing alone -/

/-- A change of a connection is a change of its handlers. -/
theorem handlers_modifyConn {g : Connection → Connection} {f : Handlers → Handlers}
    (hf : ∀ c, w.conns[n]? = some c → (g c).handlers = f c.handlers) :
    (w.modifyConn n g).handlers = w.handlers.modify n f := map_conns_modifyConn hf

/-- Changes of a connection that keep its handlers. -/
theorem handlers_modifyConn_same {f : Connection → Connection}
    (hf : ∀ c, w.conns[n]? = some c → (f c).handlers = c.handlers) :
    (w.modifyConn n f).handlers = w.handlers :=
  (handlers_modifyConn (f := id) hf).trans (List.modify_id ..)

/-- Changes of a connection that install handlers. -/
theorem handlers_modifyConn_set {f : Connection → Connection} {h : Handlers}
    (hf : ∀ c, w.conns[n]? = some c → (f c).handlers = h) :
    (w.modifyConn n f).handlers = w.handlers.set n h := by
  refine (handlers_modifyConn (f := fun _ => h) hf).trans (List.ext_getElem? fun i => ?_)
  rw [List.getElem?_modify, List.getElem?_set]
  by_cases hi : n = i
  · subst hi
    by_cases hlt : n < w.handlers.length
    · simp [hlt]
    · simp [hlt]
  · simp [hi]

theorem standing?_modifyConn {f : Connection → Connection}
    (hf : ∀ c, w.conns[n]? = some c → (f c).handlers = c.handlers) :
    (w.modifyConn n f).standing? = w.standing? := standing?_congr rfl (handlers_modifyConn_same hf)

/-- Changes of an engine that keep its session and its settings. -/
theorem standing?_setEngine (hn : w.engine? n = some e) (hsession : t.session = e.session)
    (hconfig : t.config = e.config) : (w.setEngine n t).standing? = w.standing? := by
  have hset : (w.setEngine n t).engines = w.engines.set n (some t) := rfl
  have hhandlers : (w.setEngine n t).handlers = w.handlers := rfl
  unfold standing?
  rw [hset, hhandlers]
  unfold engine? at hn
  match hw : w.engines, hn with
  | [some e'], hn =>
    cases n with
    | zero =>
      cases hn
      dsimp only [List.set_cons_zero]
      rw [hsession, hconfig]
    | succ n => cases hn
  | [none], hn => cases n <;> cases hn
  | a :: b :: rest, hn =>
    rcases n with _ | _ | n
    · cases a <;> rfl
    · cases a <;> rfl
    · cases a <;> rfl

theorem handlers_perform (bell : BellStyle) (x : Effect) :
    (w.perform conn bell x).handlers = w.handlers := by
  unfold perform
  split
  · exact handlers_modifyConn_same fun _ _ => rfl
  · exact handlers_modifyConn_same fun _ _ => rfl
  · split
    · exact handlers_modifyConn_same fun _ _ => rfl
    · rfl
  · rfl
  · rfl

/-- The effects of an engine's work install no handlers. -/
@[simp] theorem handlers_put (n conn : Nat) (t : Engine) : (w.put n conn t).handlers = w.handlers := by
  have hfold : ∀ (xs : List Effect) (w : World),
      (xs.foldl (perform conn t.config.bell) w).handlers = w.handlers := by
    intro xs
    induction xs with
    | nil => exact fun _ => rfl
    | cons x xs ih =>
      intro w
      rw [List.foldl_cons, ih, handlers_perform]
  exact hfold ..

@[simp] theorem standing?_scheduleDelivery (w : World) (n : Nat) :
    (w.scheduleDelivery n).standing? = w.standing? := by
  unfold scheduleDelivery
  split
  · rfl
  · rename_i e hn
    split
    · rfl
    · split
      · rfl
      · rename_i s hs
        have hset := standing?_setEngine (t := { e with scheduled := true }) hn rfl rfl
        exact (standing?_modifyConn (f := (·.execute (.deliver n))) fun _ _ => rfl).trans hset

@[simp] theorem standing?_receiveInput (w : World) (n : Nat) (t : Text) :
    (w.receiveInput n t).standing? = w.standing? := by
  unfold receiveInput
  split
  · rfl
  · rename_i e hn
    split
    · rfl
    · exact (standing?_scheduleDelivery ..).trans (standing?_setEngine hn rfl rfl)

@[simp] theorem standing?_deliver (w : World) (x : Owner × Delivery) :
    (w.deliver x).standing? = w.standing? := by
  rcases x with ⟨n | n, t | ⟨s, c⟩⟩
  · exact standing?_receiveInput ..
  · rfl
  · rfl
  · rfl

theorem standing?_deliverAll {c : Connection} {r : Connection × List (Owner × Delivery)}
    (hc : w.conns[conn]? = some c) (hr : r.1.handlers = c.handlers) :
    (w.deliverAll conn r).standing? = w.standing? := by
  have hfold : ∀ (ds : List (Owner × Delivery)) (w : World),
      (ds.foldl World.deliver w).standing? = w.standing? := by
    intro ds
    induction ds with
    | nil => exact fun _ => rfl
    | cons x ds ih =>
      intro w
      rw [List.foldl_cons, ih, standing?_deliver]
  refine (hfold r.2 _).trans (standing?_modifyConn fun c' hc' => ?_)
  cases hc.symm.trans hc'
  exact hr

@[simp] theorem standing?_feed (w : World) (conn : Nat) (bytes : List UInt8) :
    (w.feed conn bytes).standing? = w.standing? := by
  unfold feed
  split
  · rfl
  · rename_i c hc
    exact standing?_deliverAll hc rfl

@[simp] theorem standing?_endOfStream (w : World) (conn : Nat) :
    (w.endOfStream conn).standing? = w.standing? := by
  unfold endOfStream
  split
  · rfl
  · rename_i c hc
    exact standing?_deliverAll hc rfl

theorem standing?_queueInput (hn : w.engine? n = some e) (t : Text) :
    (w.queueInput n e t).standing? = w.standing? := by
  have hqueued := standing?_setEngine (t := { e with queue := e.queue.append t }) hn rfl rfl
  unfold queueInput
  dsimp only
  split
  · exact (standing?_scheduleDelivery ..).trans hqueued
  · exact hqueued

@[simp] theorem standing?_resize (w : World) (conn : Nat) (s : Size) :
    (w.resize conn s).standing? = w.standing? := by
  have hsized : (w.modifyConn conn (·.setSize s)).standing? = w.standing? :=
    standing?_modifyConn fun _ _ => rfl
  unfold resize
  dsimp only
  split
  · exact hsized
  · rename_i n _
    exact (standing?_modifyConn (f := (·.execute (.resize n s))) fun _ _ => rfl).trans hsized
  · exact hsized

/-! ### Work, and the begin of a line -/

theorem handlers_close (f : Finished) :
    (w.close (some f)).handlers = w.handlers.set f.conn f.previous :=
  handlers_modifyConn_set fun _ _ => rfl

/-- What an engine leaves is carried out, and the handlers of a session that is over are put back. -/
theorem next_put {es : List Entry} {f : Option Finished} (hw : w.engines = [some e])
    (h : e.Works t es f) (conn : Nat) :
    ∃ k', Standing.Next ⟨e.session, e.config, w.handlers⟩ (es.map .entry) f k' ∧
      ((w.put 0 conn t).close f).standing? = some k' := by
  have hput : ∀ f, ((w.put 0 conn t).close f).engines = [some { t with effects := [] }] := by
    intro f
    rw [engines_close, engines_put, hw]
    rfl
  cases h with
  | goesOn hs hs' hconfig h =>
    refine ⟨_, .works hs h, (standing?_eq (hput none)).trans ?_⟩
    dsimp only
    rw [hs', hconfig]
    exact congrArg (fun handlers => some (Standing.mk _ _ handlers)) (handlers_put ..)
  | ends hs hs' hconfig h houtcome =>
    refine ⟨_, .ends hs h houtcome, (standing?_eq (hput _)).trans ?_⟩
    rw [handlers_close, handlers_put]
    dsimp only
    rw [hs', hconfig]

/-- A line begins only if none is read. -/
theorem next_readline {r : Request} (hk : w.standing? = some k) (hn : w.engine? r.engine = some e)
    (hconn : r.conn < w.conns.length) (callback : Nat) :
    (∃ err, w.readline r callback = .error err) ∨
      ∃ w' k', w.readline r callback = .ok w' ∧ k.Next [.entry .begun] none k' ∧
        w'.standing? = some k' := by
  obtain ⟨hzero, hw, rfl⟩ := engine?_of_standing? hk hn
  unfold readline
  rw [hn, List.getElem?_eq_getElem hconn]
  dsimp only
  cases hbusy : e.busy with
  | true => exact .inl ⟨_, rfl⟩
  | false =>
    cases hs : e.session with
    | some s => exact .inl ⟨_, rfl⟩
    | none =>
      have hprevious : w.handlers[r.conn]? = some w.conns[r.conn].handlers := by
        rw [handlers, List.getElem?_map, List.getElem?_eq_getElem hconn]
        rfl
      let c : Connection := { w.conns[r.conn] with handlers := sessionHandlers 0 }
      let t := e.start r callback w.conns[r.conn].size.cols w.conns[r.conn].handlers
      have hput : ((w.modifyConn r.conn fun _ => c).put 0 r.conn t).standing? =
          some ⟨t.session, t.config, w.handlers.set r.conn (sessionHandlers 0)⟩ := by
        have hengines : ((w.modifyConn r.conn fun _ => c).put 0 r.conn t).engines =
            [some { t with effects := [] }] := by
          have hengines : (w.modifyConn r.conn fun _ => c).engines = [some e] := hw
          rw [engines_put, hengines]
          rfl
        rw [standing?_eq hengines, handlers_put, handlers_modifyConn_set fun _ _ => rfl]
      refine .inr ⟨_, _, rfl, .begins r callback w.conns[r.conn].size.cols rfl hprevious, ?_⟩
      rw [hzero]
      refine Eq.trans ?_ hput
      split
      · exact standing?_scheduleDelivery ..
      · rfl

end World

/-! ### Moves -/

/-- What a call does to the line, or to the handlers of the host. -/
def Call.deeds (w : World) (c : Call) : List Deed :=
  match c, (w.call c).reply with
  | .readline .., .done => [.entry .begun]
  | .session _ calls, .replies _ => (SessionCall.entries calls).map .entry
  | .setHandlers conn f, _ => [.installed conn f]
  | _, _ => []

/-- What the handling of the next event does to the line. -/
def Engine.entries (e : Engine) : List Entry :=
  if e.busy then [] else (e.next?.map fun x => e.entriesBy x.1 x.2).getD []

/-- What a job does to the line, or to the handlers of the host. -/
def Job.deeds (w : World) : Job → List Deed
  | .call c => c.deeds w
  | .background n calls => (Call.session n calls).deeds w
  | .deliver n => (((w.engine? n).map Engine.entries).getD []).map .entry
  | .script n _ _ (s :: _) => ((((w.engine? n).bind Engine.desk?).map s.entries).getD []).map .entry
  | _ => []

/-- What a move does to the line, or to the handlers of the host. -/
def Move.deeds (m : Machine) : Move → List Deed
  | .call c => c.deeds m.world
  | .step => (m.jobs.head?.map (Job.deeds m.world)).getD []

/-- What a call leads to from a standing: the callback of a session that is over, if one is, is called
before anything else. -/
inductive Called.After (k : Standing) (ds : List Deed) : Called → Prop where
  | intro {w : World} {f : Option Finished} {k' : Standing} {jobs : List Job} (reply : Reply)
      (hnext : k.Next ds f k') (hw : w.standing? = some k')
      (hjobs : ∀ j ∈ jobs, j.isCallback = false) :
      After k ds { world := w, jobs := Job.ofFinished f ++ jobs, reply }

namespace World

variable {w : World} {e : Engine} {k : Standing} {n : Nat}

/-- A call that leaves the standing alone. -/
theorem after_rests {w' : World} (hw : w'.standing? = some k) {jobs : List Job}
    (hjobs : ∀ j ∈ jobs, j.isCallback = false) (reply : Reply) :
    Called.After k [] { world := w', jobs, reply } := .intro reply (.rests (k := k)) hw hjobs

/-- A call that is refused leaves the world. -/
theorem deeds_refused {c : Call} {reply : Reply} (hc : w.call c = { world := w, reply })
    (hdone : reply ≠ .done) (hreplies : ∀ rs, reply ≠ .replies rs)
    (hhandlers : ∀ conn f, c ≠ .setHandlers conn f) : c.deeds w = [] := by
  unfold Call.deeds
  rw [hc]
  dsimp only
  split
  · exact absurd rfl hdone
  · exact absurd rfl (hreplies _)
  · exact absurd rfl (hhandlers _ _)
  · rfl

theorem after_refused (hk : w.standing? = some k) {c : Call} {reply : Reply}
    (hc : w.call c = { world := w, reply }) (hdone : reply ≠ .done)
    (hreplies : ∀ rs, reply ≠ .replies rs) (hhandlers : ∀ conn f, c ≠ .setHandlers conn f) :
    (w.call c).After k (c.deeds w) := by
  rw [deeds_refused hc hdone hreplies hhandlers, hc]
  exact after_rests hk (List.forall_mem_nil _) reply

/-- A call of an engine is refused unless the engine is there and free. -/
theorem after_callEngine (hk : w.standing? = some k) {c : Call} {f : Engine → Called}
    (hc : w.call c = w.callEngine n f) (hhandlers : ∀ conn f, c ≠ .setHandlers conn f)
    (hf : ∀ e, w.engine? n = some e → w.call c = f e → (w.call c).After k (c.deeds w)) :
    (w.call c).After k (c.deeds w) := by
  unfold callEngine at hc
  cases hn : w.engine? n with
  | none =>
    rw [hn] at hc
    exact after_refused hk hc nofun nofun hhandlers
  | some e =>
    rw [hn] at hc
    dsimp only at hc
    split at hc
    · exact after_refused hk hc nofun nofun hhandlers
    · exact hf e hn hc

/-- A line is begun, or the call is refused. -/
theorem after_readline (hk : w.standing? = some k) {r : Request} {callback : Nat}
    (hc : (Call.readline r callback).keeps w = true) :
    (w.call (.readline r callback)).After k ((Call.readline r callback).deeds w) := by
  refine after_callEngine hk rfl nofun fun e hn hcall => ?_
  rcases next_readline hk hn (of_decide_eq_true hc) callback with
    ⟨err, herror⟩ | ⟨w', k', hok, hnext, hw'⟩
  · rw [herror] at hcall
    exact after_refused hk hcall nofun nofun nofun
  · rw [hok] at hcall
    have hdeeds : (Call.readline r callback).deeds w = [.entry .begun] := by
      unfold Call.deeds
      rw [hcall]
    rw [hdeeds, hcall]
    exact .intro (f := none) .done hnext hw' (List.forall_mem_nil _)

/-- A pause is ended, or the call is refused. -/
theorem after_resume (hk : w.standing? = some k) (n : Nat) :
    (w.call (.resume n)).After k ((Call.resume n).deeds w) := by
  refine after_callEngine hk rfl nofun fun e hn hcall => ?_
  obtain ⟨rfl, hw, rfl⟩ := engine?_of_standing? hk hn
  rw [hcall]
  unfold callResume
  split
  · exact after_rests hk (List.forall_mem_nil _) _
  · rename_i t f hok
    obtain ⟨k', hnext, hk'⟩ := next_put hw (Engine.works_resume hok) e.conn
    exact .intro .done hnext hk' (List.forall_mem_singleton.2 rfl)

/-- The session is called, or the call is refused. -/
theorem after_session (hk : w.standing? = some k) (n : Nat) (calls : List SessionCall) :
    (w.call (.session n calls)).After k ((Call.session n calls).deeds w) := by
  refine after_callEngine hk rfl nofun fun e hn hcall => ?_
  obtain ⟨rfl, hw, rfl⟩ := engine?_of_standing? hk hn
  unfold callSession at hcall
  split at hcall
  · exact after_refused hk hcall nofun nofun nofun
  · rename_i t replies f hok
    have hdeeds : (Call.session 0 calls).deeds w = (SessionCall.entries calls).map .entry := by
      unfold Call.deeds
      rw [hcall]
    obtain ⟨k', hnext, hk'⟩ := next_put hw (Engine.works_answers hok) e.conn
    have hafter := Called.After.intro (.replies replies) hnext hk' (List.forall_mem_nil _)
    rw [List.append_nil] at hafter
    rw [hdeeds, hcall]
    exact hafter

/-- Any call of the host is a step of the standing. -/
theorem after_call (hk : w.standing? = some k) {c : Call} (hc : c.keeps w = true) :
    (w.call c).After k (c.deeds w) := by
  have htasks : ∀ conn, ∀ j ∈ [Job.tasks conn], j.isCallback = false :=
    fun conn => List.forall_mem_singleton.2 rfl
  cases c with
  | readline r callback => exact after_readline hk hc
  | queue n t =>
    refine after_callEngine hk rfl nofun fun e hn hcall => ?_
    rw [hcall]
    exact after_rests ((standing?_queueInput hn t).trans hk) (List.forall_mem_nil _) _
  | resume n => exact after_resume hk n
  | session n calls => exact after_session hk n calls
  | history n calls =>
    refine after_callEngine hk rfl nofun fun e hn hcall => ?_
    have hset := standing?_setEngine
      (t := { e with history := (collectEach HistoryCall.run e.history calls).1 }) hn rfl rfl
    rw [hcall]
    exact after_rests (hset.trans hk) (List.forall_mem_nil _) _
  | bind n event command =>
    refine after_callEngine hk rfl nofun fun e hn hcall => ?_
    have hset := standing?_setEngine
      (t := { e with keymap := e.keymap.bind event command }) hn rfl rfl
    rw [hcall]
    exact after_rests (hset.trans hk) (List.forall_mem_nil _) _
  | style n =>
    refine after_callEngine hk rfl nofun fun e hn hcall => ?_
    rw [hcall]
    exact after_rests hk (List.forall_mem_nil _) _
  | drop n =>
    have hgone : w.engine? n = none := by
      cases hn : w.engine? n with
      | none => rfl
      | some e => exact absurd (engine?_of_standing? hk hn).1 (of_decide_eq_true hc)
    have hdrop : w.drop n = w := by
      unfold drop
      rw [hgone]
    exact after_rests ((congrArg standing? hdrop).trans hk) (List.forall_mem_nil _) _
  | feed conn bytes => exact after_rests ((standing?_feed ..).trans hk) (List.forall_mem_nil _) _
  | runTasks conn => exact after_rests hk (htasks conn) _
  | runDelayed conn =>
    have hreleased := standing?_modifyConn (w := w) (n := conn) (f := (·.releaseDelayed))
      fun _ _ => rfl
    exact after_rests (hreleased.trans hk) (htasks conn) _
  | endOfStream conn => exact after_rests ((standing?_endOfStream ..).trans hk) (htasks conn) _
  | resize conn s => exact after_rests ((standing?_resize ..).trans hk) (htasks conn) _
  | setHandlers conn f =>
    obtain ⟨e, hw, rfl⟩ := of_standing? hk
    have hhandlers : (w.modifyConn conn fun c => { c with handlers := f c.handlers }).handlers =
        w.handlers.modify conn f := handlers_modifyConn fun _ _ => rfl
    have hk' := standing?_eq (w := w.modifyConn conn fun c => { c with handlers := f c.handlers }) hw
    rw [hhandlers] at hk'
    exact .intro (f := none) .nothing (.installs conn f) hk' (List.forall_mem_nil _)

end World

/-- A machine that goes on from a standing: the callback of a session that is over, if one is, is called
before anything else. -/
inductive Machine.After (k : Standing) (ds : List Deed) (left : List Job) : Machine → Prop where
  | intro {w : World} {f : Option Finished} {k' : Standing} (new : List Job) (hnext : k.Next ds f k')
      (hw : w.standing? = some k') (hnew : ∀ j ∈ new, j.isCallback = false) :
      After k ds left ⟨w, Job.ofFinished f ++ (new ++ left)⟩

namespace Machine

variable {host : Host} {w w' : World} {jobs new : List Job} {k : Standing} {n : Nat}

/-- What leaves the standing alone. -/
theorem after_rests (hw : w.standing? = some k) (new : List Job)
    (hnew : ∀ j ∈ new, j.isCallback = false) : After k [] jobs ⟨w, new ++ jobs⟩ :=
  .intro new (.rests (k := k)) hw hnew

/-- What leaves the standing alone, and leads to nothing. -/
theorem after_same (hw : w.standing? = some k) : After k [] jobs ⟨w, jobs⟩ :=
  after_rests hw [] (List.forall_mem_nil _)

/-- What a call leads to is done before what was left to do. -/
theorem after_called {r : Called} {ds : List Deed} (h : r.After k ds)
    (hworld : w.standing? = r.world.standing?) (new : List Job)
    (hnew : ∀ j ∈ new, j.isCallback = false) :
    After k ds jobs ⟨w, r.jobs ++ (new ++ jobs)⟩ := by
  cases h with
  | intro reply hnext hw hjobs =>
    rw [List.append_assoc, ← List.append_assoc _ new]
    exact .intro _ hnext (hworld.trans hw) (List.forall_mem_append.2 ⟨hjobs, hnew⟩)

theorem after_callBack (hw : w.standing? = some k) {c : Call} (hc : c.keeps w = true) :
    After k (c.deeds w) jobs (callBack ⟨w, jobs⟩ c) := by
  have hcalled := World.after_call hw hc
  have hgoesOn : ∀ {w' : World}, w'.standing? = (w.call c).world.standing? →
      After k (c.deeds w) jobs ⟨w', (w.call c).jobs ++ jobs⟩ :=
    fun hworld => after_called hcalled hworld [] (List.forall_mem_nil _)
  unfold callBack
  dsimp only
  split
  · exact hgoesOn rfl
  · exact hgoesOn rfl

theorem after_callLater (hw : w.standing? = some k) {c : Call} (hc : c.keeps w = true)
    (tell : Reply → Note) : After k (c.deeds w) jobs (callLater ⟨w, jobs⟩ c tell) := by
  have hcalled := World.after_call hw hc
  unfold callLater
  dsimp only
  rw [goOn, List.append_assoc]
  exact after_called hcalled rfl _ (List.forall_mem_singleton.2 rfl)

/-- A task that is begun: a new size is told to the session. -/
theorem after_runTask (hk : w.standing? = some k) {others : List Job}
    (hothers : ∀ j ∈ others, j.isCallback = false) (t : Task) :
    After k [] jobs (runTask ⟨w, others ++ jobs⟩ t) := by
  have hsame : After k [] jobs ⟨w, others ++ jobs⟩ := after_rests hk others hothers
  unfold runTask
  cases t with
  | deliver n =>
    dsimp only
    split
    · exact hsame
    · rename_i e hn
      split
      · exact hsame
      · have hset := World.standing?_setEngine (t := { e with scheduled := false }) hn rfl rfl
        exact after_rests (hset.trans hk) (.deliver n :: others)
          (List.forall_mem_cons.2 ⟨rfl, hothers⟩)
  | resize n s =>
    change After k [] jobs ⟨w.receiveSize n s, others ++ jobs⟩
    unfold World.receiveSize
    split
    · exact hsame
    · rename_i e hn
      obtain ⟨rfl, hw, rfl⟩ := World.engine?_of_standing? hk hn
      split
      · have hrecorded : ∀ x, (w.record x).standing? = some _ := fun _ => hk
        exact after_rests (hrecorded _) others hothers
      · split
        · exact hsame
        · rename_i session hs
          obtain ⟨k', hnext, hk'⟩ := World.next_put hw (Engine.works_resized hs s) session.conn
          exact .intro others hnext hk' hothers
  | background n calls resume =>
    dsimp only
    rw [goOn, ← List.append_assoc]
    refine after_rests hk _ (List.forall_mem_append.2 ⟨?_, hothers⟩)
    cases calls <;> cases resume <;> simp [Job.isCallback]

theorem after_runTasks (hk : w.standing? = some k) (conn : Nat) :
    After k [] jobs (runTasks ⟨w, jobs⟩ conn) := by
  unfold runTasks
  dsimp only
  split
  · exact after_same hk
  · rename_i t c hpop
    obtain ⟨c₀, hc₀, hpop⟩ := Option.bind_eq_some_iff.1 hpop
    have hkept : c.handlers = c₀.handlers := by
      unfold Connection.popTask at hpop
      split at hpop
      · cases hpop
      · cases hpop
        rfl
    have hset := World.standing?_modifyConn (w := w) (n := conn) (f := fun _ => c) fun c' hc' => by
      cases hc₀.symm.trans hc'
      exact hkept
    exact after_runTask (hset.trans hk) (List.forall_mem_singleton.2 rfl) t

/-- The events of an engine. -/
theorem after_deliver (hk : w.standing? = some k) (n : Nat) :
    After k (Job.deeds w (.deliver n)) jobs (deliver ⟨w, jobs⟩ n) := by
  unfold deliver Job.deeds
  dsimp only
  cases hn : w.engine? n with
  | none => exact after_same hk
  | some e =>
    obtain ⟨rfl, hw, rfl⟩ := World.engine?_of_standing? hk hn
    rw [Option.map_some, Option.getD_some]
    dsimp only
    unfold Engine.entries
    split
    · exact after_same hk
    · rw [Engine.step?_eq]
      cases hnext : e.next? with
      | none => exact after_same hk
      | some x =>
        obtain ⟨d, event⟩ := x
        have hworks := Engine.works_handle hnext
        rw [Option.map_some, Option.map_some, Option.getD_some]
        dsimp only
        cases hhandle : e.handle d event with
        | settled t f =>
          rw [hhandle] at hworks
          obtain ⟨k', hgoes, hk'⟩ := World.next_put hw hworks e.conn
          have hdeliver : ∀ j ∈ [Job.deliver 0], j.isCallback = false :=
            List.forall_mem_singleton.2 rfl
          change After _ _ jobs ⟨_, Job.ofFinished f ++ [.deliver 0] ++ jobs⟩
          rw [List.append_assoc]
          exact .intro _ hgoes hk' hdeliver
        | script t c h =>
          rw [hhandle] at hworks
          obtain ⟨k', hgoes, hk'⟩ := World.next_put (t := { t with busy := true }) hw
            (hworks.congr rfl rfl) e.conn
          have hscript : ∀ j ∈ [Job.script 0 c { h with calls := h.calls + 1 } h.script, .deliver 0],
              j.isCallback = false := by simp [Job.isCallback]
          have hnoted : (((w.put 0 e.conn { t with busy := true }).close none).note
              (.completeCalled (h.calls + 1))).standing? = some k' := hk'
          exact .intro (f := none) _ hgoes hnoted hscript

/-- The end of a script. -/
theorem after_endScript (hk : w.standing? = some k) (n : Nat) (c : Completion)
    (h : ScriptedHandler) : After k [] jobs (endScript ⟨w, jobs⟩ n c h) := by
  unfold endScript
  dsimp only
  split
  · exact after_same hk
  · rename_i e hn
    obtain ⟨rfl, hw, rfl⟩ := World.engine?_of_standing? hk hn
    split
    · exact after_same hk
    · rename_i d hd
      obtain ⟨k', hgoes, hk'⟩ := World.next_put hw (Engine.works_afterScript hd c h) e.conn
      exact .intro [] hgoes hk' (List.forall_mem_nil _)

/-- A step of a script. -/
theorem after_scriptStep (hk : w.standing? = some k) (n : Nat) (c : Completion)
    (h : ScriptedHandler) (s : ScriptStep) (rest : List ScriptStep) :
    After k (Job.deeds w (.script n c h (s :: rest))) jobs (scriptStep ⟨w, jobs⟩ n c h s rest) := by
  have hscript : ∀ h, ∀ j ∈ [Job.script n c h rest], j.isCallback = false :=
    fun _ => List.forall_mem_singleton.2 rfl
  unfold scriptStep Job.deeds
  dsimp only
  cases hn : w.engine? n with
  | none => exact after_same hk
  | some e =>
    rw [Option.bind_some]
    dsimp only
    -- a step that reaches beyond the desk does nothing to the line
    have hnone : (∀ d, s.entries d = []) → (e.desk?.map s.entries).getD [] = [] := by
      intro hs
      cases e.desk? with
      | none => rfl
      | some d => exact hs d
    have hdesk : ∀ d, e.desk? = some d → After k ((s.entries d).map .entry) jobs (goOn ⟨w, jobs⟩
        (w.put n e.conn (e.put (d.scriptStep (w.size e.conn) s))) [.script n c h rest]) := by
      intro d hd
      obtain ⟨rfl, hw, rfl⟩ := World.engine?_of_standing? hk hn
      obtain ⟨k', hgoes, hk'⟩ := World.next_put hw (Engine.works_scriptStep hd (w.size e.conn) s)
        e.conn
      exact .intro (f := none) _ hgoes hk' (hscript h)
    cases s
    case setAsk ask =>
      rw [hnone fun _ => rfl]
      exact after_rests hk _ (hscript { h with ask })
    case feed t =>
      rw [hnone fun _ => rfl]
      exact after_rests ((World.standing?_feed ..).trans hk) _ (hscript h)
    case runTasks =>
      rw [hnone fun _ => rfl]
      exact after_rests hk (.tasks e.conn :: _) (List.forall_mem_cons.2 ⟨rfl, hscript h⟩)
    case resize size =>
      rw [hnone fun _ => rfl]
      exact after_rests ((World.standing?_resize ..).trans hk) (.tasks e.conn :: _)
        (List.forall_mem_cons.2 ⟨rfl, hscript h⟩)
    case schedule calls resume =>
      rw [hnone fun _ => rfl]
      refine after_rests (Eq.trans (World.standing?_modifyConn fun _ _ => ?_) hk) _ (hscript h)
      split <;> rfl
    all_goals
      dsimp only
      cases hd : e.desk? with
      | none => exact after_same hk
      | some d => exact hdesk d hd

/-- Any job but a callback is a step of the standing. -/
theorem after_run (hk : w.standing? = some k) {j : Job} (hj : j.keeps w = true) :
    After k (j.deeds w) jobs (run host ⟨w, jobs⟩ j) := by
  cases j with
  | tasks conn => exact after_runTasks hk conn
  | deliver n => exact after_deliver hk n
  | schedule n => exact after_same ((World.standing?_scheduleDelivery ..).trans hk)
  | callback n line =>
    refine after_rests (w := { w with journal := { w.journal with lines := w.journal.lines.push line } })
      hk _ ?_
    rw [List.forall_mem_map]
    exact fun _ _ => rfl
  | call c => exact after_callBack hk hj
  | background n calls =>
    have hc : (Call.session n calls).keeps w = true := rfl
    exact after_callLater hk hc _
  | resume n =>
    have hc : (Call.resume n).keeps w = true := rfl
    exact after_callLater hk hc _
  | note n => exact after_same (w := w.note n) hk
  | script n c h rest =>
    cases rest with
    | nil => exact after_endScript hk n c h
    | cons s rest => exact after_scriptStep hk n c h s rest

/-- The jobs that a move leaves as they are. -/
def left (m : Machine) : Move → List Job
  | .call _ => m.jobs
  | .step => m.jobs.tail

/-- Every move is a step of the standing, and the callback of a session that is over then is what is
done next. -/
theorem next_move (host : Host) {m : Machine} (hk : m.world.standing? = some k) {x : Move}
    (hx : m.Keeps x) : After k (x.deeds m) (m.left x) (m.move host x) := by
  cases x with
  | call c => exact after_called (World.after_call hk hx.2) rfl [] (List.forall_mem_nil _)
  | step =>
    obtain ⟨w, jobs⟩ := m
    cases jobs with
    | nil => exact after_same hk
    | cons j jobs => exact after_run hk (hx j rfl)

/-- What every step keeps, with all that was told before, is kept along a run. -/
theorem standing_play {P : List Deed → Standing → Prop}
    (hP : ∀ ds k ds' f k', P ds k → k.Next ds' f k' → P (ds ++ ds') k') {m : Machine} (ds : List Deed)
    (hk : m.world.standing? = some k) (h : P ds k) (moves : List Move)
    (hadmits : m.Admits Keeps host moves) :
    ∃ k', (m.play host moves).world.standing? = some k' ∧
      P (ds ++ record (fun m x => x.deeds m) host m moves) k' := by
  induction moves generalizing m ds k with
  | nil =>
    rw [record_nil, List.append_nil]
    exact ⟨k, hk, h⟩
  | cons x moves ih =>
    have hafter := next_move host hk hadmits.1
    have hadmits' := hadmits.2
    rw [record_cons, ← List.append_assoc, play_cons]
    generalize m.move host x = m' at hafter hadmits' ⊢
    obtain ⟨_, hnext, hw, -⟩ := hafter
    exact ih _ hw (hP _ _ _ _ _ h hnext) hadmits'

/-- An event that is handled, and what is done next. -/
theorem move_handled {e t : Engine} {f : Option Finished} (hn : w.engine? n = some e)
    (hfree : e.busy = false) (hstep : e.step? = some (.settled t f)) :
    move host ⟨w, .deliver n :: jobs⟩ .step =
      ⟨(w.put n e.conn t).close f, Job.ofFinished f ++ .deliver n :: jobs⟩ := by
  change deliver ⟨w, jobs⟩ n = _
  unfold deliver
  dsimp only
  rw [hn]
  dsimp only
  rw [if_neg (by rw [hfree]; decide), hstep]
  dsimp only
  rw [goOn, List.append_assoc]
  rfl

/-- Whether the queue of the only engine is being drained, and all else that is left is to run tasks of
the only connection. -/
def isDraining (m : Machine) : Bool :=
  match m.jobs with
  | [.deliver 0, .tasks 0] => true
  | _ => false

theorem eq_of_isDraining {m : Machine} (h : m.isDraining = true) :
    m = ⟨m.world, [.deliver 0, .tasks 0]⟩ := by
  obtain ⟨w, jobs⟩ := m
  unfold isDraining at h
  dsimp only at h
  split at h
  · rfl
  · cases h

end Machine

end LineEditor
