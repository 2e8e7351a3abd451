import LineEditor.Proofs.Engine.Rules
import LineEditor.Proofs.Host.Callbacks
import LineEditor.Proofs.Host.Solo

/-!
Hosts and the rules of sessions. Any number of engines on any connections, with whatever handlers
and callbacks: as long as what the host and the scripts of its handlers put up keeps to the rules,
and so do the lines that are accepted, everything does.

Main definitions: `Machine.Obeys`, and `Host.Obeys` and `Move.Obeys`, what a host may do. Main
statements: `Machine.Obeys.move` and `Machine.obeys_play`.
-/
namespace LineEditor

variable {R : Rules}

/-! ### Worlds -/

/-- Calls that wait for later keep to the rules. -/
def Task.Obeys (R : Rules) : Task → Prop
  | .background _ (some calls) _ => ∀ k ∈ calls, k.Obeys R
  | _ => True

/-- What waits on a connection keeps to the rules. -/
def Connection.Obeys (R : Rules) (c : Connection) : Prop := ∀ t ∈ c.tasks ++ c.delayed, t.Obeys R

/-- Every engine and every connection keeps to the rules. -/
structure World.Obeys (R : Rules) (w : World) : Prop where
  engines : ∀ n e, w.engine? n = some e → e.Obeys R
  conns : ∀ (n : Nat) (c : Connection), w.conns[n]? = some c → c.Obeys R

theorem Connection.Obeys.execute {c : Connection} {t : Task} (h : c.Obeys R) (ht : t.Obeys R) :
    (c.execute t).Obeys R := by
  intro t' ht'
  simp only [Connection.execute, List.append_assoc, List.mem_append, List.mem_singleton] at ht'
  rcases ht' with hwaits | rfl | hdelayed
  · exact h t' (List.mem_append_left _ hwaits)
  · exact ht
  · exact h t' (List.mem_append_right _ hdelayed)

theorem Connection.Obeys.schedule {c : Connection} {t : Task} (h : c.Obeys R) (ht : t.Obeys R) :
    (c.schedule t).Obeys R := by
  intro t' ht'
  simp only [Connection.schedule, List.mem_append, List.mem_singleton] at ht'
  rcases ht' with hwaits | hdelayed | rfl
  · exact h t' (List.mem_append_left _ hwaits)
  · exact h t' (List.mem_append_right _ hdelayed)
  · exact ht

theorem Connection.obeys_new (R : Rules) (size : Size) (controls : ControlChars) :
    (Connection.new size controls).Obeys R := List.forall_mem_nil _

namespace World

variable {w : World} {n : Nat} {e : Engine} {r : Request}

theorem Obeys.setEngine (h : w.Obeys R) (n : Nat) (he : e.Obeys R) : (w.setEngine n e).Obeys R := by
  refine ⟨?_, h.conns⟩
  intro k e' he'
  simp only [World.setEngine, World.engine?, List.getElem?_set] at he'
  split at he'
  · split at he'
    · cases he'
      exact he
    · cases he'
  · exact h.engines k e' he'

theorem Obeys.modifyConn {f : Connection → Connection} (h : w.Obeys R) (n : Nat)
    (hf : ∀ c, c.Obeys R → (f c).Obeys R) : (w.modifyConn n f).Obeys R := by
  refine ⟨h.engines, ?_⟩
  intro k c hc
  simp only [World.modifyConn, List.getElem?_modify, Option.map_eq_map,
    Option.map_eq_some_iff] at hc
  obtain ⟨c', hc', rfl⟩ := hc
  split
  · exact hf c' (h.conns k c' hc')
  · exact h.conns k c' hc'

theorem obeys_solo {c : Connection} (he : e.Obeys R) (hc : c.Obeys R) (j : Journal) :
    (solo e c j).Obeys R := by
  refine ⟨?_, ?_⟩
  · rintro (_ | n) e' hn
    · cases hn
      exact he
    · cases hn
  · rintro (_ | n) c' hn
    · cases hn
      exact hc
    · cases hn

theorem Obeys.note (h : w.Obeys R) (n : Note) : (w.note n).Obeys R := ⟨h.engines, h.conns⟩

theorem Obeys.record (h : w.Obeys R) (e : Log.Entry) : (w.record e).Obeys R := ⟨h.engines, h.conns⟩

theorem Obeys.perform (h : w.Obeys R) (conn : Nat) (bell : BellStyle) (x : Effect) :
    (w.perform conn bell x).Obeys R := by
  have hwrite : ∀ t, (w.modifyConn conn (·.write t)).Obeys R :=
    fun t => h.modifyConn conn fun c hc => hc
  cases x with
  | write t => exact hwrite t
  | draw t => exact hwrite t
  | ring =>
    simp only [World.perform]
    split
    · exact hwrite _
    · exact h
  | log l => exact h.record l
  | note n => exact h.note n

/-- An engine that leaves its work to a connection. -/
theorem Obeys.put (h : w.Obeys R) (n conn : Nat) (he : e.Obeys R) : (w.put n conn e).Obeys R := by
  rw [World.put]
  have hset := h.setEngine n he.carriedOut
  generalize w.setEngine n { e with effects := [] } = w' at hset ⊢
  induction e.effects generalizing w' with
  | nil => exact hset
  | cons x xs ih => exact ih _ (hset.perform ..)

theorem Obeys.restore (h : w.Obeys R) (conn : Nat) (previous : Handlers) :
    (w.restore conn previous).Obeys R := h.modifyConn conn fun _ hc => hc

theorem Obeys.close (h : w.Obeys R) (f : Option Finished) : (w.close f).Obeys R := by
  cases f with
  | none => exact h
  | some f => exact h.restore ..

theorem Obeys.scheduleDelivery (h : w.Obeys R) (n : Nat) : (w.scheduleDelivery n).Obeys R := by
  rw [World.scheduleDelivery]
  split
  · exact h
  · rename_i e he
    split
    · exact h
    · split
      · exact h
      · have hasked : ({ e with scheduled := true } : Engine).Obeys R :=
          { h.engines n e he with }
        exact (h.setEngine n hasked).modifyConn _ fun c hc => hc.execute trivial

theorem Obeys.receiveInput (h : w.Obeys R) (n : Nat) (t : Text) : (w.receiveInput n t).Obeys R := by
  rw [World.receiveInput]
  split
  · exact h
  · rename_i e he
    split
    · exact h.record _
    · exact (h.setEngine n ((h.engines n e he).setQueue _)).scheduleDelivery n

theorem Obeys.deliverAll (h : w.Obeys R) {conn : Nat} {c : Connection} (hc : c.Obeys R)
    (ds : List (Owner × Delivery)) : (w.deliverAll conn (c, ds)).Obeys R := by
  have hdeliver : ∀ {w : World} (x : Owner × Delivery), w.Obeys R → (w.deliver x).Obeys R := by
    rintro w ⟨n | n, t | ⟨s, c⟩⟩ h
    · exact h.receiveInput n t
    · exact h
    · exact h.note _
    · exact h.note _
  have hset := h.modifyConn conn (f := fun _ => c) fun _ _ => hc
  simp only [World.deliverAll]
  generalize w.modifyConn conn (fun _ => c) = w' at hset ⊢
  induction ds generalizing w' with
  | nil => exact hset
  | cons x ds ih => exact ih _ (hdeliver x hset)

theorem Obeys.feed (h : w.Obeys R) (conn : Nat) (bytes : List UInt8) :
    (w.feed conn bytes).Obeys R := by
  rw [World.feed]
  split
  · exact h
  · rename_i c hc
    have hreceived : (c.receive bytes).1.Obeys R := h.conns conn c hc
    exact h.deliverAll hreceived _

theorem Obeys.endOfStream (h : w.Obeys R) (conn : Nat) : (w.endOfStream conn).Obeys R := by
  rw [World.endOfStream]
  split
  · exact h
  · rename_i c hc
    have hended : c.endOfStream.1.Obeys R := h.conns conn c hc
    exact h.deliverAll hended _

theorem Obeys.resize (h : w.Obeys R) (conn : Nat) (s : Size) : (w.resize conn s).Obeys R := by
  have hsized := h.modifyConn conn (f := (·.setSize s)) fun c hc => hc
  simp only [World.resize]
  split
  · exact hsized
  · exact hsized.modifyConn conn fun c hc => hc.execute trivial
  · exact hsized.note _

theorem Obeys.receiveSize (h : w.Obeys R) (n : Nat) (s : Size) : (w.receiveSize n s).Obeys R := by
  rw [World.receiveSize]
  split
  · exact h
  · rename_i e he
    split
    · exact h.record _
    · split
      · exact h
      · exact h.put n _ ((h.engines n e he).resized s)

theorem Obeys.queueInput (h : w.Obeys R) (n : Nat) (he : e.Obeys R) (t : Text) :
    (w.queueInput n e t).Obeys R := by
  have hset := h.setEngine n (he.setQueue (e.queue.append t))
  simp only [World.queueInput]
  split
  · exact hset.scheduleDelivery n
  · exact hset

theorem Obeys.drop (h : w.Obeys R) (n : Nat) : (w.drop n).Obeys R := by
  rw [World.drop]
  split
  · exact h
  · have hdropped : World.Obeys R { w with engines := w.engines.set n none } := by
      refine ⟨?_, h.conns⟩
      intro k e' he'
      simp only [World.engine?, List.getElem?_set] at he'
      split at he'
      · split at he' <;> cases he'
      · exact h.engines k e' he'
    dsimp only
    split
    · exact hdropped
    · exact hdropped.restore ..

theorem Obeys.readline (h : w.Obeys R) (hr : ∀ h, r.handler = some h → R.employs h)
    {callback : Nat} {w' : World} (hw : w.readline r callback = .ok w') : w'.Obeys R := by
  rw [World.readline] at hw
  split at hw
  · rename_i e c he hc
    split at hw
    · cases hw
    · split at hw
      · cases hw
      · have hinstalled : (c.install (sessionHandlers r.engine)).1.Obeys R := h.conns _ c hc
        have hput := (h.modifyConn r.conn (f := fun _ => (c.install (sessionHandlers r.engine)).1)
          fun _ _ => hinstalled).put r.engine r.conn
          ((h.engines _ e he).start hr callback c.size.cols c.handlers)
        cases hw
        split
        · exact hput.scheduleDelivery _
        · exact hput
  · cases hw
    exact h

end World

/-! ### Calls -/

/-- What a host puts up with a call keeps to the rules. -/
def Call.Obeys (R : Rules) : Call → Prop
  | .readline r _ => ∀ h, r.handler = some h → R.employs h
  | .session _ calls => ∀ k ∈ calls, k.Obeys R
  | .history _ calls => ∀ c ∈ calls, c.Obeys R
  | _ => True

/-- What the callbacks of a host put up keeps to the rules. -/
def Host.Obeys (R : Rules) (host : Host) : Prop := ∀ n line, ∀ c ∈ host.onLine n line, c.Obeys R

/-- What a host puts up with a move keeps to the rules. -/
def Move.Obeys (R : Rules) : Move → Prop
  | .call c => c.Obeys R
  | .step => True

/-- What a job puts up keeps to the rules. -/
def Job.Obeys (R : Rules) : Job → Prop
  | .call c => c.Obeys R
  | .script _ _ h rest => R.employs (.scripted h) ∧ ∀ s ∈ rest, s.Obeys R
  | .background _ calls => ∀ k ∈ calls, k.Obeys R
  | _ => True

/-- A call keeps to the rules, with the jobs that it leads to. -/
structure Called.Obeys (R : Rules) (r : Called) : Prop where
  world : r.world.Obeys R
  jobs : ∀ j ∈ r.jobs, j.Obeys R

theorem Job.obeys_ofFinished (R : Rules) (f : Option Finished) :
    ∀ j ∈ Job.ofFinished f, j.Obeys R := by
  cases f with
  | none => exact List.forall_mem_nil _
  | some f => exact List.forall_mem_singleton.2 trivial

namespace World

variable {w : World} {n : Nat} {e : Engine}

/-- A call that leads to no job. -/
theorem Obeys.called (h : w.Obeys R) (reply : Reply) :
    Called.Obeys R { world := w, reply } := ⟨h, List.forall_mem_nil _⟩

/-- A call after which tasks are run. -/
theorem Obeys.calledTasks (h : w.Obeys R) (conn : Nat) (reply : Reply) :
    Called.Obeys R { world := w, jobs := [.tasks conn], reply } :=
  ⟨h, List.forall_mem_singleton.2 trivial⟩

theorem Obeys.callEngine (h : w.Obeys R) {f : Engine → Called}
    (hf : ∀ e, w.engine? n = some e → e.Obeys R → (f e).Obeys R) : (w.callEngine n f).Obeys R := by
  rw [World.callEngine]
  split
  · exact h.called _
  · rename_i e he
    split
    · exact h.called _
    · exact hf e he (h.engines n e he)

theorem Obeys.callResume (h : w.Obeys R) (he : e.Obeys R) : (w.callResume n e).Obeys R := by
  rw [World.callResume]
  split
  · exact h.called _
  · rename_i e' f hok
    refine ⟨(h.put n _ (he.resume hok)).close f, List.forall_mem_append.2 ⟨?_, ?_⟩⟩
    · exact Job.obeys_ofFinished R f
    · exact List.forall_mem_singleton.2 trivial

theorem Obeys.callSession (h : w.Obeys R) (he : e.Obeys R) {calls : List SessionCall}
    (hcalls : ∀ k ∈ calls, k.Obeys R) : (w.callSession n e calls).Obeys R := by
  rw [World.callSession]
  split
  · exact h.called _
  · rename_i e' replies f hok
    exact ⟨(h.put n _ (he.answers hcalls hok)).close f, Job.obeys_ofFinished R f⟩

theorem Obeys.callHistory (h : w.Obeys R) (he : e.Obeys R) {calls : List HistoryCall}
    (hcalls : ∀ c ∈ calls, c.Obeys R) : (w.callHistory n e calls).Obeys R := by
  have hhistory : (collectEach HistoryCall.run e.history calls).1.Only R.shows := by
    have hbefore := he.editor.history
    clear he
    generalize e.history = history at hbefore ⊢
    induction calls generalizing history with
    | nil => exact hbefore
    | cons c calls ih =>
      obtain ⟨hc, hcalls⟩ := List.forall_mem_cons.1 hcalls
      have hcons : (collectEach HistoryCall.run history (c :: calls)).1 =
          (collectEach HistoryCall.run (c.run history).1 calls).1 := by
        simp [collectEach, collect_cons]
      rw [hcons]
      refine ih hcalls _ (hbefore.run ?_)
      rintro line rfl
      exact hc
  have hset : ({ e with history := (collectEach HistoryCall.run e.history calls).1 } :
      Engine).Obeys R :=
    { he with editor := { he.editor with history := hhistory } }
  exact (h.setEngine n hset).called _

theorem Obeys.call (h : w.Obeys R) {c : Call} (hc : c.Obeys R) : (w.call c).Obeys R := by
  cases c with
  | readline r callback =>
    refine h.callEngine fun e he _ => ?_
    split
    · rename_i w' hw
      exact (h.readline hc hw).called _
    · exact h.called _
  | queue n t => exact h.callEngine fun e _ he => (h.queueInput n he t).called _
  | resume n => exact h.callEngine fun e _ he => h.callResume he
  | session n calls => exact h.callEngine fun e _ he => h.callSession he hc
  | history n calls => exact h.callEngine fun e _ he => h.callHistory he hc
  | bind n event k =>
    refine h.callEngine fun e _ he => ?_
    have hstyle : R.edits (e.keymap.bind event k).style := by
      rw [Desk.style_bind]
      exact he.editor.style
    have hset : ({ e with keymap := e.keymap.bind event k } : Engine).Obeys R :=
      { he with editor := { he.editor with style := hstyle } }
    exact (h.setEngine n hset).called _
  | style n => exact h.callEngine fun e _ _ => h.called _
  | drop n => exact (h.drop n).called _
  | feed conn bytes => exact (h.feed conn bytes).called _
  | runTasks conn => exact h.calledTasks conn _
  | runDelayed conn =>
    refine Obeys.calledTasks (h.modifyConn conn fun c hc => ?_) conn _
    intro t ht
    refine hc t ?_
    simpa [Connection.releaseDelayed] using ht
  | endOfStream conn => exact (h.endOfStream conn).calledTasks conn _
  | resize conn s => exact (h.resize conn s).calledTasks conn _
  | setHandlers conn f =>
    have hset := h.modifyConn conn (f := fun c => { c with handlers := f c.handlers })
      fun _ hc => hc
    exact hset.called _

end World

/-! ### Jobs -/

/-- The lines that a job accepts. -/
def Job.accepts (w : World) : Job → List (Option Text)
  | .deliver n => ((w.engine? n).map Engine.ends).getD []
  | .script n _ _ (s :: _) => (((w.engine? n).bind Engine.desk?).map s.accepts).getD []
  | _ => []

/-- The lines that a move accepts. -/
def Move.accepts (m : Machine) : Move → List (Option Text)
  | .call _ => []
  | .step => (m.jobs.head?.map (Job.accepts m.world)).getD []

namespace Machine

/-- The world keeps to the rules, and so does what is left to do. -/
structure Obeys (R : Rules) (m : Machine) : Prop where
  world : m.world.Obeys R
  jobs : ∀ j ∈ m.jobs, j.Obeys R

variable {m : Machine} {w : World} {jobs : List Job} {host : Host}

theorem Obeys.goOn (h : m.Obeys R) (hw : w.Obeys R) (hjobs : ∀ j ∈ jobs, j.Obeys R) :
    (m.goOn w jobs).Obeys R :=
  ⟨hw, List.forall_mem_append.2 ⟨hjobs, h.jobs⟩⟩

theorem Obeys.called (h : m.Obeys R) {r : Called} (hr : r.Obeys R) :
    (m.goOn r.world r.jobs).Obeys R := h.goOn hr.world hr.jobs

theorem Obeys.callBack (h : m.Obeys R) {c : Call} (hc : c.Obeys R) : (m.callBack c).Obeys R := by
  have hcalled := h.world.call hc
  simp only [Machine.callBack]
  split
  · exact h.goOn (hcalled.world.note _) hcalled.jobs
  · exact h.called hcalled

theorem Obeys.callLater (h : m.Obeys R) {c : Call} (hc : c.Obeys R) (n : Reply → Note) :
    (m.callLater c n).Obeys R := by
  have hcalled := h.world.call hc
  refine h.goOn hcalled.world (List.forall_mem_append.2 ⟨hcalled.jobs, ?_⟩)
  exact List.forall_mem_singleton.2 trivial

theorem Obeys.runTask (h : m.Obeys R) {t : Task} (ht : t.Obeys R) : (m.runTask t).Obeys R := by
  cases t with
  | deliver n =>
    simp only [Machine.runTask]
    split
    · exact h
    · rename_i e he
      split
      · exact h
      · have hbegun : ({ e with scheduled := false } : Engine).Obeys R :=
          { h.world.engines n e he with }
        exact h.goOn (h.world.setEngine n hbegun) (List.forall_mem_singleton.2 trivial)
  | resize n s => exact h.goOn (h.world.receiveSize n s) (List.forall_mem_nil _)
  | background n calls resume =>
    refine h.goOn h.world (List.forall_mem_append.2 ⟨?_, ?_⟩)
    · cases calls with
      | none => exact List.forall_mem_nil _
      | some calls => exact List.forall_mem_singleton.2 ht
    · split
      · exact List.forall_mem_singleton.2 trivial
      · exact List.forall_mem_nil _

theorem Obeys.runTasks (h : m.Obeys R) (conn : Nat) : (m.runTasks conn).Obeys R := by
  rw [Machine.runTasks]
  split
  · exact h
  · rename_i t c hpop
    obtain ⟨c', hc', hpop⟩ := Option.bind_eq_some_iff.1 hpop
    have hconn := h.world.conns conn c' hc'
    rw [Connection.popTask] at hpop
    split at hpop
    · cases hpop
    · rename_i t' rest hwaiting
      cases hpop
      simp only [Connection.Obeys, hwaiting, List.cons_append, List.forall_mem_cons] at hconn
      have hpopped := h.world.modifyConn conn (f := fun _ => { c' with tasks := rest })
        fun _ _ => hconn.2
      have htasks : ∀ j ∈ [Job.tasks conn], j.Obeys R := List.forall_mem_singleton.2 trivial
      exact (h.goOn hpopped htasks).runTask hconn.1

theorem Obeys.deliver (h : m.Obeys R) (hscripts : R.Scripts) (n : Nat)
    (hline : ∀ e, m.world.engine? n = some e → ∀ line, some line ∈ e.ends → line.Only R.shows) :
    (m.deliver n).Obeys R := by
  rw [Machine.deliver]
  split
  · exact h
  · rename_i e hn
    have he := h.world.engines n e hn
    split
    · exact h
    · rename_i hfree
      have haccepted : ∀ x ∈ e.next?, ∀ line, some line ∈ e.endsBy x.1 x.2 →
          line.Only R.shows := by
        intro x hx line hends
        refine hline e hn line ?_
        rw [Engine.ends, if_neg hfree, Option.mem_def.1 hx]
        exact hends
      split
      · exact h
      · rename_i e' f hstep
        refine h.goOn ((h.world.put n _ (he.step hstep haccepted)).close f) ?_
        refine List.forall_mem_append.2 ⟨Job.obeys_ofFinished R f, ?_⟩
        exact List.forall_mem_singleton.2 trivial
      · rename_i e' c s hstep
        obtain ⟨hs, he'⟩ := he.step hstep haccepted
        have hbusy : ({ e' with busy := true } : Engine).Obeys R := { he' with }
        refine h.goOn ((h.world.put n _ hbusy).note _) (List.forall_mem_cons.2 ⟨?_, ?_⟩)
        · exact ⟨R.employs_scripted s s.ask (s.calls + 1) hs, hscripts s hs⟩
        · exact List.forall_mem_singleton.2 trivial

theorem Obeys.endScript (h : m.Obeys R) (n : Nat) (c : Completion) {s : ScriptedHandler}
    (hs : R.employs (.scripted s)) : (m.endScript n c s).Obeys R := by
  rw [Machine.endScript]
  split
  · exact h
  · rename_i e hn
    split
    · exact h
    · rename_i d hd
      have hended := Engine.obeys_afterScript e ((h.world.engines n e hn).desk hd) c hs
      have htaken := hended.takeFinished
      exact h.goOn ((h.world.put n _ htaken).close _) (Job.obeys_ofFinished R _)

theorem Obeys.scriptStep (h : m.Obeys R) (n : Nat) (c : Completion) {k : ScriptedHandler}
    (hk : R.employs (.scripted k)) {s : ScriptStep} (hs : s.Obeys R) {rest : List ScriptStep}
    (hrest : ∀ s ∈ rest, s.Obeys R)
    (hline : ∀ e d, m.world.engine? n = some e → e.desk? = some d →
      ∀ line, some line ∈ s.accepts d → line.Only R.shows) :
    (m.scriptStep n c k s rest).Obeys R := by
  have hothers : ∀ j ∈ [Job.script n c k rest], j.Obeys R :=
    List.forall_mem_singleton.2 ⟨hk, hrest⟩
  have htasks : ∀ conn, ∀ j ∈ .tasks conn :: [Job.script n c k rest], j.Obeys R :=
    fun _ => List.forall_mem_cons.2 ⟨trivial, hothers⟩
  rw [Machine.scriptStep]
  split
  · exact h
  · rename_i e hn
    have he := h.world.engines n e hn
    split
    · rename_i ask
      refine h.goOn h.world (List.forall_mem_singleton.2 ⟨?_, hrest⟩)
      exact R.employs_scripted k ask k.calls hk
    · exact h.goOn (h.world.feed ..) hothers
    · exact h.goOn h.world (htasks _)
    · exact h.goOn (h.world.resize ..) (htasks _)
    · rename_i calls resume
      have htask : (Task.background n calls resume).Obeys R := by
        cases calls with
        | none => trivial
        | some calls => exact hs
      refine h.goOn (h.world.modifyConn _ fun conn hconn => ?_) hothers
      split
      · exact hconn.schedule htask
      · exact hconn.execute htask
    · split
      · exact h
      · rename_i d hd
        have hdesk := (he.desk hd).scriptStep (m.world.size e.conn) hs (hline e d hn hd)
        exact h.goOn (h.world.put n _ (Engine.obeys_put e hdesk)) hothers

theorem Obeys.run {j : Job} (h : m.Obeys R) (hscripts : R.Scripts) (hhost : host.Obeys R)
    (hj : j.Obeys R) (hline : ∀ line, some line ∈ j.accepts m.world → line.Only R.shows) :
    (m.run host j).Obeys R := by
  cases j with
  | tasks conn => exact h.runTasks conn
  | deliver n =>
    refine h.deliver hscripts n fun e hn line hends => hline line ?_
    rw [Job.accepts, hn]
    exact hends
  | schedule n => exact h.goOn (h.world.scheduleDelivery n) (List.forall_mem_nil _)
  | callback n line =>
    exact h.goOn ⟨h.world.engines, h.world.conns⟩ (List.forall_mem_map.2 (hhost n line))
  | call c => exact h.callBack hj
  | script n c k rest =>
    cases rest with
    | nil => exact h.endScript n c hj.1
    | cons s rest =>
      obtain ⟨hs, hrest⟩ := List.forall_mem_cons.1 hj.2
      refine h.scriptStep n c hj.1 hs hrest fun e d hn hd line hends => hline line ?_
      rw [Job.accepts, hn, Option.bind_some, hd]
      exact hends
  | background n calls => exact h.callLater (c := .session n calls) hj _
  | resume n => exact h.callLater (c := .resume n) trivial _
  | note n => exact h.goOn (h.world.note n) (List.forall_mem_nil _)

theorem Obeys.move (h : m.Obeys R) (hscripts : R.Scripts) (hhost : host.Obeys R) {x : Move}
    (hx : x.Obeys R) (hline : ∀ line, some line ∈ x.accepts m → line.Only R.shows) :
    (m.move host x).Obeys R := by
  cases x with
  | call c => exact h.called (h.world.call hx)
  | step =>
    obtain ⟨w, jobs⟩ := m
    cases jobs with
    | nil => exact h
    | cons j jobs =>
      obtain ⟨hj, hjobs⟩ := List.forall_mem_cons.1 h.jobs
      have hrest : Machine.Obeys R ⟨w, jobs⟩ := ⟨h.world, hjobs⟩
      exact hrest.run hscripts hhost hj hline

/-- A line that is accepted is a continuation line. -/
theorem Obeys.accepts (h : m.Obeys R) {x : Move} {line : Text} (hline : some line ∈ x.accepts m) :
    line.Only R.holds := by
  obtain ⟨w, jobs⟩ := m
  rcases x with c | _
  · cases hline
  rcases jobs with _ | ⟨j, jobs⟩
  · cases hline
  change some line ∈ j.accepts w at hline
  cases j
  case deliver n =>
    rw [Job.accepts] at hline
    cases hn : w.engine? n with
    | none =>
      rw [hn] at hline
      cases hline
    | some e =>
      rw [hn, Option.map_some, Option.getD_some, Engine.ends] at hline
      split at hline
      · cases hline
      · cases hnext : e.next? with
        | none =>
          rw [hnext] at hline
          cases hline
        | some x =>
          rw [hnext] at hline
          exact Engine.endsBy_only ((h.world.engines n e hn).next hnext) hline
  case script n c k rest =>
    rcases rest with _ | ⟨s, rest⟩
    · cases hline
    rw [Job.accepts] at hline
    cases hn : w.engine? n with
    | none =>
      rw [hn] at hline
      cases hline
    | some e =>
      rw [hn, Option.bind_some] at hline
      cases hd : e.desk? with
      | none =>
        rw [hd] at hline
        cases hline
      | some d =>
        rw [hd, Option.map_some, Option.getD_some] at hline
        cases s
        case apply k => exact ((h.world.engines n e hn).desk hd).ends hline
        all_goals cases hline
  all_goals cases hline

/-- Along a run everything keeps to the rules, as long as the accepted lines do. -/
theorem obeys_play (hscripts : R.Scripts) (hhost : host.Obeys R) {moves : List Move}
    (hmoves : ∀ x ∈ moves, x.Obeys R) (h : m.Obeys R)
    (hlines : ∀ line, some line ∈ record (fun m x => x.accepts m) host m moves →
      line.Only R.holds → line.Only R.shows) : (m.play host moves).Obeys R := by
  induction moves generalizing m with
  | nil => exact h
  | cons x moves ih =>
    obtain ⟨hx, hmoves⟩ := List.forall_mem_cons.1 hmoves
    rw [record_cons] at hlines
    have hline : ∀ line, some line ∈ x.accepts m → line.Only R.shows := fun line hline =>
      hlines line (List.mem_append_left _ hline) (h.accepts hline)
    refine ih hmoves (h.move hscripts hhost hx hline) ?_
    exact fun line hline => hlines line (List.mem_append_right _ hline)

end Machine

end LineEditor
