import LineEditor.Proofs.Engine.Inserting
import LineEditor.Proofs.Host.Returns
import LineEditor.Proofs.Host.Turns

/-!
Hosts of engines at which text is inserted only. As long as no escape arrives, no key is bound anew and
candidates are offered by the usual handlers, nothing that can be seen depends on the styles of the
engines.

Main definitions: `Call.Inserts`, what a host may do, and `World.Akin` and `Machine.Akin`. Main
statements: `Machine.Akin.move` and `Machine.Akin.play`.
-/
namespace LineEditor

theorem Engine.conn_refit (r : Refit) (e : Engine) : (e.refit r).conn = e.conn := by
  simp only [conn, refit, Option.map_map]
  rfl

/-- Worlds whose engines differ in their style only. -/
structure World.Akin (w w' : World) : Prop where
  engines : ∀ n, Option.Rel Engine.Akin (w.engine? n) (w'.engine? n)
  conns_eq : w'.conns = w.conns
  journal_eq : w'.journal = w.journal

namespace World.Akin

variable {w w' : World} {e e' t t' : Engine} {n conn : Nat}

/-- There is no engine on either side, or one on both. -/
theorem cases (h : w.Akin w') (n : Nat) : (w.engine? n = none ∧ w'.engine? n = none) ∨
    ∃ e style, w.engine? n = some e ∧ w'.engine? n = some (e.refit (.restyle style)) ∧ e.Inserts := by
  have hn := h.engines n
  generalize w.engine? n = o at hn ⊢
  generalize w'.engine? n = o' at hn ⊢
  cases hn with
  | none => exact .inl ⟨rfl, rfl⟩
  | some hakin =>
    obtain ⟨hinserts, style, rfl⟩ := hakin
    exact .inr ⟨_, style, rfl, rfl, hinserts⟩

theorem size_eq (h : w.Akin w') (n : Nat) : w'.size n = w.size n := by
  rw [World.size, World.size, h.conns_eq]

/-! ### What engines do -/

theorem setEngine (h : w.Akin w') (hn : w.engine? n = some e) (hn' : w'.engine? n = some e')
    (ht : t.Akin t') : (w.setEngine n t).Akin (w'.setEngine n t') := by
  refine ⟨fun k => ?_, h.conns_eq, h.journal_eq⟩
  rw [engine?_setEngine hn, engine?_setEngine hn']
  split
  · exact .some ht
  · exact h.engines k

theorem modifyConn (h : w.Akin w') (n : Nat) (f : Connection → Connection) :
    (w.modifyConn n f).Akin (w'.modifyConn n f) :=
  ⟨h.engines, congrArg (List.modify · n f) h.conns_eq, h.journal_eq⟩

theorem journal (h : w.Akin w') (f : Journal → Journal) :
    World.Akin { w with journal := f w.journal } { w' with journal := f w'.journal } :=
  ⟨h.engines, h.conns_eq, congrArg f h.journal_eq⟩

theorem note (h : w.Akin w') (x : Note) : (w.note x).Akin (w'.note x) := h.journal (·.note x)

theorem record (h : w.Akin w') (x : Log.Entry) : (w.record x).Akin (w'.record x) :=
  h.journal (·.record x)

theorem perform (h : w.Akin w') (conn : Nat) (bell : BellStyle) (x : Effect) :
    (w.perform conn bell x).Akin (w'.perform conn bell x) := by
  cases x with
  | write t => exact h.modifyConn conn _
  | draw t => exact h.modifyConn conn _
  | ring =>
    unfold World.perform
    dsimp only
    split
    · exact h.modifyConn conn _
    · exact h
  | log x => exact h.record x
  | note x => exact h.note x

/-- What both branches come to, where the same is asked on both sides. -/
theorem ite {c : Prop} [Decidable c] {v v' : World} (hpos : c → w.Akin w') (hneg : ¬ c → v.Akin v') :
    (if c then w else v).Akin (if c then w' else v') := by
  split
  · exact hpos ‹_›
  · exact hneg ‹_›

/-- The effects of work are carried out in the same way. -/
theorem put (h : w.Akin w') (hn : w.engine? n = some e) (hn' : w'.engine? n = some e')
    (conn : Nat) (ht : t.Inserts) (style : EditStyle) :
    (w.put n conn t).Akin (w'.put n conn (t.refit (.restyle style))) := by
  have hinserts : ({ t with effects := [] } : Engine).Inserts := { ht with }
  exact List.foldl_rel (h.setEngine hn hn' (hinserts.akin style))
    fun x _ _ _ hakin => hakin.perform conn _ x

/-! ### What arrives -/

theorem scheduleDelivery (h : w.Akin w') (n : Nat) :
    (w.scheduleDelivery n).Akin (w'.scheduleDelivery n) := by
  unfold World.scheduleDelivery
  rcases h.cases n with ⟨hn, hn'⟩ | ⟨e, style, hn, hn', he⟩
  · rw [hn, hn']
    exact h
  · rw [hn, hn']
    dsimp only
    refine ite (fun _ => h) fun _ => ?_
    have hasked : ({ e with scheduled := true } : Engine).Inserts := { he with }
    obtain ⟨editor, session, pendingResize, scheduled, busy⟩ := e
    cases session with
    | none => exact h
    | some s => exact (h.setEngine hn hn' (hasked.akin style)).modifyConn s.conn _

theorem queue (h : w.Akin w') (hn : w.engine? n = some e) (he : e.Inserts) {style : EditStyle}
    (hn' : w'.engine? n = some (e.refit (.restyle style))) {t : Text} (ht : t.Unescaped) :
    (w.setEngine n { e with queue := e.queue.append t }).Akin
      (w'.setEngine n { e.refit (.restyle style) with queue := e.queue.append t }) := by
  have hqueued : ({ e with queue := e.queue.append t } : Engine).Inserts :=
    { he with queue := Text.only_append.2 ⟨he.queue, ht⟩ }
  exact h.setEngine hn hn' (hqueued.akin style)

theorem receiveInput (h : w.Akin w') (n : Nat) {t : Text} (ht : t.Unescaped) :
    (w.receiveInput n t).Akin (w'.receiveInput n t) := by
  unfold World.receiveInput
  rcases h.cases n with ⟨hn, hn'⟩ | ⟨e, style, hn, hn', he⟩
  · rw [hn, hn']
    exact h
  · rw [hn, hn']
    exact ite (fun _ => h.record _) fun _ => (h.queue hn he hn' ht).scheduleDelivery n

theorem deliverAll (h : w.Akin w') (conn : Nat) (c : Connection) {ds : List (Owner × Delivery)}
    (hds : ∀ o t, (o, .read t) ∈ ds → t.Unescaped) :
    (w.deliverAll conn (c, ds)).Akin (w'.deliverAll conn (c, ds)) := by
  refine List.foldl_rel (h.modifyConn conn fun _ => c) fun x hx w w' hakin => ?_
  rcases x with ⟨n | n, t | ⟨s, c⟩⟩
  · exact hakin.receiveInput n (hds _ t hx)
  · exact hakin
  · exact hakin.note _
  · exact hakin.note _

theorem feed (h : w.Akin w') (conn : Nat) {bytes : List UInt8} (hbytes : 0x1B ∉ bytes) :
    (w.feed conn bytes).Akin (w'.feed conn bytes) := by
  unfold World.feed
  rw [h.conns_eq]
  split
  · exact h
  · rename_i c _
    have htext := Utf8.Decoder.unescaped_decode hbytes c.decoder
    exact h.deliverAll conn _ fun o t ht => Connection.unescaped_deliveries _ htext ht

theorem endOfStream (h : w.Akin w') (conn : Nat) :
    (w.endOfStream conn).Akin (w'.endOfStream conn) := by
  unfold World.endOfStream
  rw [h.conns_eq]
  split
  · exact h
  · rename_i c _
    have htext : Text.Unescaped c.decoder.finish.2.toList := by
      rw [Utf8.Decoder.finish]
      split
      · exact Text.only_singleton (by decide)
      · exact Text.only_nil
    exact h.deliverAll conn _ fun o t ht => Connection.unescaped_deliveries _ htext ht

theorem resize (h : w.Akin w') (conn : Nat) (s : Size) :
    (w.resize conn s).Akin (w'.resize conn s) := by
  have hsized := h.modifyConn conn (·.setSize s)
  unfold World.resize
  dsimp only
  rw [hsized.conns_eq]
  split
  · exact hsized
  · exact hsized.modifyConn conn _
  · exact hsized.note _

theorem receiveSize (h : w.Akin w') (n : Nat) (s : Size) :
    (w.receiveSize n s).Akin (w'.receiveSize n s) := by
  unfold World.receiveSize
  rcases h.cases n with ⟨hn, hn'⟩ | ⟨e, style, hn, hn', he⟩
  · rw [hn, hn']
    exact h
  · rw [hn, hn']
    dsimp only
    refine ite (fun _ => h.record _) fun _ => ?_
    rw [Engine.session_restyle, Engine.refit_resized]
    split
    · exact h
    · exact h.put hn hn' _ (he.resized s) style

theorem queueInput (h : w.Akin w') (hn : w.engine? n = some e) (he : e.Inserts) {style : EditStyle}
    (hn' : w'.engine? n = some (e.refit (.restyle style))) {t : Text} (ht : t.Unescaped) :
    (w.queueInput n e t).Akin (w'.queueInput n (e.refit (.restyle style)) t) := by
  have hqueued := h.queue hn he hn' ht
  have hready : ({ e.refit (.restyle style) with queue := e.queue.append t } : Engine).canDeliver =
      ({ e with queue := e.queue.append t } : Engine).canDeliver :=
    congrArg ((e.queue.append t).hasNext && ·) (Engine.isListening_refit (.restyle style) e)
  unfold World.queueInput
  dsimp only
  rw [show ({ e.refit (.restyle style) with
    queue := (e.refit (.restyle style)).queue.append t } : Engine).canDeliver = _ from hready]
  exact ite (fun _ => hqueued.scheduleDelivery n) fun _ => hqueued

/-! ### Sessions that begin and end -/

theorem close (h : w.Akin w') (f : Option Finished) : (w.close f).Akin (w'.close f) := by
  cases f with
  | none => exact h
  | some f => exact h.modifyConn f.conn _

theorem drop (h : w.Akin w') (n : Nat) : (w.drop n).Akin (w'.drop n) := by
  unfold World.drop
  rcases h.cases n with ⟨hn, hn'⟩ | ⟨e, style, hn, hn', he⟩
  · rw [hn, hn']
    exact h
  · rw [hn, hn']
    have hdropped : World.Akin { w with engines := w.engines.set n none }
        { w' with engines := w'.engines.set n none } := by
      refine ⟨fun k => ?_, h.conns_eq, h.journal_eq⟩
      rw [engine?_set_none, engine?_set_none]
      split
      · exact .none
      · exact h.engines k
    dsimp only
    rw [Engine.session_restyle]
    split
    · exact hdropped
    · exact hdropped.modifyConn _ _

/-- The same line begins, or it is refused. -/
theorem readline (h : w.Akin w') (r : Request) (callback : Nat) :
    (∃ err, w.readline r callback = .error err ∧ w'.readline r callback = .error err) ∨
      ∃ w₁ w₁', w.readline r callback = .ok w₁ ∧ w'.readline r callback = .ok w₁' ∧ w₁.Akin w₁' := by
  unfold World.readline
  rw [h.conns_eq]
  rcases h.cases r.engine with ⟨hn, hn'⟩ | ⟨e, style, hn, hn', he⟩
  · rw [hn, hn']
    exact .inr ⟨w, w', rfl, rfl, h⟩
  · rw [hn, hn']
    cases w.conns[r.conn]? with
    | none => exact .inr ⟨w, w', rfl, rfl, h⟩
    | some c =>
      dsimp only
      rw [Engine.busy_refit, Engine.session_restyle]
      by_cases hbusy : e.busy = true
      · exact .inl ⟨_, if_pos hbusy, if_pos hbusy⟩
      · rw [if_neg hbusy, if_neg hbusy]
        by_cases hreads : e.session.isSome = true
        · exact .inl ⟨_, if_pos hreads, if_pos hreads⟩
        · rw [if_neg hreads, if_neg hreads, Engine.restyle_start]
          have hinstalled := h.modifyConn r.conn fun _ => (c.install (sessionHandlers r.engine)).1
          have hput := hinstalled.put hn hn' r.conn (he.start r callback c.size.cols c.handlers) style
          refine .inr ⟨_, _, rfl, rfl, ?_⟩
          exact ite (fun _ => hput.scheduleDelivery r.engine) fun _ => hput

end World.Akin

/-! ### Calls -/

/-- What a host may do that brings no escape, binds no key anew and runs no script. -/
def Call.Inserts : Call → Prop
  | .readline r _ => ∀ h, r.handler = some h → ∃ c, h = .candidates c
  | .queue _ t => t.Unescaped
  | .feed _ bytes => 0x1B ∉ bytes
  | .bind .. => False
  | _ => True

/-- What the callbacks of a host do brings no escape, binds no key anew and runs no script. -/
def Host.Inserts (host : Host) : Prop := ∀ n line, ∀ c ∈ host.onLine n line, c.Inserts

/-- A move that brings no escape, binds no key anew and runs no script. -/
def Move.Inserts : Move → Prop
  | .call c => c.Inserts
  | .step => True

/-- A job that brings no escape, binds no key anew and runs no script. -/
def Job.Inserts : Job → Prop
  | .call c => c.Inserts
  | .script .. => False
  | _ => True

theorem Job.inserts_ofFinished (f : Option Finished) : ∀ j ∈ Job.ofFinished f, j.Inserts := by
  cases f with
  | none => exact List.forall_mem_nil _
  | some f => exact List.forall_mem_singleton.2 trivial

/-- Calls that lead to the same, but for the answer to a question for the style. -/
structure Called.Akin (r r' : Called) : Prop where
  world : r.world.Akin r'.world
  jobs_eq : r'.jobs = r.jobs
  jobs : ∀ j ∈ r.jobs, j.Inserts
  reply_eq : r'.reply = r.reply ∨ ∃ style style' : EditStyle,
    r.reply = .name style.name ∧ r'.reply = .name style'.name

namespace World.Akin

variable {w w' : World}

/-- A call that leads to no job. -/
theorem called (h : w.Akin w') (reply : Reply) :
    Called.Akin { world := w, reply } { world := w', reply } :=
  ⟨h, rfl, List.forall_mem_nil _, .inl rfl⟩

/-- A call after which tasks are run. -/
theorem calledTasks (h : w.Akin w') (conn : Nat) (reply : Reply) :
    Called.Akin { world := w, jobs := [.tasks conn], reply }
      { world := w', jobs := [.tasks conn], reply } :=
  ⟨h, rfl, List.forall_mem_singleton.2 trivial, .inl rfl⟩

theorem callEngine (h : w.Akin w') (n : Nat) {f f' : Engine → Called}
    (hf : ∀ e style, w.engine? n = some e → w'.engine? n = some (e.refit (.restyle style)) →
      e.Inserts → (f e).Akin (f' (e.refit (.restyle style)))) :
    (w.callEngine n f).Akin (w'.callEngine n f') := by
  unfold World.callEngine
  rcases h.cases n with ⟨hn, hn'⟩ | ⟨e, style, hn, hn', he⟩
  · rw [hn, hn']
    exact h.called _
  · rw [hn, hn']
    dsimp only
    rw [Engine.busy_refit]
    split
    · exact h.called _
    · exact hf e style hn hn' he

/-- Every call of the host that brings no escape. -/
theorem call (h : w.Akin w') {c : Call} (hc : c.Inserts) : (w.call c).Akin (w'.call c) := by
  cases c with
  | readline r callback =>
    refine h.callEngine r.engine fun _ _ _ _ _ => ?_
    rcases h.readline r callback with ⟨err, herror, herror'⟩ | ⟨w₁, w₁', hok, hok', hakin⟩
    · rw [herror, herror']
      exact h.called _
    · rw [hok, hok']
      exact hakin.called _
  | queue n t =>
    exact h.callEngine n fun e style hn hn' he => (h.queueInput hn he hn' hc).called _
  | resume n =>
    refine h.callEngine n fun e style hn hn' he => ?_
    unfold World.callResume
    rw [h.size_eq, Engine.conn_refit, Engine.refit_resume]
    cases hok : e.resume (w.size e.conn).cols with
    | error err => exact h.called _
    | ok x =>
      have hput := (h.put hn hn' e.conn (he.resume hok) style).close x.2
      refine ⟨hput, rfl, List.forall_mem_append.2 ⟨Job.inserts_ofFinished x.2, ?_⟩, .inl rfl⟩
      exact List.forall_mem_singleton.2 trivial
  | session n calls =>
    refine h.callEngine n fun e style hn hn' he => ?_
    unfold World.callSession
    rw [h.size_eq, Engine.conn_refit, Engine.refit_answers e fun _ _ => rfl]
    cases hok : e.answers (w.size e.conn) calls with
    | error err => exact h.called _
    | ok x =>
      have hput := (h.put hn hn' e.conn (he.answers hok) style).close x.2.2
      exact ⟨hput, rfl, Job.inserts_ofFinished x.2.2, .inl rfl⟩
  | history n calls =>
    refine h.callEngine n fun e style hn hn' he => ?_
    have hcalled : ({ e with history := (collectEach HistoryCall.run e.history calls).1 } :
        Engine).Inserts := { he with }
    exact (h.setEngine hn hn' (hcalled.akin style)).called _
  | bind n event k => exact hc.elim
  | style n =>
    exact h.callEngine n fun e style _ _ _ =>
      ⟨h, rfl, List.forall_mem_nil _, .inr ⟨_, _, rfl, rfl⟩⟩
  | drop n => exact (h.drop n).called _
  | feed conn bytes => exact (h.feed conn hc).called _
  | runTasks conn => exact h.calledTasks conn _
  | runDelayed conn => exact (h.modifyConn conn _).calledTasks conn _
  | endOfStream conn => exact (h.endOfStream conn).calledTasks conn _
  | resize conn s => exact (h.resize conn s).calledTasks conn _
  | setHandlers conn f => exact (h.modifyConn conn _).called _

end World.Akin

/-- The style is the only name that is answered. -/
theorem World.reply_call_ne_name (w : World) {c : Call} (hc : ∀ n, c ≠ .style n) (s : String) :
    (w.call c).reply ≠ .name s := by
  have hengine : ∀ (n : Nat) (f : Engine → Called), (∀ e, (f e).reply ≠ .name s) →
      (w.callEngine n f).reply ≠ .name s := by
    intro n f hf
    rw [World.callEngine]
    split
    · rintro ⟨⟩
    · split
      · rintro ⟨⟩
      · exact hf _
  cases c with
  | readline r callback =>
    refine hengine _ _ fun _ => ?_
    split <;> rintro ⟨⟩
  | resume n =>
    refine hengine _ _ fun e => ?_
    rw [World.callResume]
    split <;> rintro ⟨⟩
  | session n calls =>
    refine hengine _ _ fun e => ?_
    rw [World.callSession]
    split <;> rintro ⟨⟩
  | queue | history | bind => exact hengine _ _ fun _ => by rintro ⟨⟩
  | style n => exact absurd rfl (hc n)
  | _ => rintro ⟨⟩

/-! ### Machines -/

theorem Call.Inserts.obeys {c : Call} (h : c.Inserts) : c.Obeys .usual := by
  cases c with
  | readline r callback => exact h
  | session n calls => exact fun k _ => k.obeys_usual
  | history n calls =>
    intro c _
    cases c with
    | push line => exact fun _ _ => trivial
    | _ => trivial
  | _ => trivial

/-- Machines with the same to do in worlds whose engines differ in their style only. -/
structure Machine.Akin (m m' : Machine) : Prop where
  world : m.world.Akin m'.world
  jobs_eq : m'.jobs = m.jobs
  jobs : ∀ j ∈ m.jobs, j.Inserts

namespace Machine.Akin

variable {host : Host} {m m' : Machine}

theorem goOn (h : m.Akin m') {w w' : World} (hw : w.Akin w') {jobs : List Job}
    (hjobs : ∀ j ∈ jobs, j.Inserts) : (m.goOn w jobs).Akin (m'.goOn w' jobs) :=
  ⟨hw, congrArg (jobs ++ ·) h.jobs_eq, List.forall_mem_append.2 ⟨hjobs, h.jobs⟩⟩

/-- A call that does not ask for the style is answered in the same way. -/
theorem reply_call (h : m.Akin m') {c : Call} (hc : c.Inserts) (hstyle : ∀ n, c ≠ .style n) :
    (m'.call c).2 = (m.call c).2 := by
  rcases (h.world.call hc).reply_eq with hreply | ⟨style, -, hreply, -⟩
  · exact hreply
  · exact absurd hreply (m.world.reply_call_ne_name hstyle _)

theorem callLater (h : m.Akin m') {c : Call} (hc : c.Inserts) (hstyle : ∀ n, c ≠ .style n)
    (note : Reply → Note) : (m.callLater c note).Akin (m'.callLater c note) := by
  have hcall := h.world.call hc
  have hreply : (m'.world.call c).reply = (m.world.call c).reply := h.reply_call hc hstyle
  unfold Machine.callLater
  dsimp only
  rw [hcall.jobs_eq, hreply]
  refine h.goOn hcall.world (List.forall_mem_append.2 ⟨hcall.jobs, ?_⟩)
  exact List.forall_mem_singleton.2 trivial

theorem callBack (h : m.Akin m') {c : Call} (hc : c.Inserts) : (m.callBack c).Akin (m'.callBack c) := by
  have hcall := h.world.call hc
  unfold Machine.callBack
  dsimp only
  rw [hcall.jobs_eq]
  rcases hcall.reply_eq with hreply | ⟨style, style', hreply, hreply'⟩
  · rw [hreply]
    split
    · exact h.goOn (hcall.world.note _) hcall.jobs
    · exact h.goOn hcall.world hcall.jobs
  · rw [hreply, hreply']
    exact h.goOn hcall.world hcall.jobs

theorem runTask (h : m.Akin m') (t : Task) : (m.runTask t).Akin (m'.runTask t) := by
  cases t with
  | deliver n =>
    unfold Machine.runTask
    dsimp only
    rcases h.world.cases n with ⟨hn, hn'⟩ | ⟨e, style, hn, hn', he⟩
    · rw [hn, hn']
      exact h
    · rw [hn, hn']
      dsimp only
      rw [Engine.busy_refit]
      split
      · exact h
      · have hbegun : ({ e with scheduled := false } : Engine).Inserts := { he with }
        exact h.goOn (h.world.setEngine hn hn' (hbegun.akin style))
          (List.forall_mem_singleton.2 trivial)
  | resize n s => exact h.goOn (h.world.receiveSize n s) (List.forall_mem_nil _)
  | background n calls resume =>
    refine h.goOn h.world (List.forall_mem_append.2 ⟨?_, ?_⟩)
    · cases calls with
      | none => exact List.forall_mem_nil _
      | some calls => exact List.forall_mem_singleton.2 trivial
    · cases resume with
      | false => exact List.forall_mem_nil _
      | true => exact List.forall_mem_singleton.2 trivial

theorem runTasks (h : m.Akin m') (conn : Nat) : (m.runTasks conn).Akin (m'.runTasks conn) := by
  unfold Machine.runTasks
  rw [h.world.conns_eq]
  split
  · exact h
  · rename_i t c _
    have htasks : ∀ j ∈ [Job.tasks conn], j.Inserts := List.forall_mem_singleton.2 trivial
    exact (h.goOn (h.world.modifyConn conn fun _ => c) htasks).runTask t

/-- An event is handled in the same way; the usual handlers run no scripts. -/
theorem deliver (h : m.Akin m') (hobeys : m.world.Obeys .usual) (n : Nat) :
    (m.deliver n).Akin (m'.deliver n) := by
  unfold Machine.deliver
  rcases h.world.cases n with ⟨hn, hn'⟩ | ⟨e, style, hn, hn', he⟩
  · rw [hn, hn']
    exact h
  · rw [hn, hn']
    dsimp only
    rw [Engine.busy_refit, Engine.conn_refit, he.restyle_step]
    split
    · exact h
    · cases hstep : e.step? with
      | none => exact h
      | some x =>
        cases x with
        | settled t f =>
          refine h.goOn ((h.world.put hn hn' e.conn (he.step hstep) style).close f) ?_
          refine List.forall_mem_append.2 ⟨Job.inserts_ofFinished f, ?_⟩
          exact List.forall_mem_singleton.2 trivial
        | script t c k =>
          have hscript := (hobeys.engines n e hn).step hstep fun _ _ _ _ _ _ => trivial
          exact absurd hscript.1 (Rules.not_usual_scripted k)

/-- Every job. -/
theorem run (h : m.Akin m') (hobeys : m.world.Obeys .usual) (hhost : host.Inserts) {j : Job}
    (hj : j.Inserts) : (m.run host j).Akin (m'.run host j) := by
  cases j with
  | tasks conn => exact h.runTasks conn
  | deliver n => exact h.deliver hobeys n
  | schedule n => exact h.goOn (h.world.scheduleDelivery n) (List.forall_mem_nil _)
  | callback n line =>
    have hcalls : ∀ j ∈ (host.onLine n line).map Job.call, j.Inserts :=
      List.forall_mem_map.2 (hhost n line)
    exact h.goOn (h.world.journal fun j => { j with lines := j.lines.push line }) hcalls
  | call c => exact h.callBack hj
  | script n c k rest => exact hj.elim
  | background n calls =>
    have hcall : (Call.session n calls).Inserts := trivial
    exact h.callLater hcall (by nofun) _
  | resume n =>
    have hcall : (Call.resume n).Inserts := trivial
    exact h.callLater hcall (by nofun) _
  | note x => exact h.goOn (h.world.note x) (List.forall_mem_nil _)

/-- Every move. -/
theorem move (h : m.Akin m') (hobeys : m.Obeys .usual) (hhost : host.Inserts) {x : Move}
    (hx : x.Inserts) : (m.move host x).Akin (m'.move host x) := by
  cases x with
  | call c =>
    have hcall := h.world.call hx
    refine ⟨hcall.world, ?_, List.forall_mem_append.2 ⟨hcall.jobs, h.jobs⟩⟩
    change (m'.world.call c).jobs ++ m'.jobs = (m.world.call c).jobs ++ m.jobs
    rw [hcall.jobs_eq, h.jobs_eq]
  | step =>
    obtain ⟨w, jobs⟩ := m
    obtain ⟨w', jobs'⟩ := m'
    obtain ⟨hw, hjobs, hinserts⟩ := h
    dsimp only at hw hjobs
    subst hjobs
    cases jobs' with
    | nil => exact ⟨hw, rfl, hinserts⟩
    | cons j jobs =>
      obtain ⟨hj, hrest⟩ := List.forall_mem_cons.1 hinserts
      have hsame : Machine.Akin ⟨w, jobs⟩ ⟨w', jobs⟩ := ⟨hw, rfl, hrest⟩
      exact hsame.run hobeys.world hhost hj

/-- Along a run nothing but the styles comes to differ. -/
theorem play (h : m.Akin m') (hobeys : m.Obeys .usual) (hhost : host.Inserts) (moves : List Move)
    (hmoves : ∀ x ∈ moves, x.Inserts) : (m.play host moves).Akin (m'.play host moves) := by
  induction moves generalizing m m' with
  | nil => exact h
  | cons x moves ih =>
    obtain ⟨hx, hmoves⟩ := List.forall_mem_cons.1 hmoves
    have hmoved : (m.move host x).Obeys .usual := by
      refine hobeys.move Rules.scripts_usual (fun n line c hc => (hhost n line c hc).obeys) ?_
        fun _ _ _ _ => trivial
      cases x with
      | call c => exact Call.Inserts.obeys hx
      | step => trivial
    exact ih (h.move hobeys hhost hx) hmoved hmoves

end Machine.Akin

/-! ### Whole runs -/

/-- Engines that have not read anything, each in a style and with settings that are otherwise its own,
and with lines in its history, beside empty terminals. -/
def World.fresh (styles : Nat → EditStyle) (engines : List (Config × List Text))
    (terminals : List (Size × ControlChars)) (level : Log.Level) : World where
  engines := engines.mapIdx fun n x => some (.new { x.1 with style := styles n } x.2)
  conns := terminals.map fun x => .new x.1 x.2
  journal := { level }

namespace Machine

theorem akin_fresh (styles styles' : Nat → EditStyle) (engines : List (Config × List Text))
    (terminals : List (Size × ControlChars)) (level : Log.Level) :
    Machine.Akin ⟨.fresh styles engines terminals level, []⟩
      ⟨.fresh styles' engines terminals level, []⟩ := by
  refine ⟨⟨fun n => ?_, rfl, rfl⟩, rfl, List.forall_mem_nil _⟩
  simp only [World.engine?, World.fresh, List.getElem?_mapIdx]
  cases engines[n]? with
  | none => exact .none
  | some x => exact .some ((Engine.inserts_new _ _).akin (styles' n))

theorem obeys_fresh (styles : Nat → EditStyle) (engines : List (Config × List Text))
    (terminals : List (Size × ControlChars)) (level : Log.Level) :
    Machine.Obeys .usual ⟨.fresh styles engines terminals level, []⟩ := by
  refine ⟨World.obeys_usual fun n e s h hn hs => ?_, List.forall_mem_nil _⟩
  simp only [World.engine?, World.fresh, List.getElem?_mapIdx] at hn
  cases hx : engines[n]? with
  | none =>
    rw [hx] at hn
    cases hn
  | some x =>
    rw [hx] at hn
    cases hn
    cases hs

/-- Engines that are configured alike but for their styles, with histories that are the same, on
terminals where no escape is typed and with no key bound anew: whatever hosts do, and wherever the reads
cut the input, the styles make no difference. After every move the screens and transcripts, the lines
that the callbacks received, the log and what is left to do are the same, and so are each engine's
session with all that it shows, its history, its kill ring, its snapshots for undo and its input. Every
call is answered in the same way, but for the question for the style itself. -/
theorem same_in_every_style {host : Host} (hhost : host.Inserts) (styles styles' : Nat → EditStyle)
    (engines : List (Config × List Text)) (terminals : List (Size × ControlChars))
    (level : Log.Level) {moves : List Move} (hmoves : ∀ x ∈ moves, x.Inserts) :
    let m := play host ⟨.fresh styles engines terminals level, []⟩ moves
    let m' := play host ⟨.fresh styles' engines terminals level, []⟩ moves
    m'.world.conns = m.world.conns ∧ m'.world.journal = m.world.journal ∧ m'.jobs = m.jobs ∧
      (∀ n, (m'.world.engine? n).map (fun e => (e.session, e.history, e.kills, e.undo, e.queue)) =
        (m.world.engine? n).map fun e => (e.session, e.history, e.kills, e.undo, e.queue)) ∧
      ∀ c : Call, c.Inserts → (∀ n, c ≠ .style n) → (m'.call c).2 = (m.call c).2 := by
  intro m m'
  have hakin : m.Akin m' := (akin_fresh styles styles' engines terminals level).play
    (obeys_fresh styles engines terminals level) hhost moves hmoves
  refine ⟨hakin.world.conns_eq, hakin.world.journal_eq, hakin.jobs_eq, fun n => ?_,
    fun c hc hstyle => hakin.reply_call hc hstyle⟩
  rcases hakin.world.cases n with ⟨hn, hn'⟩ | ⟨e, style, hn, hn', -⟩
  · rw [hn, hn']
  · rw [hn, hn', Option.map_some, Option.map_some, Engine.session_restyle]
    rfl

/-- A word is completed and the line accepted, in Vi style as in Emacs style. -/
theorem same_in_every_style_completed :
    let r : Request := { engine := 0, conn := 0, prompt := ⟨['>', ' ']⟩,
                         handler := some (.candidates { completer := .ofWords [['w', 'o', 'r', 'd']] }) }
    let host : Host := ⟨fun _ _ => []⟩
    let moves : List Move := [.call (.readline r 0), .call (.feed 0 [0x77, 0x6F, 0x09, 0x0D]),
      .call (.runTasks 0)] ++ List.replicate 9 .step
    let engines : List (Config × List Text) := [({}, [['o', 'l', 'd']])]
    let terminals : List (Size × ControlChars) := [({}, {})]
    let start : EditStyle → Machine := fun style => ⟨.fresh (fun _ => style) engines terminals .off, []⟩
    (∀ x ∈ moves, x.Inserts) ∧
      ((start .vi).play host moves).world.conns = ((start .emacs).play host moves).world.conns ∧
      ((start .vi).play host moves).world.journal.lines = #[some ['w', 'o', 'r', 'd', ' ']] := by
  intro r host moves engines terminals start
  have hmoves : ∀ x ∈ moves, x.Inserts := by
    refine List.forall_mem_append.2 ⟨?_, fun x hx => (List.eq_of_mem_replicate hx) ▸ trivial⟩
    simp only [List.forall_mem_cons, List.not_mem_nil, false_implies, implies_true, and_true]
    refine ⟨?_, show (0x1B : UInt8) ∉ [0x77, 0x6F, 0x09, 0x0D] by decide, trivial⟩
    rintro h ⟨⟩
    exact ⟨_, rfl⟩
  have hhost : host.Inserts := fun _ _ => List.forall_mem_nil _
  have hlines : ((start .emacs).play host moves).world.journal.lines =
      #[some ['w', 'o', 'r', 'd', ' ']] := by decide +kernel
  have hvi : start .vi = ⟨.fresh (fun _ => .vi) engines terminals .off, []⟩ := rfl
  have hemacs : start .emacs = ⟨.fresh (fun _ => .emacs) engines terminals .off, []⟩ := rfl
  obtain ⟨hconns, hjournal, -⟩ := same_in_every_style hhost (fun _ => .emacs) (fun _ => .vi)
    engines terminals .off hmoves
  rw [hemacs] at hlines
  rw [hvi, hemacs]
  exact ⟨hmoves, hconns, (congrArg Journal.lines hjournal).trans hlines⟩

end Machine

end LineEditor
