import LineEditor.Proofs.Engine.Turns
import LineEditor.Proofs.Host.Accepted

/-!
The turns of an engine in a world of any engines and connections, whatever is called and done there.

Main definition: `Move.turn`. Main statements: `Machine.takes_move`, what the turn makes of the engine is
all that a move does to it, and `Machine.turns_play`, what every turn keeps is kept along a run.
-/
namespace LineEditor

/-! ### Worlds -/

/-- A later world in which no session, no snapshots, no cut texts and no state of work have changed. -/
structure World.Rests (w w' : World) : Prop where
  engine? : ∀ n, Option.Rel Engine.Rests (w.engine? n) (w'.engine? n)

namespace World

variable {w w' w'' : World} {n k : Nat} {e t : Engine}

theorem Rests.of_engine? (h : ∀ n, w'.engine? n = w.engine? n) : w.Rests w' := by
  refine ⟨fun n => ?_⟩
  rw [h]
  cases w.engine? n with
  | none => exact .none
  | some e => exact .some (.refl e)

theorem Rests.refl (w : World) : w.Rests w := .of_engine? fun _ => rfl

theorem Rests.of_engines (h : w'.engines = w.engines) : w.Rests w' :=
  .of_engine? fun n => congrArg (fun l => (l[n]?).join) h

theorem Rests.trans (h : w.Rests w') (h' : w'.Rests w'') : w.Rests w'' := by
  refine ⟨fun n => ?_⟩
  have hfirst := h.engine? n
  have hlast := h'.engine? n
  generalize w.engine? n = o at hfirst
  generalize w'.engine? n = o' at hfirst hlast
  generalize w''.engine? n = o'' at hlast
  cases hfirst with
  | none =>
    cases hlast
    exact .none
  | some hfirst =>
    cases hlast with
    | some hlast => exact .some (hfirst.trans hlast)

theorem engine?_setEngine (hk : w.engine? k = some e) (t : Engine) (n : Nat) :
    (w.setEngine k t).engine? n = if k = n then some t else w.engine? n := by
  obtain ⟨hlt, -⟩ := List.getElem?_eq_some_iff.1 (Option.join_eq_some_iff.1 hk)
  rw [engine?, engine?, setEngine, List.getElem?_set, if_pos hlt]
  split <;> rfl

/-- An engine that is dropped is not there any more, and all others are. -/
theorem engine?_set_none (w : World) (k n : Nat) :
    engine? { w with engines := w.engines.set k none } n = if k = n then none else w.engine? n := by
  rw [engine?, engine?, List.getElem?_set]
  split
  · split <;> rfl
  · rfl

theorem Rests.setEngine (hk : w.engine? k = some e) (h : e.Rests t) : w.Rests (w.setEngine k t) := by
  refine ⟨fun n => ?_⟩
  rw [engine?_setEngine hk]
  split
  · rename_i hkn
    subst hkn
    rw [hk]
    exact .some h
  · exact (Rests.refl w).engine? n

/-- Asking for a delivery is all that happens to an engine then. -/
theorem engine?_scheduleDelivery (w : World) (k n : Nat) :
    ∃ g : Engine → Bool, (w.scheduleDelivery k).engine? n =
      (w.engine? n).map fun e => { e with scheduled := g e } := by
  have hsame : ∃ g : Engine → Bool, w.engine? n =
      (w.engine? n).map fun e => { e with scheduled := g e } := ⟨Engine.scheduled, Option.map_id'.symm⟩
  rw [scheduleDelivery]
  split
  · exact hsame
  · rename_i e hk
    split
    · exact hsame
    · split
      · exact hsame
      · rename_i s hs
        have hset := engine?_setEngine hk { e with scheduled := true } n
        split at hset
        · rename_i hkn
          subst hkn
          refine ⟨fun _ => true, hset.trans ?_⟩
          rw [hk]
          rfl
        · obtain ⟨g, hg⟩ := hsame
          exact ⟨g, hset.trans hg⟩

theorem rests_scheduleDelivery (w : World) (k : Nat) : w.Rests (w.scheduleDelivery k) := by
  refine ⟨fun n => ?_⟩
  obtain ⟨g, h⟩ := w.engine?_scheduleDelivery k n
  rw [h]
  cases w.engine? n with
  | none => exact .none
  | some e => exact .some ⟨rfl, rfl, rfl, rfl⟩

theorem rests_receiveInput (w : World) (k : Nat) (t : Text) : w.Rests (w.receiveInput k t) := by
  rw [receiveInput]
  split
  · exact .refl w
  · rename_i e hk
    split
    · exact .of_engines rfl
    · have hset : w.Rests (w.setEngine k { e with queue := e.queue.append t }) :=
        .setEngine hk ⟨rfl, rfl, rfl, rfl⟩
      exact hset.trans (rests_scheduleDelivery ..)

theorem rests_deliverAll (w : World) (conn : Nat) (r : Connection × List (Owner × Delivery)) :
    w.Rests (w.deliverAll conn r) := by
  have hdeliver : ∀ (w : World) (x : Owner × Delivery), w.Rests (w.deliver x) := by
    rintro w ⟨n | n, t | ⟨s, c⟩⟩
    · exact w.rests_receiveInput n t
    · exact .refl w
    · exact .of_engines rfl
    · exact .of_engines rfl
  have hfold : ∀ (ds : List (Owner × Delivery)) (w : World), w.Rests (ds.foldl World.deliver w) := by
    intro ds
    induction ds with
    | nil => exact .refl
    | cons x ds ih => exact fun w => (hdeliver w x).trans (ih _)
  have hconn : w.Rests (w.modifyConn conn fun _ => r.1) := .of_engines rfl
  exact hconn.trans (hfold r.2 _)

theorem rests_feed (w : World) (conn : Nat) (bytes : List UInt8) : w.Rests (w.feed conn bytes) := by
  rw [feed]
  split
  · exact .refl w
  · exact w.rests_deliverAll conn _

theorem rests_endOfStream (w : World) (conn : Nat) : w.Rests (w.endOfStream conn) := by
  rw [endOfStream]
  split
  · exact .refl w
  · exact w.rests_deliverAll conn _

theorem rests_queueInput (hk : w.engine? k = some e) (t : Text) : w.Rests (w.queueInput k e t) := by
  have hset : w.Rests (w.setEngine k { e with queue := e.queue.append t }) :=
    .setEngine hk ⟨rfl, rfl, rfl, rfl⟩
  rw [queueInput]
  split
  · exact hset.trans (rests_scheduleDelivery ..)
  · exact hset

/-- Engines but the one that is put are as they were. -/
theorem engine?_put_ne (hkn : k ≠ n) (conn : Nat) (t : Engine) (f : Option Finished) :
    ((w.put k conn t).close f).engine? n = w.engine? n := by
  rw [engine?, engines_close, engines_put, List.getElem?_set_ne hkn]
  rfl

/-! ### Turns -/

theorem Rests.takes (h : w.Rests w') (n : Nat) : Turn.Takes (w.engine? n) .rests (w'.engine? n) := by
  have hn := h.engine? n
  generalize w.engine? n = o at hn ⊢
  generalize w'.engine? n = o' at hn ⊢
  cases hn with
  | none => exact .gone _
  | some h => exact .takes (.rested h)

theorem takes_self (w : World) (n : Nat) : Turn.Takes (w.engine? n) .rests (w.engine? n) :=
  (Rests.refl w).takes n

/-- An engine that is put, and all others. -/
theorem takes_put {turn : Turn} (hk : w.engine? k = some e)
    (h : e.Takes turn (some { t with effects := [] })) (conn : Nat) (f : Option Finished) (n : Nat) :
    Turn.Takes (w.engine? n) (if k = n then turn else .rests)
      (((w.put k conn t).close f).engine? n) := by
  split
  · rename_i hkn
    subst hkn
    rw [engine?_put_eq hk, hk]
    exact .takes h
  · rename_i hkn
    rw [engine?_put_ne hkn]
    exact w.takes_self n

/-- An engine that is put, and rests like all others. -/
theorem takes_put_rests (hk : w.engine? k = some e)
    (h : e.Takes .rests (some { t with effects := [] })) (conn : Nat) (f : Option Finished) (n : Nat) :
    Turn.Takes (w.engine? n) .rests (((w.put k conn t).close f).engine? n) := by
  have hput := takes_put hk h conn f n
  rwa [ite_self] at hput

end World

/-! ### Calls -/

/-- What a call does to an engine. -/
def Call.turn (n : Nat) (w : World) (c : Call) : Turn :=
  match c, (w.call c).reply with
  | .readline r _, .done =>
    if r.conn < w.conns.length then if r.engine = n then .begins else .rests else .rests
  | .session k calls, .replies _ => if k = n then .answers calls else .rests
  | .drop k, _ => if k = n then .drops else .rests
  | _, _ => .rests

namespace World

variable {w : World} {e : Engine}

/-- A call that is refused. -/
theorem turn_refused {c : Call} {reply : Reply} (hc : (w.call c).reply = reply)
    (hdone : reply ≠ .done) (hreplies : ∀ rs, reply ≠ .replies rs) (hdrop : ∀ k, c ≠ .drop k)
    (n : Nat) : c.turn n w = .rests := by
  unfold Call.turn
  rw [hc]
  split
  · exact absurd rfl hdone
  · exact absurd rfl (hreplies _)
  · exact absurd rfl (hdrop _)
  · rfl

theorem takes_refused {c : Call} {reply : Reply} (hc : w.call c = { world := w, reply })
    (hdone : reply ≠ .done) (hreplies : ∀ rs, reply ≠ .replies rs) (hdrop : ∀ k, c ≠ .drop k)
    (n : Nat) : Turn.Takes (w.engine? n) (c.turn n w) ((w.call c).world.engine? n) := by
  rw [turn_refused (congrArg Called.reply hc) hdone hreplies hdrop, hc]
  exact w.takes_self n

/-- A call of an engine is refused unless the engine is there and free. -/
theorem takes_callEngine {c : Call} {k : Nat} {f : Engine → Called} (hc : w.call c = w.callEngine k f)
    (hdrop : ∀ k, c ≠ .drop k) (n : Nat)
    (hf : ∀ e, w.engine? k = some e → e.busy = false → w.call c = f e →
      Turn.Takes (w.engine? n) (c.turn n w) ((w.call c).world.engine? n)) :
    Turn.Takes (w.engine? n) (c.turn n w) ((w.call c).world.engine? n) := by
  unfold callEngine at hc
  cases hk : w.engine? k with
  | none =>
    rw [hk] at hc
    exact takes_refused hc nofun nofun hdrop n
  | some e =>
    rw [hk] at hc
    dsimp only at hc
    split at hc
    · exact takes_refused hc nofun nofun hdrop n
    · exact hf e hk (Bool.eq_false_iff.2 ‹_›) hc

/-- A line begins, or the call is refused. -/
theorem takes_readline (w : World) (r : Request) (callback n : Nat) :
    Turn.Takes (w.engine? n) ((Call.readline r callback).turn n w)
      ((w.call (.readline r callback)).world.engine? n) := by
  refine takes_callEngine rfl (by rintro _ ⟨⟩) n fun e hk hfree hcall => ?_
  have hturn : (w.call (.readline r callback)).reply = .done →
      (Call.readline r callback).turn n w =
        if r.conn < w.conns.length then if r.engine = n then .begins else .rests else .rests := by
    intro h
    unfold Call.turn
    rw [h]
  cases hc : w.conns[r.conn]? with
  | none =>
    have hsame : w.readline r callback = .ok w := by
      rw [readline, hk, hc]
    rw [hsame] at hcall
    rw [hturn (congrArg Called.reply hcall), if_neg (Nat.not_lt.2 (List.getElem?_eq_none_iff.1 hc)),
      hcall]
    exact w.takes_self n
  | some c =>
    cases hs : e.session with
    | some s =>
      have herror : w.readline r callback = .error .alreadyReading := by
        rw [readline, hk, hc]
        dsimp only
        rw [hfree, hs]
        rfl
      rw [herror] at hcall
      exact takes_refused hcall (by rintro ⟨⟩) (by rintro _ ⟨⟩) (by rintro _ ⟨⟩) n
    | none =>
      let w₁ := w.modifyConn r.conn fun _ => (c.install (sessionHandlers r.engine)).1
      let t := e.start r callback c.size.cols c.handlers
      have hok : w.readline r callback = .ok (if e.queue.hasNext then
          (w₁.put r.engine r.conn t).scheduleDelivery r.engine
          else w₁.put r.engine r.conn t) := by
        rw [readline, hk, hc]
        dsimp only
        rw [hfree, hs]
        rfl
      rw [hok] at hcall
      rw [hturn (congrArg Called.reply hcall), if_pos (List.getElem?_eq_some_iff.1 hc).1, hcall]
      obtain ⟨g, hg⟩ : ∃ g : Engine → Bool, World.engine? (if e.queue.hasNext then
          (w₁.put r.engine r.conn t).scheduleDelivery r.engine else w₁.put r.engine r.conn t) n =
          ((w₁.put r.engine r.conn t).engine? n).map fun e => { e with scheduled := g e } := by
        split
        · exact engine?_scheduleDelivery ..
        · exact ⟨Engine.scheduled, Option.map_id'.symm⟩
      rw [hg]
      by_cases hkn : r.engine = n
      · rw [if_pos hkn]
        subst hkn
        have hk₁ : w₁.engine? r.engine = some e := hk
        have hput := engine?_put_eq hk₁ r.conn t none
        change (w₁.put r.engine r.conn t).engine? r.engine = _ at hput
        rw [hput, hk]
        exact .takes (.begun hs r callback c.size.cols c.handlers _)
      · rw [if_neg hkn]
        have hput : (w₁.put r.engine r.conn t).engine? n = w.engine? n :=
          engine?_put_ne hkn r.conn t none
        rw [hput]
        cases w.engine? n with
        | none => exact .gone _
        | some e' => exact .takes (.rested ⟨rfl, rfl, rfl, rfl⟩)

/-- The session is called, or the call is refused. -/
theorem takes_session (w : World) (k : Nat) (calls : List SessionCall) (n : Nat) :
    Turn.Takes (w.engine? n) ((Call.session k calls).turn n w)
      ((w.call (.session k calls)).world.engine? n) := by
  refine takes_callEngine rfl (by rintro _ ⟨⟩) n fun e hk _ hcall => ?_
  unfold callSession at hcall
  split at hcall
  · exact takes_refused hcall (by rintro ⟨⟩) (by rintro _ ⟨⟩) (by rintro _ ⟨⟩) n
  · rename_i t replies f hok
    have hturn : (Call.session k calls).turn n w = if k = n then .answers calls else .rests := by
      unfold Call.turn
      rw [hcall]
    rw [hturn, hcall]
    exact takes_put hk (.answered hok) e.conn f n

/-- A pause is ended, or the call is refused. -/
theorem takes_resume (w : World) (k n : Nat) :
    Turn.Takes (w.engine? n) ((Call.resume k).turn n w) ((w.call (.resume k)).world.engine? n) := by
  refine takes_callEngine rfl (by rintro _ ⟨⟩) n fun e hk _ hcall => ?_
  unfold callResume at hcall
  split at hcall
  · exact takes_refused hcall (by rintro ⟨⟩) (by rintro _ ⟨⟩) (by rintro _ ⟨⟩) n
  · rename_i t f hok
    rw [hcall]
    exact takes_put_rests hk (.resumed hok) e.conn f n

theorem takes_drop (w : World) (k n : Nat) :
    Turn.Takes (w.engine? n) (if k = n then .drops else .rests) ((w.drop k).engine? n) := by
  rw [drop]
  cases hk : w.engine? k with
  | none =>
    split
    · rename_i hkn
      subst hkn
      rw [hk]
      exact .gone _
    · exact w.takes_self n
  | some e =>
    have hgone : Turn.Takes (w.engine? n) (if k = n then .drops else .rests)
        (World.engine? { w with engines := w.engines.set k none } n) := by
      rw [engine?_set_none]
      split
      · rename_i hkn
        subst hkn
        rw [hk]
        exact .takes .dropped
      · exact w.takes_self n
    dsimp only
    cases e.session with
    | none => exact hgone
    | some s => exact hgone

/-- Any call of the host. -/
theorem takes_call (w : World) (c : Call) (n : Nat) :
    Turn.Takes (w.engine? n) (c.turn n w) ((w.call c).world.engine? n) := by
  have hrests : ∀ {k : Nat} {f : Engine → Called}, (∀ e, w.engine? k = some e → w.Rests (f e).world) →
      Turn.Takes (w.engine? n) .rests ((w.callEngine k f).world.engine? n) := by
    intro k f hf
    rw [callEngine]
    split
    · exact w.takes_self n
    · rename_i e hk
      split
      · exact w.takes_self n
      · exact (hf e hk).takes n
  cases c with
  | readline r callback => exact w.takes_readline r callback n
  | queue k t => exact hrests fun e hk => rests_queueInput hk t
  | resume k => exact w.takes_resume k n
  | session k calls => exact w.takes_session k calls n
  | history k calls =>
    have hset : ∀ e, w.engine? k = some e → w.Rests (w.callHistory k e calls).world :=
      fun e hk => .setEngine hk ⟨rfl, rfl, rfl, rfl⟩
    exact hrests hset
  | bind k event command =>
    have hset : ∀ e, w.engine? k = some e →
        w.Rests (w.setEngine k { e with keymap := e.keymap.bind event command }) :=
      fun e hk => .setEngine hk ⟨rfl, rfl, rfl, rfl⟩
    exact hrests hset
  | style k => exact hrests fun _ _ => .refl w
  | drop k => exact w.takes_drop k n
  | feed conn bytes => exact (w.rests_feed conn bytes).takes n
  | runTasks conn => exact w.takes_self n
  | runDelayed conn => exact (Rests.of_engines rfl).takes n
  | endOfStream conn => exact (w.rests_endOfStream conn).takes n
  | resize conn s => exact (Rests.of_engines (w.engines_resize conn s)).takes n
  | setHandlers conn f => exact (Rests.of_engines rfl).takes n

end World

/-! ### Moves -/

/-- What the handling of the next event is for an engine. -/
def Engine.turn (e : Engine) : Turn :=
  if e.busy then .rests else (e.next?.map fun x => .handles x.1 x.2).getD .rests

/-- What a step of a script is for its engine. -/
def ScriptStep.turn (s : ScriptStep) (e : Engine) : Turn :=
  match s with
  | .setAsk _ | .feed _ | .runTasks | .resize _ | .schedule .. => .rests
  | s => if e.session.isSome then .steps s else .rests

/-- What a job does to an engine. -/
def Job.turn (n : Nat) (w : World) : Job → Turn
  | .call c => c.turn n w
  | .background k calls => (Call.session k calls).turn n w
  | .deliver k => if k = n then ((w.engine? k).map Engine.turn).getD .rests else .rests
  | .script k _ _ (s :: _) => if k = n then ((w.engine? k).map s.turn).getD .rests else .rests
  | _ => .rests

/-- What a move does to an engine. -/
def Move.turn (n : Nat) (m : Machine) : Move → Turn
  | .call c => c.turn n m.world
  | .step => (m.jobs.head?.map (Job.turn n m.world)).getD .rests

namespace Machine

variable {w : World} {jobs : List Job} {host : Host}

theorem takes_runTask (w : World) (jobs : List Job) (t : Task) (n : Nat) :
    Turn.Takes (w.engine? n) .rests ((runTask ⟨w, jobs⟩ t).world.engine? n) := by
  cases t with
  | deliver k =>
    unfold runTask
    dsimp only
    split
    · exact w.takes_self n
    · rename_i e hk
      split
      · exact w.takes_self n
      · have hset : w.Rests (w.setEngine k { e with scheduled := false }) :=
          .setEngine hk ⟨rfl, rfl, rfl, rfl⟩
        exact hset.takes n
  | resize k size =>
    change Turn.Takes _ _ ((w.receiveSize k size).engine? n)
    rw [World.receiveSize]
    split
    · exact w.takes_self n
    · rename_i e hk
      split
      · exact (World.Rests.of_engines rfl).takes n
      · split
        · exact w.takes_self n
        · rename_i s hs
          exact World.takes_put_rests hk (.resized size) s.conn none n
  | background k calls resume => exact w.takes_self n

theorem takes_runTasks (w : World) (jobs : List Job) (conn n : Nat) :
    Turn.Takes (w.engine? n) .rests ((runTasks ⟨w, jobs⟩ conn).world.engine? n) := by
  unfold runTasks
  dsimp only
  split
  · exact w.takes_self n
  · rename_i t c _
    exact takes_runTask (w.modifyConn conn fun _ => c) (.tasks conn :: jobs) t n

theorem takes_deliver (w : World) (jobs : List Job) (k n : Nat) :
    Turn.Takes (w.engine? n) (Job.turn n w (.deliver k)) ((deliver ⟨w, jobs⟩ k).world.engine? n) := by
  have hrests : ∀ {o : Option Turn}, o.getD .rests = .rests →
      Turn.Takes (w.engine? n) (if k = n then o.getD .rests else .rests) (w.engine? n) := by
    intro o ho
    rw [ho, ite_self]
    exact w.takes_self n
  unfold deliver Job.turn
  dsimp only
  cases hk : w.engine? k with
  | none => exact hrests rfl
  | some e =>
    rw [Option.map_some, Option.getD_some]
    dsimp only
    cases hbusy : e.busy with
    | true => exact hrests (o := some e.turn) (if_pos hbusy)
    | false =>
      have hturn : e.turn = (e.next?.map fun x => Turn.handles x.1 x.2).getD .rests :=
        if_neg (Bool.eq_false_iff.1 hbusy)
      rw [hturn, Engine.step?_eq]
      cases hnext : e.next? with
      | none => exact hrests (o := none) rfl
      | some x =>
        obtain ⟨d, event⟩ := x
        rw [Option.map_some, Option.map_some, Option.getD_some]
        dsimp only
        cases hhandle : e.handle d event with
        | settled t f => exact World.takes_put hk (.handled hbusy hnext hhandle) e.conn f n
        | script t c h =>
          have htakes : e.Takes (.handles d event) (some { t with busy := true, effects := [] }) :=
            .scripted hbusy hnext hhandle
          exact World.takes_put hk htakes e.conn none n

theorem takes_endScript (w : World) (jobs : List Job) (k : Nat) (c : Completion) (h : ScriptedHandler)
    (n : Nat) : Turn.Takes (w.engine? n) .rests ((endScript ⟨w, jobs⟩ k c h).world.engine? n) := by
  unfold endScript
  dsimp only
  split
  · exact w.takes_self n
  · rename_i e hk
    split
    · exact w.takes_self n
    · rename_i d hd
      exact World.takes_put_rests hk (.left hd c h) e.conn _ n

theorem takes_scriptStep (w : World) (jobs : List Job) (k : Nat) (c : Completion) (h : ScriptedHandler)
    (s : ScriptStep) (rest : List ScriptStep) (n : Nat) :
    Turn.Takes (w.engine? n) (Job.turn n w (.script k c h (s :: rest)))
      ((scriptStep ⟨w, jobs⟩ k c h s rest).world.engine? n) := by
  unfold scriptStep Job.turn
  dsimp only
  cases hk : w.engine? k with
  | none =>
    change Turn.Takes _ (if k = n then .rests else .rests) _
    rw [ite_self]
    exact w.takes_self n
  | some e =>
    rw [Option.map_some, Option.getD_some]
    dsimp only
    have hrests : ∀ {w' : World}, w.Rests w' → s.turn e = .rests →
        Turn.Takes (w.engine? n) (if k = n then s.turn e else .rests) (w'.engine? n) := by
      intro w' hw hs
      rw [hs, ite_self]
      exact hw.takes n
    have hsteps : ∀ (size : Size) (d : Desk), e.desk? = some d → s.turn e = .steps s →
        Turn.Takes (w.engine? n) (if k = n then s.turn e else .rests)
          ((w.put k e.conn (e.put (d.scriptStep size s))).engine? n) := by
      intro size d hd hs
      rw [hs]
      exact World.takes_put hk (.stepped hd size s) e.conn none n
    cases s
    case setAsk ask => exact hrests (.refl w) rfl
    case feed t => exact hrests (w.rests_feed ..) rfl
    case runTasks => exact hrests (.refl w) rfl
    case resize size => exact hrests (.of_engines (w.engines_resize ..)) rfl
    case schedule calls resume => exact hrests (.of_engines rfl) rfl
    all_goals
      cases hd : e.desk? with
      | none => exact hrests (.refl w) (if_neg (by rw [Option.map_eq_none_iff.1 hd]; decide))
      | some d =>
        obtain ⟨session, hs, -⟩ := Option.map_eq_some_iff.1 hd
        exact hsteps _ d hd (if_pos (by rw [hs]; rfl))

/-- Any job. -/
theorem takes_run (host : Host) (w : World) (jobs : List Job) (j : Job) (n : Nat) :
    Turn.Takes (w.engine? n) (j.turn n w) ((run host ⟨w, jobs⟩ j).world.engine? n) := by
  cases j with
  | tasks conn => exact takes_runTasks w jobs conn n
  | deliver k => exact takes_deliver w jobs k n
  | schedule k => exact (w.rests_scheduleDelivery k).takes n
  | callback k line => exact (World.Rests.of_engines rfl).takes n
  | call c =>
    have hcall := w.takes_call c n
    unfold run callBack
    dsimp only
    split
    · exact hcall
    · exact hcall
  | script k c h rest =>
    cases rest with
    | nil => exact takes_endScript w jobs k c h n
    | cons s rest => exact takes_scriptStep w jobs k c h s rest n
  | background k calls => exact w.takes_call (.session k calls) n
  | resume k => exact w.takes_resume k n
  | note x => exact (World.Rests.of_engines rfl).takes n

/-- All that a move does to an engine. -/
theorem takes_move (host : Host) (m : Machine) (x : Move) (n : Nat) :
    Turn.Takes (m.world.engine? n) (x.turn n m) ((m.move host x).world.engine? n) := by
  cases x with
  | call c => exact m.world.takes_call c n
  | step =>
    obtain ⟨w, jobs⟩ := m
    cases jobs with
    | nil => exact w.takes_self n
    | cons j jobs => exact takes_run host w jobs j n

/-- What every turn keeps is kept along a run, with what is told of the turns so far. -/
theorem turns_play {α : Type} (tell : Turn → Option Engine → List α) (P : List α → Option Engine → Prop)
    (hturn : ∀ {as : List α} {o o' : Option Engine} {turn : Turn}, Turn.Takes o turn o' → P as o →
      P (as ++ tell turn o) o')
    (host : Host) (n : Nat) (moves : List Move) {m : Machine} (hm : P [] (m.world.engine? n)) :
    P (record (fun m x => tell (x.turn n m) (m.world.engine? n)) host m moves)
      ((m.play host moves).world.engine? n) := by
  have hfrom : ∀ (moves : List Move) (as : List α) (m : Machine), P as (m.world.engine? n) →
      P (as ++ record (fun m x => tell (x.turn n m) (m.world.engine? n)) host m moves)
        ((m.play host moves).world.engine? n) := by
    intro moves
    induction moves with
    | nil =>
      intro as m hm
      rw [record_nil, List.append_nil]
      exact hm
    | cons x moves ih =>
      intro as m hm
      rw [record_cons, ← List.append_assoc, play_cons]
      exact ih _ _ (hturn (takes_move host m x n) hm)
  exact hfrom moves [] m hm

end Machine

end LineEditor
