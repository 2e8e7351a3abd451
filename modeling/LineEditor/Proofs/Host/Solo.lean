import LineEditor.Host.Machine
import LineEditor.Proofs.Engine.Core

/-!
A world of one engine and one connection. Whatever is done in it is done to its engine, its
connection and its journal, and stays in such a world; what is asked of other engines and
connections does nothing.

Main definition: `World.solo`. Main statements: `put_solo`, what carrying out the effects of an
engine's work comes to, and an equation for each thing that a world can do.
-/
namespace LineEditor

/-- An effect carried out on a connection. -/
def Connection.perform (style : BellStyle) (c : Connection) : Effect → Connection
  | .write t | .draw t => c.write t
  | .ring => if style = .audible then c.write ['\x07'] else c
  | .log _ | .note _ => c

/-- What a journal keeps of an effect. -/
def Journal.perform (j : Journal) : Effect → Journal
  | .log e => j.record e
  | .note n => j.note n
  | .write _ | .draw _ | .ring => j

/-- The effects of an engine's work carried out on a connection. -/
def Connection.settle (c : Connection) (e : Engine) : Connection :=
  e.effects.foldl (Connection.perform e.config.bell) c

/-- What a journal keeps of the effects of an engine's work. -/
def Journal.settle (j : Journal) (e : Engine) : Journal := e.effects.foldl Journal.perform j

/-- An engine whose effects are carried out. -/
def Engine.settled (e : Engine) : Engine := { e with effects := [] }

theorem Journal.lines_settle (j : Journal) (e : Engine) : (j.settle e).lines = j.lines := by
  unfold Journal.settle
  generalize e.effects = xs
  induction xs generalizing j with
  | nil => rfl
  | cons x xs ih =>
    rw [List.foldl_cons, ih]
    cases x with
    | log entry => exact j.lines_record entry
    | write | draw | ring | note => rfl

theorem Engine.conn_eq_zero {e : Engine} (h : ∀ s, e.session = some s → s.conn = 0) : e.conn = 0 := by
  rw [conn]
  cases hs : e.session with
  | none => rfl
  | some s => exact h s hs

namespace World

/-- One engine and one connection. -/
def solo (e : Engine) (c : Connection) (j : Journal) : World :=
  { engines := [some e], conns := [c], journal := j }

/-- A world with one engine, which is not dropped, and one connection. -/
theorem eq_solo {w : World} {e : Engine} {c : Connection} (hone : w.engines.length = 1)
    (he : w.engine? 0 = some e) (hc : w.conns = [c]) : w = solo e c w.journal := by
  obtain ⟨engines, conns, journal⟩ := w
  obtain ⟨x, rfl⟩ := List.length_eq_one_iff.1 hone
  obtain rfl : conns = [c] := hc
  obtain rfl : x = some e := he
  rfl

section Solo

variable (e e' : Engine) (c : Connection) (j : Journal)

@[simp] theorem engine?_solo : (solo e c j).engine? 0 = some e := rfl

@[simp] theorem setEngine_solo : (solo e c j).setEngine 0 e' = solo e' c j := rfl

@[simp] theorem conns_solo : (solo e c j).conns[0]? = some c := rfl

@[simp] theorem conns_solo_succ (n : Nat) : (solo e c j).conns[n + 1]? = none := rfl

@[simp] theorem modifyConn_solo (f : Connection → Connection) :
    (solo e c j).modifyConn 0 f = solo e (f c) j := rfl

@[simp] theorem modifyConn_solo_succ (n : Nat) (f : Connection → Connection) :
    (solo e c j).modifyConn (n + 1) f = solo e c j := by
  simp [modifyConn, solo]

theorem perform_solo (style : BellStyle) (x : Effect) :
    (solo e c j).perform 0 style x = solo e (c.perform style x) (j.perform x) := by
  cases x with
  | write t => rfl
  | draw t => rfl
  | ring =>
    unfold World.perform Connection.perform
    dsimp only
    split <;> rfl
  | log l => rfl
  | note n => rfl

/-- Work that is left by an engine is carried out on the connection and in the journal. -/
@[simp] theorem put_solo :
    (solo e c j).put 0 0 e' = solo e'.settled (c.settle e') (j.settle e') := by
  have hfold : ∀ (xs : List Effect) (c : Connection) (j : Journal),
      xs.foldl (World.perform 0 e'.config.bell) (solo e'.settled c j) =
        solo e'.settled (xs.foldl (Connection.perform e'.config.bell) c)
          (xs.foldl Journal.perform j) := by
    intro xs
    induction xs with
    | nil => exact fun _ _ => rfl
    | cons x xs ih =>
      intro c j
      rw [List.foldl_cons, perform_solo, ih]
      rfl
  exact hfold e'.effects c j

/-- Putting handlers back changes the handlers of the connection at most. -/
theorem close_solo (f : Option Finished) :
    ∃ handlers, (solo e c j).close f = solo e { c with handlers } j := by
  rcases f with _ | ⟨callback, line, conn, previous⟩
  · exact ⟨c.handlers, rfl⟩
  · cases conn with
    | zero => exact ⟨previous, rfl⟩
    | succ n => exact ⟨c.handlers, modifyConn_solo_succ ..⟩

/-- After its work the engine is there, without the effects that were carried out. -/
theorem engine?_put_close (f : Option Finished) :
    (((solo e c j).put 0 0 e').close f).engine? 0 = some e'.settled := by
  rw [put_solo]
  obtain ⟨handlers, hclose⟩ := close_solo e'.settled (c.settle e') (j.settle e') f
  rw [hclose, engine?_solo]

/-- Handling is asked for once, on the connection of a session. -/
theorem scheduleDelivery_solo (hconn : ∀ s, e.session = some s → s.conn = 0) :
    (solo e c j).scheduleDelivery 0 =
      if e.busy || e.scheduled || e.session.isNone then solo e c j
      else solo { e with scheduled := true } (c.execute (.deliver 0)) j := by
  unfold World.scheduleDelivery
  rw [engine?_solo]
  dsimp only
  cases hs : e.session with
  | none =>
    rw [Option.isNone_none, Bool.or_true, if_pos rfl]
    exact ite_self _
  | some s =>
    dsimp only
    rw [Option.isNone_some, Bool.or_false, hconn s hs, setEngine_solo, modifyConn_solo]

@[simp] theorem callEngine_solo (hfree : e.busy = false) (f : Engine → Called) :
    (solo e c j).callEngine 0 f = f e := by
  unfold World.callEngine
  rw [engine?_solo]
  exact if_neg (by rw [hfree]; decide)

/-- The world when a line begins, before the handling of queued input is asked for. -/
def reading (r : Request) (callback : Nat) : World :=
  let e' := e.start r callback c.size.cols c.handlers
  solo e'.settled ({ c with handlers := sessionHandlers 0 }.settle e') (j.settle e')

theorem readline_solo {r : Request} (hengine : r.engine = 0) (hconn : r.conn = 0)
    (hfree : e.busy = false) (hnone : e.session = none) (callback : Nat) :
    (solo e c j).readline r callback = .ok (if e.queue.hasNext then
      (reading e c j r callback).scheduleDelivery 0 else reading e c j r callback) := by
  unfold World.readline
  rw [hengine, hconn, engine?_solo, conns_solo]
  dsimp only
  rw [if_neg (by rw [hfree]; decide), if_neg (by rw [hnone]; decide)]
  dsimp only [Connection.install]
  rw [modifyConn_solo, put_solo]
  rfl

theorem readline_solo_of_session {r : Request} (hengine : r.engine = 0) (hconn : r.conn = 0)
    (hfree : e.busy = false) (hsession : e.session.isSome = true) (callback : Nat) :
    (solo e c j).readline r callback = .error .alreadyReading := by
  unfold World.readline
  rw [hengine, hconn, engine?_solo, conns_solo]
  dsimp only
  rw [if_neg (by rw [hfree]; decide), if_pos hsession]

/-- On a connection that is not there nothing begins. -/
theorem readline_solo_of_conn {r : Request} (hconn : r.conn ≠ 0) (callback : Nat) :
    (solo e c j).readline r callback = .ok (solo e c j) := by
  obtain ⟨n, hn⟩ := Nat.exists_eq_succ_of_ne_zero hconn
  unfold World.readline
  rw [hn, conns_solo_succ]
  cases (solo e c j).engine? r.engine <;> rfl

end Solo

end World

/-! ### Scripts -/

namespace Machine

variable {e : Engine} {c : Connection} {j : Journal} {jobs : List Job} {d : Desk}

theorem endScript_solo (hd : e.desk? = some d) (hconn : e.conn = 0) (k : Completion)
    (h : ScriptedHandler) : endScript ⟨.solo e c j, jobs⟩ 0 k h =
      ⟨((World.solo e c j).put 0 0 (e.afterScript d k h).takeFinished.1).close
          (e.afterScript d k h).takeFinished.2,
        Job.ofFinished (e.afterScript d k h).takeFinished.2 ++ jobs⟩ := by
  unfold endScript
  dsimp only
  rw [World.engine?_solo]
  dsimp only
  rw [hd, hconn]
  rfl

theorem scriptStep_solo (hd : e.desk? = some d) (hconn : e.conn = 0) (k : Completion)
    (h : ScriptedHandler) {s : ScriptStep} (hs : s.AtDesk) (rest : List ScriptStep) :
    scriptStep ⟨.solo e c j, jobs⟩ 0 k h s rest =
      ⟨(World.solo e c j).put 0 0 (e.put (d.scriptStep c.size s)), .script 0 k h rest :: jobs⟩ := by
  unfold scriptStep
  dsimp only
  rw [World.engine?_solo]
  dsimp only
  rw [hd, hconn]
  cases s
  case setAsk ask => exact absurd hs id
  case feed t => exact absurd hs id
  case runTasks => exact absurd hs id
  case resize s => exact absurd hs id
  case schedule calls resume => exact absurd hs id
  all_goals rfl

end Machine

/-! ### Connections -/

namespace Connection

variable (c : Connection) (e : Engine)

/-- Output changes what is on the screen and the transcript, and nothing else. -/
theorem perform_eq (style : BellStyle) (x : Effect) :
    ∃ screen output, c.perform style x = { c with screen, output } := by
  cases x with
  | write t => exact ⟨_, _, rfl⟩
  | draw t => exact ⟨_, _, rfl⟩
  | ring =>
    unfold Connection.perform
    dsimp only
    split
    · exact ⟨_, _, rfl⟩
    · exact ⟨_, _, rfl⟩
  | log l => exact ⟨_, _, rfl⟩
  | note n => exact ⟨_, _, rfl⟩

theorem settle_eq : ∃ screen output, c.settle e = { c with screen, output } := by
  unfold Connection.settle
  generalize e.effects = xs
  induction xs generalizing c with
  | nil => exact ⟨_, _, rfl⟩
  | cons x xs ih =>
    obtain ⟨screen, output, hx⟩ := c.perform_eq e.config.bell x
    obtain ⟨screen', output', hxs⟩ := ih (c.perform e.config.bell x)
    rw [List.foldl_cons, hxs, hx]
    exact ⟨screen', output', rfl⟩

@[simp] theorem tasks_settle : (c.settle e).tasks = c.tasks := by
  obtain ⟨screen, output, h⟩ := c.settle_eq e
  rw [h]

@[simp] theorem delayed_settle : (c.settle e).delayed = c.delayed := by
  obtain ⟨screen, output, h⟩ := c.settle_eq e
  rw [h]

end Connection

end LineEditor
