import LineEditor.Proofs.Engine.Gauge
import LineEditor.Proofs.Host.Delivery

/-!
The width that an engine works with comes to be that of its terminal. A terminal tells a new size by a
task, and may have changed it again before the task is run; while the session is paused the engine only
keeps back the width that it drew for. Once it was told everything, it works with the width of the
terminal, or keeps back the width that it works with for the end of the pause.

Main definitions: `Connection.sizes`, what an engine is still to be told, `Engine.Sized` and
`Machine.Sized`, and `Machine.Reports`, what a host may do when. Main statements: `Machine.Sized.move`,
`Machine.sized_play` and `Machine.width_of_play`.
-/
namespace LineEditor

/-- The size that a task tells the engine. -/
def Task.size? : Task → Option Size
  | .resize 0 z => some z
  | _ => none

/-- The sizes that the engine is still to be told, in order. -/
def Connection.sizes (c : Connection) : List Size := c.tasks.filterMap Task.size?

/-- The gauge of a session goes with a terminal: the last size to be told is the one that the terminal
has, and if none is to be told then the width is right or is kept back. -/
structure Gauge.Sized (g : Gauge) (busy : Bool) (c : Connection) : Prop where
  conn_eq : g.conn = 0
  hooked : c.handlers.size = some (.engine 0)
  last : ∀ z ∈ c.sizes.getLast?, z = c.size
  width : c.sizes = [] → g.width = c.size.cols ∨ g.pending = some g.width
  kept : ∀ w ∈ g.pending, w = g.width
  calm : busy = true ∨ g.paused = false → g.pending = none

/-- The gauge of the session of an engine, if there is one, goes with its terminal. -/
structure Engine.Sized (e : Engine) (c : Connection) : Prop where
  reading : e.busy = true → e.gauge?.isSome = true
  delayed : ∀ t ∈ c.delayed, t.size? = none
  gauge : ∀ g ∈ e.gauge?, g.Sized e.busy c

/-- One engine on one connection, whose gauge goes with it. -/
inductive World.Sized (busy : Bool) : World → Prop where
  | solo (e : Engine) (c : Connection) (j : Journal) (hbusy : e.busy = busy) (h : e.Sized c) :
      Sized busy (.solo e c j)

variable {e e' t : Engine} {c c' : Connection} {j : Journal} {g : Gauge} {busy : Bool} {w : World}

/-! ### Gauges -/

namespace Gauge.Sized

/-- Work that changes no more than the pause. -/
theorem setPaused (h : g.Sized busy c) {busy' paused : Bool}
    (hcalm : busy' = true ∨ paused = false → g.pending = none) :
    ({ g with paused } : Gauge).Sized busy' c :=
  { h with calm := hcalm }

/-- A size that was to be told is told. -/
theorem resized {tasks : List Task} {z : Size}
    (h : g.Sized false { c with tasks := .resize 0 z :: tasks }) :
    (if g.paused then { g with pending := some (g.pending.getD g.width) }
      else { g with width := z.cols }).Sized false { c with tasks } := by
  have hsizes : Connection.sizes { c with tasks := .resize 0 z :: tasks } =
      z :: Connection.sizes { c with tasks } := rfl
  have hlast : ∀ y ∈ (Connection.sizes { c with tasks }).getLast?, y = c.size := by
    intro y hy
    refine h.last y ?_
    rw [hsizes, List.getLast?_cons, Option.mem_def.1 hy]
    rfl
  have hz : Connection.sizes { c with tasks } = [] → z = c.size := by
    intro hnil
    refine h.last z ?_
    rw [hsizes, hnil]
    rfl
  split
  · rename_i hpaused
    have hkept : g.pending.getD g.width = g.width := by
      cases hpending : g.pending with
      | none => rfl
      | some w => exact h.kept w hpending
    refine ⟨h.conn_eq, h.hooked, hlast, fun _ => .inr ?_, ?_, ?_⟩
    · rw [hkept]
    · rintro w ⟨⟩
      exact hkept
    · rintro (hbusy | hlisten)
      · cases hbusy
      · exact absurd hlisten (by rw [hpaused]; decide)
  · rename_i hlisten
    have hnone := h.calm (.inr (Bool.eq_false_iff.2 hlisten))
    refine ⟨h.conn_eq, h.hooked, hlast, fun hnil => .inl ?_, ?_, fun _ => hnone⟩
    · rw [← hz hnil]
    · rw [hnone]
      exact nofun

/-- What is kept back is carried out at the end of the pause. -/
theorem resume (h : g.Sized false c) : ({ g with
    width := if g.pending.isSome then c.size.cols else g.width
    paused := false
    pending := none } : Gauge).Sized false c := by
  refine ⟨h.conn_eq, h.hooked, h.last, fun hnil => .inl ?_, nofun, fun _ => rfl⟩
  rcases h.width hnil with hwidth | hpending
  · rw [hwidth]
    exact ite_self _
  · rw [hpending]
    rfl

end Gauge.Sized

/-! ### Engines -/

namespace Engine.Sized

/-- Changes of the engine that concern neither its session nor what it keeps back. -/
theorem congr (h : e.Sized c) (hg : t.gauge? = e.gauge?) (hbusy : t.busy = e.busy) : t.Sized c where
  reading := by
    rw [hg, hbusy]
    exact h.reading
  delayed := h.delayed
  gauge := by
    rw [hg, hbusy]
    exact h.gauge

/-- Changes of the connection that concern neither its size nor who is told of it. -/
theorem setConn (h : e.Sized c) (hsize : c'.size = c.size)
    (hhandlers : c'.handlers.size = c.handlers.size) (hsizes : c'.sizes = c.sizes)
    (hdelayed : ∀ t ∈ c'.delayed, t.size? = none) : e.Sized c' where
  reading := h.reading
  delayed := hdelayed
  gauge := by
    intro g hg
    obtain ⟨hconn, hhooked, hlast, hwidth, hkept, hcalm⟩ := h.gauge g hg
    refine ⟨hconn, hhandlers.trans hhooked, ?_, ?_, hkept, hcalm⟩
    · rw [hsizes, hsize]
      exact hlast
    · rw [hsizes, hsize]
      exact hwidth

/-- An engine without a session goes with any terminal. -/
theorem of_none (hg : e.gauge? = none) (hfree : e.busy = false)
    (hdelayed : ∀ t ∈ c.delayed, t.size? = none) : e.Sized c := by
  refine ⟨?_, hdelayed, ?_⟩
  · rw [hfree]
    exact nofun
  · rw [hg]
    exact nofun

/-- An engine with a session that goes with its terminal. -/
theorem of_some (hg : e.gauge? = some g) (h : g.Sized e.busy c)
    (hdelayed : ∀ t ∈ c.delayed, t.size? = none) : e.Sized c := by
  refine ⟨?_, hdelayed, ?_⟩
  · rw [hg]
    exact fun _ => rfl
  · rw [hg]
    rintro _ ⟨⟩
    exact h

theorem session_conn (h : e.Sized c) {s : Session} (hs : e.session = some s) : s.conn = 0 :=
  (h.gauge _ (congrArg (Option.map _) hs)).conn_eq

theorem conn (h : e.Sized c) : e.conn = 0 := Engine.conn_eq_zero fun _ => h.session_conn

/-- What an engine leaves is carried out. -/
theorem put (h : t.Sized c) : ((World.solo e c j).put 0 0 t).Sized t.busy := by
  rw [World.put_solo]
  obtain ⟨screen, output, hsettle⟩ := c.settle_eq t
  rw [hsettle]
  have hsettled : t.settled.Sized c := h.congr rfl rfl
  exact .solo t.settled _ _ rfl (hsettled.setConn rfl rfl rfl h.delayed)

/-- Work after which a session goes on or is over. -/
theorem leaves {f : Option Finished} (hl : e'.Leaves g t f) (hfree : e'.busy = false)
    (h : g.Sized false c) (hdelayed : ∀ t ∈ c.delayed, t.size? = none) :
    (((World.solo e c j).put 0 0 t).close f).Sized false := by
  have hfree' : t.busy = false := hl.busy_eq.trans hfree
  rcases hl.gauge_eq with ⟨rfl, hg⟩ | hnone
  · have hput := (of_some hg (hfree'.symm ▸ h) hdelayed).put (e := e) (j := j)
    rw [hfree'] at hput
    exact hput
  · rw [World.put_solo]
    obtain ⟨handlers, hclose⟩ := World.close_solo t.settled (c.settle t) (j.settle t) f
    rw [hclose]
    refine .solo t.settled _ _ hfree' (of_none hnone hfree' ?_)
    dsimp only
    rw [Connection.delayed_settle]
    exact hdelayed

end Engine.Sized

/-! ### Input and sizes -/

namespace World.Sized

theorem note (h : w.Sized busy) (n : Note) : (w.note n).Sized busy := by
  obtain ⟨e, c, j, hbusy, h⟩ := h
  exact .solo e c (j.note n) hbusy h

theorem record (h : w.Sized busy) (x : Log.Entry) : (w.record x).Sized busy := by
  obtain ⟨e, c, j, hbusy, h⟩ := h
  exact .solo e c (j.record x) hbusy h

/-- A task that tells no size. -/
theorem execute (h : e.Sized c) {x : Task} (hx : x.size? = none) : e.Sized (c.execute x) := by
  refine h.setConn rfl rfl ?_ h.delayed
  rw [Connection.sizes, Connection.execute, List.filterMap_append, List.filterMap_cons_none hx]
  exact List.append_nil _

theorem scheduleDelivery (h : w.Sized busy) (n : Nat) : (w.scheduleDelivery n).Sized busy := by
  obtain ⟨e, c, j, hbusy, h⟩ := h
  cases n with
  | succ n => exact .solo e c j hbusy h
  | zero =>
    rw [scheduleDelivery_solo _ _ _ fun s hs => h.session_conn hs]
    split
    · exact .solo e c j hbusy h
    · have hasked : ({ e with scheduled := true } : Engine).Sized c := h.congr rfl rfl
      exact .solo _ _ j hbusy (execute hasked rfl)

theorem receiveInput (h : w.Sized busy) (n : Nat) (x : Text) : (w.receiveInput n x).Sized busy := by
  have hsame := h
  obtain ⟨e, c, j, hbusy, h⟩ := h
  cases n with
  | succ n => exact hsame
  | zero =>
    rw [World.receiveInput, engine?_solo]
    dsimp only
    split
    · exact hsame.record _
    · exact (World.Sized.solo { e with queue := e.queue.append x } c j hbusy
        (h.congr rfl rfl)).scheduleDelivery 0

theorem deliver (h : w.Sized busy) (x : Owner × Delivery) : (w.deliver x).Sized busy := by
  rcases x with ⟨n | n, x | ⟨s, c⟩⟩
  · exact h.receiveInput n x
  · exact h
  · exact h.note _
  · exact h.note _

theorem deliverAll (h : w.Sized busy) (ds : List (Owner × Delivery)) :
    (ds.foldl World.deliver w).Sized busy := by
  induction ds generalizing w with
  | nil => exact h
  | cons x ds ih => exact ih (h.deliver x)

theorem feed (h : w.Sized busy) (conn : Nat) (bytes : List UInt8) : (w.feed conn bytes).Sized busy := by
  obtain ⟨e, c, j, hbusy, h⟩ := h
  cases conn with
  | succ n => exact .solo e c j hbusy h
  | zero =>
    exact deliverAll (.solo e (c.receive bytes).1 j hbusy (h.setConn rfl rfl rfl h.delayed)) _

theorem endOfStream (h : w.Sized busy) (conn : Nat) : (w.endOfStream conn).Sized busy := by
  obtain ⟨e, c, j, hbusy, h⟩ := h
  cases conn with
  | succ n => exact .solo e c j hbusy h
  | zero =>
    exact deliverAll (.solo e c.endOfStream.1 j hbusy (h.setConn rfl rfl rfl h.delayed)) _

theorem queueInput (h : (World.solo e c j).Sized busy) (x : Text) :
    ((World.solo e c j).queueInput 0 e x).Sized busy := by
  obtain ⟨e, c, j, hbusy, h⟩ := h
  have hqueued : (World.solo { e with queue := e.queue.append x } c j).Sized busy :=
    .solo _ c j hbusy (h.congr rfl rfl)
  rw [World.queueInput, setEngine_solo]
  split
  · exact hqueued.scheduleDelivery 0
  · exact hqueued

theorem releaseDelayed (h : w.Sized busy) (conn : Nat) :
    (w.modifyConn conn (·.releaseDelayed)).Sized busy := by
  obtain ⟨e, c, j, hbusy, h⟩ := h
  cases conn with
  | succ n =>
    rw [modifyConn_solo_succ]
    exact .solo e c j hbusy h
  | zero =>
    refine .solo e c.releaseDelayed j hbusy (h.setConn rfl rfl ?_ nofun)
    rw [Connection.sizes, Connection.releaseDelayed, List.filterMap_append,
      List.filterMap_eq_nil_iff.2 h.delayed, List.append_nil]
    rfl

/-- The terminal gets a new size, and its engine will be told. -/
theorem resize (h : w.Sized busy) (conn : Nat) (z : Size) : (w.resize conn z).Sized busy := by
  have hsame := h
  obtain ⟨e, c, j, hbusy, h⟩ := h
  cases conn with
  | succ n =>
    rw [World.resize, modifyConn_solo_succ]
    exact hsame
  | zero =>
    have hnone : e.gauge? = none → ∀ tasks, e.Sized { c.setSize z with tasks } := by
      intro hnone tasks
      refine ⟨fun hbusy => ?_, h.delayed, ?_⟩
      · have hread := h.reading hbusy
        rw [hnone] at hread
        cases hread
      · rw [hnone]
        exact nofun
    have htold : ∀ g ∈ e.gauge?, g.Sized e.busy ((c.setSize z).execute (.resize 0 z)) := by
      intro g hg
      obtain ⟨hconn, hhooked, -, -, hkept, hcalm⟩ := h.gauge g hg
      have hsizes : ((c.setSize z).execute (.resize 0 z)).sizes = c.sizes ++ [z] :=
        List.filterMap_append ..
      refine ⟨hconn, hhooked, ?_, ?_, hkept, hcalm⟩
      · rw [hsizes, List.getLast?_concat]
        rintro _ ⟨⟩
        rfl
      · rw [hsizes]
        exact fun hnil => absurd hnil (by simp)
    rw [World.resize, modifyConn_solo, conns_solo, Option.bind_some]
    cases hg : e.gauge? with
    | none =>
      split
      · exact .solo e _ j hbusy (hnone hg _)
      · exact .solo e _ j hbusy (hnone hg _)
      · exact (World.Sized.solo e _ j hbusy (hnone hg _)).note _
    | some g =>
      have hhooked : (c.setSize z).handlers.size = some (.engine 0) := (h.gauge g hg).hooked
      rw [hhooked]
      exact .solo e _ j hbusy ⟨h.reading, h.delayed, htold⟩

/-- The engine is told the first of the sizes. -/
theorem receiveSize {z : Size} {tasks : List Task} (hfree : e.busy = false)
    (h : e.Sized { c with tasks := .resize 0 z :: tasks }) :
    ((World.solo e { c with tasks } j).receiveSize 0 z).Sized false := by
  rw [World.receiveSize, engine?_solo]
  dsimp only
  rw [if_neg (by rw [hfree]; decide)]
  cases hs : e.session with
  | none =>
    exact .solo e _ j hfree (.of_none (by rw [Engine.gauge?, hs]; rfl) hfree h.delayed)
  | some s =>
    have hg : e.gauge? = some ⟨s.conn, s.width, s.paused, e.pendingResize⟩ :=
      congrArg (Option.map _) hs
    obtain ⟨-, hbusy⟩ := e.flags_resized z
    have hsized := h.gauge _ hg
    rw [hfree] at hsized
    have hput := (Engine.Sized.of_some (c := { c with tasks }) (e.gauge_resized hg z)
      (by rw [hbusy, hfree]; exact hsized.resized) h.delayed).put (e := e) (j := j)
    rw [hbusy, hfree] at hput
    dsimp only
    rw [h.session_conn hs]
    exact hput

end World.Sized

/-! ### What a host may do -/

namespace World

/-- Whether a line is read. -/
def reads (w : World) : Bool := ((w.engine? 0).bind Engine.session).isSome

/-- The sizes that the engine is still to be told, in order. -/
def sizes (w : World) : List Size := ((w.conns[0]?).map Connection.sizes).getD []

end World

/-- Whether calls on a session leave its width and the end of its pause to the engine. -/
def SessionCall.report (calls : List SessionCall) : Bool :=
  calls.all SessionCall.keepsWidth && !calls.contains .resume

/-- Whether a call keeps the engine, begins no line while a size is to be told, and leaves the size
handler of a line that is read where it is. -/
def Call.reports (w : World) : Call → Bool
  | .readline .. => w.reads || w.sizes.isEmpty
  | .session _ calls => SessionCall.report calls
  | .drop n => n ≠ 0
  | .setHandlers conn f =>
    conn ≠ 0 || !w.reads || w.conns.all fun c => (f c.handlers).size = c.handlers.size
  | _ => true

/-- Whether a step of a script runs no task and leaves the width alone. -/
def ScriptStep.reports : ScriptStep → Bool
  | .runTasks | .resize _ => false
  | s => s.calls.all SessionCall.keepsWidth

/-- Whether a job is one that reports every size, by a task that is not run inside of another. -/
def Job.reports (w : World) : Job → Bool
  | .call c => c.reports w
  | .background _ calls => SessionCall.report calls
  | .script _ _ _ (s :: _) => s.reports
  | _ => true

namespace Machine

/-- Calls are made between tasks, and jobs are done at any time. -/
def Reports (m : Machine) : Move → Prop
  | .call c => m.BetweenTasks ∧ c.reports m.world = true
  | .step => ∀ j ∈ m.jobs.head?, j.reports m.world = true

instance (m : Machine) : (x : Move) → Decidable (m.Reports x)
  | .call c => inferInstanceAs (Decidable (m.BetweenTasks ∧ c.reports m.world = true))
  | .step => inferInstanceAs (Decidable (∀ j ∈ m.jobs.head?, j.reports m.world = true))

end Machine

/-! ### Calls -/

/-- A call after which the gauge goes with the terminal. -/
structure Called.Sized (r : Called) : Prop where
  world : r.world.Sized false
  jobs : ∀ j ∈ r.jobs, ¬ j.isScript

theorem SessionCall.holding_of_report {calls : List SessionCall}
    (h : SessionCall.report calls = true) (paused : Bool) :
    calls.all SessionCall.keepsWidth = true ∧
      (calls.foldl SessionCall.holding paused = false → paused = false) := by
  obtain ⟨hwidth, hresume⟩ := Bool.and_eq_true_iff.1 h
  refine ⟨hwidth, ?_⟩
  clear h hwidth
  induction calls generalizing paused with
  | nil => exact id
  | cons k calls ih =>
    rw [List.contains_cons, Bool.not_or, Bool.and_eq_true] at hresume
    intro hpaused
    have hk := ih (k.holding paused) hresume.2 hpaused
    cases k
    case pause => cases hk
    case resume => exact absurd hresume.1 (by decide)
    all_goals exact hk

namespace World.Sized

/-- A call that changes nothing. -/
theorem called (h : w.Sized false) (reply : Reply) : Called.Sized { world := w, reply } :=
  ⟨h, List.forall_mem_nil _⟩

/-- A call after which tasks are run. -/
theorem calledTasks (h : w.Sized false) (conn : Nat) (reply : Reply) :
    Called.Sized { world := w, jobs := [.tasks conn], reply } :=
  ⟨h, List.forall_mem_singleton.2 id⟩

/-- A call of an engine that is there and free. -/
theorem callEngine (h : w.Sized false) (n : Nat) {f : Engine → Called}
    (hf : ∀ e c j, n = 0 → w = .solo e c j → e.busy = false → e.Sized c → (f e).Sized) :
    (w.callEngine n f).Sized := by
  obtain ⟨e, c, j, hbusy, h⟩ := h
  cases n with
  | zero =>
    rw [callEngine_solo _ _ _ hbusy]
    exact hf e c j rfl rfl hbusy h
  | succ n => exact (World.Sized.solo e c j hbusy h).called _

end World.Sized

namespace Engine.Sized

theorem gauge_free (h : e.Sized c) (hfree : e.busy = false) (hg : e.gauge? = some g) :
    g.Sized false c := hfree ▸ h.gauge g hg

theorem callResume (h : e.Sized c) (hfree : e.busy = false) :
    ((World.solo e c j).callResume 0 e).Sized := by
  have hsame : (World.solo e c j).Sized false := .solo e c j hfree h
  rw [World.callResume, h.conn]
  cases hr : e.resume ((World.solo e c j).size 0).cols with
  | error err => exact hsame.called _
  | ok r =>
    obtain ⟨t, f⟩ := r
    cases hg : e.gauge? with
    | none =>
      rw [Engine.resume_eq_error (Engine.core?_of_gauge? hg)] at hr
      cases hr
    | some g =>
      have hsized := h.gauge_free hfree hg
      exact ⟨leaves (Engine.gauge_resume hg hsized.kept hr) hfree hsized.resume h.delayed,
        List.forall_mem_append.2 ⟨Job.not_isScript_ofFinished f, List.forall_mem_singleton.2 id⟩⟩

theorem callSession (h : e.Sized c) (hfree : e.busy = false) {calls : List SessionCall}
    (hcalls : SessionCall.report calls = true) :
    ((World.solo e c j).callSession 0 e calls).Sized := by
  have hsame : (World.solo e c j).Sized false := .solo e c j hfree h
  rw [World.callSession, h.conn]
  cases hr : e.answers ((World.solo e c j).size 0) calls with
  | error err => exact hsame.called _
  | ok r =>
    obtain ⟨t, replies, f⟩ := r
    cases hg : e.gauge? with
    | none =>
      rw [Engine.answers_eq_error (Engine.core?_of_gauge? hg)] at hr
      cases hr
    | some g =>
      have hsized := h.gauge_free hfree hg
      obtain ⟨hwidth, hpaused⟩ := SessionCall.holding_of_report hcalls g.paused
      refine ⟨leaves (Engine.gauge_answers hg _ hwidth hr) hfree (hsized.setPaused ?_) h.delayed,
        Job.not_isScript_ofFinished f⟩
      rintro (hbusy | hlisten)
      · cases hbusy
      · exact hsized.calm (.inr (hpaused hlisten))

/-- A line begins on a terminal that has told its sizes. -/
theorem begins (h : e.Sized c) (hfree : e.busy = false) (hsizes : c.sizes = []) {r : Request}
    (hconn : r.conn = 0) (callback : Nat) : (World.reading e c j r callback).Sized false := by
  have hbegun : (e.start r callback c.size.cols c.handlers).Sized
      { c with handlers := World.sessionHandlers 0 } := by
    refine .of_some (g := ⟨r.conn, c.size.cols, false, none⟩) rfl
      ⟨hconn, rfl, ?_, fun _ => .inl rfl, nofun, fun _ => rfl⟩ h.delayed
    intro z hz
    have hnone : Connection.sizes { c with handlers := World.sessionHandlers 0 } = [] := hsizes
    rw [hnone] at hz
    cases hz
  have hput := hbegun.put (e := e) (j := j)
  have hbusy : (e.start r callback c.size.cols c.handlers).busy = false := hfree
  rw [hbusy, World.put_solo] at hput
  exact hput

theorem readline (h : e.Sized c) (hfree : e.busy = false) {r : Request} (hengine : r.engine = 0)
    (callback : Nat) (hr : (Call.readline r callback).reports (.solo e c j) = true) :
    (match (World.solo e c j).readline r callback with
      | .ok w => ({ world := w, reply := .done } : Called)
      | .error err => { world := .solo e c j, reply := .engineError err }).Sized := by
  have hsame : (World.solo e c j).Sized false := .solo e c j hfree h
  by_cases hconn : r.conn = 0
  · cases hs : e.session with
    | some s =>
      rw [World.readline_solo_of_session _ _ _ hengine hconn hfree (by rw [hs]; rfl)]
      exact hsame.called _
    | none =>
      have hsizes : c.sizes = [] := by
        have hnone : (World.solo e c j).reads = false := by
          rw [World.reads, World.engine?_solo, Option.bind_some, hs]
          rfl
        rw [Call.reports, hnone, Bool.false_or] at hr
        exact List.isEmpty_iff.1 hr
      rw [World.readline_solo _ _ _ hengine hconn hfree hs]
      have hreading := h.begins (j := j) hfree hsizes hconn callback
      refine World.Sized.called ?_ _
      split
      · exact hreading.scheduleDelivery 0
      · exact hreading
  · rw [World.readline_solo_of_conn _ _ _ hconn]
    exact hsame.called _

end Engine.Sized

/-- After a call the gauge goes with the terminal. -/
theorem World.Sized.call (h : w.Sized false) {x : Call} (hx : x.reports w = true) :
    (w.call x).Sized := by
  cases x with
  | readline r callback =>
    refine h.callEngine r.engine fun e c j hengine hw hfree he => ?_
    rw [hw] at hx ⊢
    exact he.readline hfree hengine callback hx
  | queue n x =>
    refine h.callEngine n fun e c j hn hw _ _ => ?_
    rw [hw] at h ⊢
    rw [hn]
    exact (World.Sized.queueInput h x).called _
  | resume n =>
    refine h.callEngine n fun e c j hn hw hfree he => ?_
    rw [hw, hn]
    exact he.callResume hfree
  | session n calls =>
    refine h.callEngine n fun e c j hn hw hfree he => ?_
    rw [hw, hn]
    exact he.callSession hfree hx
  | history n calls =>
    refine h.callEngine n fun e c j hn hw hfree he => ?_
    rw [hw, hn]
    exact (World.Sized.solo { e with history := (collectEach HistoryCall.run e.history calls).1 } c j
      hfree (he.congr rfl rfl)).called _
  | bind n event k =>
    refine h.callEngine n fun e c j hn hw hfree he => ?_
    rw [hw, hn]
    exact (World.Sized.solo { e with keymap := e.keymap.bind event k } c j hfree
      (he.congr rfl rfl)).called _
  | style n => exact h.callEngine n fun _ _ _ _ _ _ _ => h.called _
  | drop n =>
    obtain ⟨n, rfl⟩ := Nat.exists_eq_succ_of_ne_zero (of_decide_eq_true hx)
    obtain ⟨e, c, j, hfree, h⟩ := h
    exact (World.Sized.solo e c j hfree h).called _
  | feed conn bytes => exact (h.feed conn bytes).called _
  | runTasks conn => exact h.calledTasks conn _
  | runDelayed conn => exact (h.releaseDelayed conn).calledTasks conn _
  | endOfStream conn => exact (h.endOfStream conn).calledTasks conn _
  | resize conn z => exact (h.resize conn z).calledTasks conn _
  | setHandlers conn f =>
    obtain ⟨e, c, j, hfree, h⟩ := h
    refine World.Sized.called ?_ _
    cases conn with
    | succ n =>
      rw [World.modifyConn_solo_succ]
      exact .solo e c j hfree h
    | zero =>
      rw [World.modifyConn_solo]
      refine .solo e _ j hfree ?_
      cases hs : e.session with
      | none => exact .of_none (by rw [Engine.gauge?, hs]; rfl) hfree h.delayed
      | some s =>
        have hkept : (f c.handlers).size = c.handlers.size := by
          have hreads : (World.solo e c j).reads = true := by
            rw [World.reads, World.engine?_solo, Option.bind_some, hs]
            rfl
          rw [Call.reports, hreads] at hx
          simpa [World.solo] using hx
        exact h.setConn rfl hkept rfl h.delayed

/-! ### Jobs -/

/-- The gauge of an engine goes with its terminal. The script of a completion handler is on top while it
runs, and only then is the engine busy. -/
inductive Machine.Sized : Machine → Prop where
  | free {w : World} {jobs : List Job} (h : w.Sized false) (hjobs : ∀ j ∈ jobs, ¬ j.isScript) :
      Sized ⟨w, jobs⟩
  | busy {w : World} {jobs : List Job} (k : Completion) (s : ScriptedHandler)
      (rest : List ScriptStep) (h : w.Sized true) (hjobs : ∀ j ∈ jobs, ¬ j.isScript) :
      Sized ⟨w, .script 0 k s rest :: jobs⟩

namespace Machine

variable {m : Machine} {jobs new : List Job} {host : Host}

theorem sized_append (h : w.Sized false) (hnew : ∀ j ∈ new, ¬ j.isScript)
    (hjobs : ∀ j ∈ jobs, ¬ j.isScript) : Sized ⟨w, new ++ jobs⟩ :=
  .free h (List.forall_mem_append.2 ⟨hnew, hjobs⟩)

theorem sized_callBack (h : w.Sized false) (hjobs : ∀ j ∈ jobs, ¬ j.isScript) {x : Call}
    (hx : x.reports w = true) : Sized (callBack ⟨w, jobs⟩ x) := by
  have hcalled := h.call hx
  rw [callBack]
  dsimp only
  split
  · exact sized_append (hcalled.world.note _) hcalled.jobs hjobs
  · exact sized_append hcalled.world hcalled.jobs hjobs

theorem sized_callLater (h : w.Sized false) (hjobs : ∀ j ∈ jobs, ¬ j.isScript) {x : Call}
    (hx : x.reports w = true) (n : Reply → Note) : Sized (callLater ⟨w, jobs⟩ x n) := by
  have hcalled := h.call hx
  exact sized_append hcalled.world
    (List.forall_mem_append.2 ⟨hcalled.jobs, List.forall_mem_singleton.2 id⟩) hjobs

/-- A task that waited is begun. -/
theorem sized_runTask {tasks : List Task} (x : Task) (hfree : e.busy = false)
    (h : e.Sized { c with tasks := x :: tasks }) (hjobs : ∀ j ∈ jobs, ¬ j.isScript) :
    Sized (runTask ⟨.solo e { c with tasks } j, jobs⟩ x) := by
  have hother : x.size? = none → e.Sized { c with tasks } := fun hx =>
    h.setConn rfl rfl (List.filterMap_cons_none hx).symm h.delayed
  cases x with
  | deliver n =>
    have hsame := hother rfl
    cases n with
    | succ n => exact .free (.solo e _ j hfree hsame) hjobs
    | zero =>
      rw [runTask]
      dsimp only
      rw [World.engine?_solo]
      dsimp only
      rw [if_neg (by rw [hfree]; decide), World.setEngine_solo]
      exact sized_append (.solo { e with scheduled := false } _ j hfree (hsame.congr rfl rfl))
        (List.forall_mem_singleton.2 id) hjobs
  | resize n z =>
    cases n with
    | succ n => exact .free (.solo e _ j hfree (hother rfl)) hjobs
    | zero => exact .free (World.Sized.receiveSize hfree h) hjobs
  | background n calls resume =>
    refine sized_append (.solo e _ j hfree (hother rfl)) ?_ hjobs
    cases calls <;> cases resume <;> simp [Job.isScript]

theorem sized_runTasks (h : w.Sized false) (hjobs : ∀ j ∈ jobs, ¬ j.isScript) (conn : Nat) :
    Sized (runTasks ⟨w, jobs⟩ conn) := by
  have hsame := Sized.free h hjobs
  obtain ⟨e, c, j, hfree, h⟩ := h
  rw [runTasks]
  cases conn with
  | succ n => exact hsame
  | zero =>
    dsimp only
    rw [World.conns_solo, Option.bind_some, Connection.popTask]
    cases htasks : c.tasks with
    | nil => exact hsame
    | cons x tasks =>
      dsimp only
      rw [World.modifyConn_solo]
      have hwaits : e.Sized { c with tasks := x :: tasks } := by
        rw [← htasks]
        exact h
      exact sized_runTask x hfree hwaits (List.forall_mem_cons.2 ⟨id, hjobs⟩)

/-- An event is handled only while nothing is kept back. -/
theorem sized_deliver (h : w.Sized false) (hjobs : ∀ j ∈ jobs, ¬ j.isScript) (n : Nat) :
    Sized (deliver ⟨w, jobs⟩ n) := by
  have hsame := Sized.free h hjobs
  obtain ⟨e, c, j, hfree, h⟩ := h
  rw [deliver]
  cases n with
  | succ n => exact hsame
  | zero =>
    dsimp only
    rw [World.engine?_solo]
    dsimp only
    rw [if_neg (by rw [hfree]; decide), Engine.step?_eq, h.conn]
    cases hnext : e.next? with
    | none => exact hsame
    | some x =>
      obtain ⟨d, event⟩ := x
      obtain ⟨s, -, hs, hlisten, -⟩ := Engine.next?_eq_some hnext
      have hg : e.gauge? = some ⟨s.conn, s.width, s.paused, e.pendingResize⟩ :=
        congrArg (Option.map _) hs
      have hsized := h.gauge_free hfree hg
      have hnone : e.pendingResize = none := hsized.calm (.inr hlisten)
      have hhandle := e.gauge_handle hnext hg hnone
      rw [Option.map_some]
      dsimp only
      cases hr : e.handle d event with
      | settled t f =>
        rw [hr] at hhandle
        obtain ⟨paused, hleaves⟩ := hhandle
        exact sized_append
          (Engine.Sized.leaves hleaves hfree (hsized.setPaused fun _ => hnone) h.delayed)
          (List.forall_mem_append.2
            ⟨Job.not_isScript_ofFinished f, List.forall_mem_singleton.2 id⟩) hjobs
      | script t k s =>
        rw [hr] at hhandle
        obtain ⟨-, paused, hg'⟩ := hhandle
        have hbusy : ({ t with busy := true } : Engine).Sized c :=
          .of_some (e := { t with busy := true }) hg' (hsized.setPaused fun _ => hnone) h.delayed
        exact .busy k _ _ ((hbusy.put (e := e) (j := j)).note _)
          (List.forall_mem_cons.2 ⟨id, hjobs⟩)

/-- The end of a script. -/
theorem sized_endScript (h : w.Sized true) (hjobs : ∀ j ∈ jobs, ¬ j.isScript) (k : Completion)
    (s : ScriptedHandler) : Sized (endScript ⟨w, jobs⟩ 0 k s) := by
  obtain ⟨e, c, j, hbusy, h⟩ := h
  obtain ⟨g, hg⟩ := Option.isSome_iff_exists.1 (h.reading hbusy)
  obtain ⟨t, ht, -⟩ := Option.map_eq_some_iff.1 hg
  have hd := Engine.desk?_of_session ht
  have hsized := h.gauge g hg
  obtain ⟨paused, hg'⟩ := Engine.gauge_afterScript hd hg k s
  rw [endScript_solo hd h.conn]
  have hleaves := Engine.leaves_takeFinished (e := { e with busy := false }) hg' rfl rfl
  exact sized_append (Engine.Sized.leaves hleaves rfl
    (hsized.setPaused fun _ => hsized.calm (.inl hbusy)) h.delayed) (Job.not_isScript_ofFinished _)
    hjobs

/-- A step of a script. -/
theorem sized_scriptStep (h : w.Sized true) (hjobs : ∀ j ∈ jobs, ¬ j.isScript) (k : Completion)
    (s : ScriptedHandler) {step : ScriptStep} (hstep : step.reports = true) (rest : List ScriptStep) :
    Sized (scriptStep ⟨w, jobs⟩ 0 k s step rest) := by
  have hfed := fun t => h.feed 0 (Utf8.encodeText t)
  obtain ⟨e, c, j, hbusy, h⟩ := h
  obtain ⟨g, hg⟩ := Option.isSome_iff_exists.1 (h.reading hbusy)
  obtain ⟨t, ht, -⟩ := Option.map_eq_some_iff.1 hg
  have hd := Engine.desk?_of_session ht
  have hdesk : step.AtDesk → step.calls.all SessionCall.keepsWidth = true →
      Sized (scriptStep ⟨.solo e c j, jobs⟩ 0 k s step rest) := by
    intro hat hcalls
    obtain ⟨paused, hg'⟩ := Engine.gauge_scriptStep hd hg c.size hcalls
    have hsized := h.gauge g hg
    have hput := (Engine.Sized.of_some hg'
      (hsized.setPaused fun _ => hsized.calm (.inl hbusy)) h.delayed).put (e := e) (j := j)
    rw [scriptStep_solo hd h.conn k s hat rest]
    exact .busy k s rest (hbusy ▸ hput) hjobs
  cases step
  case setAsk ask => exact .busy k _ rest (.solo e c j hbusy h) hjobs
  case schedule calls resume =>
    rw [scriptStep]
    dsimp only
    rw [World.engine?_solo]
    dsimp only
    rw [h.conn, World.modifyConn_solo]
    refine .busy k s rest (.solo e _ j hbusy ?_) hjobs
    cases s.delayed with
    | true =>
      refine h.setConn rfl rfl rfl (List.forall_mem_append.2 ⟨h.delayed, ?_⟩)
      exact List.forall_mem_singleton.2 rfl
    | false => exact World.Sized.execute h rfl
  case feed t =>
    rw [scriptStep]
    dsimp only
    rw [World.engine?_solo]
    dsimp only
    rw [h.conn]
    exact .busy k s rest (hfed t) hjobs
  case runTasks => exact absurd hstep Bool.false_ne_true
  case resize z => exact absurd hstep Bool.false_ne_true
  all_goals exact hdesk trivial hstep

/-- Any job but a script. -/
theorem sized_run {x : Job} (h : w.Sized false) (hx : ¬ x.isScript) (hjobs : ∀ j ∈ jobs, ¬ j.isScript)
    (hreports : x.reports w = true) : Sized (run host ⟨w, jobs⟩ x) := by
  cases x with
  | tasks conn => exact sized_runTasks h hjobs conn
  | deliver n => exact sized_deliver h hjobs n
  | schedule n => exact .free (h.scheduleDelivery n) hjobs
  | callback n line =>
    obtain ⟨e, c, j, hfree, h⟩ := h
    refine sized_append (.solo e c _ hfree h) ?_ hjobs
    rw [List.forall_mem_map]
    exact fun _ _ => id
  | call x => exact sized_callBack h hjobs hreports
  | script n k s rest => exact absurd trivial hx
  | background n calls => exact sized_callLater (x := .session n calls) h hjobs hreports _
  | resume n => exact sized_callLater (x := .resume n) h hjobs rfl _
  | note n => exact .free (h.note n) hjobs

/-- One move. -/
theorem Sized.move (host : Host) (h : m.Sized) {x : Move} (hx : m.Reports x) :
    (m.move host x).Sized := by
  cases x with
  | call x =>
    obtain ⟨hbetween, hx⟩ := hx
    cases h with
    | free h hjobs =>
      have hcalled := h.call hx
      exact sized_append hcalled.world hcalled.jobs hjobs
    | busy k s rest h hjobs => exact absurd (hbetween _ (List.mem_cons_self ..)) Bool.false_ne_true
  | step =>
    cases h with
    | @free w jobs h hjobs =>
      cases jobs with
      | nil => exact .free h hjobs
      | cons x jobs =>
        rw [List.forall_mem_cons] at hjobs
        exact sized_run h hjobs.1 hjobs.2 (hx x rfl)
    | busy k s rest h hjobs =>
      cases rest with
      | nil => exact sized_endScript h hjobs k s
      | cons step rest => exact sized_scriptStep h hjobs k s (hx _ rfl) rest

theorem Sized.world (h : m.Sized) : ∃ busy, m.world.Sized busy := by
  cases h with
  | free h hjobs => exact ⟨_, h⟩
  | busy k s rest h hjobs => exact ⟨_, h⟩

theorem sized_play (moves : List Move) (h : m.Sized) (hadmits : m.Admits Reports host moves) :
    (m.play host moves).Sized :=
  play_invariant (fun _ _ hx h => h.move host hx) moves h hadmits

/-- However sizes, input, interrupts, pauses and their ends come one after the other: once the engine
was told every size, it works with the width of its terminal, or its session is paused and it keeps
back the width that it works with; and while its session is not paused nothing is kept back. -/
theorem width_of_play (hnone : e.session = none) (hfree : e.busy = false)
    (hdelayed : ∀ t ∈ c.delayed, t.size? = none) (j : Journal) (moves : List Move)
    (hadmits : (⟨.solo e c j, []⟩ : Machine).Admits Reports host moves) :
    let m := (⟨.solo e c j, []⟩ : Machine).play host moves
    ∃ e' c', m.world.engine? 0 = some e' ∧ m.world.conns[0]? = some c' ∧
      ∀ s, e'.session = some s →
        (c'.sizes = [] → s.width = c'.size.cols ∨
          s.paused = true ∧ e'.pendingResize = some s.width) ∧
        (s.paused = false → e'.pendingResize = none) := by
  intro m
  have hidle : e.Sized c := .of_none (by rw [Engine.gauge?, hnone]; rfl) hfree hdelayed
  have hlast : m.Sized :=
    sized_play moves (.free (.solo e c j hfree hidle) (List.forall_mem_nil _)) hadmits
  obtain ⟨busy, hworld⟩ := hlast.world
  generalize m.world = w at hworld
  obtain ⟨e', c', j', -, h⟩ := hworld
  refine ⟨e', c', rfl, rfl, fun s hs => ?_⟩
  have hsized := h.gauge _ (congrArg (Option.map _) hs)
  have hcalm : s.paused = false → e'.pendingResize = none := fun hlisten => hsized.calm (.inr hlisten)
  refine ⟨fun hsizes => (hsized.width hsizes).imp_right fun hpending => ⟨?_, hpending⟩, hcalm⟩
  cases hpaused : s.paused with
  | true => rfl
  | false => cases (hcalm hpaused).symm.trans hpending

/-- A completion goes on in the background while the terminal gets five columns and then seven. The
pause ends before the engine is told the second size, and what was typed meanwhile is handled then. -/
theorem width_of_play_deferred :
    let handler : Handler := .scripted { script := [], deferred := true }
    let r : Request := { engine := 0, conn := 0, prompt := ⟨['>', ' ']⟩, handler := some handler }
    let host : Host := ⟨fun _ _ => []⟩
    let typing : List Move := [.call (.readline r 0), .call (.queue 0 ['a', '\t']),
      .call (.runTasks 0)] ++ List.replicate 6 .step
    let pause : List Move := [.call (.resize 0 { cols := 5 }), .step, .step,
      .call (.queue 0 ['b']), .call (.resize 0 { cols := 7 }), .call (.resume 0)]
    let start : Machine := ⟨.solo (.new {} []) (.new { cols := 80 } {}) {}, []⟩
    let m := start.play host (typing ++ pause ++ List.replicate 8 .step)
    ∃ e s, m.world.engine? 0 = some e ∧ e.session = some s ∧ s.width = 7 ∧
      e.pendingResize = none ∧ s.buffer.text = ['a', 'b'] := by
  intro handler r host typing pause start m
  have hadmits : start.Admits Reports host (typing ++ pause ++ List.replicate 8 .step) := by
    decide +kernel
  have hread : ∀ e ∈ m.world.engine? 0, e.session.isSome = true ∧
      ∀ s ∈ e.session, s.paused = false ∧ s.buffer.text = ['a', 'b'] := by
    decide +kernel
  have htold : ∀ c ∈ m.world.conns, c.sizes = [] ∧ c.size.cols = 7 := by decide +kernel
  obtain ⟨e, c, he, hc, hwidth⟩ := width_of_play (e := .new {} []) (c := .new { cols := 80 } {})
    rfl rfl (List.forall_mem_nil _) {} _ hadmits
  have hm : play host ⟨.solo (.new {} []) (.new { cols := 80 } {}) {}, []⟩
      (typing ++ pause ++ List.replicate 8 .step) = m := rfl
  rw [hm] at hc
  obtain ⟨hsome, hshown⟩ := hread e he
  obtain ⟨s, hs⟩ := Option.isSome_iff_exists.1 hsome
  obtain ⟨hpaused, htext⟩ := hshown s hs
  obtain ⟨hsizes, hcols⟩ := htold c (List.mem_of_getElem? hc)
  obtain ⟨hright, hnone⟩ := hwidth s hs
  refine ⟨e, s, he, hs, ?_, hnone hpaused, htext⟩
  rcases hright hsizes with hw | ⟨hheld, -⟩
  · rw [hw, hcols]
  · rw [hpaused] at hheld
    cases hheld

end Machine

end LineEditor
