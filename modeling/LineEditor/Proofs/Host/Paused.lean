import LineEditor.Proofs.Display.Narrowed
import LineEditor.Proofs.Engine.Shown
import LineEditor.Proofs.Host.Calm
import LineEditor.Proofs.Host.Newlines

/-!
A terminal that changes its size while a session is paused. The engine is told by tasks and only
keeps the width that the frame was drawn for. When the pause ends that width is compared with the
width of the terminal, and the frame is drawn again if they differ. So the frame is repaired in the
end, except if the terminal has its old width again and a width in between cut into the frame: then
nothing is drawn.

Main definitions: `Engine.PausedOn`, a paused session whose frame is displayed, `Machine.Deferring`,
what is left of it after some sizes, and `Machine.AtRest`, after the pause. Main statements:
`Deferring.play`, `Engine.resume_of_paused`, `AtRest.play` and `Machine.repaired_of_play`.
-/
namespace LineEditor

/-- The size that a terminal gets by a move. -/
def Move.size? : Move → Option Size
  | .call (.resize 0 z) => some z
  | _ => none

theorem Move.eq_of_size? {x : Move} {z : Size} (h : x.size? = some z) : x = .call (.resize 0 z) := by
  unfold Move.size? at h
  split at h
  · cases h
    rfl
  · cases h

/-- A session is paused and is displayed from row `top` on, with nothing left to do for it. -/
structure Engine.PausedOn (e : Engine) (c : Connection) (s : Session) (top : Nat) : Prop where
  session_eq : e.session = some s
  paused : s.paused = true
  outcome_eq : s.outcome = .reading
  conn_eq : s.conn = 0
  free : e.busy = false
  pending_eq : e.pendingResize = none
  effects_eq : e.effects = []
  handler_eq : c.handlers.size = some (.engine 0)
  tasks_eq : c.tasks = []
  width_eq : s.width = c.size.cols
  reading_eq : c.screen.reading = .ground
  plain : s.frame.Plain
  displays : c.screen.Displays s.frame s.width top

variable {e : Engine} {c : Connection} {j : Journal} {s : Session} {top : Nat} {host : Host}

/-! ### The desk -/

namespace Desk

/-- The session made to fit a terminal of `width` columns. -/
def fitTo (d : Desk) (width : Nat) : Desk :=
  if d.session.width = width then d else d.resize d.session.width width

variable (d : Desk) (width : Nat)

theorem session_fitTo : (d.fitTo width).session = { d.session with width } := by
  rw [fitTo]
  split
  · rename_i hw
    rw [← hw]
  · rw [resize, write_eq]
    rfl

theorem queue_fitTo : (d.fitTo width).queue = d.queue := by
  rw [fitTo]
  split
  · rfl
  · rw [resize, write_eq]
    rfl

variable {d}

theorem seen_fitTo (hf : d.session.frame.Plain) (style : BellStyle) (screen : Screen) :
    (d.fitTo width).seen style screen = if d.session.width = width then d.seen style screen
      else (d.seen style screen).write
        (Draw.renderAll (d.session.frame.resize d.session.width width)) := by
  rw [fitTo]
  split
  · rfl
  · rw [← NewlineMode.translate_apply (Draw.newline_notMem_resize hf.prompt hf.buffer _ width)]
    exact (seen_write ..).trans (by rw [seen_log]; rfl)

end Desk

/-! ### The engine -/

namespace Engine

/-- While the session is paused the engine keeps its width, unless it keeps one already, and writes
nothing. -/
theorem resized_of_paused (hs : e.session = some s) (hpaused : s.paused = true)
    (heffects : e.effects = []) (z : Size) :
    (e.resized z).settled = { e with pendingResize := some (e.pendingResize.getD s.width) } ∧
      ∀ c : Connection, c.settle (e.resized z) = c := by
  have hresized : e.resized z = { e.put (Desk.log { toEditor := e.toEditor, session := s } .debug
      .engine "resize deferred" [("size", .plain z.describe)]) with
      pendingResize := some (e.pendingResize.getD s.width) } := by
    rw [resized, desk?_of_session hs]
    exact if_pos hpaused
  rw [hresized]
  constructor
  · change ({ e with session := some s, effects := [], pendingResize := _ } : Engine) = _
    rw [← hs, ← heffects]
  intro c
  change List.foldl _ c (e.effects ++ _) = c
  rw [heffects]
  rfl

/-- The engine after the pause of a session that goes on. -/
def resumed (e : Engine) (s : Session) (width : Nat) : Engine :=
  { e.put (((Desk.mk e.toEditor s).resume.fitTo width).log .debug .engine "resume" []) with
    pendingResize := none }

theorem session_resumed (e : Engine) (s : Session) (width : Nat) :
    (e.resumed s width).session = some { s with paused := false, width } :=
  congrArg some (Desk.session_fitTo ..)

/-- The session is made to fit the width that the terminal has, if no other width was kept than that
of the session. -/
theorem resume_of_paused (hs : e.session = some s) (hpaused : s.paused = true)
    (hreading : s.outcome = .reading) {width : Nat}
    (hpending : e.pendingResize = some s.width ∨ e.pendingResize = none ∧ s.width = width) :
    e.resume width = .ok (e.resumed s width, none) := by
  have hgoes : (e.resumed s width).takeFinished = (e.resumed s width, none) := by
    refine takeFinished_of_reading fun t ht => ?_
    rw [session_resumed] at ht
    cases ht
    exact hreading
  rw [← hgoes, resume, desk?_of_session hs]
  dsimp only
  rw [if_pos hpaused, show (Desk.mk e.toEditor s).resume.session.outcome = .reading from hreading]
  rcases hpending with hp | ⟨hp, hw⟩
  · rw [hp]
    rfl
  · have hfit : (Desk.mk e.toEditor s).resume.fitTo width = (Desk.mk e.toEditor s).resume :=
      if_pos hw
    rw [hp, resumed, hfit]

/-- The end of a pause writes what makes the session fit. -/
theorem screen_settle_resumed (heffects : e.effects = []) (hf : s.frame.Plain) (width : Nat)
    (c : Connection) : (c.settle (e.resumed s width)).screen = if s.width = width then c.screen
      else c.screen.write (Draw.renderAll (s.frame.resize s.width width)) := by
  have hnone : ∀ style, (Desk.mk e.toEditor s).resume.seen style c.screen = c.screen := by
    intro style
    change List.foldl _ c.screen e.effects = c.screen
    rw [heffects]
    rfl
  rw [screen_settle]
  change Desk.seen _ c.screen (((Desk.mk e.toEditor s).resume.fitTo width).log ..) = _
  rw [Desk.seen_log, Desk.seen_fitTo width hf, hnone]
  rfl

end Engine

/-! ### The pause -/

theorem World.receiveSize_of_paused (hs : e.session = some s) (hpaused : s.paused = true)
    (hconn : s.conn = 0) (hfree : e.busy = false) (heffects : e.effects = []) (z : Size) :
    ∃ j', (World.solo e c j).receiveSize 0 z =
      .solo { e with pendingResize := some (e.pendingResize.getD s.width) } c j' := by
  obtain ⟨hkept, hsilent⟩ := Engine.resized_of_paused hs hpaused heffects z
  generalize { e with pendingResize := some (e.pendingResize.getD s.width) } = told at hkept ⊢
  rw [World.receiveSize, World.engine?_solo]
  dsimp only
  rw [if_neg (by rw [hfree]; decide), hs]
  dsimp only
  rw [hconn, World.put_solo, hkept, hsilent]
  exact ⟨_, rfl⟩

namespace Machine

/-- A pause in which the terminal got some sizes, one after the other: its rows are cut off, and the
engine keeps the width of the session, or will be told and keeps none yet. -/
inductive Deferring (e : Engine) (c : Connection) (s : Session) (sizes : List Size) :
    Machine → Prop where
  | solo (pending : Option Nat) (tasks : List Task) (j : Journal) (jobs : List Job)
      (htasks : ∀ t ∈ tasks, ∃ z, t = .resize 0 z) (hjobs : ∀ x ∈ jobs, x = .tasks 0)
      (hleft : jobs = [] → tasks = [])
      (hpending : pending = some s.width ∨ pending = none ∧ (tasks = [] → sizes = [])) :
      Deferring e c s sizes ⟨.solo { e with pendingResize := pending } { c with
        size := sizes.getLast?.getD c.size
        screen := c.screen.setWidths (sizes.map Size.cols)
        tasks } j, jobs⟩

variable {m : Machine} {sizes : List Size}

theorem deferring_self (h : e.PausedOn c s top) : Deferring e c s [] ⟨.solo e c j, []⟩ := by
  have hstart : Deferring e c s [] _ := .solo none [] j [] (List.forall_mem_nil _)
    (List.forall_mem_nil _) (fun _ => rfl) (.inr ⟨rfl, fun _ => rfl⟩)
  rw [← h.pending_eq, ← h.tasks_eq] at hstart
  exact hstart

/-- A task that tells an engine a size. -/
theorem move_resize {z : Size} {tasks : List Task} {jobs : List Job}
    (htasks : c.tasks = .resize 0 z :: tasks) :
    move host ⟨.solo e c j, .tasks 0 :: jobs⟩ .step =
      ⟨(World.solo e { c with tasks } j).receiveSize 0 z, .tasks 0 :: jobs⟩ := by
  change (Machine.mk (.solo e c j) jobs).runTasks 0 = _
  rw [Machine.runTasks, World.conns_solo, Option.bind_some, Connection.popTask, htasks]
  rfl

theorem Deferring.step (hm : Deferring e c s sizes m) (host : Host) (h : e.PausedOn c s top) :
    Deferring e c s sizes (m.move host .step) := by
  obtain ⟨pending, tasks, j, jobs, htasks, hjobs, hleft, hpending⟩ := hm
  cases jobs with
  | nil => exact .solo pending tasks j [] htasks hjobs hleft hpending
  | cons x jobs =>
    obtain rfl := hjobs x (List.mem_cons_self ..)
    have hrest : ∀ x ∈ jobs, x = .tasks 0 := fun x hx => hjobs x (List.mem_cons_of_mem _ hx)
    cases tasks with
    | nil =>
      rw [move_tasks rfl]
      exact .solo pending [] j jobs htasks hrest (fun _ => rfl) hpending
    | cons t tasks =>
      obtain ⟨z, rfl⟩ := htasks t (List.mem_cons_self ..)
      obtain ⟨j', htold⟩ := World.receiveSize_of_paused (e := { e with pendingResize := pending })
        (c := { c with
          size := sizes.getLast?.getD c.size
          screen := c.screen.setWidths (sizes.map Size.cols)
          tasks }) (j := j) h.session_eq h.paused h.conn_eq h.free h.effects_eq z
      have hkept : pending.getD s.width = s.width := by
        rcases hpending with rfl | ⟨rfl, -⟩ <;> rfl
      rw [move_resize rfl, htold]
      dsimp only
      rw [hkept]
      exact .solo _ tasks j' (.tasks 0 :: jobs) (fun t ht => htasks t (List.mem_cons_of_mem _ ht))
        hjobs nofun (.inl rfl)

theorem Deferring.resize (hm : Deferring e c s sizes m) (host : Host) (h : e.PausedOn c s top)
    (z : Size) : Deferring e c s (sizes ++ [z]) (m.move host (.call (.resize 0 z))) := by
  obtain ⟨pending, tasks, j, jobs, htasks, hjobs, hleft, hpending⟩ := hm
  have hnew : Deferring e c s (sizes ++ [z]) _ := .solo pending
    (tasks ++ [.resize 0 z]) j (.tasks 0 :: jobs)
    (List.forall_mem_append.2 ⟨htasks, List.forall_mem_singleton.2 ⟨z, rfl⟩⟩)
    (List.forall_mem_cons.2 ⟨rfl, hjobs⟩) nofun
    (hpending.imp_right fun hp => ⟨hp.1, fun hnil => absurd hnil (by simp)⟩)
  rw [List.getLast?_concat, List.map_append, List.map_singleton, Screen.setWidths_append] at hnew
  change Deferring e c s _ ⟨World.resize _ 0 z, .tasks 0 :: jobs⟩
  rw [World.resize, World.modifyConn_solo, World.conns_solo, Option.bind_some]
  dsimp only [Connection.setSize]
  rw [h.handler_eq]
  exact hnew

/-- The sizes may come in any number, and the tasks that tell of them may be run at any time. -/
theorem Deferring.play (hm : Deferring e c s sizes m) (host : Host) (h : e.PausedOn c s top)
    (moves : List Move) (hmoves : ∀ x ∈ moves, x = .step ∨ x.size?.isSome) :
    Deferring e c s (sizes ++ moves.filterMap Move.size?) (m.play host moves) := by
  induction moves generalizing m sizes with
  | nil =>
    rw [List.filterMap_nil, List.append_nil]
    exact hm
  | cons x moves ih =>
    obtain ⟨hx, hrest⟩ := List.forall_mem_cons.1 hmoves
    rcases hx with rfl | hx
    · exact ih (hm.step host h) hrest
    · obtain ⟨z, hz⟩ := Option.isSome_iff_exists.1 hx
      obtain rfl := Move.eq_of_size? hz
      have hnext := ih (hm.resize host h z) hrest
      rw [List.append_assoc] at hnext
      exact hnext

/-! ### The end of the pause -/

/-- An engine and a connection as they are, but for deliveries that are asked for. -/
inductive AtRest (e : Engine) (c : Connection) : Machine → Prop where
  | solo (scheduled : Bool) (tasks : List Task) (j : Journal) (jobs : List Job)
      (htasks : ∀ t ∈ tasks, t = .deliver 0)
      (hjobs : ∀ x ∈ jobs, x = .schedule 0 ∨ x = .tasks 0 ∨ x = .deliver 0) :
      AtRest e c ⟨.solo { e with scheduled } { c with tasks } j, jobs⟩

/-- No task waits, and it is left to ask for a delivery. -/
theorem atRest_schedule (htasks : c.tasks = []) : AtRest e c ⟨.solo e c j, [.schedule 0]⟩ :=
  .solo e.scheduled c.tasks j [.schedule 0] (by rw [htasks]; exact List.forall_mem_nil _)
    (List.forall_mem_singleton.2 (.inl rfl))

/-- Nothing is delivered if nothing is queued. -/
theorem AtRest.move (hm : AtRest e c m) (host : Host) (hs : e.session = some s) (hconn : s.conn = 0)
    (hfree : e.busy = false) (hqueue : e.queue.pending = []) {x : Move}
    (hx : x = .step ∨ x = .call (.runTasks 0)) : AtRest e c (m.move host x) := by
  obtain ⟨scheduled, tasks, j, jobs, htasks, hjobs⟩ := hm
  rcases hx with rfl | rfl
  · cases jobs with
    | nil => exact .solo scheduled tasks j [] htasks hjobs
    | cons x jobs =>
      have hrest := fun x hx => hjobs x (List.mem_cons_of_mem _ hx)
      rcases hjobs x (List.mem_cons_self ..) with rfl | rfl | rfl
      · change AtRest e c ⟨World.scheduleDelivery _ 0, jobs⟩
        rw [World.scheduleDelivery_solo _ _ _ fun t ht => by
          rw [← Option.some.inj (hs.symm.trans ht), hconn]]
        split
        · exact .solo scheduled tasks j jobs htasks hrest
        · exact .solo true (tasks ++ [.deliver 0]) j jobs
            (List.forall_mem_append.2 ⟨htasks, List.forall_mem_singleton.2 rfl⟩) hrest
      · cases tasks with
        | nil =>
          rw [move_tasks rfl]
          exact .solo scheduled [] j jobs htasks hrest
        | cons t tasks =>
          obtain rfl := htasks t (List.mem_cons_self ..)
          rw [move_task (e := { e with scheduled }) hfree rfl]
          exact .solo false tasks j _ (fun t ht => htasks t (List.mem_cons_of_mem _ ht))
            (List.forall_mem_cons.2 ⟨.inr (.inr rfl), hjobs⟩)
      · have hstep : Engine.step? { e with scheduled } = none := by
          rw [Engine.step?_eq, Engine.next?_of_empty (e := { e with scheduled }) hqueue]
          rfl
        rw [move_delivered (e := { e with scheduled }) hfree hstep]
        exact .solo scheduled tasks j jobs htasks hrest
  · exact .solo scheduled tasks j (.tasks 0 :: jobs) htasks
      (List.forall_mem_cons.2 ⟨.inr (.inl rfl), hjobs⟩)

/-- The call that ends a pause. -/
theorem move_resumed (hs : e.session = some s) (hpaused : s.paused = true)
    (hreading : s.outcome = .reading) (hconn : s.conn = 0) (hfree : e.busy = false)
    (hpending : e.pendingResize = some s.width ∨
      e.pendingResize = none ∧ s.width = c.size.cols) :
    move host ⟨.solo e c j, []⟩ (.call (.resume 0)) =
      ⟨.solo (e.resumed s c.size.cols).settled (c.settle (e.resumed s c.size.cols))
        (j.settle (e.resumed s c.size.cols)), [.schedule 0]⟩ := by
  have hengine : e.conn = 0 := by
    rw [Engine.conn, hs]
    exact hconn
  have hresume : e.resume ((World.solo e c j).size 0).cols = .ok (e.resumed s c.size.cols, none) :=
    Engine.resume_of_paused hs hpaused hreading hpending
  have hcall : (World.solo e c j).call (.resume 0) = (World.solo e c j).callResume 0 e := by
    rw [World.call, World.callEngine_solo e c j hfree]
  rw [Machine.move, Machine.call, hcall, World.callResume, hengine, hresume]
  dsimp only
  rw [World.put_solo]
  rfl

/-- The session goes on for the width that the terminal has now, and its frame is drawn again if it
was drawn for another one. -/
theorem Deferring.resume (hm : Deferring e c s sizes m) (host : Host) (h : e.PausedOn c s top)
    (hdone : m.jobs = []) {width : Nat} (hwidth : width = (sizes.getLast?.getD c.size).cols) :
    ∃ e' c', AtRest e' c' (m.move host (.call (.resume 0))) ∧
      e'.session = some { s with paused := false, width } ∧ e'.busy = false ∧
      e'.queue = e.queue ∧ c'.screen = if s.width = width
        then c.screen.setWidths (sizes.map Size.cols)
        else (c.screen.setWidths (sizes.map Size.cols)).write
          (Draw.renderAll (s.frame.resize s.width width)) := by
  obtain ⟨pending, tasks, j, jobs, htasks, hjobs, hleft, hpending⟩ := hm
  obtain rfl : jobs = [] := hdone
  obtain rfl := hleft rfl
  subst hwidth
  -- no task is left, so that the engine was told unless there was nothing to tell
  have hkept : pending = some s.width ∨
      pending = none ∧ s.width = (sizes.getLast?.getD c.size).cols := by
    refine hpending.imp_right fun hp => ⟨hp.1, ?_⟩
    rw [hp.2 rfl]
    exact h.width_eq
  rw [move_resumed (e := { e with pendingResize := pending }) h.session_eq h.paused h.outcome_eq
    h.conn_eq h.free hkept]
  exact ⟨_, _, atRest_schedule (Connection.tasks_settle ..), Engine.session_resumed .., h.free,
    Desk.queue_fitTo .., Engine.screen_settle_resumed (e := { e with pendingResize := pending })
      h.effects_eq h.plain ..⟩

theorem AtRest.play (hm : AtRest e c m) (host : Host) (hs : e.session = some s) (hconn : s.conn = 0)
    (hfree : e.busy = false) {moves : List Move} (hqueue : moves = [] ∨ e.queue.pending = [])
    (hmoves : ∀ x ∈ moves, x = .step ∨ x = .call (.runTasks 0)) :
    AtRest e c (m.play host moves) := by
  rcases hqueue with rfl | hqueue
  · exact hm
  induction moves generalizing m with
  | nil => exact hm
  | cons x moves ih =>
    obtain ⟨hx, hrest⟩ := List.forall_mem_cons.1 hmoves
    exact ih (hm.move host hs hconn hfree hqueue hx) hrest

/-! ### What the terminal shows -/

/-- The last of some widths is the width of the screen. -/
theorem width_setWidths (h : e.PausedOn c s top) (sizes : List Size) :
    (c.screen.setWidths (sizes.map Size.cols)).width =
      max (sizes.getLast?.getD c.size).cols 1 := by
  induction sizes using List.reverseRecOn with
  | nil =>
    rw [List.map_nil, Screen.setWidths_nil, h.displays.width_eq, h.width_eq]
    rfl
  | append_singleton sizes z =>
    rw [List.map_append, List.map_singleton, Screen.setWidths_append, List.getLast?_concat]
    rfl

/-- After a pause in which the terminal got some sizes the session goes on for the last of them. Its
frame is displayed, as if it were drawn on a blank terminal, if the width is another one than before
the pause or if none of the widths in between cut into the frame, and not otherwise. -/
theorem repaired_of_play (h : e.PausedOn c s top) {pause later : List Move} {sizes : List Size}
    {width : Nat} (hpause : ∀ x ∈ pause, x = .step ∨ x.size?.isSome)
    (hdone : ((⟨.solo e c j, []⟩ : Machine).play host pause).jobs = [])
    (hlater : ∀ x ∈ later, x = .step ∨ x = .call (.runTasks 0))
    (hqueue : later = [] ∨ e.queue.pending = []) (hsizes : pause.filterMap Move.size? = sizes)
    (hwidth : (sizes.getLast?.getD c.size).cols = width) (hmax : max width 1 ≤ Draw.maxCount)
    (hfits : s.frame.Fits s.width) (hfits' : s.frame.Fits width) :
    let once := ({ Screen.blank width with row := top } : Screen).write
      (Draw.renderAll (s.frame.redraw width))
    ∃ e' c' j', ((⟨.solo e c j, []⟩ : Machine).play host
        (pause ++ .call (.resume 0) :: later)).world = .solo e' c' j' ∧
      e'.session = some { s with paused := false, width } ∧
      (c'.screen.Displays s.frame width top ↔
        s.width ≠ width ∨ ∀ z ∈ sizes, s.frame.IsWithin s.width z.cols) ∧
      (c'.screen.Displays s.frame width top →
        c'.screen.lines.drop top = once.lines.drop top ∧ c'.screen.cursor = once.cursor) := by
  intro once
  have hdefer := (deferring_self (j := j) h).play host h pause hpause
  rw [List.nil_append, hsizes] at hdefer
  obtain ⟨e', c', hresumed, hsession, hfree, hqueued, hscreen⟩ :=
    hdefer.resume host h hdone hwidth.symm
  rw [← hqueued] at hqueue
  have hrest := hresumed.play host hsession h.conn_eq hfree hqueue hlater
  rw [play_append, play_cons]
  generalize play host _ later = final at hrest ⊢
  obtain ⟨scheduled, tasks, j', jobs, -, -⟩ := hrest
  refine ⟨{ e' with scheduled }, { c' with tasks }, j', rfl, hsession, ?_,
    fun hdisplays => hdisplays.agree (Screen.displays_redraw hmax h.plain hfits' top)⟩
  change c'.screen.Displays s.frame width top ↔ _
  have hcut := width_setWidths h sizes
  rw [hwidth] at hcut
  rw [hscreen]
  -- the widths in between matter only where nothing is drawn in the end
  split
  · rename_i heq
    subst heq
    rw [h.displays.setWidths_iff _ hcut, List.forall_mem_map]
    exact (or_iff_right (not_not_intro rfl)).symm
  · rename_i hne
    exact iff_of_true (h.displays.resize h.reading_eq _ hcut hmax h.plain hfits hfits') (.inl hne)

/-- Behind a prompt of two columns eight letters are typed and a completion is begun that goes on in
the background. Meanwhile the terminal gets five columns and then seven. -/
theorem repaired_of_play_deferred :
    let handler : Handler := .scripted { script := [], deferred := true }
    let r : Request := { engine := 0, conn := 0, prompt := ⟨['>', ' ']⟩, handler := some handler }
    let host : Host := ⟨fun _ _ => []⟩
    let frame : Frame := ⟨⟨['>', ' ']⟩, .ofText ['a', 'b', 'c', 'd', 'e', 'f', 'g', 'h']⟩
    let typing : List Move := [.call (.readline r 0),
      .call (.queue 0 (frame.buffer.text ++ ['\t'])), .call (.runTasks 0)] ++ List.replicate 15 .step
    let pause : List Move := [.call (.resize 0 { cols := 5 }), .step, .step,
      .call (.resize 0 { cols := 7 }), .step, .step]
    let later : List Move := .call (.runTasks 0) :: List.replicate 5 .step
    let once := (Screen.blank 7).write (Draw.renderAll (frame.redraw 7))
    ∃ e c j s, ((⟨.solo (.new {} []) (.new { cols := 80 } {}) {}, []⟩ : Machine).play host
        (typing ++ (pause ++ .call (.resume 0) :: later))).world = .solo e c j ∧
      e.session = some s ∧ s.paused = false ∧ s.width = 7 ∧ s.frame = frame ∧
      c.screen.Displays frame 7 0 ∧ c.screen.lines = once.lines ∧ c.screen.cursor = once.cursor := by
  intro handler r host frame typing pause later once
  let m := (⟨.solo (.new {} []) (.new { cols := 80 } {}) {}, []⟩ : Machine).play host typing
  have hone : m.world.engines.length = 1 ∧ m.world.conns.length = 1 ∧ m.jobs.isEmpty = true ∧
      ((m.world.engine? 0).bind Engine.session).isSome = true ∧
      (m.play host pause).jobs.isEmpty = true := by
    decide +kernel
  have hread : ∀ e ∈ m.world.engine? 0, ∀ s ∈ e.session, s.paused = true ∧ s.outcome = .reading ∧
      s.conn = 0 ∧ e.busy = false ∧ e.pendingResize = none ∧ e.effects.isEmpty = true ∧
      s.width = 80 ∧ s.frame = frame ∧ e.queue.pending = [] := by
    decide +kernel
  have hshown : ∀ c ∈ m.world.conns, c.handlers.size = some (.engine 0) ∧ c.tasks = [] ∧
      c.size.cols = 80 ∧ c.screen = (Screen.blank 80).write (Draw.renderAll (frame.redraw 80)) := by
    decide +kernel
  have hplain : frame.Plain := by decide
  have hfits : frame.Fits 80 ∧ frame.Fits 7 := by decide
  obtain ⟨hengines, hconns, hjobs, hsome, hdone⟩ := hone
  obtain ⟨s, hs⟩ := Option.isSome_iff_exists.1 hsome
  obtain ⟨e, he, hs⟩ := Option.bind_eq_some_iff.1 hs
  obtain ⟨c, hc⟩ := List.length_eq_one_iff.1 hconns
  obtain ⟨hpaused, hreading, hconn, hfree, hpending, heffects, hwidth, hframe, hqueue⟩ :=
    hread e he s hs
  obtain ⟨hhandler, htasks, hcols, hscreen⟩ := hshown c (by rw [hc]; exact List.mem_singleton_self c)
  have hm : m = ⟨.solo e c m.world.journal, []⟩ := by
    rw [← World.eq_solo hengines he hc, ← List.isEmpty_iff.1 hjobs]
  have hbefore : e.PausedOn c s 0 := {
    session_eq := hs
    paused := hpaused
    outcome_eq := hreading
    conn_eq := hconn
    free := hfree
    pending_eq := hpending
    effects_eq := List.isEmpty_iff.1 heffects
    handler_eq := hhandler
    tasks_eq := htasks
    width_eq := hwidth.trans hcols.symm
    reading_eq := by
      rw [hscreen]
      decide
    plain := hframe ▸ hplain
    displays := by
      rw [hscreen, hframe, hwidth]
      exact Screen.displays_redraw (by decide) hplain hfits.1 0 }
  have hlater : ∀ x ∈ later, x = .step ∨ x = .call (.runTasks 0) := by simp [later]
  have hlast : (([{ cols := 5 }, { cols := 7 }] : List Size).getLast?.getD c.size).cols = 7 := rfl
  rw [hm] at hdone
  obtain ⟨e', c', j', hend, hsession, hiff, hagree⟩ := repaired_of_play hbefore
    (by simp [pause, Move.size?]) (List.isEmpty_iff.1 hdone) hlater (.inr hqueue) rfl hlast
    (by decide) (by rw [hframe, hwidth]; exact hfits.1) (by rw [hframe]; exact hfits.2)
  have hdisplays := hiff.2 (.inl (by rw [hwidth]; decide))
  obtain ⟨hlines, hcursor⟩ := hagree hdisplays
  rw [hframe] at hdisplays hlines hcursor
  rw [← hm] at hend
  rw [play_append]
  exact ⟨e', c', j', _, hend, hsession, rfl, rfl, hframe, hdisplays, hlines, hcursor⟩

/-- If the terminal gets its old width again, a narrower one in between is not repaired: behind the
fifth column everything is gone, where a drawing on a blank terminal shows it. -/
theorem cut_of_resized_back :
    let handler : Handler := .scripted { script := [], deferred := true }
    let r : Request := { engine := 0, conn := 0, prompt := ⟨['>', ' ']⟩, handler := some handler }
    let host : Host := ⟨fun _ _ => []⟩
    let frame : Frame := ⟨⟨['>', ' ']⟩, .ofText ['a', 'b', 'c', 'd', 'e', 'f', 'g', 'h']⟩
    let typing : List Move := [.call (.readline r 0),
      .call (.queue 0 (frame.buffer.text ++ ['\t'])), .call (.runTasks 0)] ++ List.replicate 15 .step
    let pause : List Move := [.call (.resize 0 { cols := 5 }), .step, .step,
      .call (.resize 0 { cols := 80 }), .step, .step]
    let later : List Move := .call (.runTasks 0) :: List.replicate 5 .step
    let once := (Screen.blank 80).write (Draw.renderAll (frame.redraw 80))
    let m := (⟨.solo (.new {} []) (.new { cols := 80 } {}) {}, []⟩ : Machine).play host typing
    let final := m.play host (pause ++ .call (.resume 0) :: later)
    ((m.world.engine? 0).bind Engine.session).map (fun s => (s.paused, s.width, s.frame)) =
        some (true, 80, frame) ∧
      m.world.conns.map Connection.screen = [once] ∧ final.jobs.isEmpty = true ∧
      ((final.world.engine? 0).bind Engine.session).map (fun s => (s.paused, s.width, s.frame)) =
        some (false, 80, frame) ∧
      final.world.conns.map (fun c => (c.screen.lines, c.screen.cursor)) =
        [([['>', ' ', 'a', 'b', 'c']], (0, 4))] ∧
      (once.lines, once.cursor) =
        ([['>', ' ', 'a', 'b', 'c', 'd', 'e', 'f', 'g', 'h']], (0, 10)) := by
  decide +kernel

end Machine

end LineEditor
