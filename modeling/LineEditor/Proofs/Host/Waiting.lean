import LineEditor.Proofs.Engine.Waiting
import LineEditor.Proofs.Host.Arrivals
import LineEditor.Proofs.Host.Turns

/-!
Whole frames are drawn where nothing is. Lines are read one after the other on a terminal whose width
stays as it is, with the usual completion or none, by a host that writes nothing itself and begins a line
whenever it likes, but not behind the end of file: that leaves the cursor behind the prompt.

Main definitions: `Engine.WaitsOn` and `Machine.Waits`, `Call.Silent`, `Machine.HeardEof`, and
`Machine.StaysSilent`, what may happen next. Main statements: `Waits.move`, every move keeps the machine
waiting, and `Machine.drawsFresh_of_play`.
-/
namespace LineEditor

/-! ### Worlds -/

/-- An engine that waits on its terminal. Between two lines the terminal is fresh, unless the end of file
was heard. -/
structure Engine.WaitsOn (heard : Prop) (e : Engine) (c : Connection) : Prop where
  effects_eq : e.effects = []
  waits : e.Waits c.screen
  fresh : e.session = none → heard ∨ c.screen.Fresh c.screen.width
  width_eq : c.screen.width = max c.size.cols 1
  width_le : max c.size.cols 1 ≤ Draw.maxCount
  tasks : c.OnlyDelivers

/-- A world of one engine that waits on its terminal, and what the host has heard. -/
def World.Waits (heard : Prop) (lines : Array (Option Text)) : World → Prop :=
  World.Alone fun e c j => e.WaitsOn heard c ∧ j.lines = lines

namespace World

variable {heard heard' : Prop} {lines : Array (Option Text)} {w : World} {e t : Engine} {c : Connection}
  {j : Journal} {f : Option Finished}

theorem ignoresInput_waits (heard : Prop) (lines : Array (Option Text)) :
    IgnoresInput fun e c j => e.WaitsOn heard c ∧ j.lines = lines where
  free h := h.1.waits.free
  tasks h := h.1.tasks
  conn_eq h := h.1.waits.conn_eq
  engine queue scheduled h :=
    ⟨{ h.1 with waits := (h.1.waits.setQueue queue).setScheduled scheduled }, h.2⟩
  connection decoder tasks delayed hsub h := by
    refine ⟨{ h.1 with tasks := fun t ht => ?_ }, h.2⟩
    rcases hsub t ht with hold | rfl
    · exact h.1.tasks t hold
    · exact ⟨0, rfl⟩
  journal _ _ h := h

theorem Waits.mono (h : w.Waits heard lines) (himp : heard → heard') : w.Waits heard' lines :=
  Alone.mono h fun _ _ _ h => ⟨{ h.1 with fresh := fun hnone => (h.1.fresh hnone).imp_left himp }, h.2⟩

/-- The effects of an engine's work are carried out, and the handlers of a session that is over are put
back. -/
theorem waits_put (h : e.WaitsOn heard c) (ht : t.Draws f c.screen) (hlines : j.lines = lines) :
    (((solo e c j).put 0 0 t).close f).Waits (heard ∨ ∃ x, f = some x ∧ x.line = none) lines := by
  rw [put_solo]
  obtain ⟨handlers, hclose⟩ := close_solo t.settled (c.settle t) (j.settle t) f
  have hwidth := Engine.width_settle c t
  have hscreen := Engine.screen_settle c t
  have hwaits := ht.waits.carriedOut
  obtain ⟨screen, output, hsettle⟩ := c.settle_eq t
  rw [hclose]
  rw [hsettle] at hwidth hscreen hwaits ⊢
  refine .solo ⟨⟨rfl, hwaits, fun hnone => ?_, hwidth.trans h.width_eq, h.width_le, h.tasks⟩,
    (j.lines_settle t).trans hlines⟩
  rcases ht.fresh hnone with heof | hfresh
  · exact .inl (.inr heof)
  · refine .inr ?_
    have hrow := hfresh t.config.bell
    rw [← hscreen, ← hwidth] at hrow
    exact hrow

theorem waits_put_none (h : e.WaitsOn heard c) (ht : t.Draws none c.screen) (hlines : j.lines = lines) :
    (((solo e c j).put 0 0 t).close none).Waits heard lines := by
  refine (waits_put h ht hlines).mono fun hheard => hheard.resolve_right ?_
  rintro ⟨x, hx, -⟩
  cases hx

/-! ### Calls -/

/-- A call of the engine; there is no other one. -/
theorem waits_callEngine (h : e.WaitsOn heard c) {n : Nat} {g : Engine → Called}
    (hg : n = 0 → (g e).world.Waits heard j.lines ∧ ∀ k ∈ (g e).jobs, k.isReading) :
    ((solo e c j).callEngine n g).world.Waits heard j.lines ∧
      ∀ k ∈ ((solo e c j).callEngine n g).jobs, k.isReading := by
  cases n with
  | succ n => exact ⟨.solo ⟨h, rfl⟩, List.forall_mem_nil _⟩
  | zero =>
    rw [callEngine_solo _ _ _ h.waits.free]
    exact hg rfl

theorem waits_resume (h : e.WaitsOn heard c) :
    ((solo e c j).callResume 0 e).world.Waits heard j.lines ∧
      ∀ k ∈ ((solo e c j).callResume 0 e).jobs, k.isReading := by
  rw [callResume, Engine.conn_eq_zero h.waits.conn_eq]
  split
  · exact ⟨.solo ⟨h, rfl⟩, List.forall_mem_nil _⟩
  · rename_i t f hresume
    obtain ⟨rfl, hdraws⟩ := h.waits.resume hresume
    exact ⟨waits_put_none h hdraws rfl, List.forall_mem_singleton.2 trivial⟩

theorem waits_session (h : e.WaitsOn heard c) {calls : List SessionCall}
    (hcalls : ∀ k ∈ calls, k.isSilent = true) :
    ((solo e c j).callSession 0 e calls).world.Waits heard j.lines ∧
      ∀ k ∈ ((solo e c j).callSession 0 e calls).jobs, k.isReading := by
  rw [callSession, Engine.conn_eq_zero h.waits.conn_eq]
  split
  · exact ⟨.solo ⟨h, rfl⟩, List.forall_mem_nil _⟩
  · rename_i t replies f hanswers
    obtain ⟨rfl, hdraws⟩ := h.waits.answers hcalls hanswers
    exact ⟨waits_put_none h hdraws rfl, List.forall_mem_nil _⟩

/-- A line begins where the terminal is fresh; on another connection, or while a line is read, nothing
happens. -/
theorem waits_readline (h : e.WaitsOn heard c) (hheard : ¬ heard) {r : Request} (hengine : r.engine = 0)
    (hhandler : ∀ h, r.handler = some h → h.Plain ∧ h.asks = false) (callback : Nat) :
    match (solo e c j).readline r callback with
    | .ok w => w.Waits heard j.lines
    | .error _ => True := by
  by_cases hconn : r.conn = 0
  · cases hs : e.session with
    | some s =>
      rw [readline_solo_of_session e c j hengine hconn h.waits.free (by rw [hs]; rfl)]
      exact trivial
    | none =>
      have hfresh := (h.fresh hs).resolve_left hheard
      have hcols : max c.screen.width 1 = max c.size.cols 1 := by
        rw [h.width_eq]
        exact Nat.max_eq_left (Nat.le_max_right ..)
      have hdraws : (e.start r callback c.size.cols c.handlers).Draws none c.screen :=
        ⟨Engine.waits_start h.waits.free h.effects_eq hconn hhandler callback _ _ (hfresh.congr hcols)
            h.width_le,
          fun style => (Engine.drawsFresh_start_iff h.effects_eq style r callback _ _).2 hfresh, nofun⟩
      have hinstalled : e.WaitsOn heard { c with handlers := sessionHandlers 0 } := { h with }
      have hreading := waits_put_none (j := j) hinstalled hdraws rfl
      rw [put_solo] at hreading
      rw [readline_solo e c j hengine hconn h.waits.free hs]
      dsimp only
      split
      · exact alone_scheduleDelivery (ignoresInput_waits heard j.lines) hreading 0
      · exact hreading
  · rw [readline_solo_of_conn e c j hconn]
    exact .solo ⟨h, rfl⟩

end World

/-- Whether a call shows nothing but the prompt of a line, and leaves the width of the terminal as it is.
A line has the usual completion or none. -/
def Call.Silent : Call → Prop
  | .readline r _ => ∀ h, r.handler = some h → h.Plain ∧ h.asks = false
  | .session _ calls => ∀ k ∈ calls, k.isSilent = true
  | .resize .. => False
  | _ => True

/-- Whether a call lets input arrive or begins a line without completion. -/
def Call.isBare : Call → Bool
  | .readline r _ => r.handler.isNone
  | k => k.isInput

theorem Call.silent_of_isBare {k : Call} (hk : k.isBare = true) : k.Silent := by
  cases k
  case readline r callback =>
    intro h hh
    rw [isBare, hh] at hk
    cases hk
  case queue | feed | runTasks | runDelayed | endOfStream => exact trivial
  all_goals cases hk

/-- Whether a call is to begin a line. -/
def Call.begins : Call → Bool
  | .readline .. => true
  | _ => false

/-- A silent call leaves the engine waiting, or drops it. -/
theorem World.waits_call {w : World} {heard : Prop} {lines : Array (Option Text)}
    (h : w.Waits heard lines) {k : Call} (hk : k.Silent) (hbegins : k.begins = true → ¬ heard) :
    (w.call k).world.engine? 0 = none ∨
      (w.call k).world.Waits heard lines ∧ ∀ j ∈ (w.call k).jobs, j.isReading := by
  by_cases hinput : k.isInput = true
  · exact .inr (alone_call (ignoresInput_waits heard lines) h hinput)
  obtain @⟨e, c, j, h, rfl⟩ := h
  cases k
  case queue | feed | runTasks | runDelayed | endOfStream => exact absurd rfl hinput
  case readline r callback =>
    refine .inr (waits_callEngine h fun hengine => ?_)
    have hread := waits_readline (j := j) h (hbegins rfl) hengine hk callback
    cases hr : (solo e c j).readline r callback with
    | error err => exact ⟨.solo ⟨h, rfl⟩, List.forall_mem_nil _⟩
    | ok w =>
      rw [hr] at hread
      exact ⟨hread, List.forall_mem_nil _⟩
  case resume n =>
    refine .inr (waits_callEngine h fun hn => ?_)
    rw [hn]
    exact waits_resume h
  case session n calls =>
    refine .inr (waits_callEngine h fun hn => ?_)
    rw [hn]
    exact waits_session h hk
  case history n calls =>
    refine .inr (waits_callEngine h fun hn => ?_)
    rw [hn]
    exact ⟨.solo ⟨{ h with waits := h.waits.setHistory _ }, rfl⟩, List.forall_mem_nil _⟩
  case bind n event command =>
    refine .inr (waits_callEngine h fun hn => ?_)
    rw [hn]
    exact ⟨.solo ⟨{ h with waits := h.waits.setKeymap _ }, rfl⟩, List.forall_mem_nil _⟩
  case style n =>
    exact .inr (waits_callEngine h fun _ => ⟨.solo ⟨h, rfl⟩, List.forall_mem_nil _⟩)
  case drop n =>
    cases n with
    | succ n => exact .inr ⟨.solo ⟨h, rfl⟩, List.forall_mem_nil _⟩
    | zero =>
      left
      dsimp only [World.call, World.drop]
      rw [engine?_solo]
      dsimp only
      split <;> rfl
  case resize => exact absurd hk id
  case setHandlers conn g =>
    right
    dsimp only [World.call]
    cases conn with
    | succ n =>
      rw [modifyConn_solo_succ]
      exact ⟨.solo ⟨h, rfl⟩, List.forall_mem_nil _⟩
    | zero => exact ⟨.solo ⟨{ h with }, rfl⟩, List.forall_mem_nil _⟩

/-! ### Machines -/

/-- Whether a job belongs to the reading of lines without a script. -/
def Job.isScriptless : Job → Prop
  | .call _ => True
  | j => j.isReading

/-- Whether a job tells a callback that the file has ended. -/
def Job.tellsEof : Job → Bool
  | .callback _ none => true
  | _ => false

/-- The call that a move makes, if it makes one. -/
def Move.call? (m : Machine) : Move → Option Call
  | .call k => some k
  | .step =>
    match m.jobs with
    | .call k :: _ => some k
    | _ => none

theorem Job.isReading.isScriptless {j : Job} (h : j.isReading) : j.isScriptless := by
  cases j with
  | call k => exact trivial
  | tasks | deliver | schedule | callback | note => exact h
  | script | background | resume => exact h

namespace Machine

/-- The end of file was heard, or a callback is about to hear it. -/
def HeardEof (m : Machine) : Prop := none ∈ m.world.journal.lines ∨ ∃ j ∈ m.jobs, j.tellsEof = true

instance (m : Machine) : Decidable m.HeardEof :=
  inferInstanceAs (Decidable (none ∈ m.world.journal.lines ∨ ∃ j ∈ m.jobs, j.tellsEof = true))

/-- The frame of the session, if there is one, can be drawn. -/
def Drawable (m : Machine) : Prop := ∀ e, m.world.engine? 0 = some e → e.Drawable

instance (m : Machine) : Decidable m.Drawable :=
  inferInstanceAs (Decidable (∀ e ∈ m.world.engine? 0, e.Drawable))

/-- The engine waits on its terminal, and what is left to do belongs to the reading of lines. -/
structure Waits (m : Machine) : Prop where
  world : m.world.Waits m.HeardEof m.world.journal.lines
  jobs : ∀ j ∈ m.jobs, j.isScriptless

variable {host : Host} {m : Machine} {w : World} {jobs rest : List Job} {j : Job} {heard : Prop}

theorem Waits.goOn (h : m.Waits) (hw : w.Waits heard m.world.journal.lines)
    (hheard : heard → m.HeardEof ∨ ∃ j ∈ jobs, j.tellsEof = true)
    (hjobs : ∀ j ∈ jobs, j.isScriptless) : (m.goOn w jobs).Waits := by
  refine ⟨?_, List.forall_mem_append.2 ⟨hjobs, h.jobs⟩⟩
  obtain ⟨e, c, heq, -, hlines⟩ := hw.eq_solo
  change w.Waits (m.goOn w jobs).HeardEof w.journal.lines
  rw [hlines]
  refine hw.mono fun hh => ?_
  rw [HeardEof, Machine.goOn, hlines]
  rcases hheard hh with (hold | ⟨j, hj, heof⟩) | ⟨j, hj, heof⟩
  · exact .inl hold
  · exact .inr ⟨j, List.mem_append_right _ hj, heof⟩
  · exact .inr ⟨j, List.mem_append_left _ hj, heof⟩

/-- A job that tells nobody of the end of file is taken off. -/
theorem Waits.pop (h : Waits ⟨w, j :: rest⟩) (hj : j.tellsEof = false) : Waits ⟨w, rest⟩ := by
  refine ⟨h.world.mono fun hheard => hheard.imp_right ?_, fun j hj => h.jobs j (List.mem_cons_of_mem _ hj)⟩
  rintro ⟨k, hk, heof⟩
  rcases List.mem_cons.1 hk with rfl | hk
  · rw [hj] at heof
    cases heof
  · exact ⟨k, hk, heof⟩

/-- An event of the queue is handled. -/
theorem Waits.deliver (h : m.Waits) (hd : m.Drawable) (n : Nat) : (m.deliver n).Waits := by
  obtain ⟨e, c, hw, hwaits, -⟩ := h.world.eq_solo
  unfold Machine.deliver
  rw [hw]
  cases n with
  | succ n => exact h
  | zero =>
    rw [World.engine?_solo]
    dsimp only
    rw [if_neg (by rw [hwaits.waits.free]; decide), Engine.step?_eq]
    cases hnext : e.next? with
    | none => exact h
    | some r =>
      have hdraw : e.Drawable := hd e (by rw [hw, World.engine?_solo])
      obtain ⟨t, f, hhandle, hdraws⟩ := hwaits.waits.handle hdraw hnext
      rw [Option.map_some, hhandle, Engine.conn_eq_zero hwaits.waits.conn_eq]
      refine h.goOn (World.waits_put hwaits hdraws rfl) (fun hheard => ?_) ?_
      · refine hheard.imp_right ?_
        rintro ⟨⟨callback, line, conn, previous⟩, rfl, hline⟩
        obtain rfl : line = none := hline
        exact ⟨.callback callback none, List.mem_cons_self .., rfl⟩
      · refine List.forall_mem_append.2 ⟨fun j hj => ?_, List.forall_mem_singleton.2 trivial⟩
        exact (Job.isReading_ofFinished f j hj).isScriptless

/-- A callback hears a line, and its calls are to be made. -/
theorem Waits.callback {n : Nat} {line : Option Text} (h : Waits ⟨w, .callback n line :: rest⟩) :
    (Machine.callback host ⟨w, rest⟩ n line).Waits := by
  obtain ⟨e, c, hw, hwaits, -⟩ := h.world.eq_solo
  refine ⟨?_, List.forall_mem_append.2 ⟨?_, fun j hj => h.jobs j (List.mem_cons_of_mem _ hj)⟩⟩
  · have hheard : (Machine.mk w (.callback n line :: rest)).HeardEof →
        (Machine.callback host ⟨w, rest⟩ n line).HeardEof := by
      rintro (hold | ⟨j, hj, heof⟩)
      · exact .inl (Array.mem_push.2 (.inl hold))
      · rcases List.mem_cons.1 hj with rfl | hj
        · cases line with
          | none => exact .inl Array.mem_push_self
          | some t => cases heof
        · exact .inr ⟨j, List.mem_append_right _ hj, heof⟩
    have hnext : (Machine.callback host ⟨w, rest⟩ n line).world =
        .solo e c { w.journal with lines := w.journal.lines.push line } := by
      rw [Machine.callback]
      exact congrArg (fun v : World => { v with
        journal := { w.journal with lines := w.journal.lines.push line } }) hw
    have hsolo : (World.solo e c { w.journal with lines := w.journal.lines.push line }).Waits
        (Machine.callback host ⟨w, rest⟩ n line).HeardEof (w.journal.lines.push line) :=
      .solo ⟨{ hwaits with fresh := fun hnone => (hwaits.fresh hnone).imp_left hheard }, rfl⟩
    rw [← hnext] at hsolo
    exact hsolo
  · intro j hj
    obtain ⟨k, -, rfl⟩ := List.mem_map.1 hj
    exact trivial

theorem Waits.call (h : m.Waits) {k : Call} (hk : k.Silent) (hbegins : k.begins = true → ¬ m.HeardEof) :
    (m.call k).1.world.engine? 0 = none ∨ (m.call k).1.Waits := by
  refine (World.waits_call h.world hk hbegins).imp_right ?_
  rintro ⟨hw, hjobs⟩
  exact h.goOn hw .inl fun j hj => (hjobs j hj).isScriptless

/-- A call out of a callback. -/
theorem Waits.callBack (h : m.Waits) {k : Call} (hk : k.Silent)
    (hbegins : k.begins = true → ¬ m.HeardEof) :
    (m.callBack k).world.engine? 0 = none ∨ (m.callBack k).Waits := by
  unfold Machine.callBack
  dsimp only
  refine (World.waits_call h.world hk hbegins).elim (fun hnone => .inl ?_) fun ⟨hw, hjobs⟩ => .inr ?_
  · split <;> exact hnone
  · have hjobs := fun j hj => (hjobs j hj).isScriptless
    split
    · exact h.goOn (World.alone_note (World.ignoresInput_waits ..) hw _) .inl hjobs
    · exact h.goOn hw .inl hjobs

/-- What may happen next: a host makes silent calls only and begins no line behind the end of file, and
the frame that is shown then can be drawn. -/
def StaysSilent (host : Host) (m : Machine) (x : Move) : Prop :=
  (∀ k, x.call? m = some k → k.Silent ∧ (k.begins = true → ¬ m.HeardEof)) ∧ (m.move host x).Drawable

theorem Waits.run (h : Waits ⟨w, j :: rest⟩) (hd : Drawable ⟨w, j :: rest⟩)
    (hcall : ∀ k, j = .call k →
      k.Silent ∧ (k.begins = true → ¬ (Machine.mk w (j :: rest)).HeardEof)) :
    (run host ⟨w, rest⟩ j).world.engine? 0 = none ∨ (run host ⟨w, rest⟩ j).Waits := by
  cases j with
  | tasks conn =>
    have hpop := h.pop rfl
    obtain ⟨v, jobs, hrun, hv, hjobs⟩ :=
      World.alone_runTasks (World.ignoresInput_waits ..) hpop.world conn
    rw [Machine.run, hrun]
    exact .inr (hpop.goOn hv .inl fun j hj => (hjobs j hj).isScriptless)
  | deliver n => exact .inr ((h.pop rfl).deliver hd n)
  | schedule n =>
    have hpop := h.pop rfl
    exact .inr (hpop.goOn (World.alone_scheduleDelivery (World.ignoresInput_waits ..) hpop.world n) .inl
      (List.forall_mem_nil _))
  | callback n line => exact .inr h.callback
  | call k =>
    obtain ⟨hk, hbegins⟩ := hcall k rfl
    refine (h.pop rfl).callBack hk fun hb hheard => hbegins hb ?_
    exact hheard.imp_right fun ⟨j, hj, heof⟩ => ⟨j, List.mem_cons_of_mem _ hj, heof⟩
  | note n =>
    have hpop := h.pop rfl
    exact .inr (hpop.goOn (World.alone_note (World.ignoresInput_waits ..) hpop.world n) .inl
      (List.forall_mem_nil _))
  | script => exact absurd (h.jobs _ (List.mem_cons_self ..)) id
  | background => exact absurd (h.jobs _ (List.mem_cons_self ..)) id
  | resume => exact absurd (h.jobs _ (List.mem_cons_self ..)) id

theorem Waits.move (h : m.Waits) (hd : m.Drawable) {x : Move} (hx : m.StaysSilent host x) :
    (m.move host x).world.engine? 0 = none ∨ (m.move host x).Waits := by
  cases x with
  | call k =>
    obtain ⟨hk, hbegins⟩ := hx.1 k rfl
    exact h.call hk hbegins
  | step =>
    obtain ⟨w, jobs⟩ := m
    cases jobs with
    | nil => exact .inr h
    | cons j rest =>
      refine h.run hd fun k hj => hx.1 k ?_
      rw [Move.call?, hj]

/-- Whatever a silent host does, the machine goes on waiting, unless its engine is dropped. -/
theorem waits_play (h : m.Waits) (hd : m.Drawable) (moves : List Move)
    (hmoves : m.Admits (StaysSilent host) host moves) :
    (m.play host moves).Drawable ∧
      ((m.play host moves).world.engine? 0 = none ∨ (m.play host moves).Waits) := by
  refine play_invariant (P := fun m => m.Drawable ∧ (m.world.engine? 0 = none ∨ m.Waits))
    (fun m x hx hm => ?_) moves ⟨hd, .inr h⟩ hmoves
  refine ⟨hx.2, hm.2.elim (fun hnone => .inl ?_) fun hwaits => hwaits.move hm.1 hx⟩
  have htakes := takes_move host m x 0
  rw [hnone] at htakes
  generalize (m.move host x).world.engine? 0 = o at htakes ⊢
  cases htakes
  rfl

/-- Lines are read one after the other, beginning on a fresh terminal. Whenever a line begins next or an
event is handled next, each whole frame that is drawn by it finds the cursor at the start of a row with
nothing in it or below. No line begins behind the end of file. -/
theorem drawsFresh_of_play {e e' : Engine} {c c' : Connection} (hnone : e.session = none)
    (hfree : e.busy = false) (heffects : e.effects = []) (hfresh : c.screen.Fresh c.size.cols)
    (hcols : c.size.cols ≤ Draw.maxCount) (htasks : c.OnlyDelivers) (journal : Journal)
    (moves : List Move) (hmoves : Admits (StaysSilent host) host ⟨.solo e c journal, []⟩ moves)
    (he : (play host ⟨.solo e c journal, []⟩ moves).world.engine? 0 = some e')
    (hc : (play host ⟨.solo e c journal, []⟩ moves).world.conns = [c']) :
    (e'.session = none → ¬ (play host ⟨.solo e c journal, []⟩ moves).HeardEof →
        ∀ r callback previous, c'.screen.DrawsFresh e'.config.bell
          (e'.start r callback c'.size.cols previous).effects) ∧
      ∀ d event, e'.next? = some (d, event) →
        c'.screen.DrawsFresh e'.config.bell (e'.handle d event).engine.effects := by
  have hbegin : Waits ⟨.solo e c journal, []⟩ := by
    refine ⟨.solo ⟨⟨heffects, Engine.waits_of_none hfree hnone, fun _ => .inr hfresh.of_width,
      hfresh.width_eq, Nat.max_le.2 ⟨hcols, by decide⟩, htasks⟩, rfl⟩, List.forall_mem_nil _⟩
  have hdraw : Drawable ⟨.solo e c journal, []⟩ := by
    intro e' he' session hs
    cases Option.some.inj he'
    rw [hnone] at hs
    cases hs
  obtain ⟨hdraw', hplay⟩ := waits_play hbegin hdraw moves hmoves
  generalize play host ⟨.solo e c journal, []⟩ moves = m at he hc hdraw' hplay ⊢
  rcases hplay with hgone | hwaits
  · cases hgone.symm.trans he
  obtain ⟨t, k, hw, hwaits, -⟩ := hwaits.world.eq_solo
  have hconns : m.world.conns = [k] := congrArg World.conns hw
  have hengine : m.world.engine? 0 = some t := congrArg (World.engine? · 0) hw
  obtain rfl : t = e' := Option.some.inj (hengine.symm.trans he)
  obtain rfl : k = c' := List.singleton_inj.1 (hconns.symm.trans hc)
  refine ⟨fun hidle hunheard r callback previous => ?_, fun d event hnext => ?_⟩
  · exact (Engine.drawsFresh_start_iff hwaits.effects_eq ..).2
      ((hwaits.fresh hidle).resolve_left hunheard)
  · obtain ⟨t, f, hhandle, hdraws⟩ := hwaits.waits.handle (hdraw' _ he) hnext
    rw [hhandle]
    exact hdraws.drawsFresh _

/-- A line is accepted, its callback begins the next one, and an interrupt is to start that one over. -/
theorem drawsFresh_of_play_restarted :
    let r : Request := { engine := 0, conn := 0, prompt := ⟨['>', ' ']⟩, handler := none }
    let host : Host := ⟨fun n _ => [.readline r n]⟩
    let moves : List Move := [.call (.readline r 0), .call (.queue 0 ['a', '\r']), .call (.runTasks 0),
      .step, .step, .step, .step, .step, .step, .call (.queue 0 ['b', '\x03']), .call (.runTasks 0), .step,
      .step]
    let m := play host ⟨.solo (.new {} []) (.new { cols := 8 } {}) {}, []⟩ moves
    ∃ e c d event, m.world.engine? 0 = some e ∧ m.world.conns = [c] ∧ e.next? = some (d, event) ∧
      c.screen.cursor = (1, 3) ∧ (e.handle d event).engine.effects.any Effect.isDraw = true ∧
      c.screen.DrawsFresh e.config.bell (e.handle d event).engine.effects := by
  intro r host moves m
  have hbare : Admits (fun m x =>
      (∀ k ∈ x.call? m, k.isBare = true ∧ (k.begins = true → ¬ m.HeardEof)) ∧ (m.move host x).Drawable)
      host ⟨.solo (.new {} []) (.new { cols := 8 } {}) {}, []⟩ moves := by
    decide +kernel
  have hmoves := hbare.mono (B := StaysSilent host) fun m x hx =>
    ⟨fun k hk => (hx.1 k hk).imp_left Call.silent_of_isBare, hx.2⟩
  have hcursor : m.world.conns.map (fun c => c.screen.cursor) = [(1, 3)] := by decide +kernel
  have hdraws : (m.world.engine? 0).bind (fun e => e.next?.map fun x =>
      (e.handle x.1 x.2).engine.effects.any Effect.isDraw) = some true := by decide +kernel
  have hplay := fun t k => @drawsFresh_of_play host (.new {} []) t (.new { cols := 8 } {}) k rfl rfl rfl
    (Screen.fresh_blank 8 0) (by decide) (List.forall_mem_nil _) {} moves hmoves
  have hm : m = play host ⟨.solo (.new {} []) (.new { cols := 8 } {}) {}, []⟩ moves := rfl
  rw [← hm] at hplay
  clear_value m
  obtain ⟨e, he, hdraws⟩ := Option.bind_eq_some_iff.1 hdraws
  obtain ⟨⟨d, event⟩, hnext, hdraws⟩ := Option.map_eq_some_iff.1 hdraws
  obtain ⟨c, hc⟩ : ∃ c, m.world.conns = [c] := List.length_eq_one_iff.1 (by
    rw [← List.length_map, hcursor]
    rfl)
  rw [hc, List.map_singleton, List.singleton_inj] at hcursor
  exact ⟨e, c, d, event, he, hc, hnext, hcursor, hdraws, (hplay e c he hc).2 d event hnext⟩

/-- The end of file leaves the cursor behind the prompt, and the next prompt is drawn there. -/
theorem drawn_behind_prompt_of_eof :
    let r : Request := { engine := 0, conn := 0, prompt := ⟨['>', ' ']⟩, handler := none }
    let host : Host := ⟨fun n _ => [.readline r n]⟩
    let moves : List Move := [.call (.readline r 0), .call (.queue 0 ['\x04']), .call (.runTasks 0), .step,
      .step, .step]
    let m := play host ⟨.solo (.new {} []) (.new { cols := 8 } {}) {}, []⟩ moves
    ∃ e c, m.world.engine? 0 = some e ∧ m.world.conns = [c] ∧ e.session = none ∧
      m.world.journal.lines = #[none] ∧ c.screen.cursor = (0, 2) ∧
      ¬ c.screen.DrawsFresh e.config.bell (e.start r 0 c.size.cols {}).effects ∧
      (m.move host .step).world.conns.map (fun c => c.screen.cursor) = [(0, 4)] := by
  intro r host moves m
  have hcursor : m.world.conns.map (fun c => c.screen.cursor) = [(0, 2)] := by decide +kernel
  have hengine : (m.world.engine? 0).map (fun e => (e.session.isNone, e.effects.isEmpty)) =
      some (true, true) := by decide +kernel
  have hlines : m.world.journal.lines = #[none] := by decide +kernel
  have hnext : (m.move host .step).world.conns.map (fun c => c.screen.cursor) = [(0, 4)] := by
    decide +kernel
  clear_value m
  obtain ⟨e, he, hengine⟩ := Option.map_eq_some_iff.1 hengine
  simp only [Prod.mk.injEq, Option.isNone_iff_eq_none, List.isEmpty_iff] at hengine
  obtain ⟨c, hc⟩ : ∃ c, m.world.conns = [c] := List.length_eq_one_iff.1 (by
    rw [← List.length_map, hcursor]
    rfl)
  rw [hc, List.map_singleton, List.singleton_inj] at hcursor
  refine ⟨e, c, he, hc, hengine.1, hlines, hcursor, fun hdraws => ?_, hnext⟩
  have hfresh := (Engine.drawsFresh_start_iff hengine.2 ..).1 hdraws
  cases (congrArg Prod.snd hcursor).symm.trans hfresh.col_eq

end Machine

end LineEditor
