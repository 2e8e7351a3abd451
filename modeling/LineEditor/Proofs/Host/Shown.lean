import LineEditor.Proofs.Engine.Shown
import LineEditor.Proofs.Host.Arrivals

/-!
The terminal shows what the session believes. One line is read on a terminal whose width stays as it
is, with the usual completion or none: whatever is typed, in whatever pieces, the terminal shows the
frame of the session after every event, unless the question before a long list waits for its answer.

Main definitions: `World.Settled`, `Machine.Settled` and `Move.isInput`. Main statements:
`Machine.Settled.move`, every move keeps the machine settled, and `Machine.displays_of_play`.
-/
namespace LineEditor

/-! ### Worlds -/

/-- One engine whose session is settled on a terminal of `width` columns. -/
inductive World.Settled (width : Nat) : World → Prop where
  | solo (e : Engine) (c : Connection) (j : Journal) (heffects : e.effects = [])
      (hwidth : c.screen.width = max width 1) (hsettled : e.Settled c.screen)
      (htasks : c.OnlyDelivers) : Settled width (.solo e c j)

namespace World

variable {width : Nat} {w : World} {e : Engine} {c : Connection} {j : Journal}

theorem Settled.eq_solo (h : w.Settled width) :
    ∃ e c j, w = World.solo e c j ∧ e.effects = [] ∧ c.screen.width = max width 1 ∧
      e.Settled c.screen ∧ c.OnlyDelivers := by
  obtain ⟨e, c, j, heffects, hwidth, hsettled, htasks⟩ := h
  exact ⟨e, c, j, rfl, heffects, hwidth, hsettled, htasks⟩

theorem settled_iff : w.Settled width ↔ w.Alone fun e c _ => e.effects = [] ∧
    c.screen.width = max width 1 ∧ e.Settled c.screen ∧ c.OnlyDelivers := by
  constructor
  · rintro ⟨e, c, j, heffects, hwidth, hsettled, htasks⟩
    exact .solo ⟨heffects, hwidth, hsettled, htasks⟩
  · rintro ⟨heffects, hwidth, hsettled, htasks⟩
    exact .solo _ _ _ heffects hwidth hsettled htasks

/-- Input that is queued changes nothing that is shown. -/
theorem ignoresInput_settled (width : Nat) : IgnoresInput fun e c _ => e.effects = [] ∧
    c.screen.width = max width 1 ∧ e.Settled c.screen ∧ c.OnlyDelivers where
  free h := h.2.2.1.free
  tasks h := h.2.2.2
  conn_eq h := h.2.2.1.conn_eq
  engine queue scheduled h :=
    ⟨h.1, h.2.1, (h.2.2.1.setQueue queue).setScheduled scheduled, h.2.2.2⟩
  connection decoder tasks delayed hsub h := by
    refine ⟨h.1, h.2.1, h.2.2.1, fun t ht => ?_⟩
    rcases hsub t ht with hold | rfl
    · exact h.2.2.2 t hold
    · exact ⟨0, rfl⟩
  journal _ _ h := h

theorem Settled.note (h : w.Settled width) (n : Note) : (w.note n).Settled width :=
  settled_iff.2 (alone_note (ignoresInput_settled width) (settled_iff.1 h) n)

theorem Settled.scheduleDelivery (h : w.Settled width) (n : Nat) :
    (w.scheduleDelivery n).Settled width :=
  settled_iff.2 (alone_scheduleDelivery (ignoresInput_settled width) (settled_iff.1 h) n)

/-- What an engine leaves is carried out, and the handlers of a session that is over are put back. -/
theorem settled_put (e' : Engine) (hwidth : c.screen.width = max width 1)
    (hsettled : e'.Settled c.screen) (htasks : c.OnlyDelivers) (f : Option Finished) :
    (((solo e c j).put 0 0 e').close f).Settled width := by
  rw [put_solo]
  obtain ⟨handlers, hclose⟩ := close_solo e'.settled (c.settle e') (j.settle e') f
  rw [hclose]
  refine .solo _ _ _ rfl ?_ hsettled.carriedOut fun t ht => htasks t ?_
  · exact (Engine.width_settle c e').trans hwidth
  · simpa using ht

end World

/-! ### Machines -/

/-- Whether a move is the arrival of input or the work that it leads to. -/
def Move.isInput : Move → Bool
  | .step => true
  | .call (.queue ..) | .call (.feed ..) | .call (.runTasks _) | .call (.runDelayed _)
  | .call (.endOfStream _) => true
  | .call _ => false

theorem Move.isInput_call (c : Call) : (Move.call c).isInput = c.isInput := by
  cases c <;> rfl

namespace Machine

/-- The world is settled, and what is left to do belongs to the reading of a line. -/
structure Settled (width : Nat) (m : Machine) : Prop where
  world : m.world.Settled width
  jobs : ∀ j ∈ m.jobs, j.isReading

/-- A count can tell the rows of the session's frame apart. -/
def Fits (m : Machine) : Prop := ∀ e, m.world.engine? 0 = some e → e.Fits

instance (m : Machine) : Decidable m.Fits :=
  inferInstanceAs (Decidable (∀ e ∈ m.world.engine? 0, e.Fits))

variable {width : Nat} {m : Machine}

theorem Settled.goOn {w : World} {jobs : List Job} (h : m.Settled width) (hw : w.Settled width)
    (hjobs : ∀ j ∈ jobs, j.isReading) : (m.goOn w jobs).Settled width :=
  ⟨hw, fun j hj => (List.mem_append.1 hj).elim (hjobs j) (h.jobs j)⟩

/-- An event of the queue is handled on the settled terminal. -/
theorem Settled.deliver (h : m.Settled width) (n : Nat) (hfits : (m.deliver n).Fits) :
    (m.deliver n).Settled width := by
  obtain ⟨e, c, j, hw, heffects, hwidth, hsettled, htasks⟩ := h.world.eq_solo
  unfold Machine.deliver at hfits ⊢
  rw [hw] at hfits ⊢
  cases n with
  | succ n => exact h
  | zero =>
    have hfree : ¬ e.busy = true := by rw [hsettled.free]; decide
    rw [World.engine?_solo] at hfits ⊢
    dsimp only at hfits ⊢
    rw [if_neg hfree] at hfits ⊢
    cases hstep : e.step? with
    | none => exact h
    | some r =>
      rw [hstep] at hfits
      rw [Engine.conn_eq_zero hsettled.conn_eq] at hfits ⊢
      obtain ⟨e', f, rfl, hsettled'⟩ := hsettled.step hstep fun e' f hr => by
        subst hr
        exact hfits e'.settled (World.engine?_put_close ..)
      refine h.goOn (World.settled_put e' hwidth hsettled' htasks f) ?_
      refine List.forall_mem_append.2 ⟨Job.isReading_ofFinished f, ?_⟩
      exact List.forall_mem_singleton.2 trivial

/-- The delivery that waits is begun. -/
theorem Settled.runTasks (h : m.Settled width) (conn : Nat) : (m.runTasks conn).Settled width := by
  obtain ⟨w, jobs, hrun, hw, hjobs⟩ :=
    World.alone_runTasks (World.ignoresInput_settled width) (World.settled_iff.1 h.world) conn
  rw [hrun]
  exact h.goOn (World.settled_iff.2 hw) hjobs

/-- A host whose callbacks only take the lines they receive. -/
def silent : Host := ⟨fun _ _ => []⟩

theorem Settled.run (h : m.Settled width) {j : Job} (hj : j.isReading)
    (hfits : (m.run silent j).Fits) : (m.run silent j).Settled width := by
  cases j with
  | tasks conn => exact h.runTasks conn
  | deliver n => exact h.deliver n hfits
  | schedule n => exact h.goOn (h.world.scheduleDelivery n) (List.forall_mem_nil _)
  | callback n line =>
    obtain ⟨e, c, j, hw, heffects, hwidth, hsettled, htasks⟩ := h.world.eq_solo
    refine h.goOn ?_ (List.forall_mem_nil _)
    rw [hw]
    exact .solo e c _ heffects hwidth hsettled htasks
  | note n => exact h.goOn (h.world.note n) (List.forall_mem_nil _)
  | call c => exact absurd hj id
  | script n c h rest => exact absurd hj id
  | background n calls => exact absurd hj id
  | resume n => exact absurd hj id

/-! ### Input and what it leads to -/

theorem Settled.call (h : m.Settled width) {c : Call} (hinput : Move.isInput (.call c) = true) :
    (m.call c).1.Settled width := by
  rw [Move.isInput_call] at hinput
  obtain ⟨hw, hjobs⟩ :=
    World.alone_call (World.ignoresInput_settled width) (World.settled_iff.1 h.world) hinput
  exact h.goOn (World.settled_iff.2 hw) hjobs

theorem Settled.move (h : m.Settled width) (x : Move) (hinput : x.isInput = true)
    (hfits : (m.move silent x).Fits) : (m.move silent x).Settled width := by
  cases x with
  | call c => exact h.call hinput
  | step =>
    obtain ⟨w, jobs⟩ := m
    cases jobs with
    | nil => exact h
    | cons j rest =>
      have hrest : (Machine.mk w rest).Settled width :=
        ⟨h.world, fun j' hj' => h.jobs j' (List.mem_cons_of_mem _ hj')⟩
      exact hrest.run (h.jobs j (List.mem_cons_self ..)) hfits

/-- A move is the arrival of input or the work that it leads to, and the frame fits after it. -/
def Types (m : Machine) (x : Move) : Prop := x.isInput = true ∧ (m.move silent x).Fits

instance (m : Machine) (x : Move) : Decidable (m.Types x) :=
  inferInstanceAs (Decidable (x.isInput = true ∧ (m.move silent x).Fits))

end Machine

/-! ### The beginning of a line -/

/-- What is known of an engine, a terminal and a request before the first line is read: no control
characters in what may be shown, the usual completion or none, and a fresh row for the prompt. -/
structure Request.Begins (r : Request) (e : Engine) (c : Connection) : Prop where
  engine_eq : r.engine = 0
  conn_eq : r.conn = 0
  rested : e.Rested
  prompt : r.prompt.text.Plain
  handler : ∀ h, r.handler = some h → h.Plain ∧ h.asks = false
  fresh : c.screen.Fresh c.size.cols
  width_le : c.size.cols ≤ Draw.maxCount
  tasks : c.OnlyDelivers

namespace Machine

/-- The machine after a call that begins a line. -/
def begun (e : Engine) (c : Connection) (j : Journal) (r : Request) (callback : Nat) : Machine :=
  ((⟨.solo e c j, []⟩ : Machine).call (.readline r callback)).1

variable {e : Engine} {c : Connection} {j : Journal} {r : Request} {callback : Nat}

theorem begun_eq (h : r.Begins e c) :
    begun e c j r callback = ⟨if e.queue.hasNext then
      (World.reading e c j r callback).scheduleDelivery 0
      else World.reading e c j r callback, []⟩ := by
  unfold begun
  dsimp only [Machine.call, World.call]
  rw [h.engine_eq, World.callEngine_solo _ _ _ h.rested.free,
    World.readline_solo _ _ _ h.engine_eq h.conn_eq h.rested.free h.rested.session_eq]
  rfl

theorem fits_begun (h : r.Begins e c) (hfits : (begun e c j r callback).Fits) :
    (e.start r callback c.size.cols c.handlers).Fits := by
  rw [begun_eq h] at hfits
  have hconn : ∀ s, (e.start r callback c.size.cols c.handlers).settled.session = some s →
      s.conn = 0 := by
    intro s hs
    cases hs
    exact h.conn_eq
  unfold Machine.Fits World.reading at hfits
  rw [World.scheduleDelivery_solo _ _ _ hconn] at hfits
  split at hfits
  · split at hfits
    · have hsame := hfits _ (World.engine?_solo ..)
      exact hsame
    · have hscheduled := hfits _ (World.engine?_solo ..)
      exact hscheduled
  · have hsame := hfits _ (World.engine?_solo ..)
    exact hsame

theorem settled_begun (h : r.Begins e c) (hfits : (begun e c j r callback).Fits) :
    (begun e c j r callback).Settled c.size.cols := by
  have hstart := h.rested.start h.conn_eq h.prompt h.handler callback c.size.cols c.handlers h.fresh
    (Nat.max_le.2 ⟨h.width_le, by decide⟩) (fits_begun h hfits)
  have hreading : (World.reading e c j r callback).Settled c.size.cols := by
    refine .solo _ _ _ rfl ?_
      (hstart.carriedOut (c := { c with handlers := World.sessionHandlers 0 })) fun t ht => ?_
    · exact (Engine.width_settle ..).trans h.fresh.width_eq
    · refine h.tasks t ?_
      simpa using ht
  rw [begun_eq h]
  refine ⟨?_, List.forall_mem_nil _⟩
  dsimp only
  split
  · exact hreading.scheduleDelivery 0
  · exact hreading

/-- Whatever is typed and in whatever order it is handled, the machine stays settled. -/
theorem settled_play (h : r.Begins e c) (hfits : (begun e c j r callback).Fits) (moves : List Move)
    (hmoves : (begun e c j r callback).Admits Types silent moves) :
    ((begun e c j r callback).play silent moves).Settled c.size.cols :=
  play_invariant (fun _ x hx hm => hm.move x hx.1 hx.2) moves (settled_begun h hfits) hmoves

/-- While a line is read its frame is on the terminal and the cursor is in its place, unless a
question waits for its answer; the prompt is the current one, unless a search shows its own. -/
theorem displays_of_play (h : r.Begins e c) (hfits : (begun e c j r callback).Fits)
    (moves : List Move) (hmoves : (begun e c j r callback).Admits Types silent moves) :
    ∃ e' c', ((begun e c j r callback).play silent moves).world.engine? 0 = some e' ∧
      ((begun e c j r callback).play silent moves).world.conns = [c'] ∧
      ∀ s, e'.session = some s →
        ((∀ handler, s.handler = some handler → handler.asks = false) →
          ∃ top, c'.screen.Displays s.frame c.size.cols top) ∧
        ((∀ q, s.focus ≠ some (.search q)) → s.shown = s.current) := by
  have hsettled := settled_play h hfits moves hmoves
  generalize (begun e c j r callback).play silent moves = m at hsettled ⊢
  obtain ⟨e', c', j', hw, heffects, hwidth, hsettled, -⟩ := hsettled.world.eq_solo
  rw [hw]
  refine ⟨e', c', World.engine?_solo .., rfl, fun s hs => ?_⟩
  have hdesk := hsettled.session s hs .audible
  refine ⟨fun hcalm => ?_, hdesk.shown_eq⟩
  obtain ⟨top, hdisplays⟩ := hdesk.displays hcalm
  have hseen : Desk.seen .audible c'.screen { toEditor := e'.toEditor, session := s } =
      c'.screen := by
    unfold Desk.seen
    rw [heffects]
    rfl
  rw [hseen] at hdisplays
  exact ⟨top, hdisplays.congr (hdisplays.width_eq.symm.trans hwidth)⟩

/-- Two code points are queued on three columns behind a prompt of two, and both are handled. -/
theorem displays_of_play_queued :
    let r : Request := { engine := 0, conn := 0, prompt := ⟨['>', ' ']⟩, handler := none }
    let moves : List Move :=
      [.call (.queue 0 ['a', 'b']), .call (.runTasks 0), .step, .step, .step]
    let m := (begun (.new {} []) (.new { cols := 3 } {}) {} r 0).play silent moves
    ∃ e c s top, m.world.engine? 0 = some e ∧ m.world.conns = [c] ∧ e.session = some s ∧
      s.buffer.text = ['a', 'b'] ∧ c.screen.Displays s.frame 3 top ∧ s.shown = s.current := by
  intro r moves m
  have hbegins : r.Begins (.new {} []) (.new { cols := 3 } {}) := {
    engine_eq := rfl
    conn_eq := rfl
    rested := {
      session_eq := rfl
      free := rfl
      effects_eq := rfl
      continuation := by decide
      history := List.forall_mem_nil _
      kills := List.forall_mem_nil _ }
    prompt := by decide
    handler := nofun
    fresh := Screen.fresh_blank 3 0
    width_le := by decide
    tasks := List.forall_mem_nil _ }
  have hfits : (begun (.new {} []) (.new { cols := 3 } {}) {} r 0).Fits := by decide +kernel
  have hmoves : (begun (.new {} []) (.new { cols := 3 } {}) {} r 0).Admits Types silent moves := by
    decide +kernel
  have hread : ((m.world.engine? 0).bind Engine.session).map (fun s =>
      (s.buffer.text, s.handler.isNone, s.focus.isNone)) = some (['a', 'b'], true, true) := by
    decide +kernel
  have hplay := displays_of_play hbegins hfits moves hmoves
  have hm : m = (begun (.new {} []) (.new { cols := 3 } {}) {} r 0).play silent moves := rfl
  rw [← hm] at hplay
  clear_value m
  obtain ⟨e, c, he, hc, hshown⟩ := hplay
  rw [he, Option.bind_some, Option.map_eq_some_iff] at hread
  obtain ⟨s, hs, hread⟩ := hread
  simp only [Prod.mk.injEq, Option.isNone_iff_eq_none] at hread
  obtain ⟨htext, hhandler, hfocus⟩ := hread
  obtain ⟨hdisplays, hprompt⟩ := hshown s hs
  obtain ⟨top, htop⟩ := hdisplays (by rw [hhandler]; nofun)
  exact ⟨e, c, s, top, he, hc, hs, htext, htop, hprompt (by rw [hfocus]; nofun)⟩

end Machine

end LineEditor
