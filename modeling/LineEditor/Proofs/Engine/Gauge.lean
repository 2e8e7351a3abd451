import LineEditor.Proofs.Engine.Works

/-!
What an engine does to the width that it works with. Editing changes the width of no session, and only
a new size, the end of a pause and a resize that is called for do; a width that is kept back for the
end of a pause is kept only while the session is paused.

Main definitions: `Engine.gauge?` and `Gauge.Agrees`, that the gauge of a session goes with a terminal
that has a size and has more sizes to tell. Main statements: `gauge_handle`, `gauge_answers`,
`gauge_scriptStep` and `gauge_afterScript`, after which the width is the same, `gauge_resized` and
`gauge_resume`.
-/
namespace LineEditor

/-- What of an engine and its session concerns the width of the terminal. -/
structure Gauge where
  conn : Nat
  width : Nat
  paused : Bool
  /-- The width that is kept back for the end of the pause. -/
  pending : Option Nat

namespace Engine

/-- What of an engine and its session concerns the width of the terminal. -/
def gauge? (e : Engine) : Option Gauge :=
  e.session.map fun s => ⟨s.conn, s.width, s.paused, e.pendingResize⟩

end Engine

/-! ### Widths -/

@[simp] theorem Setting.width_entered (k : Setting) (t : Text) : (k.entered t).width = k.width := by
  unfold Setting.entered Setting.continued
  split <;> rfl

theorem Setting.width_foldl_entered (ts : List Text) (k : Setting) :
    (ts.foldl Setting.entered k).width = k.width := by
  induction ts generalizing k with
  | nil => rfl
  | cons t ts ih => rw [List.foldl_cons, ih, width_entered]

/-- Whether a call leaves the width alone. -/
def SessionCall.keepsWidth : SessionCall → Bool
  | .resize .. => false
  | _ => true

theorem SessionCall.width_sets {k : SessionCall} (hk : k.keepsWidth = true) (setting : Setting) :
    (k.sets setting).width = setting.width := by
  cases k
  case resize old new => exact absurd hk Bool.false_ne_true
  all_goals rfl

theorem SessionCall.width_foldl_sets {calls : List SessionCall}
    (hcalls : calls.all SessionCall.keepsWidth = true) (setting : Setting) :
    (calls.foldl SessionCall.sets setting).width = setting.width := by
  induction calls generalizing setting with
  | nil => rfl
  | cons k calls ih =>
    obtain ⟨hk, hrest⟩ := Bool.and_eq_true_iff.1 hcalls
    rw [List.foldl_cons, ih hrest, width_sets hk]

/-! ### Engines -/

namespace Engine

variable {e t : Engine} {d d' : Desk} {g : Gauge} {event : KeyEvent}

theorem gauge?_put (e : Engine) (d : Desk) : (e.put d).gauge? =
    some ⟨d.session.conn, d.session.width, d.session.paused, e.pendingResize⟩ := rfl

theorem core?_of_gauge? (hg : e.gauge? = none) : e.core? = none := by
  rw [core?, desk?, Option.map_eq_none_iff.1 hg]
  rfl

/-- Work at the desk that keeps the connection. -/
theorem gauge?_put_sized {queue : EventQueue} {outcome : Outcome} {paused : Bool}
    (hs : e.session = some d.session) (hg : e.gauge? = some g)
    (hcore : d'.core = { d.core with queue, outcome, paused }) :
    (e.put d').gauge? = some { g with width := d'.setting.width, paused } := by
  have hconn : d'.session.conn = d.session.conn := congrArg Core.conn hcore
  have hpaused : d'.session.paused = paused := congrArg Core.paused hcore
  rw [gauge?, hs] at hg
  cases hg
  rw [gauge?_put, hconn, hpaused]
  rfl

/-- Work at the desk that keeps the width too. -/
theorem gauge?_put_of {queue : EventQueue} {outcome : Outcome} {paused : Bool}
    (hs : e.session = some d.session) (hg : e.gauge? = some g)
    (hcore : d'.core = { d.core with queue, outcome, paused })
    (hwidth : d'.setting.width = d.setting.width) :
    (e.put d').gauge? = some { g with paused } := by
  have hwidth' : d.setting.width = g.width := by
    rw [gauge?, hs] at hg
    cases hg
    rfl
  rw [gauge?_put_sized hs hg hcore, hwidth, hwidth']

/-- Work that leaves an engine with a gauge, or without a session. -/
structure Leaves (e : Engine) (g : Gauge) (t : Engine) (f : Option Finished) : Prop where
  busy_eq : t.busy = e.busy
  gauge_eq : f = none ∧ t.gauge? = some g ∨ t.gauge? = none

/-- A session that is over is taken out. -/
theorem leaves_takeFinished {u : Engine} {f : Option Finished} (hg : u.gauge? = some g)
    (h : u.takeFinished = (t, f)) (hbusy : u.busy = e.busy) : e.Leaves g t f := by
  obtain ⟨s, hs, -⟩ := Option.map_eq_some_iff.1 hg
  rcases takeFinished_cases (core?_of_session hs) with
    ⟨-, hgoes⟩ | ⟨line, t', -, hends, hs', -, -, hbusy'⟩
  · cases hgoes.symm.trans h
    exact ⟨hbusy, .inl ⟨rfl, hg⟩⟩
  · cases hends.symm.trans h
    exact ⟨hbusy'.trans hbusy, .inr (by rw [gauge?, hs']; rfl)⟩

/-- An event that is handled while nothing is kept back changes no more than the pause. -/
theorem gauge_handle (hnext : e.next? = some (d, event)) (hg : e.gauge? = some g)
    (hpending : g.pending = none) :
    match e.handle d event with
    | .settled t f => ∃ paused, e.Leaves { g with paused } t f
    | .script t _ _ => t.busy = e.busy ∧ ∃ paused, t.gauge? = some { g with paused } := by
  obtain ⟨s, queue, hs, hpaused, -, hd⟩ := next?_eq_some hnext
  have hs' : e.session = some d.session := by
    rw [hd]
    exact hs
  have hlisten : d.session.paused = false := by
    rw [hd]
    exact hpaused
  clear hd
  rw [handle_eq]
  by_cases hinterrupt : e.Interrupts event
  · rw [if_pos hinterrupt]
    have hwidth := congrArg (fun k : Kept => k.setting.width) d.kept_startOver
    have hover := gauge?_put_of hs' hg d.core_startOver hwidth
    -- nothing was kept back, so that nothing is dropped
    have hnone : e.pendingResize = none := by
      rw [gauge?, hs] at hg
      cases hg
      exact hpending
    refine ⟨false, rfl, .inl ⟨rfl, ?_⟩⟩
    rw [← hnone]
    exact hover
  · rw [if_neg hinterrupt]
    by_cases heof : e.AtEof d event
    · rw [if_pos heof]
      let ended : Desk := { d.log .debug .engine "end of file" [] with session.outcome := .eof }
      have hcore : ended.core = { d.core with outcome := .eof } := rfl
      have hg' := gauge?_put_of hs' hg hcore rfl
      exact ⟨_, leaves_takeFinished hg' rfl rfl⟩
    · rw [if_neg heof]
      have hkept := d.kept_dispatch event hlisten
      cases hr : d.dispatch event with
      | finished d' =>
        rw [hr] at hkept
        have hwidth := (congrArg (fun k : Kept => k.setting.width) hkept).trans
          (Setting.width_foldl_entered (d.entersBy event) d.setting)
        exact ⟨_, leaves_takeFinished (gauge?_put_of hs' hg (congrArg Kept.core hkept) hwidth) rfl rfl⟩
      | script c h d' =>
        rw [hr] at hkept
        exact ⟨rfl, _, gauge?_put_of hs' hg (congrArg Kept.core hkept.1)
          (congrArg (fun k : Kept => k.setting.width) hkept.1)⟩

/-- Calls on the session. -/
theorem gauge_answers (hg : e.gauge? = some g) (size : Size) {calls : List SessionCall}
    (hcalls : calls.all SessionCall.keepsWidth = true) {replies : List Reply}
    {f : Option Finished} (h : e.answers size calls = .ok (t, replies, f)) :
    e.Leaves { g with paused := calls.foldl SessionCall.holding g.paused } t f := by
  unfold answers at h
  split at h
  · cases h
  · rename_i d hd
    obtain ⟨hs, -⟩ := desk?_eq_some hd
    have hpaused : d.core.paused = g.paused := by
      rw [gauge?, hs] at hg
      cases hg
      rfl
    have hwidth := (congrArg (fun k : Kept => k.setting.width) (d.kept_answers size calls)).trans
      (SessionCall.width_foldl_sets hcalls d.setting)
    have hg' := gauge?_put_of hs hg (d.core_answers size calls) hwidth
    rw [hpaused] at hg'
    dsimp only at h
    split at h
    · cases h
      exact ⟨rfl, .inl ⟨rfl, hg'⟩⟩
    · obtain ⟨ht, hfinished⟩ := Prod.mk.inj (Except.ok.inj h)
      obtain ⟨-, hf⟩ := Prod.mk.inj hfinished
      exact leaves_takeFinished hg' (Prod.ext ht hf) rfl

/-- A step of a script. -/
theorem gauge_scriptStep (hd : e.desk? = some d) (hg : e.gauge? = some g) (size : Size)
    {s : ScriptStep} (hs : s.calls.all SessionCall.keepsWidth = true) :
    ∃ paused, (e.put (d.scriptStep size s)).gauge? = some { g with paused } := by
  obtain ⟨paused, hkept⟩ := d.kept_scriptStep size s
  have hwidth := (congrArg (fun k : Kept => k.setting.width) hkept).trans
    ((SessionCall.width_foldl_sets hs _).trans (Setting.width_foldl_entered (s.enters d) d.setting))
  exact ⟨paused, gauge?_put_of (desk?_eq_some hd).1 hg (congrArg Kept.core hkept) hwidth⟩

/-- The end of a script. -/
theorem gauge_afterScript (hd : e.desk? = some d) (hg : e.gauge? = some g) (c : Completion)
    (h : ScriptedHandler) : ∃ paused, (e.afterScript d c h).gauge? = some { g with paused } := by
  let r := d.endCompletion c (.scripted h) h.deferred
  have hkept := (r.2.kept_settleFocus (.complete r.1)).trans
    (d.kept_endCompletion c (.scripted h) h.deferred)
  exact ⟨_, gauge?_put_of (e := { e with busy := false }) (desk?_eq_some hd).1 hg
    (congrArg Kept.core hkept) (congrArg (fun k : Kept => k.setting.width) hkept)⟩

/-- While the session is paused a new size is kept back, and else it is the width. -/
theorem gauge_resized (hg : e.gauge? = some g) (z : Size) : (e.resized z).gauge? = some
    (if g.paused then { g with pending := some (g.pending.getD g.width) }
      else { g with width := z.cols }) := by
  obtain ⟨s, hs, hs'⟩ := Option.map_eq_some_iff.1 hg
  rw [resized, desk?_of_session hs, ← hs']
  dsimp only
  split
  · rfl
  · split
    · let d : Desk := { toEditor := e.toEditor, session := s }
      have hkept := d.kept_resize s.width z.cols
      have hwidth : (d.resize s.width z.cols).setting.width = z.cols :=
        congrArg (fun k : Kept => k.setting.width) hkept
      have hg' := gauge?_put_sized (d := d) hs hg (congrArg Kept.core hkept)
      rw [hwidth, ← hs'] at hg'
      exact hg'
    · rename_i hsame
      rw [hg, ← hs', ← Decidable.not_not.1 hsame]

/-- The end of a pause carries out what was kept back. -/
theorem gauge_resume (hg : e.gauge? = some g) (hkept : ∀ w ∈ g.pending, w = g.width) {width : Nat}
    {f : Option Finished} (h : e.resume width = .ok (t, f)) : e.Leaves { g with
      width := if g.pending.isSome then width else g.width
      paused := false
      pending := none } t f := by
  obtain ⟨s, hs, rfl⟩ := Option.map_eq_some_iff.1 hg
  let d : Desk := { toEditor := e.toEditor, session := s }
  -- a session that was ended during the pause is over, whatever its width
  have hleaves : ∀ (d' : Desk) (w : Nat), d'.core = { d.core with paused := false } →
      (s.outcome = .reading → d'.setting.width = w) →
      ({ e.put (d'.log .debug .engine "resume" []) with pendingResize := none } :
        Engine).takeFinished = (t, f) → e.Leaves ⟨s.conn, w, false, none⟩ t f := by
    intro d' w hcore hwidth ht
    have hk : ({ e.put (d'.log .debug .engine "resume" []) with pendingResize := none } :
        Engine).core? = some { d.core with paused := false } := congrArg some hcore
    rcases takeFinished_cases hk with
      ⟨hreading, hgoes⟩ | ⟨line, t', -, hends, hs', -, -, hbusy⟩
    · cases hgoes.symm.trans ht
      have hlogged : (d'.log .debug .engine "resume" []).core = { d.core with paused := false } := hcore
      have hg' := gauge?_put_sized (e := { e with pendingResize := none }) (d := d) hs
        (congrArg (Option.map _) hs) hlogged
      rw [← hwidth hreading]
      exact ⟨rfl, .inl ⟨rfl, hg'⟩⟩
    · cases hends.symm.trans ht
      exact ⟨hbusy, .inr (by rw [gauge?, hs']; rfl)⟩
  rw [resume, desk?_of_session hs] at h
  dsimp only at h
  split at h
  · refine hleaves _ _ ?_ (fun hreading => ?_) (Except.ok.inj h)
    · split
      · split
        · rfl
        · exact congrArg Kept.core (Desk.kept_resize ..)
      · rfl
    · have hreading' : d.resume.session.outcome = .reading := hreading
      rw [hreading']
      cases hpending : e.pendingResize with
      | none => rfl
      | some old =>
        obtain rfl : old = s.width := hkept old hpending
        dsimp only
        split
        · rename_i hsame
          exact hsame
        · exact congrArg (fun k : Kept => k.setting.width) (d.resume.kept_resize ..)
  · cases h

end Engine

end LineEditor
