import LineEditor.Proofs.Session.Commands
import LineEditor.Proofs.Session.Completing
import LineEditor.Proofs.Session.Searching
import LineEditor.Engine.Basic

/-!
Events and the screen. Between two events a session is settled: the screen holds its frame, with or
without an action that has the focus, or the question before a long list stands below the frame.
Every event leaves a settled session settled, unless it ends the session, and so does an interrupt.

Main definition: `Desk.Settled`. Main statements: `Settled.dispatch` and `Settled.startOver`.
-/
namespace LineEditor.Desk

/-- A desk without the action that has the focus. -/
def unfocused (d : Desk) : Desk := { d with session.focus := none }

/-- What a session is like between two events. -/
inductive Settled (style : BellStyle) (s : Screen) (d : Desk) : Prop where
  | line (h : d.Ready style s false)
  | operator (o : ViOperator) (hfocus : d.session.focus = some (.operator o))
      (h : d.unfocused.Ready style s false)
  | search (q : Search) (hfocus : d.session.focus = some (.search q)) (hq : q.Plain)
      (h : d.unfocused.Ready style s true)
  | asking (c : Completion) (hfocus : d.session.focus = some (.complete c))
      (h : d.unfocused.Asking style s)

variable {d : Desk} {style : BellStyle} {s : Screen} {own : Bool}

theorem Ready.unfocused (h : d.Ready style s own) : d.unfocused.Ready style s own :=
  { h with plain := { h.plain with }, focus_eq := rfl }

/-- The prompt on the screen may be an action's own even if it is not. -/
theorem Ready.mayOwn (h : d.Ready style s own) : d.Ready style s true :=
  { h with shown_eq := fun hown => by cases hown }

theorem Asking.unfocused (h : d.Asking style s) : d.unfocused.Asking style s :=
  { h with below := { h.below with plain := { h.below.plain with }, focus_eq := rfl } }

theorem Settled.setQueue (h : d.Settled style s) (queue : EventQueue) :
    { d with queue }.Settled style s := by
  cases h with
  | line h => exact .line (h.setQueue queue)
  | operator o hfocus h => exact .operator o hfocus (h.setQueue queue)
  | search q hfocus hq h => exact .search q hfocus hq (h.setQueue queue)
  | asking c hfocus h =>
    exact .asking c hfocus { h with below := { h.below with plain := { h.below.plain with } } }

/-! ### Actions -/

theorem Ready.beginAction (h : d.unfocused.Ready style s own) (a : Action) (e : KeyEvent) :
    (d.beginAction a e).Ready style s own := by
  have hlog := h.log .trace .engine "apply"
    [("action", .quoted a.command.name.toList), ("event", .plain e.describe)]
  exact { hlog with plain := { hlog.plain with } }

theorem Asking.beginAction (h : d.unfocused.Asking style s) (a : Action) (e : KeyEvent) :
    (d.beginAction a e).Asking style s := by
  have hlog := h.below.log .trace .engine "apply"
    [("action", .quoted a.command.name.toList), ("event", .plain e.describe)]
  exact { h with below := { hlog with plain := { hlog.plain with } } }

/-- An action that is applied leaves the session settled, unless it ends it. -/
def Settles (style : BellStyle) (s : Screen) : Applied → Prop
  | .finished a d => (d.settleFocus a).session.outcome = .reading → (d.settleFocus a).Fits →
    (d.settleFocus a).Settled style s
  | .script .. => False

theorem settles_keeps {a : Action} (ha : a.keepsFocus = true)
    (h : d.Fits → { d with session.focus := some a }.Settled style s) :
    Settles style s (.finished a d) := by
  have hsettle : d.settleFocus a = { d with session.focus := some a } := if_pos ha
  change (d.settleFocus a).session.outcome = .reading → (d.settleFocus a).Fits →
    (d.settleFocus a).Settled style s
  rw [hsettle]
  exact fun _ hfits => h hfits

theorem settles_leaves {a : Action} (ha : a.keepsFocus = false)
    (h : d.session.outcome = .reading → d.Fits → d.Settled style s) :
    Settles style s (.finished a d) := by
  have hsettle : d.settleFocus a = d := if_neg (by rw [ha]; decide)
  change (d.settleFocus a).session.outcome = .reading → (d.settleFocus a).Fits →
    (d.settleFocus a).Settled style s
  rw [hsettle]
  exact h

theorem Ready.settles_search {q : Search} (h : d.Ready style s true) (hq : q.Plain) :
    Settles style s (d.apply (.search q)) := by
  have happly : d.apply (.search q) = .finished (.search (d.search q).1) (d.search q).2 := rfl
  have hsearch := h.search hq
  rw [happly]
  generalize (d.search q).1 = q' at hsearch ⊢
  generalize (d.search q).2 = d' at hsearch ⊢
  cases hkeeps : q'.keepsFocus with
  | true =>
    refine settles_keeps hkeeps fun hfits => ?_
    rcases hsearch hfits with ⟨-, hplain, hready⟩ | ⟨hleaves, -⟩
    · exact .search _ rfl hplain hready.unfocused
    · exact absurd (hkeeps.symm.trans hleaves) (by decide)
  | false =>
    refine settles_leaves hkeeps fun _ hfits => ?_
    rcases hsearch hfits with ⟨hfocus, -⟩ | ⟨-, hready⟩
    · exact absurd (hfocus.symm.trans hkeeps) (by decide)
    · exact .line hready

theorem Ready.settles_operator (h : d.Ready style s false) (o : ViOperator) :
    Settles style s (d.apply (.operator o)) := by
  have happly : d.apply (.operator o) = .finished (.operator o) (d.operate o) := rfl
  rw [happly]
  cases hkeeps : (Action.operator o).keepsFocus with
  | true => exact settles_keeps hkeeps fun hfits => .operator o rfl (h.operate o hfits).unfocused
  | false => exact settles_leaves hkeeps fun _ hfits => .line (h.operate o hfits)

theorem settles_complete {c : Completion} (h : Completes style s (d.beginCompletion c)) :
    Settles style s (d.apply (.complete c)) := by
  unfold Desk.apply
  dsimp only
  cases hstep : d.beginCompletion c with
  | script c h' d' =>
    rw [hstep] at h
    exact absurd h id
  | finished c' d' =>
    rw [hstep] at h
    cases hkeeps : c'.asking with
    | true =>
      refine settles_keeps hkeeps fun hfits => ?_
      rcases h hfits with ⟨hdone, -⟩ | ⟨-, hasking⟩
      · exact absurd (hkeeps.symm.trans hdone) (by decide)
      · exact .asking c' rfl hasking.unfocused
    | false =>
      refine settles_leaves hkeeps fun _ hfits => ?_
      rcases h hfits with ⟨-, hready⟩ | ⟨hasks, -⟩
      · exact .line hready
      · exact absurd (hasks.symm.trans hkeeps) (by decide)

theorem Ready.settles_ofCommand (h : d.Ready style s false) (k : Command) :
    Settles style s (d.apply (.ofCommand k)) := by
  have hsearch : ∀ direction : Direction, { direction : Search }.Plain :=
    fun _ => ⟨Text.plain_nil, fun _ ht => by cases ht⟩
  cases k
  case acceptLine => exact fun hreading hfits => .line (h.acceptLine hfits hreading)
  case reverseSearchHistory => exact h.mayOwn.settles_search (hsearch .reverse)
  case forwardSearchHistory => exact h.mayOwn.settles_search (hsearch .forward)
  case complete => exact settles_complete (h.beginCompletion rfl)
  case viDeleteOperator => exact h.settles_operator _
  case viChangeOperator => exact h.settles_operator _
  all_goals exact fun _ hfits => .line (h.basic _ hfits)

/-! ### Events -/

theorem dispatch_of_settles {e : KeyEvent} {a : Action} (ha : d.actionFor e = some a)
    (h : Settles style s ((d.beginAction a e).apply a)) :
    ∃ d', d.dispatch e = .finished d' ∧
      (d'.session.outcome = .reading → d'.Fits → d'.Settled style s) := by
  unfold Desk.dispatch
  rw [ha]
  dsimp only
  cases hr : (d.beginAction a e).apply a with
  | finished a d' =>
    rw [hr] at h
    exact ⟨_, rfl, h⟩
  | script c h' d' =>
    rw [hr] at h
    exact absurd h id

/-- An event that is handled leaves the session settled, unless it ends it. -/
theorem Settled.dispatch (h : d.Settled style s) (e : KeyEvent) :
    ∃ d', d.dispatch e = .finished d' ∧
      (d'.session.outcome = .reading → d'.Fits → d'.Settled style s) := by
  cases h with
  | line h =>
    cases hbound : d.keymap.lookup? e with
    | none =>
      have haction : d.actionFor e = none := by
        rw [Desk.actionFor, h.focus_eq, hbound]
        rfl
      unfold Desk.dispatch
      rw [haction]
      exact ⟨_, rfl, fun _ hfits => .line (h.selfInsert hfits)⟩
    | some k =>
      have haction : d.actionFor e = some (.ofCommand k) := by
        rw [Desk.actionFor, h.focus_eq, hbound]
        rfl
      exact dispatch_of_settles haction ((h.unfocused.beginAction _ e).settles_ofCommand k)
  | operator o hfocus h =>
    have haction : d.actionFor e =
        some (.operator { o with motion := some (d.keymap.lookup? e) }) := by
      rw [Desk.actionFor, hfocus]
      rfl
    exact dispatch_of_settles haction ((h.beginAction _ e).settles_operator _)
  | search q hfocus hq h =>
    have haction : d.actionFor e = some (.search (q.input (d.keymap.lookup? e) e)) := by
      rw [Desk.actionFor, hfocus]
      rfl
    exact dispatch_of_settles haction ((h.beginAction _ e).settles_search (hq.input _ e))
  | asking c hfocus h =>
    have haction : d.actionFor e = some (.complete { c with answer := some e }) := by
      rw [Desk.actionFor, hfocus]
      rfl
    exact dispatch_of_settles haction (settles_complete ((h.beginAction _ e).beginCompletion _))

/-! ### What is seen between two events -/

/-- Without a question the screen displays the frame of the session. -/
theorem Settled.displays (h : d.Settled style s)
    (hcalm : ∀ h, d.session.handler = some h → h.asks = false) :
    ∃ top, (d.seen style s).Displays d.session.frame d.session.width top := by
  cases h with
  | line h => exact h.holds.displays
  | operator o hfocus h => exact h.holds.displays
  | search q hfocus hq h => exact h.holds.displays
  | asking c hfocus h =>
    obtain ⟨handler, hhandler, -, hask⟩ := h.handler
    exact absurd ((hcalm _ hhandler).symm.trans hask) (by decide)

/-- Only a search shows a prompt of its own. -/
theorem Settled.shown_eq (h : d.Settled style s)
    (hfocus : ∀ q, d.session.focus ≠ some (.search q)) : d.session.shown = d.session.current := by
  cases h with
  | line h => exact h.shown_eq rfl
  | operator o _ h => exact h.shown_eq rfl
  | search q hsearch => exact absurd hsearch (hfocus q)
  | asking c _ h => exact h.shown_eq

/-! ### Interrupts -/

theorem Settled.plain (h : d.Settled style s) : d.Plain := by
  cases h with
  | line h => exact h.plain
  | operator o hfocus h => exact { h.plain with }
  | search q hfocus hq h => exact { h.plain with }
  | asking c hfocus h =>
    obtain ⟨handler, hhandler, hplain, -⟩ := h.handler
    exact { h.below.plain with
      handler := fun h' hh => Option.some.inj (hhandler.symm.trans hh) ▸ hplain }

theorem Settled.width_le (h : d.Settled style s) : max d.session.width 1 ≤ Draw.maxCount := by
  cases h with
  | line h => exact h.width_le
  | operator o hfocus h => exact h.width_le
  | search q hfocus hq h => exact h.width_le
  | asking c hfocus h => exact h.below.width_le

/-- Behind the end of the frame nothing is on the screen but a question. -/
theorem Settled.moveToEnd (h : d.Settled style s) :
    ((d.seen style s).write (Draw.renderAll
      (d.session.frame.moveToEnd d.session.width))).Loose d.session.width := by
  cases h with
  | line h => exact h.holds.moveToEnd h.width_le h.plain.frame h.fits
  | operator o hfocus h => exact h.holds.moveToEnd h.width_le h.plain.frame h.fits
  | search q hfocus hq h => exact h.holds.moveToEnd h.width_le h.plain.frame h.fits
  | asking c hfocus h =>
    rw [Frame.moveToEnd_eq_nil h.end_eq]
    exact h.below.screen

/-- Without a question the usual handler is as plain as before. -/
theorem dropQuestion_eq (h : ∀ h, d.session.handler = some h → h.Plain) :
    ∃ handler : Option Handler, (∀ h, handler = some h → h.Plain ∧ h.asks = false) ∧
      d.dropQuestion = { d with session.handler := handler } := by
  unfold Desk.dropQuestion
  cases hd : d.session.handler with
  | none =>
    have hsame : { d with session.handler := none } = d := by rw [← hd]
    exact ⟨none, nofun, hsame.symm⟩
  | some handler =>
    cases handler with
    | scripted h' => exact absurd (h _ hd) id
    | candidates h' =>
      refine ⟨some (.candidates (h'.setAsk false)), fun _ hh => ?_, rfl⟩
      cases hh
      exact ⟨(h _ hd).setAsk false, rfl⟩

/-- An interrupt draws an empty line on a row of its own. -/
theorem Settled.startOver (h : d.Settled style s) (hfits : d.startOver.Fits) :
    d.startOver.Ready style s false := by
  have hplain := h.plain
  have hfresh : ((d.log .debug .engine "interrupt" []).newLine.seen style s).Fresh
      d.session.width := by
    refine fresh_newLine (d := d.log .debug .engine "interrupt" []) ?_
    rw [seen_log]
    exact h.moveToEnd
  obtain ⟨handler, hhandler, hdrop⟩ :=
    dropQuestion_eq (d := (d.log .debug .engine "interrupt" []).newLine) (by
      rw [newLine_eq, write_eq]
      exact hplain.handler)
  unfold Desk.startOver at hfits ⊢
  dsimp only at hfits ⊢
  rw [hdrop] at hfits ⊢
  rw [newLine_eq, write_eq] at hfits hfresh ⊢
  refine Below.redraw ⟨?_, h.width_le, hfresh, rfl, rfl, fun h hh => (hhandler h hh).2⟩ hfits
  exact {
    prompt := hplain.prompt
    current := hplain.prompt
    continuation := hplain.continuation
    frame := (Text.plain_append ..).2 ⟨hplain.prompt, Text.plain_nil⟩
    history := hplain.history
    kills := hplain.kills
    undo := UndoStack.plain_clear _
    handler := fun h hh => (hhandler h hh).1 }

end LineEditor.Desk
