import LineEditor.Proofs.Engine.Core
import LineEditor.Proofs.Session.Rules

/-!
An engine keeps to the rules of its sessions: when a line begins, when an event is handled, when a
pause ends and when the terminal changes its size.

Main definition: `Engine.Obeys`. Main statements: `Obeys.start`, `Obeys.handle`, `Obeys.resume`,
`Obeys.answers` and `Obeys.afterScript`.
-/
namespace LineEditor

theorem History.only_ofEntries {P : Char → Prop} (limit : Nat) {lines : List Text}
    (hlines : ∀ line ∈ lines, line.Only P) : (History.ofEntries limit lines).Only P := by
  have hfold : ∀ h : History, h.Only P → (lines.foldl History.push h).Only P := by
    induction lines with
    | nil => exact fun h hP => hP
    | cons line lines ih =>
      obtain ⟨hline, hlines⟩ := List.forall_mem_cons.1 hlines
      exact fun h hP => ih hlines _ (hP.push hline)
  exact hfold _ (List.forall_mem_nil _)

namespace Engine

variable {R : Rules} {e : Engine} {d : Desk} {event : KeyEvent}

/-- What outlives a line keeps to the rules, and so does the session if there is one. -/
structure Obeys (R : Rules) (e : Engine) : Prop where
  editor : e.toEditor.Obeys R
  session : ∀ s, e.session = some s → s.Obeys R

theorem Obeys.desk (h : e.Obeys R) (hd : e.desk? = some d) : d.Obeys R := by
  obtain ⟨s, hs, rfl⟩ := Option.map_eq_some_iff.1 hd
  exact ⟨h.editor, h.session s hs⟩

theorem obeys_put (e : Engine) (hd : d.Obeys R) : (e.put d).Obeys R :=
  ⟨hd.editor, fun _ hs => Option.some.inj hs ▸ hd.session⟩

theorem Obeys.takeFinished (h : e.Obeys R) : e.takeFinished.1.Obeys R := by
  rw [Engine.takeFinished]
  split
  · exact h
  · dsimp only
    split
    · exact h
    · refine ⟨h.editor.log .., ?_⟩
      intro s hs
      cases hs

/-- Effects that are carried out are no concern. -/
theorem Obeys.carriedOut (h : e.Obeys R) : { e with effects := [] }.Obeys R :=
  { h with editor := { h.editor with } }

/-- More input in the queue is no concern. -/
theorem Obeys.setQueue (h : e.Obeys R) (queue : EventQueue) : { e with queue }.Obeys R :=
  { h with editor := { h.editor with } }

/-- An engine that has not read anything keeps to the rules if the lines of its history do. -/
theorem obeys_new {config : Config} {lines : List Text}
    (hstyle : R.edits config.style) (hlines : ∀ line ∈ lines, line.Only R.shows) :
    (Engine.new config lines).Obeys R := by
  have hkeymap : (Keymap.new config.style).style = config.style := by
    cases config.style with
    | emacs => rfl
    | vi => rfl
  refine ⟨⟨hkeymap ▸ hstyle, History.only_ofEntries _ hlines, ?_, ?_⟩, ?_⟩
  · exact List.forall_mem_nil _
  · exact List.forall_mem_nil _
  · intro s hs
    cases hs

/-! ### Lines -/

theorem Obeys.start (h : e.Obeys R) {r : Request} (hr : ∀ h, r.handler = some h → R.employs h)
    (callback width : Nat) (previous : Handlers) :
    (e.start r callback width previous).Obeys R := by
  have hbegun : Desk.Obeys R
      { toEditor := e.toEditor.freshLine.log .debug .engine "readline"
          [("prompt", .quoted r.prompt.text)]
        session := .begin r e.config callback width previous } := by
    refine ⟨{ h.editor with undo := UndoStack.only_clear _ }, ?_⟩
    exact { buffer := Text.only_nil, line := Text.only_nil, focus := nofun, handler := hr }
  have hdrawn := hbegun.redraw
  exact ⟨hdrawn.editor, fun _ hs => Option.some.inj hs ▸ hdrawn.session⟩

/-- An event that is handled keeps to the rules, up to where a script has to be run. -/
def Handled.Obeys (R : Rules) : Handled → Prop
  | .settled e _ => e.Obeys R
  | .script e _ h => R.employs (.scripted h) ∧ e.Obeys R

theorem obeys_handle (hd : d.Obeys R)
    (hline : ∀ line, some line ∈ e.endsBy d event → line.Only R.shows) :
    (e.handle d event).Obeys R := by
  rw [handle_eq]
  split
  · have hput := obeys_put e hd.startOver
    exact { hput with }
  · rename_i hinterrupt
    split
    · have hended : { d.log .debug .engine "end of file" [] with
          session.outcome := .eof }.Obeys R :=
        { hd.log .. with session := { hd.session with } }
      exact (obeys_put e hended).takeFinished
    · rename_i heof
      have hends : e.endsBy d event = d.endsBy event :=
        (if_neg hinterrupt).trans (if_neg heof)
      rw [hends] at hline
      have hdispatch := hd.dispatch event hline
      cases hr : d.dispatch event with
      | finished d' =>
        rw [hr] at hdispatch
        exact (obeys_put e hdispatch).takeFinished
      | script c h d' =>
        rw [hr] at hdispatch
        exact ⟨hdispatch.1, obeys_put e hdispatch.2⟩

theorem Obeys.next (h : e.Obeys R) (hnext : e.next? = some (d, event)) : d.Obeys R := by
  obtain ⟨s, queue, hs, -, -, rfl⟩ := next?_eq_some hnext
  exact ⟨{ h.editor with }, h.session s hs⟩

/-- The next event handled keeps to the rules if the line that it accepts does. -/
theorem Obeys.step {r : Handled} (h : e.Obeys R) (hstep : e.step? = some r)
    (hline : ∀ x ∈ e.next?, ∀ line, some line ∈ e.endsBy x.1 x.2 → line.Only R.shows) :
    r.Obeys R := by
  rw [step?_eq, Option.map_eq_some_iff] at hstep
  obtain ⟨⟨d, event⟩, hnext, rfl⟩ := hstep
  exact obeys_handle (h.next hnext) (hline _ hnext)

/-- A line that is accepted is a continuation line. -/
theorem endsBy_only {line : Text} (hd : d.Obeys R) (hline : some line ∈ e.endsBy d event) :
    line.Only R.holds := by
  rw [endsBy] at hline
  split at hline
  · cases hline
  · split at hline
    · rcases List.mem_singleton.1 hline with ⟨⟩
    · exact hd.endsBy hline

/-! ### Calls -/

theorem Obeys.resume (h : e.Obeys R) {width : Nat} {r : Engine × Option Finished}
    (hr : e.resume width = .ok r) : r.1.Obeys R := by
  obtain ⟨d, hd, rfl⟩ := of_resume_eq_ok hr
  have hdesk := (h.desk hd).resume
  have hcaught : (e.catchUp width d.resume).Obeys R := by
    obtain hsame | ⟨old, hresized⟩ := e.catchUp_eq width d.resume
    · rw [hsame]
      exact hdesk
    · rw [hresized]
      exact hdesk.resize ..
  have hput := obeys_put e (hcaught.log .debug .engine "resume" [])
  exact Obeys.takeFinished { hput with }

theorem Obeys.resized (h : e.Obeys R) (size : Size) : (e.resized size).Obeys R := by
  rw [Engine.resized]
  split
  · exact h
  · rename_i d hd
    have hdesk := h.desk hd
    dsimp only
    split
    · have hput := obeys_put e (hdesk.log .debug .engine "resize deferred"
        [("size", .plain size.describe)])
      exact { hput with }
    · split
      · exact obeys_put e (hdesk.resize ..)
      · exact h

theorem Obeys.answers (h : e.Obeys R) {size : Size} {calls : List SessionCall}
    (hcalls : ∀ k ∈ calls, k.Obeys R) {r : Engine × List Reply × Option Finished}
    (hr : e.answers size calls = .ok r) : r.1.Obeys R := by
  rw [Engine.answers] at hr
  split at hr
  · cases hr
  · rename_i d hd
    have hput := obeys_put e ((h.desk hd).answers size hcalls)
    dsimp only at hr
    split at hr
    · cases hr
      exact hput
    · cases hr
      exact hput.takeFinished

/-! ### Scripts -/

theorem obeys_afterScript (e : Engine) {h : ScriptedHandler} (hd : d.Obeys R) (c : Completion)
    (hh : R.employs (.scripted h)) : (e.afterScript d c h).Obeys R := by
  have hended := hd.endCompletion c hh h.deferred
  exact obeys_put _ (hended.settleFocus trivial)

end Engine

end LineEditor
