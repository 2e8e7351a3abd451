import LineEditor.Proofs.Display.Rows
import LineEditor.Proofs.Host.Newlines
import LineEditor.Proofs.Session.Plain

/-!
What is on the screen is what the session believes. The effects that a desk has not given away yet
are carried out on a screen, and every piece of work at the desk is followed there: a refresh finds
the frame of the session on the screen and leaves the new one.

Main definitions: `Desk.seen` is the screen with the effects carried out, and `Desk.Ready` says that
an action may be applied: the screen holds the frame of the session, and no action or question is
pending. Main statements: `Ready.refreshWith`, `Ready.newLine`, `Below.redraw` and one lemma for
each kind of edit.
-/
namespace LineEditor

/-- What an effect does to a screen. -/
def Screen.take (style : BellStyle) (s : Screen) : Effect → Screen
  | .write t | .draw t => s.write (NewlineMode.translate.apply t)
  | .ring => if style = .audible then s.write ['\x07'] else s
  | .log _ | .note _ => s

/-- No effect changes the width. -/
theorem Screen.width_take (style : BellStyle) (s : Screen) (x : Effect) :
    (s.take style x).width = s.width := by
  cases x with
  | write t | draw t => exact s.width_write _
  | ring =>
    rw [take]
    split
    · exact s.width_write _
    · rfl
  | log l | note n => rfl

theorem Screen.width_foldl_take (style : BellStyle) (s : Screen) (xs : List Effect) :
    (xs.foldl (Screen.take style) s).width = s.width := by
  induction xs generalizing s with
  | nil => rfl
  | cons x xs ih => rw [List.foldl_cons, ih, width_take]

namespace Desk

/-- A screen with the effects carried out that were not taken yet. -/
def seen (style : BellStyle) (s : Screen) (d : Desk) : Screen := d.effects.foldl (Screen.take style) s

/-- A count can tell the rows of the session's frame apart. -/
def Fits (d : Desk) : Prop := d.session.frame.Fits d.session.width

/-- No control characters in anything that a session may come to show. -/
structure Plain (d : Desk) : Prop where
  prompt : d.session.prompt.text.Plain
  current : d.session.current.text.Plain
  continuation : d.session.continuation.text.Plain
  frame : d.session.frame.Plain
  history : d.history.Plain
  kills : d.kills.Plain
  undo : d.undo.Plain
  handler : ∀ h, d.session.handler = some h → h.Plain

/-- The screen holds the frame of the session, and no action and no question is pending. The prompt
is the current one unless an action may have left its own. -/
structure Ready (style : BellStyle) (s : Screen) (own : Bool) (d : Desk) : Prop where
  plain : d.Plain
  width_le : max d.session.width 1 ≤ Draw.maxCount
  fits : d.Fits
  holds : (d.seen style s).Holds d.session.frame d.session.width
  focus_eq : d.session.focus = none
  outcome_eq : d.session.outcome = .reading
  calm : ∀ h, d.session.handler = some h → h.asks = false
  shown_eq : own = false → d.session.shown = d.session.current

/-- Work goes on below the frame, on a screen that satisfies `P`, until the line is drawn again. -/
structure Below (P : Screen → Nat → Prop) (style : BellStyle) (s : Screen) (d : Desk) : Prop where
  plain : d.Plain
  width_le : max d.session.width 1 ≤ Draw.maxCount
  screen : P (d.seen style s) d.session.width
  focus_eq : d.session.focus = none
  outcome_eq : d.session.outcome = .reading
  calm : ∀ h, d.session.handler = some h → h.asks = false

variable {d : Desk} {P : Screen → Nat → Prop} {style : BellStyle} {s : Screen} {own : Bool}
  {p : Prompt} {b : Buffer} {t : Text}

/-! ### Effects -/

theorem seen_emit (style : BellStyle) (s : Screen) (d : Desk) (e : Effect) :
    (d.emit e).seen style s = (d.seen style s).take style e := List.foldl_append ..

@[simp] theorem seen_log (d : Desk) (level : Log.Level) (site : Log.Site) (message : String)
    (fields : List (String × Log.Value)) :
    (d.log level site message fields).seen style s = d.seen style s := d.seen_emit style s _

/-- Writing adds an effect and changes nothing else. -/
theorem write_eq (d : Desk) (t : Text) :
    d.write t = { d with effects := d.effects ++ if t.isEmpty then [] else [.write t] } := by
  rw [write]
  split
  · rw [List.append_nil]
  · rfl

theorem seen_write (style : BellStyle) (s : Screen) (d : Desk) (t : Text) :
    (d.write t).seen style s = (d.seen style s).write (NewlineMode.translate.apply t) := by
  rw [write]
  split
  · rename_i hempty
    rw [List.isEmpty_iff.1 hempty]
    rfl
  · exact d.seen_emit style s _

theorem seen_bell (d : Desk) : d.bell.seen style s =
    if style = .audible then (d.seen style s).write ['\x07'] else d.seen style s := by
  rw [Desk.bell, seen_emit, seen_log]
  rfl

theorem refreshWith_eq (d : Desk) (p : Prompt) (b : Buffer) :
    d.refreshWith p b =
      { d.write (Draw.renderAll (Frame.update d.session.frame ⟨p, b⟩ d.session.width)) with
        session := { d.session with shown := p, buffer := b } } := by
  rw [refreshWith, write_eq]

theorem newLine_eq (d : Desk) :
    d.newLine =
      { d.write (Draw.renderAll (d.session.frame.moveToEnd d.session.width ++ [.newline])) with
        session := { d.session with buffer := d.session.buffer.moveToEnd } } := by
  rw [newLine, write_eq]

/-! ### What leaves the screen alone -/

theorem Ready.log (h : d.Ready style s own) (level : Log.Level) (site : Log.Site) (message : String)
    (fields : List (String × Log.Value)) : (d.log level site message fields).Ready style s own :=
  { h with
    plain := { h.plain with }
    holds := by
      rw [seen_log]
      exact h.holds }

theorem Ready.resume (h : d.Ready style s own) : d.resume.Ready style s own :=
  { h with plain := { h.plain with } }

theorem Ready.setQueue (h : d.Ready style s own) (queue : EventQueue) :
    { d with queue }.Ready style s own :=
  { h with plain := { h.plain with } }

theorem Ready.setTyping (h : d.Ready style s own) (typing : Bool) :
    { d with session.typing := typing }.Ready style s own :=
  { h with plain := { h.plain with } }

theorem Ready.bell (h : d.Ready style s own) : d.bell.Ready style s own := by
  refine { h with plain := { h.plain with }, holds := ?_ }
  rw [seen_bell]
  split
  · exact h.holds.bell
  · exact h.holds

@[simp] theorem session_setVi (d : Desk) (v : ViState) : (d.setVi v).session = d.session := by
  rw [Desk.setVi]
  split <;> rfl

theorem Ready.setVi (h : d.Ready style s own) (v : ViState) : (d.setVi v).Ready style s own := by
  rw [Desk.setVi]
  split
  · have hkeymap : { d with keymap := d.keymap.setVi v }.Ready style s own :=
      { h with plain := { h.plain with } }
    exact hkeymap.log ..
  · exact h

theorem Ready.setHistory {history : History} (h : d.Ready style s own) (hp : history.Plain) :
    { d with history }.Ready style s own :=
  { h with plain := { h.plain with history := hp } }

theorem Ready.setUndo {undo : UndoStack} (h : d.Ready style s own) (hp : undo.Plain) :
    { d with undo }.Ready style s own :=
  { h with plain := { h.plain with undo := hp } }

theorem Ready.setKills {kills : KillRing} (h : d.Ready style s own) (hp : kills.Plain) :
    { d with kills }.Ready style s own :=
  { h with plain := { h.plain with kills := hp } }

/-! ### Drawing -/

/-- A refresh finds the old frame on the screen and leaves the new one. -/
theorem Ready.refreshWith {before : Bool} (h : d.Ready style s before) (hp : p.text.Plain)
    (hb : b.text.Plain) (hown : own = false → p = d.session.current) (hfits : (d.refreshWith p b).Fits) :
    (d.refreshWith p b).Ready style s own := by
  rw [refreshWith_eq] at hfits ⊢
  rw [write_eq] at hfits
  have hframe : Frame.Plain ⟨p, b⟩ := (Text.plain_append ..).2 ⟨hp, hb⟩
  have hupdate := h.holds.update h.width_le h.plain.frame hframe h.fits hfits
  have hseen := d.seen_write style s
    (Draw.renderAll (Frame.update d.session.frame ⟨p, b⟩ d.session.width))
  rw [NewlineMode.translate_apply (Draw.newline_notMem_update hp hb _)] at hseen
  rw [← hseen] at hupdate
  rw [write_eq] at hupdate ⊢
  exact { h with
    plain := { h.plain with frame := hframe }
    fits := hfits
    holds := hupdate
    shown_eq := hown }

theorem Ready.refresh {before : Bool} (h : d.Ready style s before) (hb : b.text.Plain)
    (hfits : (d.refresh b).Fits) : (d.refresh b).Ready style s own :=
  h.refreshWith h.plain.current hb (fun _ => rfl) hfits

/-- The current prompt is drawn with the buffer where nothing is. -/
theorem Below.redraw (h : d.Below Screen.Fresh style s) (hfits : d.redraw.Fits) :
    d.redraw.Ready style s own := by
  have hframe : Frame.Plain ⟨d.session.current, d.session.buffer⟩ :=
    (Text.plain_append ..).2 ⟨h.plain.current, h.plain.frame.buffer⟩
  have hdraw := h.screen.redraw h.width_le hframe hfits
  have hseen := d.seen_emit style s (.draw (Draw.renderAll
    (Frame.redraw ⟨d.session.current, d.session.buffer⟩ d.session.width)))
  rw [Screen.take, NewlineMode.translate_apply
    (Draw.newline_notMem_redraw hframe.prompt hframe.buffer _)] at hseen
  rw [← hseen] at hdraw
  exact { h with
    plain := { h.plain with frame := hframe }
    fits := hfits
    holds := hdraw
    shown_eq := fun _ => rfl }

theorem Below.log (h : d.Below P style s) (level : Log.Level) (site : Log.Site)
    (message : String) (fields : List (String × Log.Value)) :
    (d.log level site message fields).Below P style s :=
  { h with
    plain := { h.plain with }
    screen := by
      rw [seen_log]
      exact h.screen }

theorem Below.setUndo {undo : UndoStack} (h : d.Below P style s) (hp : undo.Plain) :
    { d with undo }.Below P style s :=
  { h with plain := { h.plain with undo := hp } }

/-- With an empty buffer the prompt alone is drawn. -/
theorem Below.resetDisplay (h : d.Below Screen.Fresh style s) (hfits : d.resetDisplay.Fits) :
    d.resetDisplay.Ready style s own := by
  have hframe : Frame.Plain ⟨d.session.shown, .empty⟩ :=
    (Text.plain_append ..).2 ⟨h.plain.frame.prompt, Text.plain_nil⟩
  have hempty : { d with session.buffer := .empty }.Below Screen.Fresh style s :=
    { h with plain := { h.plain with frame := hframe } }
  exact hempty.redraw hfits

/-- Behind the frame a new row starts where nothing is. -/
theorem fresh_newLine
    (hloose : ((d.seen style s).write
      (Draw.renderAll (d.session.frame.moveToEnd d.session.width))).Loose d.session.width) :
    (d.newLine.seen style s).Fresh d.session.width := by
  have hseen := d.seen_write style s
    (Draw.renderAll (d.session.frame.moveToEnd d.session.width ++ [.newline]))
  rw [Draw.renderAll_append, NewlineMode.translate_append,
    NewlineMode.translate_apply (Draw.newline_notMem_moveToEnd _ _), Screen.write_append] at hseen
  rw [newLine_eq]
  change ((d.write _).seen style s).Fresh d.session.width
  rw [Draw.renderAll_append, hseen]
  exact hloose.newline

theorem Plain.newLine (h : d.Plain) : d.newLine.Plain := by
  rw [newLine_eq, write_eq]
  exact { h with frame := h.frame }

/-- Work goes on below the frame. -/
theorem Ready.newLine (h : d.Ready style s own) : d.newLine.Below Screen.Fresh style s := by
  have hplain := h.plain.newLine
  have hfresh := fresh_newLine (h.holds.moveToEnd h.width_le h.plain.frame h.fits)
  rw [newLine_eq, write_eq] at hplain hfresh ⊢
  exact { h with plain := hplain, screen := hfresh }

/-- The screen is cleared and the line is drawn at its start. -/
theorem Ready.clearScreen (h : d.Ready style s own) (hfits : d.clearScreen.Fits) :
    d.clearScreen.Ready style s own := by
  have hseen := d.seen_write style s (Draw.renderAll LineEditor.clearScreen)
  have hfresh := h.holds.clear
  rw [NewlineMode.translate_apply (by decide)] at hseen
  rw [← hseen] at hfresh
  rw [Desk.clearScreen] at hfits ⊢
  rw [write_eq] at hfits hfresh ⊢
  exact Below.redraw { h with plain := { h.plain with }, screen := hfresh } hfits

/-! ### Edits -/

theorem Ready.snapshot (h : d.Ready style s own) : d.snapshot.Ready style s own :=
  h.setUndo (h.plain.undo.push h.plain.frame.buffer)

theorem Ready.applyEdit (h : d.Ready style s own) (hb : b.text.Plain) (hfits : (d.applyEdit b).Fits) :
    (d.applyEdit b).Ready style s own := h.snapshot.refresh hb hfits

theorem Ready.killRange {first last : Nat} (h : d.Ready style s own)
    (hfits : (d.killRange first last).Fits) : (d.killRange first last).Ready style s own := by
  have hcut := Buffer.plain_deleteRange h.plain.frame.buffer first last
  unfold Desk.killRange at hfits ⊢
  split
  · exact h
  · rename_i hlt
    rw [if_neg hlt] at hfits
    exact (h.setKills (h.plain.kills.add hcut.2)).applyEdit hcut.1 hfits

theorem Ready.yank {behind : Bool} (h : d.Ready style s own) (hfits : (d.yank behind).Fits) :
    (d.yank behind).Ready style s own := by
  unfold Desk.yank at hfits ⊢
  split
  · exact h.bell
  · rename_i t ht
    rw [ht] at hfits
    dsimp only at hfits ⊢
    have hplace : (if behind && !d.session.buffer.isEmpty then d.session.buffer.moveBy 1
        else d.session.buffer).text.Plain := by
      split <;> exact h.plain.frame.buffer
    split
    · rename_i b hb
      rw [hb] at hfits
      exact h.applyEdit (Buffer.plain_insert hplace (h.plain.kills.newest ht) hb) hfits
    · exact (h.log ..).bell

theorem Ready.undoEdit (h : d.Ready style s own) (hfits : d.undoEdit.Fits) :
    d.undoEdit.Ready style s own := by
  unfold Desk.undoEdit at hfits ⊢
  split
  · rename_i snapshot undo hpop
    rw [hpop] at hfits
    obtain ⟨htext, hundo⟩ := h.plain.undo.pop hpop
    exact (h.setUndo hundo).refresh htext hfits
  · exact h.bell

theorem Ready.selfInsert {e : KeyEvent} (h : d.Ready style s own) (hfits : (d.selfInsert e).Fits) :
    (d.selfInsert e).Ready style s own := by
  unfold Desk.selfInsert at hfits ⊢
  split
  · exact h.bell
  · rename_i c
    dsimp only at hfits ⊢
    split
    · rename_i hprintable
      rw [if_pos hprintable] at hfits
      have hc : Text.Plain [c] := by
        simp only [KeyEvent.isPrintable, Bool.and_eq_true, Bool.not_eq_true'] at hprintable
        exact (Text.plain_cons ..).2 ⟨hprintable.1, Text.plain_nil⟩
      split
      · exact (h.log ..).bell
      · rename_i b hb
        rw [hb] at hfits
        have htext := Buffer.plain_insert h.plain.frame.buffer hc hb
        dsimp only at hfits
        split
        · rename_i htyping
          rw [if_pos htyping] at hfits
          exact (h.refresh htext hfits).setTyping true
        · rename_i htyping
          rw [if_neg htyping] at hfits
          exact (h.snapshot.refresh htext hfits).setTyping true
    · exact h.bell

end Desk

end LineEditor
