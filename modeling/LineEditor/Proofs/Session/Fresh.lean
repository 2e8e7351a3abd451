import LineEditor.Proofs.Session.Completing
import LineEditor.Proofs.Session.Refusals

/-!
Where whole frames are drawn. A frame is drawn from scratch on a row where nothing is, so whatever comes
before it at a desk has to end the row. The screen holds the frame of the session, as long as the frame
can be drawn; what the history, the cut texts and the snapshots hold does not matter until it is shown.

Main definitions: `Screen.DrawsFresh`, that effects draw whole frames on fresh screens only,
`Desk.InPlace`, that the frame of a session is on the screen, and `Desk.Past`, that work goes on behind
it. Main statements: `InPlace.refreshWith`, `InPlace.newLine`, `Past.redraw`, and one lemma for each kind
of edit.
-/
namespace LineEditor

/-! ### Effects -/

/-- Whether an effect draws a whole frame. -/
def Effect.isDraw : Effect → Bool
  | .draw _ => true
  | _ => false

namespace Screen

variable {s : Screen} {style : BellStyle} {width width' : Nat} {f : Frame} {xs : List Effect}

/-- Wherever effects draw a whole frame, they find the screen fresh. -/
def DrawsFresh (style : BellStyle) : Screen → List Effect → Prop
  | _, [] => True
  | s, x :: xs => (x.isDraw = true → s.Fresh s.width) ∧ DrawsFresh style (s.take style x) xs

theorem drawsFresh_append (xs ys : List Effect) : s.DrawsFresh style (xs ++ ys) ↔
    s.DrawsFresh style xs ∧ (xs.foldl (take style) s).DrawsFresh style ys := by
  induction xs generalizing s with
  | nil => exact (iff_of_eq (true_and _)).symm
  | cons x xs ih =>
    rw [List.cons_append, DrawsFresh, DrawsFresh, ih, and_assoc]
    rfl

theorem DrawsFresh.log (h : s.DrawsFresh style xs) (entry : Log.Entry) :
    s.DrawsFresh style (xs ++ [.log entry]) := (drawsFresh_append ..).2 ⟨h, nofun, trivial⟩

theorem drawsFresh_of_isQuiet (hxs : ∀ x ∈ xs, x.isQuiet = true) : s.DrawsFresh style xs := by
  induction xs generalizing s with
  | nil => exact trivial
  | cons x xs ih =>
    rw [List.forall_mem_cons] at hxs
    refine ⟨fun hdraw => ?_, ih hxs.2⟩
    cases x with
    | draw t => cases hxs.1
    | write | ring | log | note => cases hdraw

/-- The bell and the log change nothing on a screen but how often the bell rang. -/
theorem foldl_take_of_isQuiet (hreading : s.reading = .ground) (hxs : ∀ x ∈ xs, x.isQuiet = true) :
    ∃ bells, xs.foldl (take style) s = { s with bells } := by
  induction xs generalizing s with
  | nil => exact ⟨s.bells, rfl⟩
  | cons x xs ih =>
    rw [List.forall_mem_cons] at hxs
    have hx : ∃ bells, s.take style x = { s with bells } := by
      cases x with
      | log => exact ⟨s.bells, rfl⟩
      | ring =>
        rw [take]
        split
        · exact ⟨s.bells + 1, by simp [write, writeChar, hreading, ground]⟩
        · exact ⟨s.bells, rfl⟩
      | write | draw | note => cases hxs.1
    obtain ⟨bells, hx⟩ := hx
    rw [List.foldl_cons, hx]
    obtain ⟨bells', hrest⟩ := ih (s := { s with bells }) hreading hxs.2
    exact ⟨bells', hrest⟩

theorem Holds.setBells (h : s.Holds f width) (bells : Nat) : { s with bells }.Holds f width := by
  obtain ⟨p, hw, hshows⟩ := h
  exact ⟨p, hw, ⟨hshows.reading_eq, hshows.width_eq, hshows.line_eq, hshows.cell_eq,
    hshows.cursor_eq⟩, hshows.settled⟩

theorem Loose.setBells (h : s.Loose width) (bells : Nat) : { s with bells }.Loose width :=
  ⟨h.width_eq, h.reading_eq, h.blank_below⟩

theorem Holds.reading_eq (h : s.Holds f width) : s.reading = .ground := by
  obtain ⟨p, -, hshows⟩ := h
  exact hshows.reading_eq

/-- No columns are as good as one. -/
theorem Fresh.congr (h : s.Fresh width) (hw : max width 1 = max width' 1) : s.Fresh width' :=
  { h with width_eq := h.width_eq.trans hw }

theorem Fresh.of_width (h : s.Fresh width) : s.Fresh s.width :=
  { h with width_eq := (Nat.max_eq_left s.width_pos).symm }

end Screen

/-- The frame of a session has no control characters and a count can tell its rows apart. -/
def Session.Drawable (s : Session) : Prop := s.frame.Plain ∧ s.frame.Fits s.width

instance (s : Session) : Decidable s.Drawable :=
  inferInstanceAs (Decidable (s.frame.Plain ∧ s.frame.Fits s.width))

namespace Desk

/-! ### Desks -/

/-- Reading goes on, no question is asked, whole frames were drawn where nothing was, and the frame of
the session, if it can be drawn, is on the screen. -/
structure InPlace (style : BellStyle) (s : Screen) (d : Desk) : Prop where
  outcome_eq : d.session.outcome = .reading
  calm : ∀ h, d.session.handler = some h → h.Plain ∧ h.asks = false
  width_le : max d.session.width 1 ≤ Draw.maxCount
  drawsFresh : s.DrawsFresh style d.effects
  holds : d.session.Drawable → (d.seen style s).Holds d.session.frame d.session.width

/-- Reading goes on and no question is asked, whole frames were drawn where nothing was, and work goes on
behind the frame, on a screen that satisfies `P`. -/
structure Past (P : Screen → Nat → Prop) (style : BellStyle) (s : Screen) (d : Desk) : Prop where
  outcome_eq : d.session.outcome = .reading
  calm : ∀ h, d.session.handler = some h → h.Plain ∧ h.asks = false
  width_le : max d.session.width 1 ≤ Draw.maxCount
  drawsFresh : s.DrawsFresh style d.effects
  screen : P (d.seen style s) d.session.width

/-- Nothing was done that is shown or that touches the handler: the bell may have rung. -/
structure Idles (d d' : Desk) : Prop where
  frame_eq : d'.session.frame = d.session.frame
  width_eq : d'.session.width = d.session.width
  handler_eq : d'.session.handler = d.session.handler
  outcome_eq : d'.session.outcome = d.session.outcome
  effects_eq : ∃ xs : List Effect, (∀ x ∈ xs, x.isQuiet = true) ∧ d'.effects = d.effects ++ xs

variable {d d' d'' : Desk} {P : Screen → Nat → Prop} {style : BellStyle} {s : Screen} {t : Text}

/-! ### Idling -/

theorem Refuses.idles (h : d.Refuses d') : d.Idles d' := by
  obtain ⟨xs, hxs, rfl⟩ := h
  exact ⟨rfl, rfl, rfl, rfl, xs, hxs, rfl⟩

/-- Without an effect. -/
theorem Idles.of_effects_eq (hframe : d'.session.frame = d.session.frame)
    (hwidth : d'.session.width = d.session.width) (hhandler : d'.session.handler = d.session.handler)
    (houtcome : d'.session.outcome = d.session.outcome) (heffects : d'.effects = d.effects) :
    d.Idles d' :=
  ⟨hframe, hwidth, hhandler, houtcome, [], List.forall_mem_nil _,
    heffects.trans (List.append_nil _).symm⟩

theorem Idles.refl (d : Desk) : d.Idles d := .of_effects_eq rfl rfl rfl rfl rfl

theorem Idles.trans (h : d.Idles d') (h' : d'.Idles d'') : d.Idles d'' := by
  obtain ⟨xs, hxs, hfirst⟩ := h.effects_eq
  obtain ⟨ys, hys, hnext⟩ := h'.effects_eq
  refine ⟨h'.frame_eq.trans h.frame_eq, h'.width_eq.trans h.width_eq, h'.handler_eq.trans h.handler_eq,
    h'.outcome_eq.trans h.outcome_eq, xs ++ ys, List.forall_mem_append.2 ⟨hxs, hys⟩, ?_⟩
  rw [hnext, hfirst, List.append_assoc]

/-- With something else changed that is not shown. -/
theorem Idles.congr (h : d.Idles d') (hsession : d''.session = d'.session)
    (heffects : d''.effects = d'.effects) : d.Idles d'' := by
  obtain ⟨hframe, hwidth, hhandler, houtcome, hquiet⟩ := h
  rw [← hsession] at hframe hwidth hhandler houtcome
  rw [← heffects] at hquiet
  exact ⟨hframe, hwidth, hhandler, houtcome, hquiet⟩

theorem idles_setVi (d : Desk) (v : ViState) : d.Idles (d.setVi v) := by
  rw [setVi]
  split
  · exact (refuses_log ..).idles.congr rfl rfl
  · exact .refl d

theorem Idles.drawable_iff (h : d.Idles d') : d'.session.Drawable ↔ d.session.Drawable := by
  rw [Session.Drawable, Session.Drawable, h.frame_eq, h.width_eq]

theorem Idles.drawsFresh (h : d.Idles d') (hd : s.DrawsFresh style d.effects) :
    s.DrawsFresh style d'.effects := by
  obtain ⟨xs, hxs, heffects⟩ := h.effects_eq
  rw [heffects]
  exact (Screen.drawsFresh_append ..).2 ⟨hd, Screen.drawsFresh_of_isQuiet hxs⟩

theorem Idles.seen_eq (h : d.Idles d') (hreading : (d.seen style s).reading = .ground) :
    ∃ bells, d'.seen style s = { d.seen style s with bells } := by
  obtain ⟨xs, hxs, heffects⟩ := h.effects_eq
  have hseen : d'.seen style s = xs.foldl (Screen.take style) (d.seen style s) := by
    rw [seen, heffects, List.foldl_append, seen]
  rw [hseen]
  exact Screen.foldl_take_of_isQuiet hreading hxs

theorem InPlace.idle (h : d.InPlace style s) (hidle : d.Idles d') : d'.InPlace style s := by
  refine ⟨hidle.outcome_eq.trans h.outcome_eq, ?_, ?_, hidle.drawsFresh h.drawsFresh, fun hd => ?_⟩
  · rw [hidle.handler_eq]
    exact h.calm
  · rw [hidle.width_eq]
    exact h.width_le
  · have hholds := h.holds (hidle.drawable_iff.1 hd)
    obtain ⟨bells, hseen⟩ := hidle.seen_eq hholds.reading_eq
    rw [hseen, hidle.frame_eq, hidle.width_eq]
    exact hholds.setBells bells

theorem InPlace.log (h : d.InPlace style s) (level : Log.Level) (site : Log.Site) (message : String)
    (fields : List (String × Log.Value)) : (d.log level site message fields).InPlace style s :=
  h.idle (refuses_log ..).idles

theorem InPlace.bell (h : d.InPlace style s) : d.bell.InPlace style s := h.idle (refuses_bell d).idles

theorem InPlace.setVi (h : d.InPlace style s) (v : ViState) : (d.setVi v).InPlace style s :=
  h.idle (d.idles_setVi v)

theorem InPlace.resume (h : d.InPlace style s) : d.resume.InPlace style s := { h with }

theorem InPlace.settleFocus (h : d.InPlace style s) (a : Action) :
    (d.settleFocus a).InPlace style s := by
  rw [Desk.settleFocus]
  split
  · exact { h with }
  · exact h

/-! ### Drawing -/

theorem drawsFresh_write (h : s.DrawsFresh style d.effects) (t : Text) :
    s.DrawsFresh style (d.write t).effects := by
  rw [write_eq]
  refine (Screen.drawsFresh_append ..).2 ⟨h, ?_⟩
  split
  · exact trivial
  · exact ⟨nofun, trivial⟩

/-- A refresh finds the old frame on the screen and leaves the new one. -/
theorem InPlace.refreshWith (h : d.InPlace style s) (hd : d.session.Drawable) (p : Prompt) (b : Buffer) :
    (d.refreshWith p b).InPlace style s := by
  have hwritten := drawsFresh_write h.drawsFresh
    (Draw.renderAll (Frame.update d.session.frame ⟨p, b⟩ d.session.width))
  have hseen := d.seen_write style s
    (Draw.renderAll (Frame.update d.session.frame ⟨p, b⟩ d.session.width))
  rw [refreshWith_eq]
  rw [write_eq] at hwritten hseen ⊢
  refine { h with drawsFresh := hwritten, holds := fun hnew => ?_ }
  obtain ⟨hframe, hfits⟩ : Frame.Plain ⟨p, b⟩ ∧ Frame.Fits ⟨p, b⟩ d.session.width := hnew
  rw [NewlineMode.translate_apply (Draw.newline_notMem_update hframe.prompt hframe.buffer _)] at hseen
  have hupdate := (h.holds hd).update h.width_le hd.1 hframe hd.2 hfits
  rw [← hseen] at hupdate
  exact hupdate

theorem InPlace.refresh (h : d.InPlace style s) (hd : d.session.Drawable) (b : Buffer) :
    (d.refresh b).InPlace style s := h.refreshWith hd ..

/-- The current prompt is drawn with the buffer where nothing is. -/
theorem Past.redraw (h : d.Past Screen.Fresh style s) : d.redraw.InPlace style s := by
  have hseen := d.seen_emit style s (.draw (Draw.renderAll
    (Frame.redraw ⟨d.session.current, d.session.buffer⟩ d.session.width)))
  refine { h with drawsFresh := ?_, holds := fun hnew => ?_ }
  · exact (Screen.drawsFresh_append ..).2 ⟨h.drawsFresh, fun _ => h.screen.of_width, trivial⟩
  · obtain ⟨hframe, hfits⟩ : Frame.Plain ⟨d.session.current, d.session.buffer⟩ ∧
      Frame.Fits ⟨d.session.current, d.session.buffer⟩ d.session.width := hnew
    rw [Screen.take, NewlineMode.translate_apply
      (Draw.newline_notMem_redraw hframe.prompt hframe.buffer _)] at hseen
    have hdraw := h.screen.redraw h.width_le hframe hfits
    rw [← hseen] at hdraw
    exact hdraw

theorem Past.resetDisplay (h : d.Past Screen.Fresh style s) : d.resetDisplay.InPlace style s := by
  have hempty : { d with session.buffer := .empty }.Past Screen.Fresh style s := { h with }
  exact hempty.redraw

theorem Past.log (h : d.Past P style s) (level : Log.Level) (site : Log.Site) (message : String)
    (fields : List (String × Log.Value)) : (d.log level site message fields).Past P style s where
  outcome_eq := h.outcome_eq
  calm := h.calm
  width_le := h.width_le
  drawsFresh := h.drawsFresh.log _
  screen := by
    rw [seen_log]
    exact h.screen

/-- Behind the frame a new row starts where nothing is. -/
theorem InPlace.newLine (h : d.InPlace style s) (hd : d.session.Drawable) :
    d.newLine.Past Screen.Fresh style s := by
  have hfresh := fresh_newLine ((h.holds hd).moveToEnd h.width_le hd.1 hd.2)
  have hwritten := drawsFresh_write h.drawsFresh
    (Draw.renderAll (d.session.frame.moveToEnd d.session.width ++ [.newline]))
  rw [newLine_eq, write_eq] at hfresh ⊢
  rw [write_eq] at hwritten
  exact { h with drawsFresh := hwritten, screen := hfresh }

/-- The screen is cleared and the line is drawn at its start. -/
theorem InPlace.clearScreen (h : d.InPlace style s) (hd : d.session.Drawable) :
    d.clearScreen.InPlace style s := by
  have hwritten := drawsFresh_write h.drawsFresh (Draw.renderAll LineEditor.clearScreen)
  have hseen := d.seen_write style s (Draw.renderAll LineEditor.clearScreen)
  have hfresh := (h.holds hd).clear
  rw [NewlineMode.translate_apply (by decide)] at hseen
  rw [← hseen] at hfresh
  rw [Desk.clearScreen]
  rw [write_eq] at hfresh hwritten ⊢
  exact Past.redraw { h with drawsFresh := hwritten, screen := hfresh }

theorem Past.write (h : d.Past Screen.Loose style s) (ht : t.Plain) :
    (d.write t).Past Screen.Loose style s := by
  have hwritten := drawsFresh_write h.drawsFresh t
  have hseen := d.seen_write style s t
  rw [NewlineMode.translate_apply ht.newline_notMem] at hseen
  have hloose := h.screen.write ht
  rw [← hseen] at hloose
  rw [write_eq] at hloose hwritten ⊢
  exact { h with drawsFresh := hwritten, screen := hloose }

theorem Past.writeLine (h : d.Past Screen.Loose style s) (ht : t.Plain) :
    (d.write (t ++ ['\n'])).Past Screen.Fresh style s := by
  have hwritten := drawsFresh_write h.drawsFresh (t ++ ['\n'])
  have hseen := d.seen_write style s (t ++ ['\n'])
  rw [NewlineMode.translate_append, NewlineMode.translate_apply ht.newline_notMem,
    Screen.write_append] at hseen
  have hfresh : ((d.write (t ++ ['\n'])).seen style s).Fresh d.session.width := by
    rw [hseen]
    exact (h.screen.write ht).newline
  rw [write_eq] at hfresh hwritten ⊢
  exact { h with drawsFresh := hwritten, screen := hfresh }

theorem Past.loose (h : d.Past Screen.Fresh style s) : d.Past Screen.Loose style s :=
  { h with screen := h.screen.loose }

/-! ### Edits -/

theorem InPlace.applyEdit (h : d.InPlace style s) (hd : d.session.Drawable) (b : Buffer) :
    (d.applyEdit b).InPlace style s := by
  have hsnapshot : d.snapshot.InPlace style s := { h with }
  exact hsnapshot.refresh hd b

theorem InPlace.killRange (h : d.InPlace style s) (hd : d.session.Drawable) (first last : Nat) :
    (d.killRange first last).InPlace style s := by
  rw [Desk.killRange]
  split
  · exact h
  · exact applyEdit (d := { d with kills := d.kills.add _ }) { h with } hd _

theorem InPlace.yank (h : d.InPlace style s) (hd : d.session.Drawable) (behind : Bool) :
    (d.yank behind).InPlace style s := by
  rw [Desk.yank]
  split
  · exact h.bell
  · dsimp only
    split
    · exact h.applyEdit hd _
    · exact (h.log ..).bell

theorem InPlace.undoEdit (h : d.InPlace style s) (hd : d.session.Drawable) :
    d.undoEdit.InPlace style s := by
  rw [Desk.undoEdit]
  split
  · rename_i undo _
    exact refresh (d := { d with undo }) { h with } hd _
  · exact h.bell

theorem InPlace.selfInsert (h : d.InPlace style s) (hd : d.session.Drawable) (e : KeyEvent) :
    (d.selfInsert e).InPlace style s := by
  unfold Desk.selfInsert
  split
  · exact h.bell
  · split
    · split
      · exact (h.log ..).bell
      · rename_i b _
        dsimp only
        split
        · exact { h.refresh hd b with }
        · exact { refresh (d := d.snapshot) { h with } hd b with }
    · exact h.bell

/-! ### Commands -/

theorem InPlace.showFetched (h : d.InPlace style s) (hd : d.session.Drawable)
    (r : History × Option Text) : (d.showFetched r).InPlace style s := by
  have hfetched : { d with history := r.1 }.InPlace style s := { h with }
  rw [Desk.showFetched]
  split
  · exact hfetched.refresh hd _
  · exact hfetched

theorem drawable_setVi (hd : d.session.Drawable) (v : ViState) : (d.setVi v).session.Drawable := by
  rw [session_setVi]
  exact hd

theorem InPlace.basicStep (h : d.InPlace style s) (hd : d.session.Drawable) (k : Command) :
    (d.basicStep k).InPlace style s := by
  cases k
  case backwardChar | forwardChar | beginningOfLine | endOfLine | backwardWord | forwardWord |
      viForwardWord =>
    exact h.refresh hd _
  case backwardDeleteChar =>
    dsimp only [Desk.basicStep]
    split
    · exact h.bell
    · exact h.killRange hd ..
  case deleteChar =>
    dsimp only [Desk.basicStep]
    split
    · exact h.bell
    · exact h.applyEdit hd _
  case killLine | backwardKillLine | killWholeLine | killWord | backwardKillWord |
      unixWordRubout =>
    exact h.killRange hd ..
  case transposeChars =>
    dsimp only [Desk.basicStep]
    split
    · exact h.applyEdit hd _
    · exact h.bell
  case yank | viPasteAfter => exact h.yank hd _
  case undo => exact h.undoEdit hd
  case previousHistory | nextHistory => exact h.showFetched hd _
  case clearScreen => exact h.clearScreen hd
  case interrupt => exact h.bell
  case viCommandMode | viAppend | viInsertBol | viAppendEol =>
    exact (h.setVi _).refresh (drawable_setVi hd _) _
  case viInsert => exact h.setVi _
  case viChangeToEnd => exact (h.killRange hd ..).setVi _
  case acceptLine | reverseSearchHistory | forwardSearchHistory | complete | viDeleteOperator |
      viChangeOperator =>
    exact h.log ..

theorem InPlace.operate (h : d.InPlace style s) (hd : d.session.Drawable) (o : ViOperator) :
    (d.operate o).InPlace style s := by
  rw [Desk.operate]
  split
  · exact h.resume
  · split
    · exact h.bell.resume
    · rename_i span _
      have hkill : ((d.log .debug .viOperator "vi operator" [("operation", .name o.operation.name),
          ("range", .plain (describeSpan span))]).killRange span.1 span.2).InPlace style s :=
        (h.log ..).killRange hd ..
      dsimp only
      split
      · exact (hkill.setVi _).resume
      · exact hkill.resume

/-! ### Lines -/

/-- The continuation lines get longer, and nothing is drawn. -/
theorem Past.extendLine (h : d.Past P style s) (t : Text) (refusal : String) :
    (d.extendLine t refusal).Past P style s := by
  rw [Desk.extendLine]
  split
  · exact { h with }
  · exact { h.log .warn .acceptLine refusal _ with }

/-- A line that goes on is drawn behind the continuation prompt; behind one that is complete the row is
fresh. -/
theorem InPlace.acceptLine (h : d.InPlace style s) (hd : d.session.Drawable) :
    d.acceptLine.InPlace style s ∨
      d.acceptLine.session.outcome ≠ .reading ∧
        s.DrawsFresh style d.acceptLine.effects ∧
        (d.acceptLine.seen style s).Fresh d.acceptLine.session.width := by
  have hpast := (h.newLine hd).extendLine d.session.buffer.text "buffer text rejected by line"
  rw [Desk.acceptLine]
  dsimp only
  generalize d.newLine.extendLine d.session.buffer.text "buffer text rejected by line" = d' at hpast ⊢
  have hnext : ∀ status : QuoteStatus,
      (Desk.resetDisplay { (Desk.log { d' with session.line := d'.session.line.continued status }
        .debug .acceptLine "continuation line" [("status", .name status.name)]) with
        session.current := d'.session.continuation }).InPlace style s := by
    intro status
    have hline : { d' with session.line := d'.session.line.continued status }.Past Screen.Fresh style s :=
      { hpast with }
    exact Past.resetDisplay { hline.log .debug .acceptLine "continuation line"
      [("status", .name status.name)] with }
  cases QuoteStatus.scan d'.session.line.text with
  | complete =>
    have hlog := hpast.log .debug .acceptLine "accept line" [("line", .quoted d'.session.line.text)]
    exact .inr ⟨fun hreading => (by cases hreading), hlog.drawsFresh, hlog.screen⟩
  | escaping => exact .inl { hnext .escaping with }
  | quoted => exact .inl { hnext .quoted with }

end Desk

end LineEditor
