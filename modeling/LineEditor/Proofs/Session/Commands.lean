import LineEditor.Proofs.Session.Shown

/-!
Commands and the screen: after every command that finishes in one step, after an operator with its
motion and after a continuation line the screen holds the frame of the session.

Main statements: `Ready.basicStep`, `Ready.operate` and `Ready.acceptLine`.
-/
namespace LineEditor.Desk

variable {d : Desk} {P : Screen → Nat → Prop} {style : BellStyle} {s : Screen} {own : Bool}

theorem Ready.showFetched {r : History × Option Text} (h : d.Ready style s own)
    (hr : d.history.Fetches r) (hfits : (d.showFetched r).Fits) :
    (d.showFetched r).Ready style s own := by
  obtain ⟨hentries, hline⟩ := hr.plain h.plain.history
  unfold Desk.showFetched at hfits ⊢
  dsimp only at hfits ⊢
  split
  · rename_i line hr
    rw [hr] at hfits
    exact (h.setHistory hentries).refresh (hline line hr) hfits
  · exact h.setHistory hentries

theorem Ready.basicStep (h : d.Ready style s own) (k : Command) (hfits : (d.basicStep k).Fits) :
    (d.basicStep k).Ready style s own := by
  have hbuffer := h.plain.frame.buffer
  cases k
  case backwardChar | forwardChar | beginningOfLine | endOfLine | backwardWord | forwardWord |
      viForwardWord =>
    exact h.refresh (Buffer.plain_move hbuffer _) hfits
  case backwardDeleteChar =>
    unfold Desk.basicStep at hfits ⊢
    dsimp only at hfits ⊢
    split
    · exact h.bell
    · rename_i hcursor
      rw [if_neg hcursor] at hfits
      exact h.killRange hfits
  case deleteChar =>
    unfold Desk.basicStep at hfits ⊢
    dsimp only at hfits ⊢
    split
    · exact h.bell
    · rename_i hcursor
      rw [if_neg hcursor] at hfits
      exact h.applyEdit (Buffer.plain_delete hbuffer 1) hfits
  case killLine | backwardKillLine | killWholeLine | killWord | backwardKillWord |
      unixWordRubout =>
    exact h.killRange hfits
  case transposeChars =>
    unfold Desk.basicStep at hfits ⊢
    dsimp only at hfits ⊢
    split
    · rename_i b hb
      rw [hb] at hfits
      exact h.applyEdit (Buffer.plain_transpose hbuffer hb) hfits
    · exact h.bell
  case yank => exact h.yank hfits
  case viPasteAfter => exact h.yank hfits
  case undo => exact h.undoEdit hfits
  case previousHistory => exact h.showFetched (History.fetches_previous _) hfits
  case nextHistory => exact h.showFetched (History.fetches_next _) hfits
  case clearScreen => exact h.clearScreen hfits
  case interrupt => exact h.bell
  case viCommandMode | viAppend | viInsertBol | viAppendEol =>
    exact (h.setVi _).refresh hbuffer hfits
  case viInsert => exact h.setVi _
  case viChangeToEnd =>
    have hkill : (d.killRange d.session.buffer.cursor d.session.buffer.length).Fits := by
      unfold Desk.Fits at hfits ⊢
      rw [← session_setVi _ .insert]
      exact hfits
    exact (h.killRange hkill).setVi _
  case acceptLine | reverseSearchHistory | forwardSearchHistory | complete | viDeleteOperator |
      viChangeOperator =>
    exact h.log ..

theorem Ready.basic (h : d.Ready style s own) (k : Command) (hfits : (d.basic k).Fits) :
    (d.basic k).Ready style s own := (h.basicStep k hfits).resume

/-! ### Operators -/

theorem Ready.operate (h : d.Ready style s own) (o : ViOperator) (hfits : (d.operate o).Fits) :
    (d.operate o).Ready style s own := by
  unfold Desk.operate at hfits ⊢
  split
  · exact h.resume
  · rename_i motion hmotion
    rw [hmotion] at hfits
    dsimp only at hfits
    split
    · exact h.bell.resume
    · rename_i span hspan
      rw [hspan] at hfits
      dsimp only at hfits ⊢
      split
      · rename_i hchange
        rw [if_pos hchange] at hfits
        have hkill : ((d.log .debug .viOperator "vi operator"
            [("operation", .name o.operation.name), ("range", .plain (describeSpan span))]).killRange
            span.1 span.2).Fits := by
          unfold Desk.Fits at hfits ⊢
          rw [← session_setVi _ .insert]
          exact hfits
        exact (((h.log ..).killRange hkill).setVi _).resume
      · rename_i hchange
        rw [if_neg hchange] at hfits
        exact ((h.log ..).killRange hfits).resume

/-! ### Lines -/

theorem Below.setLine (h : d.Below P style s) (line : Buffer) :
    { d with session.line := line }.Below P style s :=
  { h with plain := { h.plain with } }

theorem Below.setCurrent {p : Prompt} (h : d.Below P style s) (hp : p.text.Plain) :
    { d with session.current := p }.Below P style s :=
  { h with plain := { h.plain with current := hp } }

/-- The continuation lines get longer, and nothing is drawn. -/
theorem Below.extendLine (h : d.Below P style s) (t : Text) (refusal : String) :
    (d.extendLine t refusal).Below P style s := by
  unfold Desk.extendLine
  split
  · exact h.setLine _
  · rename_i e he
    exact (h.log ..).setLine _

/-- A line that goes on is drawn behind the continuation prompt. -/
theorem Ready.acceptLine (h : d.Ready style s own) (hfits : d.acceptLine.Fits)
    (hreading : d.acceptLine.session.outcome = .reading) :
    d.acceptLine.Ready style s false := by
  have hbelow := h.newLine.extendLine d.session.buffer.text "buffer text rejected by line"
  unfold Desk.acceptLine at hfits hreading ⊢
  dsimp only at hfits hreading ⊢
  generalize d.newLine.extendLine d.session.buffer.text "buffer text rejected by line" = d'
    at hbelow hfits hreading ⊢
  generalize QuoteStatus.scan d'.session.line.text = status at hfits hreading ⊢
  have hnext := fun status : QuoteStatus =>
    ((hbelow.setLine (d'.session.line.continued status)).log .debug .acceptLine
      "continuation line" [("status", .name status.name)]).setCurrent hbelow.plain.continuation
  cases status with
  | complete => cases hreading
  | escaping =>
    exact (((hnext .escaping).resetDisplay hfits).setUndo (UndoStack.plain_clear _)).resume
  | quoted =>
    exact (((hnext .quoted).resetDisplay hfits).setUndo (UndoStack.plain_clear _)).resume

end LineEditor.Desk
