import LineEditor.Proofs.Display.Motion

/-!
Frames on a strip. The composite line of a frame starts at offset 0, blanks follow it, and the head
is at the frame's cursor. Drawing from scratch brings a blank strip there, an update leads from one
frame to another, and after a change of the width the frame is there again.

Main definitions: `Frame.text` is the composite line and `Strip.holding` a strip that holds one.
Main statements: `Shows.redraw`, `Shows.update`, `Shows.moveToEnd`, `Shows.resize`, and
`Remains.resize`, which finds no more than what is left of a frame.
-/
namespace LineEditor

namespace Frame

/-- The composite line. -/
def text (f : Frame) : Text := f.prompt.text ++ f.buffer.text

/-- No control characters, in the prompt or in the buffer. -/
def Plain (f : Frame) : Prop := f.text.Plain

/-- On a terminal of `width` columns a count can tell how far the last row is from the first. -/
def Fits (f : Frame) (width : Nat) : Prop := f.length / max width 1 ≤ Draw.maxCount

instance (f : Frame) : Decidable f.Plain := inferInstanceAs (Decidable f.text.Plain)

instance (f : Frame) (width : Nat) : Decidable (f.Fits width) :=
  inferInstanceAs (Decidable (_ ≤ _))

variable {f : Frame}

theorem Plain.prompt (hf : f.Plain) : f.prompt.text.Plain := (Text.plain_append ..|>.1 hf).1

theorem Plain.buffer (hf : f.Plain) : f.buffer.text.Plain := (Text.plain_append ..|>.1 hf).2

/-- A plain prompt takes a column for each of its code points. -/
theorem Plain.width_prompt (hf : f.Plain) : f.prompt.width = f.prompt.text.length := by
  rw [Prompt.width, Text.visible_eq_self hf.prompt]

theorem Plain.length_text (hf : f.Plain) : f.text.length = f.length := by
  rw [text, List.length_append, Frame.length, hf.width_prompt, Buffer.length]

theorem cursor_le_length (f : Frame) : f.cursor ≤ f.length :=
  Nat.add_le_add_left f.buffer.cursor_le _

theorem Fits.cursor {w : Nat} (hf : f.Fits w) : f.cursor / max w 1 ≤ Draw.maxCount :=
  Nat.le_trans (Nat.div_le_div_right f.cursor_le_length) hf

end Frame

namespace Strip

/-- Blank rows, with the head at their start. -/
def blank (width top : Nat) (above : Nat → Array Char) : Strip where
  width
  top
  above
  cells := fun _ => ' '
  head := 0

/-- A text with blanks behind it, and the head at an offset. -/
def holding (p : Strip) (t : Text) (head : Nat) : Strip :=
  { p with cells := fun o => t[o]?.getD ' ', head }

/-- A strip that starts with `t` and is blank from offset `n` on. -/
structure Begins (p : Strip) (t : Text) (n : Nat) : Prop where
  start : ∀ o, o < t.length → p.cells o = t[o]?.getD ' '
  rest : ∀ o, n ≤ o → p.cells o = ' '

variable {p : Strip} {t : Text} {n : Nat}

/-- A blank behind the text changes neither. -/
theorem Begins.print_blank (h : p.Begins t n) (hhead : p.head = t.length) :
    ((p.print ' ').goTo p.head).Begins t n := by
  constructor
  · intro o ho
    change (if o = p.head then ' ' else p.cells o) = _
    rw [if_neg (by omega)]
    exact h.start o ho
  · intro o ho
    change (if o = p.head then ' ' else p.cells o) = _
    split
    · rfl
    · exact h.rest o ho

/-- Erasing what is behind the text leaves the text alone. -/
theorem Begins.erase {m : Nat} (h : p.Begins t n) (hm : n ≤ m) :
    p.erase t.length m = p.holding t p.head := by
  refine Strip.ext rfl rfl rfl (funext fun o => ?_) rfl
  simp only [Strip.erase, holding]
  by_cases ho : o < t.length
  · rw [if_neg (by omega)]
    exact h.start o ho
  · rw [List.getElem?_eq_none (by omega)]
    by_cases hin : t.length ≤ o ∧ o < m
    · rw [if_pos hin]
      rfl
    · rw [if_neg hin]
      exact h.rest o (by omega)

/-- A text with nothing but blanks behind it. -/
theorem Begins.eq_holding (h : p.Begins t n) (hn : n ≤ t.length) : p = p.holding t p.head := by
  have herase := h.erase hn
  rwa [erase_self] at herase

/-- A text written over another one from where the two begin to differ. -/
theorem begins_write {u : Text} {d : Nat} (hd : d ≤ u.length) (hsame : t.take d = u.take d) :
    ((p.holding t d).write (u.drop d)).Begins u (max u.length t.length) := by
  have hcell (o : Nat) : ((p.holding t d).write (u.drop d)).cells o =
      if d ≤ o ∧ o < d + (u.drop d).length then (u.drop d)[o - d]?.getD ' '
      else t[o]?.getD ' ' := cells_write ..
  have hlen : d + (u.drop d).length = u.length := by
    rw [List.length_drop]
    omega
  constructor
  · intro o ho
    rw [hcell, hlen]
    by_cases hlow : d ≤ o
    · have hpos : d + (o - d) = o := by omega
      rw [if_pos ⟨hlow, ho⟩, List.getElem?_drop, hpos]
    · have htake : (t.take d)[o]? = (u.take d)[o]? := by rw [hsame]
      rw [List.getElem?_take_of_lt (by omega), List.getElem?_take_of_lt (by omega)] at htake
      rw [if_neg (fun h => hlow h.1), htake]
  · intro o ho
    rw [hcell, hlen, if_neg (by omega), List.getElem?_eq_none (by omega)]
    rfl

end Strip

namespace Screen

variable {s : Screen} {p : Strip} {w : Nat}

/-- A printed code point is in the row that a pending wrap leads to. -/
theorem row_print (s : Screen) (c : Char) : (s.print c).row = s.wrap.row := by
  rw [Screen.print]
  split <;> rfl

/-- A wrap that is pending is forced: a blank is printed behind the text, and the cursor goes back
to it. -/
theorem Prints.space_carriageReturn (h : s.Prints p) (hmod : p.head % p.width = 0) :
    ((s.write [' ']).write Draw.carriageReturn.render).Shows ((p.print ' ').goTo p.head) := by
  have hprint : (s.write [' ']).Prints (p.print ' ') := h.write (t := [' ']) (by decide)
  have hrow : (s.write [' ']).row = p.top + p.head / p.width := by
    rw [← h.wrap.row_eq, ← row_print s ' ']
    exact congrArg Screen.row (writeChar_eq_print h.reading_eq (by decide))
  rw [write_carriageReturn hprint.reading_eq]
  exact ⟨⟨hprint.reading_eq, hprint.width_eq, hprint.line_eq, hprint.cell_eq, hrow, hmod.symm⟩, rfl⟩

/-- Behind a write the cursor is settled, with at most one blank more than was written. -/
theorem Prints.settleWrap (h : s.Prints p) (hw : p.width = max w 1) :
    ∃ q, (s.write (Draw.renderAll (LineEditor.settleWrap p.head w))).Shows q ∧
      (q = p ∨ q = (p.print ' ').goTo p.head) := by
  rw [LineEditor.settleWrap, ← hw]
  by_cases hmod : p.head % p.width = 0
  · refine ⟨_, ?_, Or.inr rfl⟩
    rw [if_pos hmod, Draw.renderAll_cons, write_append, Draw.renderAll_cons, Draw.renderAll_nil,
      List.append_nil]
    exact h.space_carriageReturn hmod
  · refine ⟨p, ?_, Or.inl rfl⟩
    rw [if_neg hmod, Draw.renderAll_nil]
    exact h.shows_of_mod_ne hmod

/-- A text written over another one from where the two begin to differ, with the wrap behind it
forced: the text is there, and only blanks are behind both of them. -/
theorem Shows.write_drop {t u : Text} {d : Nat} (h : s.Shows (p.holding t d))
    (hw : p.width = max w 1) (hd : d ≤ u.length) (hsame : t.take d = u.take d) (hu : u.Plain) :
    ∃ q : Strip, ((s.write (u.drop d)).write (Draw.renderAll
        (if d < u.length then LineEditor.settleWrap u.length w else []))).Shows q ∧
      q.Begins u (max u.length t.length) ∧ q.head = u.length ∧
      ∀ v o, q.holding v o = p.holding v o := by
  have hprints := h.write (hu.drop d)
  have hhead : ((p.holding t d).write (u.drop d)).head = u.length := by
    rw [Strip.head_write, List.length_drop]
    exact Nat.add_sub_of_le hd
  have hbegins := Strip.begins_write (p := p) hd hsame
  have hkeeps : ∀ v o, ((p.holding t d).write (u.drop d)).holding v o = p.holding v o := fun v o =>
    Strip.ext (Strip.width_write ..) (Strip.top_write ..) (Strip.above_write ..) rfl rfl
  by_cases hlt : d < u.length
  · obtain ⟨q, hq, hcases⟩ := hprints.settleWrap ((Strip.width_write ..).trans hw)
    rw [hhead] at hq
    rw [if_pos hlt]
    rcases hcases with rfl | rfl
    · exact ⟨_, hq, hbegins, hhead, hkeeps⟩
    · exact ⟨_, hq, hbegins.print_blank hhead, hhead, hkeeps⟩
  · have hnone : u.drop d = [] := List.drop_eq_nil_of_le (by omega)
    rw [if_neg hlt, Draw.renderAll_nil]
    rw [hnone] at hprints hbegins hhead hkeeps ⊢
    exact ⟨_, h, hbegins, hhead, hkeeps⟩

end Screen

namespace Frame

variable {old new : Frame}

theorem sharedLength_le (a b : Text) : Text.sharedLength a b ≤ b.length := by
  induction a generalizing b with
  | nil => exact Nat.zero_le _
  | cons x a ih =>
    cases b with
    | nil => exact Nat.le_refl 0
    | cons y b =>
      rw [Text.sharedLength_cons]
      split
      · exact Nat.succ_le_succ (ih b)
      · exact Nat.zero_le _

theorem firstChange_le (old new : Frame) : firstChange old new ≤ new.length := by
  rw [firstChange]
  split
  · exact Nat.add_le_add_left (sharedLength_le ..) _
  · exact Nat.zero_le _

/-- Two frames are the same up to their first difference. -/
theorem take_firstChange (old : Frame) (hnew : new.Plain) :
    old.text.take (firstChange old new) = new.text.take (firstChange old new) := by
  rw [firstChange]
  split
  · rename_i hsame
    rw [hnew.width_prompt, text, text, hsame, List.take_length_add_append,
      List.take_length_add_append, Text.take_sharedLength]
  · rfl

/-- An update writes the new frame from the first difference on. -/
theorem drop_firstChange (hnew : new.Plain) :
    Draw.renderAll (if old.prompt = new.prompt then [] else [.text new.prompt.text]) ++
      new.buffer.text.drop (firstChange old new - new.prompt.width) =
      new.text.drop (firstChange old new) := by
  rw [firstChange, text]
  split
  · rw [Nat.add_sub_cancel_left, hnew.width_prompt, List.drop_length_add_append]
    rfl
  · rw [Nat.zero_sub]
    simp [Draw.render]

/-- Whether an update writes or erases anything. -/
def Changes (old new : Frame) : Prop :=
  firstChange old new < new.length ∨ new.length < old.length ∨ ¬ old.prompt = new.prompt

/-- What an update does behind the written text: it erases what is left of the old frame, if that
was longer, and goes to the new cursor. -/
def settle (old new : Frame) (w : Nat) : List Draw :=
  if new.length < old.length then
    .eraseRight :: eraseRowsBelow ((old.length - 1) / max w 1 - (new.endPosition w).row) ++
    moveTo (if (new.endPosition w).row < (old.length - 1) / max w 1
      then ⟨(old.length - 1) / max w 1, 0⟩ else new.endPosition w) (new.cursorPosition w)
  else moveTo (new.endPosition w) (new.cursorPosition w)

/-- An update goes to the first difference, writes the new text from there on and settles. -/
theorem render_update (h : Changes old new) (hnew : new.Plain) (w : Nat) :
    Draw.renderAll (old.update new w) =
      Draw.renderAll (moveTo (old.cursorPosition w) (position (firstChange old new) w)) ++
      (new.text.drop (firstChange old new) ++
      (Draw.renderAll (if firstChange old new < new.length then settleWrap new.length w else []) ++
      Draw.renderAll (settle old new w))) := by
  have hstop : (if firstChange old new < new.length then new.length else firstChange old new) =
      new.length := by
    have hle := firstChange_le old new
    split <;> omega
  have hdraws : old.update new w =
      moveTo (old.cursorPosition w) (position (firstChange old new) w) ++
      (if old.prompt = new.prompt then [] else [.text new.prompt.text]) ++
      [.text (new.buffer.text.drop (firstChange old new - new.prompt.width))] ++
      (if firstChange old new < new.length then settleWrap new.length w else []) ++
      settle old new w := by
    unfold Changes at h
    simp only [update]
    rw [if_pos h, hstop]
    rfl
  rw [hdraws, ← drop_firstChange hnew]
  simp only [Draw.renderAll_append, Draw.renderAll_cons, Draw.renderAll_nil, List.append_assoc,
    List.append_nil]
  rfl

/-- Frames between which nothing is written have the same text. -/
theorem text_eq_of_not_changes (h : ¬ Changes old new) (hold : old.Plain) (hnew : new.Plain) :
    old.text = new.text := by
  simp only [Changes, not_or, Nat.not_lt, Classical.not_not] at h
  obtain ⟨hdiff, hlen, -⟩ := h
  have htake := take_firstChange old hnew
  rw [← hold.length_text] at hlen
  rw [← hnew.length_text] at hdiff hlen
  rwa [List.take_of_length_le (by omega), List.take_of_length_le hdiff] at htake

end Frame

namespace Screen

variable {s : Screen} {p : Strip} {w : Nat} {old new f : Frame}

/-- What was on the screen behind a shorter text is erased. -/
theorem Shows.erase_rest {t : Text} {n : Nat} (h : s.Shows p) (hbegins : p.Begins t n)
    (hhead : p.head = t.length) (hn : t.length < n) :
    (s.write (Draw.renderAll (.eraseRight ::
      LineEditor.eraseRowsBelow ((n - 1) / p.width - t.length / p.width)))).Shows
      (p.holding t (if t.length / p.width < (n - 1) / p.width then (n - 1) / p.width * p.width
        else t.length)) := by
  have hpos := h.width_pos
  have hle : t.length / p.width ≤ (n - 1) / p.width := Nat.div_le_div_right (by omega)
  have hlast : n ≤ ((n - 1) / p.width + 1) * p.width :=
    Nat.le_of_pred_lt (lt_offset_end hpos (n - 1))
  have hright := h.eraseRight
  rw [hhead] at hright
  have hbelow := hright.eraseRowsBelow (q := t.length / p.width) (by rw [← hhead]; rfl)
    ((n - 1) / p.width - t.length / p.width)
  have hrows : t.length / p.width + 1 + ((n - 1) / p.width - t.length / p.width) =
      (n - 1) / p.width + 1 := by omega
  have hmerge := p.erase_erase (Nat.le_of_lt (lt_offset_end hpos t.length))
    (Nat.mul_le_mul_right p.width (show t.length / p.width + 1 ≤ (n - 1) / p.width + 1 by omega))
  have htext := hbegins.erase hlast
  have hgoal : (p.holding t (if t.length / p.width < (n - 1) / p.width
      then (n - 1) / p.width * p.width else t.length)) =
      ((p.erase t.length ((t.length / p.width + 1) * p.width)).erase
        ((t.length / p.width + 1) * p.width) (((n - 1) / p.width + 1) * p.width)).goTo
        (if (n - 1) / p.width - t.length / p.width = 0 then t.length
          else (t.length / p.width + ((n - 1) / p.width - t.length / p.width)) * p.width) := by
    rw [hmerge, htext]
    refine Strip.ext rfl rfl rfl rfl ?_
    change (if t.length / p.width < (n - 1) / p.width then _ else _) = (if _ then _ else _)
    by_cases hlt : t.length / p.width < (n - 1) / p.width
    · rw [if_pos hlt, if_neg (by omega), Nat.add_sub_of_le hle]
    · rw [if_neg hlt, if_pos (by omega)]
  rw [Draw.renderAll_cons, write_append, hgoal, ← hrows]
  rw [← hhead] at hbelow ⊢
  exact hbelow

/-- Behind the new text an update leaves nothing of the old frame. -/
theorem Shows.settle (h : s.Shows p) (hw : p.width = max w 1) (hmax : p.width ≤ Draw.maxCount)
    (hbegins : p.Begins new.text (max new.length old.length)) (hhead : p.head = new.length)
    (hnew : new.Plain) (hfits : old.Fits w) (hfits' : new.Fits w) :
    (s.write (Draw.renderAll (Frame.settle old new w))).Shows (p.holding new.text new.cursor) := by
  have hpos := h.width_pos
  have hcursor := hfits'.cursor
  have hrows : new.length / p.width ≤ Draw.maxCount := hw ▸ hfits'
  rw [← hw] at hcursor
  rw [Frame.settle]
  by_cases hlt : new.length < old.length
  · rw [Nat.max_eq_right (Nat.le_of_lt hlt)] at hbegins
    have hlast : (old.length - 1) / p.width ≤ Draw.maxCount :=
      Nat.le_trans (Nat.div_le_div_right (Nat.sub_le ..)) (hw ▸ hfits)
    have herase := h.erase_rest hbegins (hnew.length_text ▸ hhead) (hnew.length_text ▸ hlt)
    rw [hnew.length_text] at herase
    have hrow : (new.endPosition w).row = new.length / p.width := hw ▸ rfl
    rw [if_pos hlt, Draw.renderAll_append, write_append, hrow, ← hw]
    by_cases hbelow : new.length / p.width < (old.length - 1) / p.width
    · have hstart : (⟨(old.length - 1) / p.width, 0⟩ : Point) =
          position ((old.length - 1) / p.width * p.width) w := by
        rw [position, ← hw, Nat.mul_div_cancel _ hpos, Nat.mul_mod_left]
      rw [if_pos hbelow] at herase ⊢
      rw [hstart]
      exact herase.moveTo hw hmax rfl ((Nat.mul_div_cancel _ hpos).symm ▸ hlast) hcursor
    · rw [if_neg hbelow] at herase ⊢
      exact herase.moveTo hw hmax rfl hrows hcursor
  · rw [if_neg hlt]
    rw [Nat.max_eq_left (Nat.le_of_not_lt hlt)] at hbegins
    have htext := hbegins.eq_holding (hnew.length_text ▸ Nat.le_refl _)
    have hmove : (s.write (Draw.renderAll (LineEditor.moveTo (new.endPosition w)
        (new.cursorPosition w)))).Shows (p.goTo new.cursor) :=
      h.moveTo hw hmax hhead hrows hcursor
    rw [htext] at hmove
    exact hmove

/-- An update turns the frame on the screen into another one. -/
theorem Shows.update (h : s.Shows (p.holding old.text old.cursor)) (hw : p.width = max w 1)
    (hmax : p.width ≤ Draw.maxCount) (hold : old.Plain) (hnew : new.Plain)
    (hfits : old.Fits w) (hfits' : new.Fits w) :
    (s.write (Draw.renderAll (old.update new w))).Shows (p.holding new.text new.cursor) := by
  have hcursor := hfits.cursor
  have hcursor' := hfits'.cursor
  rw [← hw] at hcursor hcursor'
  by_cases hchange : Frame.Changes old new
  · have hdiff := Frame.firstChange_le old new
    have hrow : Frame.firstChange old new / p.width ≤ Draw.maxCount :=
      Nat.le_trans (Nat.div_le_div_right hdiff) (hw ▸ hfits')
    have hstart := h.moveTo hw hmax rfl hcursor hrow
    obtain ⟨q, hq, hbegins, hhead, hkeeps⟩ := Shows.write_drop (p := p) (t := old.text) hstart hw
      (hnew.length_text ▸ hdiff) (Frame.take_firstChange old hnew) hnew
    rw [hnew.length_text] at hq hbegins hhead
    rw [hold.length_text] at hbegins
    have hwidth : (q.holding [] 0).width = p.width := hkeeps [] 0 ▸ rfl
    have hdone := hq.settle (hwidth.trans hw) (hwidth ▸ hmax) hbegins hhead hnew hfits hfits'
    rw [Frame.render_update hchange hnew, write_append, write_append, write_append, ← hkeeps]
    exact hdone
  · have hsame := Frame.text_eq_of_not_changes hchange hold hnew
    unfold Frame.Changes at hchange
    rw [Frame.update, if_neg hchange, ← hsame]
    exact h.moveTo hw hmax rfl hcursor hcursor'

/-- A frame is drawn on blank rows. -/
theorem Shows.redraw (h : s.Shows (p.holding [] 0)) (hw : p.width = max w 1)
    (hmax : p.width ≤ Draw.maxCount) (hf : f.Plain) (hfits : f.Fits w) :
    (s.write (Draw.renderAll (f.redraw w))).Shows (p.holding f.text f.cursor) := by
  have hpos := h.width_pos
  obtain ⟨q, hq, hbegins, hhead, hkeeps⟩ := Shows.write_drop (p := p) (t := []) (d := 0) h hw
    (Nat.zero_le f.text.length) rfl hf
  rw [List.length_nil, Nat.max_eq_left (Nat.zero_le _)] at hbegins
  have htext := hbegins.erase (Nat.le_of_lt (lt_offset_end hq.width_pos _))
  have hright := hq.eraseRight
  rw [hhead, htext, hkeeps, hhead] at hright
  rw [hf.length_text] at hright
  have hcursor := hfits.cursor
  rw [← hw] at hcursor
  have hrows : f.length / p.width ≤ Draw.maxCount := hw ▸ hfits
  have hempty : (if 0 < f.length then settleWrap f.length w else []) =
      if f.length = 0 then [] else settleWrap f.length w := by
    split <;> split <;> first | rfl | omega
  have hrender : Draw.renderAll (f.redraw w) = f.text.drop 0 ++
      (Draw.renderAll (if 0 < f.length then settleWrap f.length w else []) ++
      (Draw.eraseRight.render ++
      Draw.renderAll (LineEditor.moveTo (position f.length w) (position f.cursor w)))) := by
    rw [hempty, Frame.redraw]
    simp [Frame.text, Draw.render, Frame.endPosition, Frame.cursorPosition]
  rw [hrender, write_append, write_append, write_append]
  exact hright.moveTo hw hmax rfl hrows hcursor

/-- The cursor goes behind the frame on the screen. -/
theorem Shows.moveToEnd (h : s.Shows (p.holding f.text f.cursor)) (hw : p.width = max w 1)
    (hmax : p.width ≤ Draw.maxCount) (hfits : f.Fits w) :
    (s.write (Draw.renderAll (f.moveToEnd w))).Shows (p.holding f.text f.length) := by
  have hcursor := hfits.cursor
  rw [← hw] at hcursor
  exact h.moveTo hw hmax rfl hcursor (hw ▸ hfits)

/-! ### A change of the width -/

/-- A row of a screen is cut off with the screen. -/
theorem line_setWidth (s : Screen) (w r : Nat) :
    (s.setWidth w).line r = (s.line r).take (max w 1) := by
  simp only [line, setWidth, Array.getElem?_map]
  cases s.rows[r]? <;> simp

theorem cell_setWidth (s : Screen) (w r k : Nat) :
    (s.setWidth w).cell r k = if k < max w 1 then s.cell r k else ' ' := by
  change ((s.setWidth w).line r)[k]?.getD ' ' = if k < max w 1 then (s.line r)[k]?.getD ' ' else ' '
  rw [line_setWidth, Array.take_eq_extract, Array.getElem?_extract, Nat.zero_add]
  by_cases hk : k < max w 1
  · rw [if_pos hk]
    by_cases hsize : k < (s.line r).size
    · rw [if_pos (by omega)]
    · rw [if_neg (by omega), Array.getElem?_eq_none (by omega)]
  · rw [if_neg hk, if_neg (by omega)]
    rfl

/-- What the rows of a screen hold from row `top` down. -/
def stripFrom (s : Screen) (top head : Nat) : Strip where
  width := s.width
  top
  above := s.line
  cells := fun o => s.cell (top + o / s.width) (o % s.width)
  head

/-- Any screen with its cursor at the start of a row shows what its rows hold, if nothing is behind
the last column. -/
theorem shows_of_rowStart {top q : Nat} (hreading : s.reading = .ground)
    (hsettled : s.pendingWrap = false) (hrow : s.row = top + q) (hcol : s.col = 0)
    (hblank : ∀ r k, s.width ≤ k → s.cell (top + r) k = ' ') :
    s.Shows (s.stripFrom top (q * s.width)) := by
  have hw := s.width_pos
  refine ⟨⟨hreading, rfl, fun _ _ => rfl, ?_, ?_⟩, hsettled⟩
  · intro r k
    change s.cell (top + r) k = if k < s.width then
      s.cell (top + (r * s.width + k) / s.width) ((r * s.width + k) % s.width) else ' '
    split
    · rename_i hk
      rw [offset_div hk, offset_mod hk]
    · rename_i hk
      exact hblank r k (Nat.le_of_not_lt hk)
  · rw [hsettled]
    change s.row = top + q * s.width / s.width ∧ s.col = q * s.width % s.width
    rw [Nat.mul_div_cancel _ hw, Nat.mul_mod_left]
    exact ⟨hrow, hcol⟩

/-- From row `c` everything down to row `e` is erased, if nothing is below. -/
theorem Shows.eraseRows {c e : Nat} (h : s.Shows p) (hhead : p.head = c * p.width) (hce : c ≤ e)
    (hmax : e ≤ Draw.maxCount) (hblank : ∀ o, (e + 1) * p.width ≤ o → p.cells o = ' ') :
    ((s.write (Draw.renderAll (if c < e then [.down (e - c)] else []))).write
      (Draw.renderAll (LineEditor.eraseRowsUpward e))).Shows (p.holding [] 0) := by
  have hdown : (s.write (Draw.renderAll (if c < e then [.down (e - c)] else []))).Shows
      (p.goTo (e * p.width)) := by
    by_cases hlt : c < e
    · have hgo : p.head + (e - c) * p.width = e * p.width := by
        rw [hhead, ← Nat.add_mul, Nat.add_sub_of_le hce]
      rw [if_pos hlt, Draw.renderAll_cons, Draw.renderAll_nil, List.append_nil, ← hgo]
      exact h.down (Nat.sub_pos_of_lt hlt) (Nat.le_trans (Nat.sub_le ..) hmax)
    · have heq : c = e := Nat.le_antisymm hce (Nat.le_of_not_lt hlt)
      rw [if_neg hlt, ← heq, ← hhead]
      exact h
  have herase := hdown.eraseRowsUpward rfl
  have hbegins : (p.goTo (e * p.width)).Begins [] ((e + 1) * (p.goTo (e * p.width)).width) :=
    ⟨fun o ho => absurd ho (Nat.not_lt_zero o), hblank⟩
  rw [← List.length_nil (α := Char), hbegins.erase (Nat.le_refl _)] at herase
  exact herase

/-- What a strip says about the rows above it goes for these rows alone. -/
theorem Shows.congr_above {above : Nat → Array Char} (h : s.Shows p)
    (ha : ∀ r, r < p.top → p.above r = above r) : s.Shows { p with above } :=
  ⟨⟨h.reading_eq, h.width_eq, fun r hr => (h.line_eq r hr).trans (ha r hr), h.cell_eq,
    h.cursor_eq⟩, h.settled⟩

/-- Behind the last row of a frame nothing is on the screen. -/
theorem Shows.cell_below (h : s.Shows (p.holding f.text f.cursor)) (hf : f.Plain) {r : Nat}
    (hr : f.length / p.width < r) (k : Nat) : s.cell (p.top + r) k = ' ' := by
  have hcell := h.cell_eq r k
  change s.cell (p.top + r) k = if k < p.width then f.text[r * p.width + k]?.getD ' ' else ' '
    at hcell
  rw [hcell]
  split
  · have hlt := lt_offset_end h.width_pos f.length
    have hle : (f.length / p.width + 1) * p.width ≤ r * p.width := Nat.mul_le_mul_right _ hr
    change f.length < (f.length / p.width + 1) * p.width at hlt
    rw [List.getElem?_eq_none (by rw [hf.length_text]; omega)]
    rfl
  · rfl

/-- What is left of a frame that was laid out for `w` columns from row `top` on, when rows were cut off:
the cursor is in its row, and nothing is behind the last column or below the rows of the frame. -/
structure Remains (s : Screen) (f : Frame) (w top : Nat) : Prop where
  reading_eq : s.reading = .ground
  row_eq : s.row = top + (f.cursorPosition w).row
  behind : ∀ r k, s.width ≤ k → s.cell (top + r) k = ' '
  below : ∀ r k, (f.endPosition w).row < r → s.cell (top + r) k = ' '

/-- All of a frame is left of it. -/
theorem Shows.remains (h : s.Shows (p.holding f.text f.cursor)) (hw : p.width = max w 1)
    (hf : f.Plain) : s.Remains f w p.top where
  reading_eq := h.reading_eq
  row_eq := h.row_eq.trans (by rw [Frame.cursorPosition, position, ← hw]; rfl)
  behind r k hk := by
    rw [h.width_eq] at hk
    exact (h.cell_eq r k).trans (if_neg (Nat.not_lt.2 hk))
  below r k hr := h.cell_below hf (by rwa [Frame.endPosition, position, ← hw] at hr) k

/-- Cutting off rows once more leaves less of it. -/
theorem Remains.setWidth {top : Nat} (h : s.Remains f w top) (w' : Nat) :
    (s.setWidth w').Remains f w top where
  reading_eq := h.reading_eq
  row_eq := h.row_eq
  behind r k hk := by
    rw [cell_setWidth]
    exact if_neg (Nat.not_lt.2 hk)
  below r k hr := by
    rw [cell_setWidth, h.below r k hr]
    exact ite_self _

/-- A frame is drawn again over what is left of it. -/
theorem Remains.resize {w' top : Nat} (h : s.Remains f w top) (hwidth : s.width = max w' 1)
    (hmax : max w' 1 ≤ Draw.maxCount) (hf : f.Plain) (hfits : f.Fits w) (hfits' : f.Fits w') :
    (s.write (Draw.renderAll (f.resize w w'))).Shows
      ((s.stripFrom top 0).holding f.text f.cursor) := by
  have hreturn : (s.write Draw.carriageReturn.render).Shows
      (s.stripFrom top ((f.cursorPosition w).row * s.width)) := by
    rw [write_carriageReturn h.reading_eq]
    exact shows_of_rowStart (s := { s with col := 0, pendingWrap := false }) h.reading_eq rfl
      h.row_eq rfl h.behind
  have hblank : ∀ o, ((f.endPosition w).row + 1) * s.width ≤ o →
      s.cell (top + o / s.width) (o % s.width) = ' ' := by
    intro o ho
    exact h.below _ _ ((Nat.le_div_iff_mul_le s.width_pos).2 ho)
  have herase := hreturn.eraseRows rfl (Nat.div_le_div_right f.cursor_le_length)
    (show (f.endPosition w).row ≤ Draw.maxCount from hfits) hblank
  have hmax' : (s.stripFrom top 0).width ≤ Draw.maxCount := by
    change s.width ≤ Draw.maxCount
    rw [hwidth]
    exact hmax
  have hdraw := Shows.redraw (p := s.stripFrom top 0) herase hwidth hmax' hf hfits'
  have hrender : Draw.renderAll (f.resize w w') = Draw.carriageReturn.render ++
      (Draw.renderAll (if (f.cursorPosition w).row < (f.endPosition w).row
        then [.down ((f.endPosition w).row - (f.cursorPosition w).row)] else []) ++
      (Draw.renderAll (LineEditor.eraseRowsUpward (f.endPosition w).row) ++
      Draw.renderAll (f.redraw w'))) := by
    rw [Frame.resize]
    simp
  rw [hrender, write_append, write_append, write_append]
  exact hdraw

/-- A frame is drawn again where it was after its rows were cut off. -/
theorem Shows.resize {w' : Nat} (h : s.Shows (p.holding f.text f.cursor)) (hw : p.width = max w 1)
    (hmax : max w' 1 ≤ Draw.maxCount) (hf : f.Plain) (hfits : f.Fits w) (hfits' : f.Fits w') :
    ((s.setWidth w').write (Draw.renderAll (f.resize w w'))).Shows
      ({ p with
        width := max w' 1
        above := fun r => (p.above r).take (max w' 1) }.holding f.text f.cursor) := by
  have hdraw := ((h.remains hw hf).setWidth w').resize rfl hmax hf hfits hfits'
  refine hdraw.congr_above fun r hr => ?_
  change (s.setWidth w').line r = (p.above r).take (max w' 1)
  rw [line_setWidth, h.line_eq r hr]
  rfl

end Screen

end LineEditor
