import LineEditor.Proofs.Display.Layout

/-!
What a drawing finds and what it leaves, without the strip in between. A frame may be drawn from
scratch where the screen is fresh, an update may be drawn where the screen holds a frame, and output
that is no frame leaves the screen loose: nothing is below the cursor, so that a newline makes it
fresh again.

Main definitions: `Screen.Fresh`, `Screen.Loose`, `Screen.Holds`, and `Screen.Displays`, which says
cell by cell what is on a screen that holds a frame. Main statements: `Fresh.redraw`, `Holds.update`,
`Holds.moveToEnd`, `Loose.newline` and `Holds.displays`.
-/
namespace LineEditor.Screen

/-- A terminal of `width` columns whose cursor is at the start of a row, with only blanks in that
row and below it. -/
structure Fresh (s : Screen) (width : Nat) : Prop where
  width_eq : s.width = max width 1
  reading_eq : s.reading = .ground
  settled : s.pendingWrap = false
  col_eq : s.col = 0
  blank_below : ∀ r k, s.cell (s.row + r) k = ' '

theorem fresh_blank (width row : Nat) : ({ blank width with row } : Screen).Fresh width :=
  ⟨rfl, rfl, rfl, rfl, fun _ _ => rfl⟩

variable {s : Screen} {width : Nat}

/-- Such a terminal shows an empty strip. -/
theorem Fresh.shows (h : s.Fresh width) :
    s.Shows (Strip.blank (max width 1) s.row s.line) where
  reading_eq := h.reading_eq
  width_eq := h.width_eq
  line_eq := fun _ _ => rfl
  cell_eq := fun r k => (h.blank_below r k).trans (ite_self _).symm
  cursor_eq := by
    have hrow : s.row = s.row + 0 / max width 1 := by rw [Nat.zero_div, Nat.add_zero]
    rw [h.settled]
    exact ⟨hrow, h.col_eq.trans (Nat.zero_mod _).symm⟩
  settled := h.settled

/-- A terminal of `width` columns with nothing below the row of the cursor. -/
structure Loose (s : Screen) (width : Nat) : Prop where
  width_eq : s.width = max width 1
  reading_eq : s.reading = .ground
  blank_below : ∀ r k, s.row < r → s.cell r k = ' '

/-- From some row down a frame and nothing else is on the screen, with the cursor in its place. -/
def Holds (s : Screen) (f : Frame) (width : Nat) : Prop :=
  ∃ p : Strip, p.width = max width 1 ∧ s.Shows (p.holding f.text f.cursor)

/-- The rows from `top` down are a frame laid out for `width` columns with blanks behind it, and the
cursor is where the frame says. -/
structure Displays (s : Screen) (f : Frame) (width top : Nat) : Prop where
  width_eq : s.width = max width 1
  cell_eq : ∀ r k, s.cell (top + r) k =
    if k < max width 1 then f.text[r * max width 1 + k]?.getD ' ' else ' '
  row_eq : s.row = top + (f.cursorPosition width).row
  col_eq : s.col = (f.cursorPosition width).col
  settled : s.pendingWrap = false

variable {f g : Frame} {t : Text}

/-- No columns are as good as one. -/
theorem Displays.congr {width' top : Nat} (h : s.Displays f width top)
    (hw : max width 1 = max width' 1) : s.Displays f width' top where
  width_eq := h.width_eq.trans hw
  cell_eq := hw ▸ h.cell_eq
  row_eq := by
    rw [h.row_eq, Frame.cursorPosition, position, hw]
    rfl
  col_eq := by
    rw [h.col_eq, Frame.cursorPosition, position, hw]
    rfl
  settled := h.settled

/-- What a strip says of a frame, said cell by cell. -/
theorem Shows.displays {p : Strip} (h : s.Shows (p.holding f.text f.cursor))
    (hw : p.width = max width 1) : s.Displays f width p.top := by
  refine ⟨h.width_eq.trans hw, ?_, ?_, ?_, h.settled⟩
  · rw [← hw]
    exact h.cell_eq
  · rw [Frame.cursorPosition, position, ← hw]
    exact h.row_eq
  · rw [Frame.cursorPosition, position, ← hw]
    exact h.col_eq

/-- A screen that holds a frame displays it. -/
theorem Holds.displays (h : s.Holds f width) : ∃ top, s.Displays f width top := by
  obtain ⟨p, hw, hshows⟩ := h
  exact ⟨p.top, hshows.displays hw⟩

/-- A screen that displays a frame between two outputs holds it, below the rows that are there. -/
theorem Displays.shows {top : Nat} (h : s.Displays f width top) (hreading : s.reading = .ground) :
    s.Shows ((Strip.blank (max width 1) top s.line).holding f.text f.cursor) where
  reading_eq := hreading
  width_eq := h.width_eq
  line_eq := fun _ _ => rfl
  cell_eq := h.cell_eq
  cursor_eq := by
    rw [h.settled]
    exact ⟨h.row_eq, h.col_eq⟩
  settled := h.settled

/-! ### Frames -/

/-- A frame is drawn from scratch on a fresh screen. -/
theorem Fresh.redraw (h : s.Fresh width) (hmax : max width 1 ≤ Draw.maxCount) (hf : f.Plain)
    (hfits : f.Fits width) : (s.write (Draw.renderAll (f.redraw width))).Holds f width :=
  ⟨_, rfl, Shows.redraw (p := Strip.blank (max width 1) s.row s.line) h.shows rfl hmax hf hfits⟩

/-- An update leads from one frame to another. -/
theorem Holds.update (h : s.Holds f width) (hmax : max width 1 ≤ Draw.maxCount) (hf : f.Plain)
    (hg : g.Plain) (hfits : f.Fits width) (hfits' : g.Fits width) :
    (s.write (Draw.renderAll (f.update g width))).Holds g width := by
  obtain ⟨p, hw, hshows⟩ := h
  exact ⟨p, hw, hshows.update hw (hw ▸ hmax) hf hg hfits hfits'⟩

/-- The bell changes nothing that is on the screen. -/
theorem Holds.bell (h : s.Holds f width) : (s.write ['\x07']).Holds f width := by
  obtain ⟨p, hw, hshows⟩ := h
  have hbell : s.write ['\x07'] = { s with bells := s.bells + 1 } := by
    simp [write, writeChar, hshows.reading_eq, ground]
  rw [hbell]
  exact ⟨p, hw, ⟨hshows.reading_eq, hshows.width_eq, hshows.line_eq, hshows.cell_eq,
    hshows.cursor_eq⟩, hshows.settled⟩

/-- Behind a text that ends at the head there is nothing. -/
theorem Shows.loose {p : Strip} (h : s.Shows (p.holding t t.length)) (hw : p.width = max width 1) :
    s.Loose width where
  width_eq := h.width_eq.trans hw
  reading_eq := h.reading_eq
  blank_below := by
    intro r k hr
    rw [h.row_eq] at hr
    obtain ⟨n, rfl⟩ := Nat.exists_eq_add_of_le (Nat.le_of_lt hr)
    have hcell := h.cell_eq (t.length / p.width + n) k
    change s.cell (p.top + (t.length / p.width + n)) k =
      if k < p.width then t[(t.length / p.width + n) * p.width + k]?.getD ' ' else ' ' at hcell
    change s.cell (p.top + t.length / p.width + n) k = ' '
    rw [Nat.add_assoc, hcell]
    split
    · have hend := lt_offset_end h.width_pos t.length
      change t.length < (t.length / p.width + 1) * p.width at hend
      have hle : (t.length / p.width + 1) * p.width ≤ (t.length / p.width + n) * p.width := by
        refine Nat.mul_le_mul_right _ (Nat.add_le_add_left ?_ _)
        change p.top + t.length / p.width < p.top + t.length / p.width + n at hr
        omega
      rw [List.getElem?_eq_none (by omega)]
      rfl
    · rfl

/-- Behind a frame there is nothing. -/
theorem Holds.moveToEnd (h : s.Holds f width) (hmax : max width 1 ≤ Draw.maxCount) (hf : f.Plain)
    (hfits : f.Fits width) : (s.write (Draw.renderAll (f.moveToEnd width))).Loose width := by
  obtain ⟨p, hw, hshows⟩ := h
  have hmove := hshows.moveToEnd hw (hw ▸ hmax) hfits
  rw [← hf.length_text] at hmove
  exact hmove.loose hw

/-! ### Other output -/

theorem Fresh.loose (h : s.Fresh width) : s.Loose width where
  width_eq := h.width_eq
  reading_eq := h.reading_eq
  blank_below := by
    intro r k hr
    obtain ⟨n, rfl⟩ := Nat.exists_eq_add_of_le (Nat.le_of_lt hr)
    exact h.blank_below n k

/-- Printing fills the row of the cursor or the one below, and no row further down. -/
theorem Loose.print (h : s.Loose width) (c : Char) : (s.print c).Loose width := by
  have hrow : s.row ≤ s.wrap.row := by
    rw [Screen.wrap]
    split
    · exact Nat.le_succ _
    · exact Nat.le_refl _
  have hcells : ∀ r k, s.wrap.cell r k = s.cell r k := by
    intro r k
    rw [Screen.wrap]
    split <;> rfl
  have hkept : (s.print c).width = s.width ∧ (s.print c).reading = s.reading ∧
      ∀ r k, (s.print c).cell r k = (s.wrap.put s.wrap.row s.wrap.col c).cell r k := by
    rw [Screen.print, Screen.wrap]
    split <;> split <;> exact ⟨rfl, rfl, fun _ _ => rfl⟩
  refine ⟨hkept.1.trans h.width_eq, hkept.2.1.trans h.reading_eq, fun r k hr => ?_⟩
  rw [row_print] at hr
  rw [hkept.2.2, cell_put, if_neg (by omega), hcells]
  exact h.blank_below r k (Nat.lt_of_le_of_lt hrow hr)

theorem Loose.write (h : s.Loose width) (ht : t.Plain) : (s.write t).Loose width := by
  induction t generalizing s with
  | nil => exact h
  | cons c t ih =>
    rw [Text.plain_cons] at ht
    rw [write_cons, writeChar_eq_print h.reading_eq ht.1]
    exact ih (h.print c) ht.2

/-- A newline with its carriage return leads to a row where nothing was written. -/
theorem Loose.newline (h : s.Loose width) : (s.write ['\r', '\n']).Fresh width := by
  have hwrite : s.write ['\r', '\n'] =
      { s with col := 0, row := s.row + 1, pendingWrap := false } := by
    simp [Screen.write, writeChar, h.reading_eq, ground]
  rw [hwrite]
  refine ⟨h.width_eq, h.reading_eq, rfl, rfl, fun r k => ?_⟩
  exact h.blank_below (s.row + 1 + r) k (by omega)

/-- A screen that is cleared, with the cursor at its start, is fresh. -/
theorem fresh_clear (hw : s.width = max width 1) (hreading : s.reading = .ground) :
    (s.write (Draw.renderAll clearScreen)).Fresh width := by
  have hwrite : s.write (Draw.renderAll clearScreen) =
      { s with rows := #[], row := 0, col := 0, pendingWrap := false } := by
    simp [clearScreen, Draw.render, Screen.write, writeChar, hreading, ground, control,
      parameterFields, parameterValue, UInt64.size]
  rw [hwrite]
  exact ⟨hw, hreading, rfl, rfl, fun _ _ => rfl⟩

theorem Holds.clear (h : s.Holds f width) : (s.write (Draw.renderAll clearScreen)).Fresh width := by
  obtain ⟨p, hw, hshows⟩ := h
  exact fresh_clear (hshows.width_eq.trans hw) hshows.reading_eq

/-! ### The width -/

theorem width_print (s : Screen) (c : Char) : (s.print c).width = s.width := by
  have hwrap : s.wrap.width = s.width := by
    unfold wrap
    split <;> rfl
  rw [← hwrap]
  unfold print
  dsimp only
  split <;> rfl

theorem width_ground (s : Screen) (c : Char) : (s.ground c).width = s.width := by
  unfold ground
  split
  case h_6 =>
    split
    · rfl
    · exact s.width_print _
  all_goals rfl

theorem width_control (s : Screen) (t : Text) (c : Char) : (s.control t c).width = s.width := by
  unfold control
  dsimp only
  split
  case h_7 => split <;> rfl
  case h_8 => split <;> rfl
  all_goals rfl

theorem width_writeChar (s : Screen) (c : Char) : (s.writeChar c).width = s.width := by
  unfold writeChar
  split
  · exact s.width_ground c
  · rfl
  · split
    · rfl
    · exact width_control ..

/-- No output changes the width. -/
theorem width_write (s : Screen) (t : Text) : (s.write t).width = s.width := by
  induction t generalizing s with
  | nil => rfl
  | cons c t ih => rw [write_cons, ih, width_writeChar]

end LineEditor.Screen
