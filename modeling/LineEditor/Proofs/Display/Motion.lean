import LineEditor.Display.Redraw
import LineEditor.Proofs.Display.Strip

/-!
Motion and erasing on a strip. The cursor goes from offset to offset, and what is erased is a range
of offsets: the rest of a row, some rows below the cursor, or some rows above it.

Main statements: `Shows.moveTo`, `Shows.eraseRight`, `Shows.eraseRowsBelow` and
`Shows.eraseRowsUpward`.
-/
namespace LineEditor

/-- Two ranges that touch are erased as one. -/
theorem Strip.erase_erase (p : Strip) {a b c : Nat} (hab : a ≤ b) (hbc : b ≤ c) :
    (p.erase a b).erase b c = p.erase a c := by
  refine Strip.ext rfl rfl rfl (funext fun o => ?_) rfl
  simp only [Strip.erase]
  by_cases h : b ≤ o ∧ o < c
  · rw [if_pos h, if_pos (by omega)]
  · rw [if_neg h]
    by_cases hlow : a ≤ o ∧ o < b
    · rw [if_pos hlow, if_pos (by omega)]
    · rw [if_neg hlow, if_neg (by omega)]

/-- Ranges are erased in any order. -/
theorem Strip.erase_comm (p : Strip) (a b c d : Nat) :
    (p.erase a b).erase c d = (p.erase c d).erase a b := by
  refine Strip.ext rfl rfl rfl (funext fun o => ?_) rfl
  simp only [Strip.erase]
  split <;> split <;> rfl

@[simp] theorem Strip.erase_self (p : Strip) (a : Nat) : p.erase a a = p := by
  refine Strip.ext rfl rfl rfl (funext fun o => ?_) rfl
  exact if_neg (by omega)

namespace Screen

variable {s : Screen} {p : Strip}

/-- The cursor alone decides where the head is. -/
theorem Shows.setCursor {o row col : Nat} (h : s.Shows p) (hrow : row = p.top + o / p.width)
    (hcol : col = o % p.width) :
    { s with row, col, pendingWrap := false }.Shows (p.goTo o) :=
  ⟨⟨h.reading_eq, h.width_eq, h.line_eq, h.cell_eq, hrow, hcol⟩, rfl⟩

/-! ### Motion -/

theorem Shows.carriageReturn (h : s.Shows p) :
    (s.write Draw.carriageReturn.render).Shows (p.goTo (p.head / p.width * p.width)) := by
  rw [write_carriageReturn h.reading_eq]
  refine h.setCursor ?_ ?_
  · rw [Nat.mul_div_cancel _ h.width_pos]
    exact h.row_eq
  · rw [Nat.mul_mod_left]

theorem Shows.down {n : Nat} (h : s.Shows p) (hpos : 0 < n) (hmax : n ≤ Draw.maxCount) :
    (s.write (Draw.down n).render).Shows (p.goTo (p.head + n * p.width)) := by
  rw [write_down h.reading_eq hpos hmax]
  refine h.setCursor ?_ ?_
  · rw [Nat.add_mul_div_right _ _ h.width_pos, h.row_eq]
    omega
  · rw [Nat.add_mul_mod_self_right]
    exact h.col_eq

theorem Shows.up {n : Nat} (h : s.Shows p) (hpos : 0 < n) (hmax : n ≤ Draw.maxCount)
    (hle : n ≤ p.head / p.width) :
    (s.write (Draw.up n).render).Shows (p.goTo (p.head - n * p.width)) := by
  rw [write_up h.reading_eq hpos hmax]
  refine h.setCursor ?_ ?_
  · rw [Nat.mul_comm, Nat.sub_mul_div, h.row_eq]
    exact Nat.add_sub_assoc hle _
  · have hle' : p.width * n ≤ p.head := by
      rw [Nat.mul_comm]
      exact (Nat.le_div_iff_mul_le h.width_pos).1 hle
    rw [Nat.mul_comm, Nat.sub_mul_mod hle']
    exact h.col_eq

/-- The first half of a motion goes to the row. -/
theorem Shows.moveRow {r : Nat} (h : s.Shows p) (hsource : p.head / p.width ≤ Draw.maxCount)
    (htarget : r ≤ Draw.maxCount) :
    (s.write (Draw.renderAll
      (if r < p.head / p.width then [.up (p.head / p.width - r)]
        else if p.head / p.width < r then [.down (r - p.head / p.width)]
        else []))).Shows (p.goTo (r * p.width + p.head % p.width)) := by
  have hhead := offset_eq p.head p.width
  by_cases hup : r < p.head / p.width
  · rw [if_pos hup, Draw.renderAll_cons, Draw.renderAll_nil, List.append_nil]
    have hgo : p.head - (p.head / p.width - r) * p.width = r * p.width + p.head % p.width := by
      rw [Nat.sub_mul]
      have hle : r * p.width ≤ p.head / p.width * p.width := Nat.mul_le_mul_right _ (by omega)
      omega
    exact hgo ▸ h.up (by omega) (by omega) (by omega)
  · rw [if_neg hup]
    by_cases hdown : p.head / p.width < r
    · rw [if_pos hdown, Draw.renderAll_cons, Draw.renderAll_nil, List.append_nil]
      have hgo : p.head + (r - p.head / p.width) * p.width = r * p.width + p.head % p.width := by
        rw [Nat.sub_mul]
        have hle : p.head / p.width * p.width ≤ r * p.width := Nat.mul_le_mul_right _ (by omega)
        omega
      exact hgo ▸ h.down (by omega) (Nat.le_trans (Nat.sub_le _ _) htarget)
    · rw [if_neg hdown]
      have hr : r = p.head / p.width := by omega
      rw [hr, hhead]
      exact h

/-- The second half of a motion goes to the column. -/
theorem Shows.moveColumn {k : Nat} (h : s.Shows p) (hk : k < p.width)
    (hwidth : p.width ≤ Draw.maxCount) :
    (s.write (Draw.renderAll
      (if k = p.head % p.width then []
        else if k = 0 then [.carriageReturn]
        else if p.head % p.width < k then [.right (k - p.head % p.width)]
        else [.left (p.head % p.width - k)]))).Shows
      (p.goTo (p.head / p.width * p.width + k)) := by
  have hhead := offset_eq p.head p.width
  have hrow : s.row = p.top + (p.head / p.width * p.width + k) / p.width := by
    rw [offset_div hk]
    exact h.row_eq
  have hcol : k = (p.head / p.width * p.width + k) % p.width := (offset_mod hk _).symm
  by_cases hstay : k = p.head % p.width
  · rw [if_pos hstay, hstay, hhead]
    exact h
  · rw [if_neg hstay]
    by_cases hzero : k = 0
    · rw [if_pos hzero, Draw.renderAll_cons, Draw.renderAll_nil, List.append_nil, hzero]
      exact h.carriageReturn
    · rw [if_neg hzero]
      have hlt : p.head % p.width < p.width := Nat.mod_lt _ h.width_pos
      by_cases hright : p.head % p.width < k
      · rw [if_pos hright, Draw.renderAll_cons, Draw.renderAll_nil, List.append_nil]
        rw [write_right h.reading_eq (by omega) (by omega) (by rw [h.col_eq, h.width_eq]; omega)]
        exact h.setCursor hrow (by rw [h.col_eq]; omega)
      · rw [if_neg hright, Draw.renderAll_cons, Draw.renderAll_nil, List.append_nil]
        rw [write_left h.reading_eq (by omega) (by omega)]
        exact h.setCursor hrow (by rw [h.col_eq]; omega)

/-- A motion leads from the head to any offset whose row a count can name. -/
theorem Shows.moveTo {source target w : Nat} (h : s.Shows p) (hw : p.width = max w 1)
    (hmax : p.width ≤ Draw.maxCount) (hhead : p.head = source)
    (hsource : source / p.width ≤ Draw.maxCount) (htarget : target / p.width ≤ Draw.maxCount) :
    (s.write (Draw.renderAll (LineEditor.moveTo (position source w) (position target w)))).Shows
      (p.goTo target) := by
  subst hhead
  have hlt : p.head % p.width < p.width := Nat.mod_lt _ h.width_pos
  have hrow := h.moveRow hsource htarget
  have hcol := hrow.moveColumn (Nat.mod_lt target h.width_pos) hmax
  simp only [Strip.goTo, offset_div hlt, offset_mod hlt, offset_eq] at hcol
  rw [position, position, ← hw, LineEditor.moveTo, Draw.renderAll_append, write_append]
  exact hcol

/-! ### Erasing -/

/-- The offsets behind the head in its row, told by row and column. -/
theorem offset_mem_row {h r k w : Nat} (hk : k < w) :
    (r = h / w ∧ h % w ≤ k) ↔ (h ≤ r * w + k ∧ r * w + k < (h / w + 1) * w) := by
  have hw : 0 < w := by omega
  have hh := offset_eq h w
  constructor
  · rintro ⟨rfl, hle⟩
    rw [Nat.add_mul]
    omega
  · rintro ⟨hge, hlt⟩
    have hlow : h / w ≤ r := by
      rw [← offset_div hk r]
      exact Nat.div_le_div_right hge
    have hhigh : r < h / w + 1 := by
      rw [← offset_div hk r]
      exact (Nat.div_lt_iff_lt_mul hw).2 hlt
    have hr : r = h / w := by omega
    subst hr
    exact ⟨rfl, by omega⟩

theorem Shows.eraseRight (h : s.Shows p) :
    (s.write Draw.eraseRight.render).Shows
      (p.erase p.head ((p.head / p.width + 1) * p.width)) := by
  rw [write_eraseRight h.reading_eq]
  refine ⟨⟨h.reading_eq, h.width_eq, ?_, ?_, ?_⟩, rfl⟩
  · intro r hr
    have hne : r ≠ s.row := Nat.ne_of_lt (h.row_eq ▸ Nat.lt_add_right _ hr)
    rw [line_eraseCells_of_ne _ _ _ hne]
    exact h.line_eq r hr
  · intro r k
    rw [cell_eraseCells]
    change (if p.top + r = s.row ∧ s.col ≤ k ∧ k < s.width then ' ' else s.cell (p.top + r) k) =
      if k < p.width then
        if p.head ≤ r * p.width + k ∧ r * p.width + k < (p.head / p.width + 1) * p.width then ' '
        else p.cells (r * p.width + k)
      else ' '
    rw [h.cell_eq, h.row_eq, h.col_eq, h.width_eq]
    by_cases hk : k < p.width
    · rw [if_pos hk, if_pos hk]
      have hiff : (p.top + r = p.top + p.head / p.width ∧ p.head % p.width ≤ k ∧ k < p.width) ↔
          (p.head ≤ r * p.width + k ∧ r * p.width + k < (p.head / p.width + 1) * p.width) := by
        rw [← offset_mem_row hk, Nat.add_left_cancel_iff]
        exact ⟨fun ⟨hr, hle, _⟩ => ⟨hr, hle⟩, fun ⟨hr, hle⟩ => ⟨hr, hle, hk⟩⟩
      simp only [hiff]
    · rw [if_neg (by omega), if_neg hk, if_neg hk]
  · exact ⟨h.row_eq, h.col_eq⟩

/-- The rows below row `q` of the head erased: the head ends up at the start of the last of them. -/
theorem Shows.eraseRowsBelow {q : Nat} (h : s.Shows p) (hrow : p.head / p.width = q) (n : Nat) :
    (s.write (Draw.renderAll (LineEditor.eraseRowsBelow n))).Shows
      ((p.erase ((q + 1) * p.width) ((q + 1 + n) * p.width)).goTo
        (if n = 0 then p.head else (q + n) * p.width)) := by
  have hw := h.width_pos
  induction n generalizing s p q with
  | zero =>
    rw [if_pos rfl, Nat.add_zero, Strip.erase_self]
    exact h
  | succ n ih =>
    have hfirst : (((s.write (Draw.down 1).render).write Draw.carriageReturn.render).write
        Draw.eraseRight.render).Shows
        ((p.erase ((q + 1) * p.width) ((q + 1 + 1) * p.width)).goTo ((q + 1) * p.width)) := by
      have hbelow : (p.head + 1 * p.width) / p.width = q + 1 := by
        rw [Nat.add_mul_div_right _ _ hw, hrow]
      have hsteps := ((h.down Nat.one_pos (by decide)).carriageReturn).eraseRight
      simp only [Strip.goTo, hbelow, Nat.mul_div_cancel _ hw] at hsteps
      exact hsteps
    have hrest := ih hfirst (Nat.mul_div_cancel _ hw) hw
    have hhead : (if n = 0 then (q + 1) * p.width else (q + 1 + n) * p.width) =
        (q + (n + 1)) * p.width := by
      split
      · subst n
        rfl
      · congr 1
        omega
    have hmerge := p.erase_erase (a := (q + 1) * p.width) (b := (q + 1 + 1) * p.width)
      (c := (q + 1 + 1 + n) * p.width) (Nat.mul_le_mul_right _ (by omega))
      (Nat.mul_le_mul_right _ (by omega))
    have hlast : q + 1 + (n + 1) = q + 1 + 1 + n := by omega
    have hdraw : Draw.renderAll (LineEditor.eraseRowsBelow (n + 1)) =
        (Draw.down 1).render ++ (Draw.carriageReturn.render ++ (Draw.eraseRight.render ++
          Draw.renderAll (LineEditor.eraseRowsBelow n))) := by
      simp [LineEditor.eraseRowsBelow, List.replicate_succ]
    rw [if_neg (Nat.succ_ne_zero n), hlast, ← hmerge, ← hhead, hdraw, write_append, write_append,
      write_append]
    exact hrest

/-- The row of the head and all rows above it erased, for a head at the start of a row. -/
theorem Shows.eraseRowsUpward {n : Nat} (h : s.Shows p) (hhead : p.head = n * p.width) :
    (s.write (Draw.renderAll (LineEditor.eraseRowsUpward n))).Shows
      ((p.erase 0 ((n + 1) * p.width)).goTo 0) := by
  have hw := h.width_pos
  induction n generalizing s p with
  | zero =>
    have hright := h.eraseRight
    rw [hhead, Nat.mul_div_cancel _ hw, Nat.zero_mul] at hright
    have hgo : (p.erase 0 ((0 + 1) * p.width)).goTo 0 = p.erase 0 ((0 + 1) * p.width) :=
      Strip.ext rfl rfl rfl rfl (by rw [Nat.zero_mul] at hhead; exact hhead.symm)
    rw [hgo]
    simpa [LineEditor.eraseRowsUpward] using hright
  | succ n ih =>
    have hfirst : ((s.write Draw.eraseRight.render).write (Draw.up 1).render).Shows
        ((p.erase ((n + 1) * p.width) ((n + 1 + 1) * p.width)).goTo (n * p.width)) := by
      have hright := h.eraseRight
      have hrow : p.head / p.width = n + 1 := by rw [hhead, Nat.mul_div_cancel _ hw]
      have hgo : p.head - 1 * p.width = n * p.width := by
        rw [hhead, Nat.add_mul]
        omega
      have hup := hright.up Nat.one_pos (by decide) (hrow ▸ Nat.le_add_left 1 n)
      simp only [Strip.goTo, Strip.erase, hgo, hrow] at hup
      rw [hhead] at hup
      exact hup
    have hrest := ih hfirst rfl hw
    have hmerge := p.erase_erase (a := 0) (b := (n + 1) * p.width) (c := (n + 1 + 1) * p.width)
      (Nat.zero_le _) (Nat.mul_le_mul_right _ (by omega))
    have hdraw : Draw.renderAll (LineEditor.eraseRowsUpward (n + 1)) =
        Draw.eraseRight.render ++ ((Draw.up 1).render ++
          Draw.renderAll (LineEditor.eraseRowsUpward n)) := by
      simp [LineEditor.eraseRowsUpward, List.replicate_succ]
    rw [← hmerge, Strip.erase_comm, hdraw, write_append, write_append]
    exact hrest

end Screen

end LineEditor
