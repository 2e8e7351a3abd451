import LineEditor.Proofs.Display.Sequence
import LineEditor.Proofs.Text.Plain

/-!
The rows of a screen from one row down, read one after the other as one long line. A screen has two
dimensions and a wrap that may be pending; a strip has one dimension and a head, and printing is
writing at the head. The rows above the strip are kept along, so that whatever is shown to lead from
strip to strip is shown to leave them alone.

Main definitions: `Strip`, and `Screen.Prints` and `Screen.Shows`, which say that a screen holds a
strip with its head at the cursor, the latter without a pending wrap. Main statements: printing and
erasing on the screen do the same on the strip, `Prints.write` and `Shows.eraseRight`.
-/
namespace LineEditor

/-- The rows of a screen from row `top` down as one line: offset `o` is in row `top + o / width` and
column `o % width`. -/
@[ext]
structure Strip where
  width : Nat
  top : Nat
  /-- The rows above. -/
  above : Nat → Array Char
  /-- What stands at each offset. -/
  cells : Nat → Char
  /-- Where the next code point goes. -/
  head : Nat

namespace Strip

/-- A code point at the head. -/
def print (p : Strip) (c : Char) : Strip :=
  { p with cells := fun o => if o = p.head then c else p.cells o, head := p.head + 1 }

/-- A text at the head. -/
def write (p : Strip) (t : Text) : Strip := t.foldl print p

/-- Blanks from offset `first` up to `last`. -/
def erase (p : Strip) (first last : Nat) : Strip :=
  { p with cells := fun o => if first ≤ o ∧ o < last then ' ' else p.cells o }

/-- The head at an offset. -/
def goTo (p : Strip) (o : Nat) : Strip := { p with head := o }

@[simp] theorem width_write (p : Strip) (t : Text) : (p.write t).width = p.width := by
  induction t generalizing p with
  | nil => rfl
  | cons c t ih => exact ih (p.print c)

@[simp] theorem top_write (p : Strip) (t : Text) : (p.write t).top = p.top := by
  induction t generalizing p with
  | nil => rfl
  | cons c t ih => exact ih (p.print c)

@[simp] theorem above_write (p : Strip) (t : Text) : (p.write t).above = p.above := by
  induction t generalizing p with
  | nil => rfl
  | cons c t ih => exact ih (p.print c)

@[simp] theorem head_write (p : Strip) (t : Text) : (p.write t).head = p.head + t.length := by
  induction t generalizing p with
  | nil => rfl
  | cons c t ih =>
    have hrest : (p.write (c :: t)).head = p.head + 1 + t.length := ih (p.print c)
    rw [hrest, List.length_cons]
    omega

/-- A written text stands from the head on, and all else stays. -/
theorem cells_write (p : Strip) (t : Text) (o : Nat) :
    (p.write t).cells o =
      if p.head ≤ o ∧ o < p.head + t.length then t[o - p.head]?.getD ' ' else p.cells o := by
  induction t generalizing p with
  | nil => rw [List.length_nil, if_neg (by omega)]; rfl
  | cons c t ih =>
    have hrest : (p.write (c :: t)).cells o =
        if p.head + 1 ≤ o ∧ o < p.head + 1 + t.length then t[o - (p.head + 1)]?.getD ' '
        else if o = p.head then c else p.cells o := ih (p.print c)
    rw [hrest, List.length_cons]
    by_cases h : o = p.head
    · subst h
      rw [if_neg (by omega), if_pos rfl, if_pos (by omega), Nat.sub_self]
      rfl
    · by_cases hin : p.head + 1 ≤ o ∧ o < p.head + 1 + t.length
      · have hpos : o - p.head = (o - (p.head + 1)) + 1 := by omega
        rw [if_pos hin, if_pos (by omega), hpos, List.getElem?_cons_succ]
      · rw [if_neg hin, if_neg h, if_neg (by omega)]

end Strip

namespace Screen

/-- A row of a screen, as far as it was written to. -/
def line (s : Screen) (r : Nat) : Array Char := s.rows[r]?.getD #[]

/-- Putting a code point leaves every other row as it was. -/
theorem line_put_of_ne (s : Screen) {row r : Nat} (col : Nat) (c : Char) (h : r ≠ row) :
    (s.put row col c).line r = s.line r := by
  simp only [line, put, Array.getElem?_modify]
  simp [Ne.symm h]

/-- Erasing in a row leaves every other row as it was. -/
theorem line_eraseCells_of_ne (s : Screen) {row r : Nat} (first last : Nat) (h : r ≠ row) :
    (s.eraseCells row first last).line r = s.line r := by
  simp only [line, eraseCells, Array.getElem?_modify]
  simp [Ne.symm h]

/-- A screen holds a strip, and the next code point goes to its head. -/
structure Prints (s : Screen) (p : Strip) : Prop where
  reading_eq : s.reading = .ground
  width_eq : s.width = p.width
  line_eq : ∀ r, r < p.top → s.line r = p.above r
  cell_eq : ∀ r k, s.cell (p.top + r) k = if k < p.width then p.cells (r * p.width + k) else ' '
  cursor_eq : if s.pendingWrap then
      0 < p.head ∧ p.head % p.width = 0 ∧ s.row + 1 = p.top + p.head / p.width ∧
        s.col + 1 = p.width
    else s.row = p.top + p.head / p.width ∧ s.col = p.head % p.width

/-- A screen holds a strip, and the cursor stands at its head. -/
structure Shows (s : Screen) (p : Strip) : Prop extends Prints s p where
  settled : s.pendingWrap = false

end Screen

/-- The offset in row `r` and column `k` is in row `r`. -/
theorem offset_div {w k : Nat} (h : k < w) (r : Nat) : (r * w + k) / w = r := by
  rw [Nat.mul_comm, Nat.mul_add_div (by omega), Nat.div_eq_of_lt h, Nat.add_zero]

/-- The offset in row `r` and column `k` is in column `k`. -/
theorem offset_mod {w k : Nat} (h : k < w) (r : Nat) : (r * w + k) % w = k := by
  rw [Nat.mul_comm, Nat.mul_add_mod, Nat.mod_eq_of_lt h]

/-- An offset is the one in its row and column. -/
theorem offset_eq (o w : Nat) : o / w * w + o % w = o := by
  rw [Nat.mul_comm]
  exact Nat.div_add_mod o w

/-- An offset is before the end of its row. -/
theorem lt_offset_end {w : Nat} (hw : 0 < w) (o : Nat) : o < (o / w + 1) * w := by
  have hoff := offset_eq o w
  have hmod : o % w < w := Nat.mod_lt _ hw
  rw [Nat.add_mul]
  omega

namespace Screen

variable {s : Screen} {p : Strip}

theorem Prints.width_pos (h : s.Prints p) : 0 < p.width := h.width_eq ▸ s.width_pos

theorem Shows.row_eq (h : s.Shows p) : s.row = p.top + p.head / p.width := by
  have hcursor := h.cursor_eq
  rw [h.settled] at hcursor
  exact hcursor.1

theorem Shows.col_eq (h : s.Shows p) : s.col = p.head % p.width := by
  have hcursor := h.cursor_eq
  rw [h.settled] at hcursor
  exact hcursor.2

/-- No wrap is pending unless the head is at the start of a row. -/
theorem Prints.shows_of_mod_ne (h : s.Prints p) (hmod : p.head % p.width ≠ 0) : s.Shows p := by
  refine ⟨h, ?_⟩
  have hcursor := h.cursor_eq
  cases hp : s.pendingWrap with
  | false => rfl
  | true =>
    rw [hp] at hcursor
    exact absurd hcursor.2.1 hmod

/-- A pending wrap carried out shows in the cursor alone. -/
theorem Prints.wrap (h : s.Prints p) : s.wrap.Shows p := by
  have hcursor := h.cursor_eq
  cases hp : s.pendingWrap with
  | false =>
    have hwrap : s.wrap = s := by simp [Screen.wrap, hp]
    rw [hwrap]
    exact ⟨h, hp⟩
  | true =>
    rw [hp] at hcursor
    obtain ⟨-, hmod, hrow, -⟩ := hcursor
    have hwrap : s.wrap = { s with row := s.row + 1, col := 0, pendingWrap := false } := by
      simp [Screen.wrap, hp]
    rw [hwrap]
    exact ⟨⟨h.reading_eq, h.width_eq, h.line_eq, h.cell_eq, hrow, hmod.symm⟩, rfl⟩

/-- A code point put at the cursor is put at the head. -/
theorem Shows.cell_put (h : s.Shows p) (c : Char) (r k : Nat) :
    (s.put s.row s.col c).cell (p.top + r) k =
      if k < p.width then (p.print c).cells (r * p.width + k) else ' ' := by
  have hlt : p.head % p.width < p.width := Nat.mod_lt _ h.width_pos
  rw [Screen.cell_put, h.row_eq, h.col_eq, h.cell_eq]
  by_cases hk : k < p.width
  · have hiff : p.top + r = p.top + p.head / p.width ∧ k = p.head % p.width ↔
        r * p.width + k = p.head := by
      constructor
      · rintro ⟨hr, rfl⟩
        rw [Nat.add_left_cancel hr, offset_eq]
      · intro ho
        rw [← ho, offset_div hk, offset_mod hk]
        exact ⟨rfl, rfl⟩
    simp only [Strip.print, hk, if_true, hiff]
  · rw [if_neg (by omega), if_neg hk, if_neg hk]

/-- Where the head is after one more code point: in the next column, or, behind the last column, at
the start of the next row. -/
theorem offset_succ {o w : Nat} (hw : 0 < w) :
    (o % w + 1 < w → (o + 1) / w = o / w ∧ (o + 1) % w = o % w + 1) ∧
      (o % w + 1 = w → (o + 1) / w = o / w + 1 ∧ (o + 1) % w = 0) := by
  have ho := offset_eq o w
  constructor
  · intro hlt
    have hsucc : o + 1 = o / w * w + (o % w + 1) := by omega
    rw [hsucc, offset_div hlt, offset_mod hlt]
    exact ⟨rfl, rfl⟩
  · intro heq
    have hsucc : o + 1 = (o / w + 1) * w + 0 := by
      rw [Nat.add_mul]
      omega
    constructor
    · rw [hsucc, offset_div hw]
    · rw [hsucc, offset_mod hw]

/-- A code point printed is printed at the head. -/
theorem Prints.print (h : s.Prints p) (c : Char) : (s.print c).Prints (p.print c) := by
  have hs := h.wrap
  have hcell := hs.cell_put c
  have hline : ∀ r, r < p.top → (s.wrap.put s.wrap.row s.wrap.col c).line r = p.above r := by
    intro r hr
    have hne : r ≠ s.wrap.row := Nat.ne_of_lt (hs.row_eq ▸ Nat.lt_add_right _ hr)
    rw [line_put_of_ne _ _ _ hne]
    exact hs.line_eq r hr
  have hreading : (s.wrap.put s.wrap.row s.wrap.col c).reading = .ground := hs.reading_eq
  have hwidth : (s.wrap.put s.wrap.row s.wrap.col c).width = p.width := hs.width_eq
  have hsettled : (s.wrap.put s.wrap.row s.wrap.col c).pendingWrap = false := hs.settled
  have hrow : (s.wrap.put s.wrap.row s.wrap.col c).row = p.top + p.head / p.width := hs.row_eq
  have hcol : (s.wrap.put s.wrap.row s.wrap.col c).col = p.head % p.width := hs.col_eq
  have hlt : p.head % p.width < p.width := Nat.mod_lt _ h.width_pos
  obtain ⟨hinside, hlast⟩ := offset_succ (o := p.head) h.width_pos
  rw [Screen.print]
  -- from here on only these facts about the changed screen matter
  generalize s.wrap.put s.wrap.row s.wrap.col c = s' at *
  split
  · rename_i hend
    have hmod : p.head % p.width + 1 = p.width := by omega
    refine ⟨hreading, hwidth, hline, hcell, ?_⟩
    change 0 < p.head + 1 ∧ (p.head + 1) % p.width = 0 ∧
      s'.row + 1 = p.top + (p.head + 1) / p.width ∧ s'.col + 1 = p.width
    rw [(hlast hmod).1, (hlast hmod).2, hrow, hcol]
    exact ⟨Nat.succ_pos _, rfl, rfl, hmod⟩
  · rename_i hend
    have hmod : p.head % p.width + 1 < p.width := by omega
    refine ⟨hreading, hwidth, hline, hcell, ?_⟩
    change if s'.pendingWrap then _ else
      s'.row = p.top + (p.head + 1) / p.width ∧ s'.col + 1 = (p.head + 1) % p.width
    rw [(hinside hmod).1, (hinside hmod).2, hrow, hcol, hsettled]
    exact ⟨rfl, rfl⟩

/-- Outside of sequences a code point that is no control character is printed. -/
theorem writeChar_eq_print {c : Char} (hs : s.reading = .ground) (hc : Text.isControl c = false) :
    s.writeChar c = s.print c := by
  rw [writeChar, hs]
  simp only [ground]
  split
  all_goals first
    | exact absurd hc (by decide)
    | rw [if_neg (by simp [hc])]

/-- A plain text is written from the head on. -/
theorem Prints.write {t : Text} (h : s.Prints p) (ht : t.Plain) : (s.write t).Prints (p.write t) := by
  induction t generalizing s p with
  | nil => exact h
  | cons c t ih =>
    rw [Text.plain_cons] at ht
    rw [write_cons, writeChar_eq_print h.reading_eq ht.1]
    exact ih (h.print c) ht.2

end Screen

end LineEditor
