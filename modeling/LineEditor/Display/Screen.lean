import LineEditor.Text.Basic

/-!
A small terminal, enough to tell what a drawing leaves on the screen: printable text that wraps,
carriage return, line feed without an implied return, backspace, the bell, and the control
sequences for motion and erasing. Printing into the last column leaves the cursor there with a wrap
pending until the next printable code point arrives. Rows grow without limit, nothing scrolls, and
a new width cuts rows off without reflowing them.

Main definitions: `Screen.writeChar` is one code point, `Screen.write` a text, `Screen.cell` what
stands in a cell and `Screen.lines` the rows with trailing blanks removed. Main statements: what
putting and erasing do to a cell, `cell_put` and `cell_eraseCells`.
-/
namespace LineEditor

/-- Where a screen stands in its reading of a control sequence. -/
inductive SequenceState where
  | ground
  | escape
  /-- Behind the introducer, with the parameters so far. -/
  | parameters (t : Text)
  deriving DecidableEq, Repr

/-- A terminal's screen. -/
structure Screen where
  width : Nat
  width_pos : 0 < width
  rows : Array (Array Char) := #[]
  row : Nat := 0
  col : Nat := 0
  pendingWrap : Bool := false
  bells : Nat := 0
  reading : SequenceState := .ground

/-- An array filled up with `x` to at least `n` elements. -/
def padTo {α : Type} (n : Nat) (x : α) (a : Array α) : Array α :=
  a ++ Array.replicate (n - a.size) x

/-- Filling up changes nothing for a reader who takes missing elements for `x`. -/
@[simp] theorem getD_getElem?_padTo {α : Type} (n : Nat) (x : α) (a : Array α) (i : Nat) :
    (padTo n x a)[i]?.getD x = a[i]?.getD x := by
  by_cases h : i < a.size
  · simp only [padTo, Array.getElem?_append, h, if_true]
  · have e : a[i]? = none := Array.getElem?_eq_none (by omega)
    simp only [padTo, Array.getElem?_append, h, if_false, Array.getElem?_replicate, e]
    split <;> rfl

theorem lt_size_padTo {α : Type} (i : Nat) (x : α) (a : Array α) :
    i < (padTo (i + 1) x a).size := by
  simp only [padTo, Array.size_append, Array.size_replicate]
  omega

/-- The fields between the semicolons of some parameters. -/
def parameterFields : Text → List Text
  | [] => [[]]
  | c :: rest =>
    match c, parameterFields rest with
    | ';', fields => [] :: fields
    | c, field :: fields => (c :: field) :: fields
    | c, [] => [[c]]

/-- The number a field stands for: 0 unless it is all digits and fits 64 bits. -/
def parameterValue (field : Text) : Nat :=
  let n := field.foldl (fun n c => 10 * n + (c.toNat - '0'.toNat)) 0
  if !field.isEmpty && field.all Char.isDigit && n < UInt64.size then n else 0

namespace Screen

/-- An empty screen of `width` columns, where 0 counts as 1. -/
def blank (width : Nat) : Screen := { width := max width 1, width_pos := by omega }

/-- What stands in a cell; a cell that nothing was written to is a space. -/
def cell (s : Screen) (row col : Nat) : Char := ((s.rows[row]?.getD #[])[col]?).getD ' '

/-- A code point put into a cell. -/
def put (s : Screen) (row col : Nat) (c : Char) : Screen :=
  { s with rows := (padTo (row + 1) #[] s.rows).modify row fun line =>
      (padTo (col + 1) ' ' line).setIfInBounds col c }

/-- Spaces in the columns from `first` up to `last` of a row. Cells that nothing was written to are
spaces already. -/
def eraseCells (s : Screen) (row first last : Nat) : Screen :=
  { s with rows := s.rows.modify row fun line =>
      line.mapIdx fun col c => if first ≤ col ∧ col < last then ' ' else c }

/-- Putting a code point changes its cell and no other. -/
theorem cell_put (s : Screen) (row col : Nat) (c : Char) (r k : Nat) :
    (s.put row col c).cell r k = if r = row ∧ k = col then c else s.cell r k := by
  have line (a : Array Char) : (((padTo (col + 1) ' ' a).setIfInBounds col c)[k]?).getD ' ' =
      if k = col then c else a[k]?.getD ' ' := by
    rw [Array.getElem?_setIfInBounds]
    by_cases h : k = col
    · simp [h, lt_size_padTo]
    · simp [h, Ne.symm h]
  simp only [cell, put, Array.getElem?_modify]
  by_cases h : r = row
  · subst h
    have e := getD_getElem?_padTo (r + 1) #[] s.rows r
    rw [Array.getElem?_eq_getElem (lt_size_padTo r #[] s.rows)] at e ⊢
    simp only [Option.getD_some] at e
    simp [e, line]
  · simp [h, Ne.symm h]

/-- Erasing leaves spaces in the erased columns and every other cell as it was. -/
theorem cell_eraseCells (s : Screen) (row first last r k : Nat) :
    (s.eraseCells row first last).cell r k =
      if r = row ∧ first ≤ k ∧ k < last then ' ' else s.cell r k := by
  simp only [cell, eraseCells, Array.getElem?_modify]
  by_cases h : r = row
  · subst h
    cases hr : s.rows[r]? with
    | none => simp
    | some cells => cases hk : cells[k]? <;> simp [hk]
  · simp [h, Ne.symm h]

/-- The screen made `width` columns wide. -/
def setWidth (s : Screen) (width : Nat) : Screen :=
  let width := max width 1
  { s with
    width, width_pos := by omega
    rows := s.rows.map (·.take width)
    col := min s.col (width - 1)
    pendingWrap := false }

/-- A pending wrap carried out. -/
def wrap (s : Screen) : Screen :=
  if s.pendingWrap then { s with row := s.row + 1, col := 0, pendingWrap := false } else s

/-- A printable code point. -/
def print (s : Screen) (c : Char) : Screen :=
  let s := s.wrap
  let s := s.put s.row s.col c
  if s.col + 1 = s.width then { s with pendingWrap := true } else { s with col := s.col + 1 }

/-- A code point outside control sequences. -/
def ground (s : Screen) (c : Char) : Screen :=
  match c with
  | '\x1b' => { s with reading := .escape }
  | '\r' => { s with col := 0, pendingWrap := false }
  | '\n' => { s with row := s.row + 1, pendingWrap := false }
  | '\x08' => { s with col := s.col - 1, pendingWrap := false }
  | '\x07' => { s with bells := s.bells + 1 }
  | c => if Text.isControl c then s else s.print c

/-- A complete control sequence. -/
def control (s : Screen) (parameters : Text) (final : Char) : Screen :=
  let args := (parameterFields (parameters.dropWhile (· == '?'))).map parameterValue
  let arg (n : Nat) : Nat := args[n]?.getD 0
  let count := max (arg 0) 1
  let s := { s with pendingWrap := false }
  match final with
  | 'A' => { s with row := s.row - count }
  | 'B' => { s with row := s.row + count }
  | 'C' => { s with col := min (s.col + count) (s.width - 1) }
  | 'D' => { s with col := s.col - count }
  | 'G' => { s with col := min (count - 1) (s.width - 1) }
  | 'H' => { s with row := count - 1, col := min (max (arg 1) 1 - 1) (s.width - 1) }
  | 'K' =>
    match arg 0 with
    | 1 => s.eraseCells s.row 0 (s.col + 1)
    | 2 => s.eraseCells s.row 0 s.width
    | _ => s.eraseCells s.row s.col s.width
  | 'J' =>
    match arg 0 with
    | 2 | 3 => { s with rows := #[] }
    | _ =>
      let s := s.eraseCells s.row s.col s.width
      { s with rows := s.rows.take (s.row + 1) }
  | _ => s

/-- One code point. -/
def writeChar (s : Screen) (c : Char) : Screen :=
  match s.reading with
  | .ground => s.ground c
  | .escape => { s with reading := if c = '[' then .parameters [] else .ground }
  | .parameters t =>
    if c.isDigit || c == ';' || c == '?' then { s with reading := .parameters (t ++ [c]) }
    else { s with reading := .ground }.control t c

/-- A text, code point by code point. -/
def write (s : Screen) (t : Text) : Screen := t.foldl writeChar s

@[simp] theorem write_nil (s : Screen) : s.write [] = s := rfl

@[simp] theorem write_cons (s : Screen) (c : Char) (t : Text) :
    s.write (c :: t) = (s.writeChar c).write t := rfl

@[simp] theorem write_append (s : Screen) (t u : Text) :
    s.write (t ++ u) = (s.write t).write u := List.foldl_append ..

/-- The rows with trailing blanks removed, and without the empty rows at the end. -/
def lines (s : Screen) : List Text :=
  let trimmed := s.rows.toList.map fun line => Text.trimRight line.toList
  (trimmed.reverse.dropWhile List.isEmpty).reverse

/-- The row and column of the cursor. -/
def cursor (s : Screen) : Nat × Nat := (s.row, s.col)

end Screen

end LineEditor
