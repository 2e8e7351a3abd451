import LineEditor.Text.Literal

/-!
The text being edited and its cursor. The cursor stands in the gap between two code points, at the
start or at the end: `before` and `after` are the text on its two sides, and every operation clamps
the cursor into range. Control characters other than the newline, which joins continuation lines,
are not insertable.

Main definitions: `Buffer.insert`, `Buffer.deleteRange`, `Buffer.delete`, `Buffer.moveBy` and
`Buffer.transpose`. A buffer and the pair of its two sides say the same: `before_ofSides`,
`after_ofSides` and `ofSides_before_after`.
-/
namespace LineEditor

/-- Why an edit is refused. -/
inductive EditError where
  | invalidCharacter (c : Char)
  deriving DecidableEq, Repr

/-- The wording of an edit error. -/
def EditError.message : EditError → Text
  | .invalidCharacter c => "invalid character ".toList ++ Text.charLiteral c

/-- A text with a cursor in it. -/
@[ext]
structure Buffer where
  text : Text
  cursor : Nat
  cursor_le : cursor ≤ text.length
  deriving DecidableEq, Repr

namespace Buffer

/-- No text. -/
def empty : Buffer := ⟨[], 0, Nat.le_refl 0⟩

instance : Inhabited Buffer := ⟨empty⟩

/-- A text with the cursor at its end. -/
def ofText (t : Text) : Buffer := ⟨t, t.length, Nat.le_refl _⟩

/-- A text with the cursor at `cursor`, or at the end if that is past it. -/
def clamp (t : Text) (cursor : Nat) : Buffer := ⟨t, min cursor t.length, Nat.min_le_right ..⟩

/-- How many code points there are. -/
def length (b : Buffer) : Nat := b.text.length

/-- Whether there is no text. -/
def isEmpty (b : Buffer) : Bool := b.text.isEmpty

/-- Two texts with the cursor between them. -/
def ofSides (before after : Text) : Buffer := ⟨before ++ after, before.length, by simp⟩

/-- The text before the cursor. -/
def before (b : Buffer) : Text := b.text.take b.cursor

/-- The text after the cursor. -/
def after (b : Buffer) : Text := b.text.drop b.cursor

@[simp] theorem before_append_after (b : Buffer) : b.before ++ b.after = b.text :=
  List.take_append_drop ..

@[simp] theorem length_before (b : Buffer) : b.before.length = b.cursor :=
  List.length_take_of_le b.cursor_le

@[simp] theorem before_ofSides (s t : Text) : (ofSides s t).before = s := by
  simp [before, ofSides]

@[simp] theorem after_ofSides (s t : Text) : (ofSides s t).after = t := by
  simp [after, ofSides]

/-- A buffer is the two texts around its cursor. -/
@[simp] theorem ofSides_before_after (b : Buffer) : ofSides b.before b.after = b := by
  ext1 <;> simp [ofSides]

/-- The cursor at `n`, or at the end if that is past it. -/
def setCursor (b : Buffer) (n : Nat) : Buffer := Buffer.clamp b.text n

/-- The cursor `d` places further, stopping at either end. -/
def moveBy (b : Buffer) (d : Int) : Buffer := b.setCursor (b.cursor + d).toNat

/-- The cursor behind the last code point. -/
def moveToEnd (b : Buffer) : Buffer := ofText b.text

/-- Whether a code point may be inserted. -/
def isInsertable (c : Char) : Bool := !Text.isControl c || c == '\n'

/-- All of `t` inserted before the cursor, or the first code point that is not insertable. -/
def insert (b : Buffer) (t : Text) : Except EditError Buffer :=
  match List.find? (fun c => !isInsertable c) t with
  | some c => .error (.invalidCharacter c)
  | none => .ok (ofSides (b.before ++ t) b.after)

/-- The code points from `first` up to `last` removed, with what was removed. The cursor keeps its
place in the text that stays: it ends up behind those code points before it that stay. -/
def deleteRange (b : Buffer) (first last : Nat) : Buffer × Text :=
  let last := min last b.length
  let first := min first last
  (Buffer.clamp (b.text.take first ++ b.text.drop last) (min b.cursor first + (b.cursor - last)),
    (b.text.take last).drop first)

/-- Up to `n` code points after the cursor removed, or before it for negative `n`, with what was
removed. -/
def delete (b : Buffer) (n : Int) : Buffer × Text :=
  if 0 ≤ n then b.deleteRange b.cursor (b.cursor + n.natAbs)
  else b.deleteRange (b.cursor - n.natAbs) b.cursor

/-- The two code points around the cursor swapped and the cursor behind them; at the end of the
text the last two. None at the start of the text or if it has fewer than two code points. -/
def transpose (b : Buffer) : Option Buffer :=
  if b.length < 2 ∨ b.cursor = 0 then none
  else
    let right := min b.cursor (b.length - 1)
    match b.text.drop (right - 1) with
    | x :: y :: rest => some (Buffer.clamp (b.text.take (right - 1) ++ y :: x :: rest) (right + 1))
    | _ => none

end Buffer

end LineEditor
