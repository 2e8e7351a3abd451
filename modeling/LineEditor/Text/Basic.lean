import LineEditor.Text.Alphanumeric

/-!
Text is a list of code points, and every code point takes one column. This module holds the
character classes that editing relies on and the search for one text inside another.

Main definitions: `isControl`, `isSpace` and `isWordChar` on code points, `isBlank` and `indexOf?`
on texts.
-/
namespace LineEditor

/-- A text, code point by code point. -/
abbrev Text := List Char

namespace Text

/-- The C0 and C1 control characters and DEL: the category of control codes. -/
def isControl (c : Char) : Bool :=
  c.toNat < 0x20 || (0x7F ≤ c.toNat && c.toNat < 0xA0)

/-- The code points with the white space property. -/
def isSpace (c : Char) : Bool :=
  let n := c.toNat
  (0x9 ≤ n && n ≤ 0xD) || n == 0x20 || n == 0x85 || n == 0xA0 || n == 0x1680 ||
    (0x2000 ≤ n && n ≤ 0x200A) || n == 0x2028 || n == 0x2029 || n == 0x202F || n == 0x205F ||
    n == 0x3000

/-- Whether a number is in one of some ascending ranges: the first range that does not end before
it is the only one that can hold it. -/
def inRanges (ranges : List (Nat × Nat)) (n : Nat) : Bool :=
  match ranges.find? fun r => n ≤ r.2 with
  | some r => r.1 ≤ n
  | none => false

/-- Letters and digits of every script. -/
def isAlphanumeric (c : Char) : Bool := inRanges alphanumericRanges c.toNat

/-- What words are made of: letters, digits and the underscore. -/
def isWordChar (c : Char) : Bool := isAlphanumeric c || c == '_'

/-- Nothing but white space. -/
def isBlank (t : Text) : Bool := t.all isSpace

/-- The white space at the end of a text removed. -/
def trimRight (t : Text) : Text := (t.reverse.dropWhile isSpace).reverse

/-- Where `query` first occurs in a text, counted in code points. -/
def indexOf? (query : Text) : Text → Option Nat
  | [] => if query.isEmpty then some 0 else none
  | c :: rest =>
    if query.isPrefixOf (c :: rest) then some 0 else (indexOf? query rest).map (· + 1)

/-- Whether `query` occurs in `text`. -/
def includes (text query : Text) : Bool := (indexOf? query text).isSome

/-- Counts on from `n` how many code points two texts share at their start. -/
def countShared (n : Nat) : Text → Text → Nat
  | x :: a, y :: b => if x = y then countShared (n + 1) a b else n
  | _, _ => n

/-- The length of the longest common start of two texts. -/
def sharedLength (a b : Text) : Nat := countShared 0 a b

theorem countShared_eq (n : Nat) (a b : Text) : countShared n a b = sharedLength a b + n := by
  induction a generalizing n b with
  | nil => simp [sharedLength, countShared]
  | cons x a ih =>
    cases b with
    | nil => simp [sharedLength, countShared]
    | cons y b =>
      simp only [sharedLength, countShared]
      split
      · rw [ih, ih 1]; omega
      · simp

theorem sharedLength_cons (x y : Char) (a b : Text) :
    sharedLength (x :: a) (y :: b) = if x = y then sharedLength a b + 1 else 0 := by
  rw [sharedLength, countShared, countShared_eq]

/-- The longest common start of two texts is the same read off either of them. -/
theorem take_sharedLength (a b : Text) :
    a.take (sharedLength a b) = b.take (sharedLength a b) := by
  induction a generalizing b with
  | nil => simp [sharedLength, countShared]
  | cons x a ih =>
    cases b with
    | nil => simp [sharedLength, countShared]
    | cons y b =>
      rw [sharedLength_cons]
      split
      · rename_i h
        simp [h, ih]
      · simp

end Text

end LineEditor
