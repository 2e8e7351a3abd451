import LineEditor.Text.Basic

/-!
What a terminal is told: text, relative motions of the cursor and erasing, each with its control
sequence. Counts are at most 65535, the largest count a terminal takes.
-/
namespace LineEditor

/-- One thing to tell a terminal. -/
inductive Draw where
  | text (t : Text)
  /-- To column 0 of the row. -/
  | carriageReturn
  | newline
  | up (n : Nat)
  | down (n : Nat)
  | right (n : Nat)
  | left (n : Nat)
  /-- To the first column of the first row. -/
  | home
  /-- Erases from the cursor to the end of the row. -/
  | eraseRight
  | eraseScreen
  deriving DecidableEq, Repr

namespace Draw

/-- The largest count a terminal takes. -/
def maxCount : Nat := 65535

/-- A control sequence with a count. -/
def counted (n : Nat) (final : Char) : Text :=
  ['\x1b', '['] ++ Nat.toDigits 10 (min n maxCount) ++ [final]

/-- What is written to the terminal. -/
def render : Draw → Text
  | text t => t
  | carriageReturn => ['\r']
  | newline => ['\n']
  | up n => counted n 'A'
  | down n => counted n 'B'
  | right n => counted n 'C'
  | left n => counted n 'D'
  | home => ['\x1b', '[', '1', ';', '1', 'H']
  | eraseRight => ['\x1b', '[', 'K']
  | eraseScreen => ['\x1b', '[', '2', 'J']

/-- What is written for several. -/
def renderAll (ds : List Draw) : Text := ds.flatMap render

@[simp] theorem renderAll_nil : renderAll [] = [] := rfl

@[simp] theorem renderAll_cons (d : Draw) (ds : List Draw) :
    renderAll (d :: ds) = d.render ++ renderAll ds := List.flatMap_cons ..

@[simp] theorem renderAll_append (ds es : List Draw) :
    renderAll (ds ++ es) = renderAll ds ++ renderAll es := List.flatMap_append ..

end Draw

end LineEditor
