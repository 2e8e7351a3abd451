import LineEditor.Text.Basic
import LineEditor.Text.Hidden

/-!
Written forms of characters and texts for messages and logs. Tab, carriage return, newline, NUL,
the backslash and the quote in use have short escapes, other code points without a glyph of their
own are written by their number, and everything else stands for itself.

Main definitions: `charLiteral` and `literal`.
-/
namespace LineEditor.Text

/-- Whether a code point shows no glyph of its own. -/
def isHidden (c : Char) : Bool := inRanges hiddenRanges c.toNat

/-- A code point by its number: lower case hexadecimal digits in braces. -/
def numbered (c : Char) : Text :=
  ['\\', 'u', '\x7b'] ++ Nat.toDigits 16 c.toNat ++ ['\x7d']

/-- A character between quotes of the kind `quote`. -/
def escape (quote c : Char) : Text :=
  match c with
  | '\t' => ['\\', 't']
  | '\r' => ['\\', 'r']
  | '\n' => ['\\', 'n']
  | '\x00' => ['\\', '0']
  | '\\' => ['\\', '\\']
  | c =>
    if c = quote then ['\\', c]
    else if isHidden c then numbered c
    else [c]

/-- A character in single quotes. -/
def charLiteral (c : Char) : Text := '\'' :: escape '\'' c ++ ['\'']

/-- A text in double quotes. -/
def literal (t : Text) : Text := '"' :: t.flatMap (escape '"') ++ ['"']

end LineEditor.Text
