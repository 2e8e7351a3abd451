import LineEditor.Key.Basic
import LineEditor.Text.Literal

/-!
One unit of input for the binding tables: a plain code point, or a named key whose whole sequence
was recognized at once.
-/
namespace LineEditor

/-- A plain code point or a named key. -/
inductive KeyEvent where
  | char (c : Char)
  | key (k : Key)
  deriving DecidableEq, Repr

namespace KeyEvent

/-- The event of a single code point: a control character that a key sends is that key. -/
def ofChar (c : Char) : KeyEvent :=
  match Key.ofCodePoints? [c] with
  | some k => .key k
  | none => .char c

/-- The code point of an event that is exactly one code point long. -/
def singleCodePoint? : KeyEvent → Option Char
  | .char c => some c
  | .key k =>
    match k.codePoints with
    | [c] => some c
    | _ => none

/-- A plain code point other than a control character. -/
def isPrintable : KeyEvent → Bool
  | .char c => !Text.isControl c
  | .key _ => false

/-- How an event appears in the log. -/
def describe : KeyEvent → Text
  | .char c => "Char(".toList ++ Text.charLiteral c ++ [')']
  | .key k => "Key(".toList ++ k.name.toList ++ [')']

end KeyEvent

end LineEditor
