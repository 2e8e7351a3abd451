import LineEditor.Text.Basic

/-!
Named keys and the code point sequences that terminals send for them. A key may have several
sequences (normal and application cursor mode, two families of home and end); the first one listed
is its canonical form. Printable characters are not keys.

Main definitions: `sequences` is the table, `codePoints` writes a key and `ofCodePoints?` reads a
whole sequence.
-/
namespace LineEditor

/-- A key with a name. -/
inductive Key where
  | ctrlA | ctrlB | ctrlC | ctrlD | ctrlE | ctrlF | ctrlG | ctrlH | tab | ctrlJ | ctrlK | ctrlL
  | enter | ctrlN | ctrlO | ctrlP | ctrlQ | ctrlR | ctrlS | ctrlT | ctrlU | ctrlV | ctrlW
  | ctrlX | ctrlY | ctrlZ | escape | ctrlUnderscore | backspace | up | down | right | left
  | home | endKey | insert | delete | pageUp | pageDown | ctrlLeft | ctrlRight | metaB | metaD
  | metaF | metaBackspace
  deriving DecidableEq, Repr

namespace Key

/-- Every key, in the order of the type. -/
def all : List Key := [
  .ctrlA, .ctrlB, .ctrlC, .ctrlD, .ctrlE, .ctrlF, .ctrlG, .ctrlH, .tab, .ctrlJ, .ctrlK, .ctrlL,
  .enter, .ctrlN, .ctrlO, .ctrlP, .ctrlQ, .ctrlR, .ctrlS, .ctrlT, .ctrlU, .ctrlV, .ctrlW,
  .ctrlX, .ctrlY, .ctrlZ, .escape, .ctrlUnderscore, .backspace, .up, .down, .right, .left,
  .home, .endKey, .insert, .delete, .pageUp, .pageDown, .ctrlLeft, .ctrlRight, .metaB, .metaD,
  .metaF, .metaBackspace]

/-- The name of a key. -/
def name : Key → String
  | .ctrlA => "CtrlA"
  | .ctrlB => "CtrlB"
  | .ctrlC => "CtrlC"
  | .ctrlD => "CtrlD"
  | .ctrlE => "CtrlE"
  | .ctrlF => "CtrlF"
  | .ctrlG => "CtrlG"
  | .ctrlH => "CtrlH"
  | .tab => "Tab"
  | .ctrlJ => "CtrlJ"
  | .ctrlK => "CtrlK"
  | .ctrlL => "CtrlL"
  | .enter => "Enter"
  | .ctrlN => "CtrlN"
  | .ctrlO => "CtrlO"
  | .ctrlP => "CtrlP"
  | .ctrlQ => "CtrlQ"
  | .ctrlR => "CtrlR"
  | .ctrlS => "CtrlS"
  | .ctrlT => "CtrlT"
  | .ctrlU => "CtrlU"
  | .ctrlV => "CtrlV"
  | .ctrlW => "CtrlW"
  | .ctrlX => "CtrlX"
  | .ctrlY => "CtrlY"
  | .ctrlZ => "CtrlZ"
  | .escape => "Escape"
  | .ctrlUnderscore => "CtrlUnderscore"
  | .backspace => "Backspace"
  | .up => "Up"
  | .down => "Down"
  | .right => "Right"
  | .left => "Left"
  | .home => "Home"
  | .endKey => "End"
  | .insert => "Insert"
  | .delete => "Delete"
  | .pageUp => "PageUp"
  | .pageDown => "PageDown"
  | .ctrlLeft => "CtrlLeft"
  | .ctrlRight => "CtrlRight"
  | .metaB => "MetaB"
  | .metaD => "MetaD"
  | .metaF => "MetaF"
  | .metaBackspace => "MetaBackspace"

/-- The key of that name. -/
def ofName? (s : String) : Option Key := all.find? fun k => k.name == s

/-- The code point that starts every longer sequence. -/
def esc : Char := '\x1b'

/-- What the backspace key sends. -/
def del : Char := '\x7f'

/-- Every sequence a terminal may send for a key. -/
def sequences : List (Text × Key) := [
  (['\x01'], .ctrlA), (['\x02'], .ctrlB), (['\x03'], .ctrlC), (['\x04'], .ctrlD),
  (['\x05'], .ctrlE), (['\x06'], .ctrlF), (['\x07'], .ctrlG), (['\x08'], .ctrlH),
  (['\t'], .tab), (['\n'], .ctrlJ), (['\x0b'], .ctrlK), (['\x0c'], .ctrlL), (['\r'], .enter),
  (['\x0e'], .ctrlN), (['\x0f'], .ctrlO), (['\x10'], .ctrlP), (['\x11'], .ctrlQ),
  (['\x12'], .ctrlR), (['\x13'], .ctrlS), (['\x14'], .ctrlT), (['\x15'], .ctrlU),
  (['\x16'], .ctrlV), (['\x17'], .ctrlW), (['\x18'], .ctrlX), (['\x19'], .ctrlY),
  (['\x1a'], .ctrlZ), ([esc], .escape), (['\x1f'], .ctrlUnderscore), ([del], .backspace),
  ([esc, '[', 'A'], .up), ([esc, 'O', 'A'], .up), ([esc, '[', 'B'], .down),
  ([esc, 'O', 'B'], .down), ([esc, '[', 'C'], .right), ([esc, 'O', 'C'], .right),
  ([esc, '[', 'D'], .left), ([esc, 'O', 'D'], .left), ([esc, '[', 'H'], .home),
  ([esc, 'O', 'H'], .home), ([esc, '[', '1', '~'], .home), ([esc, '[', 'F'], .endKey),
  ([esc, 'O', 'F'], .endKey), ([esc, '[', '4', '~'], .endKey), ([esc, '[', '2', '~'], .insert),
  ([esc, '[', '3', '~'], .delete), ([esc, '[', '5', '~'], .pageUp),
  ([esc, '[', '6', '~'], .pageDown), ([esc, '[', '1', ';', '5', 'D'], .ctrlLeft),
  ([esc, '[', '1', ';', '5', 'C'], .ctrlRight), ([esc, 'b'], .metaB), ([esc, 'd'], .metaD),
  ([esc, 'f'], .metaF), ([esc, del], .metaBackspace)]

/-- The sequences of one key, in the order of the table. -/
def sequencesOf (k : Key) : List Text :=
  (sequences.filter fun e => e.2 = k).map Prod.fst

/-- The canonical sequence of a key. -/
def codePoints (k : Key) : Text := (sequencesOf k).headD []

/-- The key whose sequence is exactly `t`. -/
def ofCodePoints? (t : Text) : Option Key :=
  (sequences.find? fun e => e.1 = t).map Prod.snd

/-- The keys sent as escape followed by another key. -/
def isMeta : Key → Bool
  | .metaB | .metaD | .metaF | .metaBackspace => true
  | _ => false

end Key

end LineEditor
