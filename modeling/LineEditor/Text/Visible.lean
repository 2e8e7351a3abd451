import LineEditor.Text.Utf8

/-!
What of a text is visible on a terminal: everything but escape sequences and control characters,
with the newline kept. Outside a sequence whole code points are read; inside one, bytes of their
encoding are. A device control string may end at a byte in the middle of a code point, and then the
rest of it is malformed. An unfinished sequence shows nothing.

Main definitions: `Escape.byte` is one byte inside a sequence, `Escape.step` one code point, and
`visible` the text that is left.
-/
namespace LineEditor.Text

/-- Where a terminal stands in its reading of escape sequences. -/
inductive Escape where
  | ground | escape | escapeIntermediate
  | csiEntry | csiParam | csiIntermediate | csiIgnore
  | dcsEntry | dcsParam | dcsIntermediate | dcsPassthrough | dcsIgnore
  | osc | ignoredString
  deriving DecidableEq, Repr

namespace Escape

/-- A control byte that has its effect inside a sequence, too. -/
def isControlByte (b : Nat) : Bool :=
  b ≤ 0x17 || b == 0x19 || (0x1C ≤ b && b ≤ 0x1F)

/-- A byte that a state has no rule of its own for: cancel and substitute end the sequence, escape
starts another one, and all else is ignored. -/
def anywhere (s : Escape) (b : Nat) : Escape :=
  if b = 0x18 ∨ b = 0x1A then .ground
  else if b = 0x1B then .escape
  else s

/-- The state after a byte, which is not a control byte with an effect. -/
def next (s : Escape) (b : Nat) : Escape :=
  let within (low high : Nat) : Bool := low ≤ b && b ≤ high
  match s with
  | .ground => .ground
  | .escape =>
    if within 0x20 0x2F then .escapeIntermediate
    else if b = 0x50 then .dcsEntry
    else if b = 0x58 ∨ b = 0x5E ∨ b = 0x5F then .ignoredString
    else if b = 0x5B then .csiEntry
    else if b = 0x5D then .osc
    else if within 0x30 0x7E ∨ b = 0x18 ∨ b = 0x1A then .ground
    else .escape
  | .escapeIntermediate => if within 0x30 0x7E then .ground else s.anywhere b
  | .csiEntry =>
    if within 0x20 0x2F then .csiIntermediate
    else if within 0x30 0x3F then .csiParam
    else if within 0x40 0x7E then .ground
    else s.anywhere b
  | .csiParam =>
    if within 0x20 0x2F then .csiIntermediate
    else if within 0x30 0x3B then .csiParam
    else if within 0x3C 0x3F then .csiIgnore
    else if within 0x40 0x7E then .ground
    else s.anywhere b
  | .csiIntermediate =>
    if within 0x20 0x2F then .csiIntermediate
    else if within 0x30 0x3F then .csiIgnore
    else if within 0x40 0x7E then .ground
    else s.anywhere b
  | .csiIgnore => if within 0x40 0x7E then .ground else s.anywhere b
  | .dcsEntry | .dcsParam =>
    if within 0x20 0x2F then .dcsIntermediate
    else if within 0x30 0x3B ∨ (s = .dcsEntry ∧ within 0x30 0x3F) then .dcsParam
    else if within 0x3C 0x3F then .dcsIgnore
    else if within 0x40 0x7E then .dcsPassthrough
    else s.anywhere b
  | .dcsIntermediate =>
    if within 0x20 0x2F then .dcsIntermediate
    else if within 0x30 0x3F then .dcsIgnore
    else if within 0x40 0x7E then .dcsPassthrough
    else s.anywhere b
  | .dcsPassthrough => if b = 0x9C then .ground else s.anywhere b
  | .osc => if b = 0x07 then .ground else s.anywhere b
  | .dcsIgnore | .ignoredString => s.anywhere b

/-- The states in which control bytes have their effect. -/
def executes : Escape → Bool
  | .escape | .escapeIntermediate | .csiEntry | .csiParam | .csiIntermediate | .csiIgnore => true
  | _ => false

/-- One byte: the state after it and what it shows. Outside a sequence it is a stray byte of a code
point whose start was part of a sequence. -/
def byte (s : Escape) (b : Nat) : Escape × Text :=
  if s = .ground then (.ground, if b ≤ 0x9F then [] else [Utf8.replacement])
  else if s.executes && isControlByte b then (s, if b = 0x0A then ['\n'] else [])
  else (s.next b, [])

/-- The bytes of a code point inside a sequence. -/
def bytes (s : Escape) (bs : List UInt8) : Escape × Text := collect byte s (bs.map UInt8.toNat)

/-- One code point: the state after it and what it shows. -/
def step (s : Escape) (c : Char) : Escape × Text :=
  if s = .ground then
    if c = '\x1b' then (.escape, [])
    else if c = '\n' then (.ground, ['\n'])
    else if c ≠ '\x7f' ∧ isControl c then (.ground, [])
    else (.ground, [c])
  else s.bytes (Utf8.encode c)

end Escape

/-- The code points of a text that a terminal shows, newlines included. -/
def visible (t : Text) : Text := (collect Escape.step .ground t).2

end LineEditor.Text
