import LineEditor.Collect
import LineEditor.Text.Basic

/-!
UTF-8 as it arrives from a terminal. A read may end in the middle of a sequence, so the decoder
keeps the unfinished bytes until the next read completes them. Malformed input is never an error:
each broken sequence becomes one replacement character, and the byte that broke it starts afresh.

Main definitions: `encode` writes a code point, `Decoder.decode` reads a chunk and
`Decoder.finish` ends the stream.
-/
namespace LineEditor.Utf8

/-- Stands for a malformed sequence. -/
def replacement : Char := '\uFFFD'

/-- Whether a byte continues a sequence: `10xxxxxx`. -/
def isTail (b : UInt8) : Bool := 0x80 ≤ b && b < 0xC0

/-- How many bytes the sequence has that starts with `b`; none for a byte that starts no
sequence. -/
def sequenceLength (b : UInt8) : Option Nat :=
  if b < 0x80 then some 1
  else if b < 0xC0 then none
  else if b < 0xE0 then some 2
  else if b < 0xF0 then some 3
  else if b < 0xF8 then some 4
  else none

/-- The six data bits of a continuation byte. -/
def tailBits (b : UInt8) : Nat := b.toNat % 64

/-- The code point `n`, if it is at least `least` and a Unicode scalar value. -/
def scalar? (least n : Nat) : Option Char :=
  if least ≤ n ∧ n.isValidChar then some (Char.ofNat n) else none

/-- The code point of a complete sequence of two to four bytes. Overlong forms, surrogates and
values past U+10FFFF have none. -/
def decodeSequence : List UInt8 → Option Char
  | [a, b] => scalar? 0x80 (a.toNat % 32 * 64 + tailBits b)
  | [a, b, c] => scalar? 0x800 ((a.toNat % 16 * 64 + tailBits b) * 64 + tailBits c)
  | [a, b, c, d] =>
    scalar? 0x10000 (((a.toNat % 8 * 64 + tailBits b) * 64 + tailBits c) * 64 + tailBits d)
  | _ => none

/-- The bytes of a code point. -/
def encode (c : Char) : List UInt8 :=
  let n := c.toNat
  let tail (n : Nat) : UInt8 := UInt8.ofNat (0x80 + n % 64)
  if n < 0x80 then [UInt8.ofNat n]
  else if n < 0x800 then [UInt8.ofNat (0xC0 + n / 64), tail n]
  else if n < 0x10000 then [UInt8.ofNat (0xE0 + n / 4096), tail (n / 64), tail n]
  else [UInt8.ofNat (0xF0 + n / 262144), tail (n / 4096), tail (n / 64), tail n]

/-- The bytes of a text. -/
def encodeText (t : Text) : List UInt8 := t.flatMap encode

/-- A decoder between two bytes: the bytes of the sequence that has started. -/
structure Decoder where
  pending : List UInt8 := []
  deriving DecidableEq, Repr

namespace Decoder

/-- Whether a sequence has started and is not complete. -/
def hasPending (d : Decoder) : Bool := !d.pending.isEmpty

/-- A byte between two sequences. -/
def start (b : UInt8) : Decoder × Text :=
  match sequenceLength b with
  | some 1 => ({}, [Char.ofNat b.toNat])
  | some _ => ({ pending := [b] }, [])
  | none => ({}, [replacement])

/-- One byte: the decoder after it and the code points it completes. -/
def step (d : Decoder) (b : UInt8) : Decoder × Text :=
  match d.pending with
  | [] => start b
  | lead :: rest =>
    if isTail b then
      let bytes := lead :: rest ++ [b]
      match sequenceLength lead with
      | none => ({}, [replacement])
      | some n =>
        if bytes.length = n then ({}, [(decodeSequence bytes).getD replacement])
        else ({ pending := bytes }, [])
    else
      let (fresh, out) := start b
      (fresh, replacement :: out)

/-- A chunk of bytes: the decoder after it and the code points it completes. -/
def decode (d : Decoder) (bytes : List UInt8) : Decoder × Text := collect step d bytes

/-- The end of the stream: a sequence that is still unfinished becomes one replacement. -/
def finish (d : Decoder) : Decoder × Option Char :=
  ({}, if d.hasPending then some replacement else none)

end Decoder

end LineEditor.Utf8
