import LineEditor.Text.Utf8

/-!
What is written as UTF-8 is read back. The bytes of a text are decoded to the text, and the decoder
is then between two sequences.

Main statements: `decode_sequence`, a lead byte with the tails that it asks for is one sequence,
`decode_encode` for a code point and `decode_encodeText` for a text.
-/
namespace LineEditor.Utf8

/-! ### Bytes -/

theorem sequenceLength_ofNat {m : Nat} (hm : m < 256) : sequenceLength (UInt8.ofNat m) =
    if m < 0x80 then some 1
    else if m < 0xC0 then none
    else if m < 0xE0 then some 2
    else if m < 0xF0 then some 3
    else if m < 0xF8 then some 4
    else none := by
  have hnat : (UInt8.ofNat m).toNat = m := UInt8.toNat_ofNat_of_lt hm
  simp only [sequenceLength, UInt8.lt_iff_toNat_lt, hnat]
  rfl

/-- A byte that continues a sequence. -/
def tail (n : Nat) : UInt8 := UInt8.ofNat (0x80 + n % 64)

theorem toNat_tail (n : Nat) : (tail n).toNat = 0x80 + n % 64 := by
  rw [tail]
  exact UInt8.toNat_ofNat_of_lt (show 0x80 + n % 64 < 256 by omega)

theorem isTail_tail (n : Nat) : isTail (tail n) = true := by
  have hlow : (0x80 : UInt8).toNat = 0x80 := rfl
  have hhigh : (0xC0 : UInt8).toNat = 0xC0 := rfl
  rw [isTail, Bool.and_eq_true, decide_eq_true_iff, decide_eq_true_iff, UInt8.le_iff_toNat_le,
    UInt8.lt_iff_toNat_lt, toNat_tail, hlow, hhigh]
  omega

theorem tailBits_tail (n : Nat) : tailBits (tail n) = n % 64 := by
  rw [tailBits, toNat_tail]
  omega

theorem toNat_ofNat {n : Nat} (hn : n.isValidChar) : (Char.ofNat n).toNat = n := by
  rw [Char.ofNat, dif_pos hn]
  rfl

/-! ### Sequences -/

namespace Decoder

/-- The tails that a lead byte still asks for. -/
theorem decode_pending {lead : UInt8} {done rest : List UInt8}
    (hlead : sequenceLength lead = some (done.length + rest.length + 1)) (hrest : rest ≠ [])
    (htails : ∀ b ∈ rest, isTail b = true) : decode ⟨lead :: done⟩ rest =
      ({}, [(decodeSequence (lead :: (done ++ rest))).getD replacement]) := by
  induction rest generalizing done with
  | nil => exact absurd rfl hrest
  | cons b rest ih =>
    rw [List.forall_mem_cons] at htails
    have hstep : step ⟨lead :: done⟩ b = if rest = [] then
        ({}, [(decodeSequence (lead :: done ++ [b])).getD replacement])
        else (⟨lead :: (done ++ [b])⟩, []) := by
      rw [step]
      dsimp only
      rw [if_pos htails.1, hlead]
      cases rest with
      | nil => simp
      | cons b' rest => simp
    rw [decode, collect_cons, hstep]
    by_cases hlast : rest = []
    · rw [if_pos hlast, hlast]
      rfl
    · have hlead' : sequenceLength lead = some ((done ++ [b]).length + rest.length + 1) := by
        rw [hlead, List.length_append, List.length_cons, List.length_singleton]
        congr 1
        omega
      have hmore := ih hlead' hlast htails.2
      rw [decode] at hmore
      rw [if_neg hlast, hmore, List.append_assoc]
      rfl

/-- A lead byte with the tails that it asks for is one sequence. -/
theorem decode_sequence {lead : UInt8} {tails : List UInt8}
    (hlead : sequenceLength lead = some (tails.length + 1)) (htails : ∀ b ∈ tails, isTail b = true)
    (hsome : tails ≠ []) :
    decode {} (lead :: tails) = ({}, [(decodeSequence (lead :: tails)).getD replacement]) := by
  have hstart : step {} lead = (⟨[lead]⟩, []) := by
    obtain ⟨b, tails, rfl⟩ := List.exists_cons_of_ne_nil hsome
    change start lead = _
    rw [start, hlead]
    rfl
  have hasked : sequenceLength lead = some (([] : List UInt8).length + tails.length + 1) := by
    rw [hlead, List.length_nil, Nat.zero_add]
  have hrest := decode_pending hasked hsome htails
  rw [decode] at hrest
  rw [decode, collect_cons, hstart, hrest]
  rfl

/-! ### Code points -/

theorem scalar?_toNat {c : Char} {least : Nat} (h : least ≤ c.toNat) :
    scalar? least c.toNat = some c := by
  rw [scalar?, if_pos ⟨h, c.valid⟩, Char.ofNat_toNat]

theorem decode_encode_one {c : Char} (h : c.toNat < 0x80) :
    decode {} [UInt8.ofNat c.toNat] = ({}, [c]) := by
  have hbyte : (UInt8.ofNat c.toNat).toNat = c.toNat :=
    UInt8.toNat_ofNat_of_lt (show c.toNat < 256 by omega)
  have hstart : step {} (UInt8.ofNat c.toNat) = ({}, [c]) := by
    change start _ = _
    rw [start, sequenceLength_ofNat (by omega), if_pos h, hbyte, Char.ofNat_toNat]
    rfl
  rw [decode, collect_cons, hstart]
  rfl

theorem decode_encode_two {c : Char} (hlow : 0x80 ≤ c.toNat) (hhigh : c.toNat < 0x800) :
    decode {} [UInt8.ofNat (0xC0 + c.toNat / 64), tail c.toNat] = ({}, [c]) := by
  have hbyte : (UInt8.ofNat (0xC0 + c.toNat / 64)).toNat = 0xC0 + c.toNat / 64 :=
    UInt8.toNat_ofNat_of_lt (show 0xC0 + c.toNat / 64 < 256 by omega)
  have hlead : sequenceLength (UInt8.ofNat (0xC0 + c.toNat / 64)) = some 2 := by
    rw [sequenceLength_ofNat (by omega), if_neg (by omega), if_neg (by omega), if_pos (by omega)]
  have hvalue : (0xC0 + c.toNat / 64) % 32 * 64 + c.toNat % 64 = c.toNat := by omega
  rw [decode_sequence hlead (by simp [isTail_tail]) (by simp), decodeSequence, hbyte, tailBits_tail,
    hvalue, scalar?_toNat hlow]
  rfl

theorem decode_encode_three {c : Char} (hlow : 0x800 ≤ c.toNat) (hhigh : c.toNat < 0x10000) :
    decode {} [UInt8.ofNat (0xE0 + c.toNat / 4096), tail (c.toNat / 64), tail c.toNat] =
      ({}, [c]) := by
  have hbyte : (UInt8.ofNat (0xE0 + c.toNat / 4096)).toNat = 0xE0 + c.toNat / 4096 :=
    UInt8.toNat_ofNat_of_lt (show 0xE0 + c.toNat / 4096 < 256 by omega)
  have hlead : sequenceLength (UInt8.ofNat (0xE0 + c.toNat / 4096)) = some 3 := by
    rw [sequenceLength_ofNat (by omega), if_neg (by omega), if_neg (by omega), if_neg (by omega),
      if_pos (by omega)]
  have hvalue : ((0xE0 + c.toNat / 4096) % 16 * 64 + c.toNat / 64 % 64) * 64 + c.toNat % 64 =
      c.toNat := by omega
  rw [decode_sequence hlead (by simp [isTail_tail]) (by simp), decodeSequence, hbyte, tailBits_tail,
    tailBits_tail, hvalue, scalar?_toNat hlow]
  rfl

theorem decode_encode_four {c : Char} (hlow : 0x10000 ≤ c.toNat) :
    decode {} [UInt8.ofNat (0xF0 + c.toNat / 262144), tail (c.toNat / 4096), tail (c.toNat / 64),
      tail c.toNat] = ({}, [c]) := by
  have hlast : c.toNat < 0x110000 := by
    have hvalid : c.toNat.isValidChar := c.valid
    rw [Nat.isValidChar] at hvalid
    omega
  have hbyte : (UInt8.ofNat (0xF0 + c.toNat / 262144)).toNat = 0xF0 + c.toNat / 262144 :=
    UInt8.toNat_ofNat_of_lt (show 0xF0 + c.toNat / 262144 < 256 by omega)
  have hlead : sequenceLength (UInt8.ofNat (0xF0 + c.toNat / 262144)) = some 4 := by
    rw [sequenceLength_ofNat (by omega), if_neg (by omega), if_neg (by omega), if_neg (by omega),
      if_neg (by omega), if_pos (by omega)]
  have hvalue : (((0xF0 + c.toNat / 262144) % 8 * 64 + c.toNat / 4096 % 64) * 64 +
      c.toNat / 64 % 64) * 64 + c.toNat % 64 = c.toNat := by omega
  rw [decode_sequence hlead (by simp [isTail_tail]) (by simp), decodeSequence, hbyte, tailBits_tail,
    tailBits_tail, tailBits_tail, hvalue, scalar?_toNat hlow]
  rfl

/-- A code point is read back. -/
theorem decode_encode (c : Char) : decode {} (encode c) = ({}, [c]) := by
  simp only [encode]
  split
  · rename_i h
    exact decode_encode_one h
  · rename_i h
    split
    · rename_i h'
      exact decode_encode_two (Nat.not_lt.1 h) h'
    · rename_i h'
      split
      · rename_i h''
        exact decode_encode_three (Nat.not_lt.1 h') h''
      · rename_i h''
        exact decode_encode_four (Nat.not_lt.1 h'')

/-- A text is read back. -/
theorem decode_encodeText (t : Text) : decode {} (encodeText t) = ({}, t) := by
  induction t with
  | nil => rfl
  | cons c t ih =>
    have hc := decode_encode c
    rw [decode] at hc ih
    rw [decode, encodeText, List.flatMap_cons, collect_append, hc]
    dsimp only
    rw [← encodeText, ih]
    rfl

end Decoder

end LineEditor.Utf8
