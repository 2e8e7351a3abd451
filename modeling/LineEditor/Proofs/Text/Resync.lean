import LineEditor.Proofs.Text.Utf8

/-!
Where a decoder finds its way back. Whatever came before and wherever the reads cut the stream, the
first byte of a code point starts a sequence of its own: what was unfinished before it becomes one
replacement, and nothing of what follows is lost.

Main statements: `collect_decode`, the cuts between reads make no difference, and
`decode_after_garbage`, a text is read whole behind any bytes at all.
-/
namespace LineEditor.Utf8

/-! ### The first byte of a code point -/

theorem isTail_ofNat_eq_false {m : Nat} (hm : m < 256) (hlead : m < 0x80 ∨ 0xC0 ≤ m) :
    isTail (UInt8.ofNat m) = false := by
  have hnat : (UInt8.ofNat m).toNat = m := UInt8.toNat_ofNat_of_lt hm
  have hlow : (0x80 : UInt8).toNat = 0x80 := rfl
  have hhigh : (0xC0 : UInt8).toNat = 0xC0 := rfl
  rw [isTail, Bool.and_eq_false_iff, decide_eq_false_iff_not, decide_eq_false_iff_not,
    UInt8.le_iff_toNat_le, UInt8.lt_iff_toNat_lt, hnat, hlow, hhigh]
  omega

/-- A code point starts with a byte that continues nothing. -/
theorem encode_eq_cons (c : Char) : ∃ lead tails, encode c = lead :: tails ∧ isTail lead = false := by
  have hvalid : c.toNat.isValidChar := c.valid
  rw [Nat.isValidChar] at hvalid
  simp only [encode]
  split
  · exact ⟨_, _, rfl, isTail_ofNat_eq_false (by omega) (by omega)⟩
  · split
    · exact ⟨_, _, rfl, isTail_ofNat_eq_false (by omega) (by omega)⟩
    · split
      · exact ⟨_, _, rfl, isTail_ofNat_eq_false (by omega) (by omega)⟩
      · exact ⟨_, _, rfl, isTail_ofNat_eq_false (by omega) (by omega)⟩

namespace Decoder

/-- What the end of a sequence writes when the sequence is cut short. -/
def cutShort (d : Decoder) : Text := if d.hasPending then [replacement] else []

/-- A byte that continues nothing is read as if it came first; what was unfinished before it
becomes a replacement. -/
theorem step_of_not_isTail (d : Decoder) {b : UInt8} (hb : isTail b = false) :
    step d b = ((start b).1, d.cutShort ++ (start b).2) := by
  obtain ⟨pending⟩ := d
  cases pending with
  | nil => rfl
  | cons lead done =>
    rw [step]
    dsimp only
    rw [if_neg (by rw [hb]; exact Bool.false_ne_true)]
    rfl

/-! ### Reads -/

theorem decode_append (d : Decoder) (bytes more : List UInt8) : decode d (bytes ++ more) =
    ((decode (decode d bytes).1 more).1, (decode d bytes).2 ++ (decode (decode d bytes).1 more).2) :=
  collect_append step d bytes more

/-- The cuts between reads make no difference. -/
theorem collect_decode (d : Decoder) (chunks : List (List UInt8)) :
    collect decode d chunks = decode d chunks.flatten := by
  induction chunks generalizing d with
  | nil => rfl
  | cons chunk chunks ih =>
    rw [collect_cons, ih, List.flatten_cons, decode_append]

/-- A text is read whole from any state. -/
theorem decode_encodeText_of_ne_nil (d : Decoder) {t : Text} (ht : t ≠ []) :
    decode d (encodeText t) = ({}, d.cutShort ++ t) := by
  obtain ⟨c, t, rfl⟩ := List.exists_cons_of_ne_nil ht
  obtain ⟨lead, tails, hlead, hfirst⟩ := encode_eq_cons c
  have hbytes : encodeText (c :: t) = lead :: (tails ++ encodeText t) := by
    rw [encodeText, List.flatMap_cons, hlead, ← encodeText]
    rfl
  have hfresh := decode_encodeText (c :: t)
  have hnone : ({} : Decoder).cutShort = [] := rfl
  rw [hbytes, decode, collect_cons, step_of_not_isTail _ hfirst, hnone, List.nil_append,
    Prod.mk.injEq] at hfresh
  rw [hbytes, decode, collect_cons, step_of_not_isTail _ hfirst, List.append_assoc, hfresh.1,
    hfresh.2]

/-- Behind any bytes, and wherever the reads cut the stream, a text is read whole. What the bytes
before it left unfinished becomes one replacement, and nothing is unfinished after it. -/
theorem decode_after_garbage (garbage : List UInt8) {t : Text} (ht : t ≠ [])
    {chunks : List (List UInt8)} (hcut : chunks.flatten = garbage ++ encodeText t) :
    (collect decode {} chunks).2 = (decode {} garbage).2 ++
        (if (decode {} garbage).1.hasPending then [replacement] else []) ++ t ∧
      (collect decode {} chunks).1.hasPending = false ∧
      (collect decode {} chunks).1.finish.2 = none := by
  have hread : collect decode {} chunks =
      ({}, (decode {} garbage).2 ++ ((decode {} garbage).1.cutShort ++ t)) := by
    rw [collect_decode, hcut, decode_append, decode_encodeText_of_ne_nil _ ht]
  rw [hread, List.append_assoc]
  exact ⟨rfl, rfl, rfl⟩

theorem decode_after_garbage_of_cut_sequences :
    ['é', '€', '😀'] ≠ [] ∧
      [[0xFF, 0xE2, 0x82], [0xC3], [0xA9, 0xE2, 0x82], [], [0xAC, 0xF0, 0x9F], [0x98, 0x80]].flatten =
        [0xFF, 0xE2, 0x82] ++ encodeText ['é', '€', '😀'] ∧
      (collect decode {} [[0xFF, 0xE2, 0x82], [0xC3], [0xA9, 0xE2, 0x82], [], [0xAC, 0xF0, 0x9F],
        [0x98, 0x80]]).2 = [replacement] ++ [replacement] ++ ['é', '€', '😀'] ∧
      (collect decode {} [[0xFF, 0xE2, 0x82], [0xC3], [0xA9, 0xE2, 0x82], [], [0xAC, 0xF0, 0x9F],
        [0x98, 0x80]]).1.hasPending = false ∧
      (collect decode {} [[0xFF, 0xE2, 0x82], [0xC3], [0xA9, 0xE2, 0x82], [], [0xAC, 0xF0, 0x9F],
        [0x98, 0x80]]).1.finish.2 = none := by
  have hbytes : [[0xFF, 0xE2, 0x82], [0xC3], [0xA9, 0xE2, 0x82], [], [0xAC, 0xF0, 0x9F],
      [0x98, 0x80]].flatten = [0xFF, 0xE2, 0x82] ++ encodeText ['é', '€', '😀'] := by decide
  exact ⟨by decide, hbytes, decode_after_garbage [0xFF, 0xE2, 0x82] (by decide) hbytes⟩

end Decoder

end LineEditor.Utf8
