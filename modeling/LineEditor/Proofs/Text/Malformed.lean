import LineEditor.Proofs.Text.Resync

/-!
What malformed bytes are read as. Any bytes, however they arrive, fall into pieces, one for each code
point that is read of them: the piece is the code point as it is written, or it is malformed in one of
three ways and stands as a replacement. No bytes are read as a code point that is written otherwise.

Main definitions: `Group`, a lead byte with continuation bytes, `Piece`, the ways to read a piece, and
`Segmented`, pieces that are read one behind the other. Main statements: `piece_of_complete`, what a
complete group is read as, `Waiting.step`, what waits between two bytes, and `segmented_of_chunks`.
-/
namespace LineEditor.Utf8

/-! ### Groups -/

/-- A lead byte with continuation bytes behind it, `missing` fewer than it asks for. -/
structure Group (missing : Nat) (lead : UInt8) (tails : List UInt8) : Prop where
  asked : sequenceLength lead = some (tails.length + 1 + missing)
  continued : ∀ b ∈ tails, isTail b = true

/-- The number in a group: the low bits of its lead, then six bits of each continuation byte. -/
def groupValue (lead : UInt8) (tails : List UInt8) : Nat :=
  tails.foldl (fun n b => n * 64 + b.toNat % 64) (lead.toNat % Nat.pow 2 (6 - tails.length))

/-- The least number that needs so many continuation bytes. -/
def leastValue : Nat → Nat
  | 0 => 0
  | 1 => 0x80
  | 2 => 0x800
  | _ => 0x10000

/-- How a piece of the bytes is read in front of the rest of them: as the code point that it is the
writing of, or as a replacement. -/
inductive Piece (rest : List UInt8) : List UInt8 → Char → Prop
  | written (c : Char) : Piece rest (encode c) c
  /-- A byte that starts nothing: a stray continuation byte or a reserved one. -/
  | stray {b : UInt8} (hb : 0x80 ≤ b.toNat ∧ b.toNat < 0xC0 ∨ 0xF8 ≤ b.toNat) :
    Piece rest [b] replacement
  /-- A group that is broken off, by a byte that does not continue it or by the end. -/
  | brokenOff {missing : Nat} {lead : UInt8} {tails : List UInt8}
      (hgroup : Group missing lead tails) (hmissing : missing ≠ 0)
      (hrest : ∀ b ∈ rest.head?, isTail b = false) : Piece rest (lead :: tails) replacement
  /-- A complete group that is too long for its number, or whose number is no scalar value. -/
  | refused {lead : UInt8} {tails : List UInt8} (hgroup : Group 0 lead tails) (htails : tails ≠ [])
      (hvalue : groupValue lead tails < leastValue tails.length ∨
        0xD800 ≤ groupValue lead tails ∧ groupValue lead tails ≤ 0xDFFF ∨
        0x10FFFF < groupValue lead tails) : Piece rest (lead :: tails) replacement

/-- Pieces one behind the other, each read in front of those that follow it. -/
inductive Segmented : List (List UInt8 × Char) → Prop
  | nil : Segmented []
  | cons {bytes : List UInt8} {c : Char} {ps : List (List UInt8 × Char)}
      (hpiece : Piece (ps.flatMap Prod.fst) bytes c) (hrest : Segmented ps) :
      Segmented ((bytes, c) :: ps)

variable {lead b : UInt8} {tails bytes rest : List UInt8} {missing : Nat}

theorem Piece.ne_nil {c : Char} (h : Piece rest bytes c) : bytes ≠ [] := by
  cases h with
  | written =>
    obtain ⟨lead, tails, hlead, -⟩ := encode_eq_cons c
    rw [hlead]
    exact List.cons_ne_nil lead tails
  | stray | brokenOff | refused => exact List.cons_ne_nil _ _

theorem Segmented.ne_nil {ps : List (List UInt8 × Char)} (h : Segmented ps) : ∀ p ∈ ps, p.1 ≠ [] := by
  induction h with
  | nil => intro p hp; cases hp
  | cons hpiece _ ih => exact List.forall_mem_cons.2 ⟨hpiece.ne_nil, ih⟩

/-- Only a malformed piece is read as a replacement. -/
theorem Segmented.flatMap_fst {ps : List (List UInt8 × Char)} (h : Segmented ps)
    (hgood : replacement ∉ ps.map Prod.snd) : ps.flatMap Prod.fst = encodeText (ps.map Prod.snd) := by
  induction h with
  | nil => rfl
  | @cons bytes c ps hpiece _ ih =>
    rw [List.map_cons, List.mem_cons, not_or] at hgood
    have hwritten : bytes = encode c := by
      cases hpiece with
      | written => rfl
      | stray | brokenOff | refused => exact absurd rfl hgood.1
    rw [List.flatMap_cons, ih hgood.2, hwritten]
    rfl

/-! ### Complete groups -/

theorem isTail_iff : isTail b = true ↔ 0x80 ≤ b.toNat ∧ b.toNat < 0xC0 := by
  rw [isTail, Bool.and_eq_true, decide_eq_true_iff, decide_eq_true_iff, UInt8.le_iff_toNat_le,
    UInt8.lt_iff_toNat_lt]
  rfl

theorem sequenceLength_eq (b : UInt8) : sequenceLength b =
    if b.toNat < 0x80 then some 1
    else if b.toNat < 0xC0 then none
    else if b.toNat < 0xE0 then some 2
    else if b.toNat < 0xF0 then some 3
    else if b.toNat < 0xF8 then some 4
    else none := by
  simpa using sequenceLength_ofNat b.toNat_lt

/-- The first bytes of each length. -/
theorem of_sequenceLength {n : Nat} (h : sequenceLength lead = some n) :
    n = 1 ∧ lead.toNat < 0x80 ∨ n = 2 ∧ 0xC0 ≤ lead.toNat ∧ lead.toNat < 0xE0 ∨
      n = 3 ∧ 0xE0 ≤ lead.toNat ∧ lead.toNat < 0xF0 ∨
      n = 4 ∧ 0xF0 ≤ lead.toNat ∧ lead.toNat < 0xF8 := by
  rw [sequenceLength_eq] at h
  grind

theorem eq_ofNat {n : Nat} (h : b.toNat = n) : UInt8.ofNat n = b := by
  rw [← h, UInt8.ofNat_toNat]

/-- The decoder packs a group as its number is defined. -/
theorem decodeSequence_group (hgroup : Group 0 lead tails) (htails : tails ≠ []) :
    decodeSequence (lead :: tails) = scalar? (leastValue tails.length) (groupValue lead tails) := by
  have hlength := of_sequenceLength hgroup.asked
  match tails with
  | [] => exact absurd rfl htails
  | [_] | [_, _] | [_, _, _] => rfl
  | _ :: _ :: _ :: _ :: _ =>
    simp only [List.length_cons] at hlength
    omega

-- Each byte of a group is got back from the number that it is packed into, by the ranges of the bytes.
theorem encode_of_two {c : Char} {b₁ b₂ : UInt8} (hlead : 0xC0 ≤ b₁.toNat ∧ b₁.toNat < 0xE0)
    (h₂ : isTail b₂ = true) (hleast : 0x80 ≤ c.toNat)
    (hc : c.toNat = b₁.toNat % 32 * 64 + b₂.toNat % 64) : encode c = [b₁, b₂] := by
  rw [isTail_iff] at h₂
  simp only [encode]
  rw [if_neg (by omega), if_pos (by omega), eq_ofNat (b := b₁) (by omega),
    eq_ofNat (b := b₂) (by omega)]

theorem encode_of_three {c : Char} {b₁ b₂ b₃ : UInt8} (hlead : 0xE0 ≤ b₁.toNat ∧ b₁.toNat < 0xF0)
    (h₂ : isTail b₂ = true) (h₃ : isTail b₃ = true) (hleast : 0x800 ≤ c.toNat)
    (hc : c.toNat = (b₁.toNat % 16 * 64 + b₂.toNat % 64) * 64 + b₃.toNat % 64) :
    encode c = [b₁, b₂, b₃] := by
  rw [isTail_iff] at h₂ h₃
  simp only [encode]
  rw [if_neg (by omega), if_neg (by omega), if_pos (by omega), eq_ofNat (b := b₁) (by omega),
    eq_ofNat (b := b₂) (by omega), eq_ofNat (b := b₃) (by omega)]

theorem encode_of_four {c : Char} {b₁ b₂ b₃ b₄ : UInt8}
    (hlead : 0xF0 ≤ b₁.toNat ∧ b₁.toNat < 0xF8) (h₂ : isTail b₂ = true) (h₃ : isTail b₃ = true)
    (h₄ : isTail b₄ = true) (hleast : 0x10000 ≤ c.toNat)
    (hc : c.toNat =
      ((b₁.toNat % 8 * 64 + b₂.toNat % 64) * 64 + b₃.toNat % 64) * 64 + b₄.toNat % 64) :
    encode c = [b₁, b₂, b₃, b₄] := by
  rw [isTail_iff] at h₂ h₃ h₄
  simp only [encode]
  rw [if_neg (by omega), if_neg (by omega), if_neg (by omega), eq_ofNat (b := b₁) (by omega),
    eq_ofNat (b := b₂) (by omega), eq_ofNat (b := b₃) (by omega), eq_ofNat (b := b₄) (by omega)]

/-- A group whose number needs its length is how the code point of that number is written. -/
theorem encode_eq_group {c : Char} (hgroup : Group 0 lead tails) (htails : tails ≠ [])
    (hleast : leastValue tails.length ≤ c.toNat) (hc : c.toNat = groupValue lead tails) :
    encode c = lead :: tails := by
  have hlead := of_sequenceLength hgroup.asked
  have hcontinued := hgroup.continued
  match tails with
  | [] => exact absurd rfl htails
  | [b₂] =>
    simp only [List.forall_mem_cons, List.length_cons, List.length_nil] at hcontinued hlead
    exact encode_of_two (by omega) hcontinued.1 hleast hc
  | [b₂, b₃] =>
    simp only [List.forall_mem_cons, List.length_cons, List.length_nil] at hcontinued hlead
    exact encode_of_three (by omega) hcontinued.1 hcontinued.2.1 hleast hc
  | [b₂, b₃, b₄] =>
    simp only [List.forall_mem_cons, List.length_cons, List.length_nil] at hcontinued hlead
    exact encode_of_four (by omega) hcontinued.1 hcontinued.2.1 hcontinued.2.2.1 hleast hc
  | _ :: _ :: _ :: _ :: _ =>
    simp only [List.length_cons] at hlead
    omega

/-- A complete group is read as the code point that it is the writing of, or it is refused. -/
theorem piece_of_complete (hgroup : Group 0 lead tails) (htails : tails ≠ []) :
    Piece rest (lead :: tails) ((decodeSequence (lead :: tails)).getD replacement) := by
  rw [decodeSequence_group hgroup htails, scalar?]
  split
  · rename_i h
    have hc := toNat_ofNat h.2
    have hwritten := encode_eq_group hgroup htails (by rw [hc]; exact h.1) hc
    rw [Option.getD_some, ← hwritten]
    exact .written _
  · rename_i h
    rw [Nat.isValidChar] at h
    exact .refused hgroup htails (by omega)

/-! ### A stream -/

namespace Decoder

variable {d : Decoder}

/-- What waits in a decoder: nothing, or a group that is not complete. -/
def Waiting (d : Decoder) : Prop :=
  d.pending = [] ∨
    ∃ lead tails missing, d.pending = lead :: tails ∧ Group missing lead tails ∧ missing ≠ 0

theorem waiting_empty : Waiting {} := .inl rfl

theorem waiting_start (b : UInt8) : (start b).1.Waiting := by
  rw [start]
  split
  · exact waiting_empty
  · rename_i n hone hlength
    have hlead := of_sequenceLength hlength
    have hmissing : n = ([] : List UInt8).length + 1 + (n - 1) := by
      rw [List.length_nil]
      omega
    exact .inr ⟨b, [], n - 1, rfl, ⟨by rw [hlength, ← hmissing], fun _ h => absurd h List.not_mem_nil⟩,
      by grind⟩
  · exact waiting_empty

/-- A continuation byte completes the group that waits, or it goes on waiting. -/
theorem step_of_isTail (hgroup : Group missing lead tails) (hb : isTail b = true) :
    step ⟨lead :: tails⟩ b =
      if missing = 1 then ({}, [(decodeSequence (lead :: (tails ++ [b]))).getD replacement])
      else (⟨lead :: (tails ++ [b])⟩, []) := by
  have hlast : (lead :: (tails ++ [b])).length = tails.length + 1 + missing ↔ missing = 1 := by
    rw [List.length_cons, List.length_append, List.length_singleton]
    omega
  rw [step]
  dsimp only
  rw [if_pos hb, hgroup.asked]
  simp only [List.cons_append, hlast]

/-- A continuation byte brings a group closer to its end. -/
theorem Group.snoc {missing : Nat} (hgroup : Group (missing + 1) lead tails) (hb : isTail b = true) :
    Group missing lead (tails ++ [b]) where
  asked := by
    rw [hgroup.asked, List.length_append, List.length_singleton]
    congr 1
    omega
  continued := by
    simpa [or_imp, forall_and] using ⟨hgroup.continued, hb⟩

theorem Waiting.step (hd : d.Waiting) (b : UInt8) : (d.step b).1.Waiting := by
  by_cases hb : isTail b = true
  · obtain ⟨pending⟩ := d
    obtain rfl | ⟨lead, tails, missing, rfl, hgroup, hmissing⟩ := hd
    · exact waiting_start b
    · obtain ⟨missing, rfl⟩ := Nat.exists_eq_succ_of_ne_zero hmissing
      rw [step_of_isTail hgroup hb]
      split
      · exact waiting_empty
      · exact .inr ⟨lead, _, missing, rfl, Group.snoc hgroup hb, by omega⟩
  · rw [step_of_not_isTail d (Bool.not_eq_true _ ▸ hb)]
    exact waiting_start b

theorem Waiting.decode (hd : d.Waiting) (bytes : List UInt8) : (d.decode bytes).1.Waiting := by
  induction bytes generalizing d with
  | nil => exact hd
  | cons b bytes ih =>
    rw [decode, collect_cons]
    exact ih (hd.step b)

theorem Waiting.length_le (hd : d.Waiting) : d.pending.length ≤ 3 := by
  obtain hnone | ⟨lead, tails, missing, hpending, hgroup, hmissing⟩ := hd
  · rw [hnone]
    exact Nat.zero_le 3
  · have hlength := of_sequenceLength hgroup.asked
    rw [hpending, List.length_cons]
    omega

theorem Waiting.sequenceLength_ne_none (hd : d.Waiting) :
    ∀ lead ∈ d.pending.head?, sequenceLength lead ≠ none := by
  obtain hnone | ⟨lead, tails, missing, hpending, hgroup, -⟩ := hd
  · simp [hnone]
  · simp [hpending, hgroup.asked]

/-- All that is read of the bytes and of the end behind them. -/
def readOut (d : Decoder) (bytes : List UInt8) : Text :=
  (d.decode bytes).2 ++ (d.decode bytes).1.finish.2.toList

theorem readOut_cons (d : Decoder) (b : UInt8) (bytes : List UInt8) :
    d.readOut (b :: bytes) = (d.step b).2 ++ (d.step b).1.readOut bytes := by
  rw [readOut, decode, collect_cons, List.append_assoc]
  rfl

/-- The bytes that wait and the bytes to come fall into pieces, and what is read are theirs. -/
def Segments (d : Decoder) (bytes : List UInt8) : Prop :=
  ∃ ps, Segmented ps ∧ ps.flatMap Prod.fst = d.pending ++ bytes ∧ ps.map Prod.snd = d.readOut bytes

/-- A piece in front. -/
theorem Segments.cons {d' : Decoder} {bytes' piece : List UInt8} {c : Char} (h : d'.Segments bytes')
    (hpiece : Piece (d'.pending ++ bytes') piece c)
    (hbytes : d.pending ++ bytes = piece ++ (d'.pending ++ bytes'))
    (hread : d.readOut bytes = c :: d'.readOut bytes') : d.Segments bytes := by
  obtain ⟨ps, hps, hfst, hsnd⟩ := h
  refine ⟨(piece, c) :: ps, .cons (by rwa [hfst]) hps, ?_, ?_⟩
  · rw [List.flatMap_cons, hfst, hbytes]
  · rw [List.map_cons, hsnd, hread]

/-- The first byte of a piece: it is a piece itself, or waits. -/
theorem segments_start (b : UInt8) (ih : ∀ {d : Decoder}, d.Waiting → d.Segments bytes) :
    Segments {} (b :: bytes) := by
  have hstep : step {} b = start b := rfl
  cases hlength : sequenceLength b with
  | none =>
    have hstart : start b = ({}, [replacement]) := by rw [start, hlength]
    have hb : 0x80 ≤ b.toNat ∧ b.toNat < 0xC0 ∨ 0xF8 ≤ b.toNat := by
      rw [sequenceLength_eq] at hlength
      grind
    refine (ih waiting_empty).cons (.stray hb) rfl ?_
    rw [readOut_cons, hstep, hstart]
    rfl
  | some n =>
    by_cases hone : n = 1
    · have hlead := of_sequenceLength hlength
      have hstart : start b = ({}, [Char.ofNat b.toNat]) := by
        rw [start, hlength, hone]
        rfl
      have hc : (Char.ofNat b.toNat).toNat = b.toNat := toNat_ofNat (.inl (by omega))
      have hwritten : encode (Char.ofNat b.toNat) = [b] := by
        simp only [encode, hc]
        rw [if_pos (by omega), UInt8.ofNat_toNat]
      have hpiece : Piece bytes [b] (Char.ofNat b.toNat) := by
        rw [← hwritten]
        exact .written _
      refine (ih waiting_empty).cons hpiece rfl ?_
      rw [readOut_cons, hstep, hstart]
      rfl
    · have hstart : start b = (⟨[b]⟩, []) := by
        rw [start, hlength]
        split <;> simp_all
      have hwaits := waiting_start b
      rw [hstart] at hwaits
      obtain ⟨ps, hps, hfst, hsnd⟩ := ih hwaits
      refine ⟨ps, hps, hfst, ?_⟩
      rw [hsnd, readOut_cons, hstep, hstart]
      rfl

/-- Whatever waits and whatever comes, it falls into pieces. By induction on what comes: each byte is a
piece, or completes one, or goes on waiting, or breaks one off and is then as if it came first. -/
theorem segments_of_waiting (hd : d.Waiting) (bytes : List UInt8) : d.Segments bytes := by
  induction bytes generalizing d with
  | nil =>
    obtain ⟨pending⟩ := d
    obtain rfl | ⟨lead, tails, missing, rfl, hgroup, hmissing⟩ := hd
    · exact ⟨[], .nil, rfl, rfl⟩
    · exact ⟨[(lead :: tails, replacement)], .cons (.brokenOff hgroup hmissing nofun) .nil, rfl, rfl⟩
  | cons b bytes ih =>
    obtain ⟨pending⟩ := d
    obtain rfl | ⟨lead, tails, missing, rfl, hgroup, hmissing⟩ := hd
    · exact segments_start b ih
    · by_cases hb : isTail b = true
      · obtain ⟨missing, rfl⟩ := Nat.exists_eq_succ_of_ne_zero hmissing
        have hmore := Group.snoc hgroup hb
        have hstep := step_of_isTail hgroup hb
        by_cases hlast : missing = 0
        · subst hlast
          rw [if_pos rfl] at hstep
          refine (ih waiting_empty).cons (piece_of_complete hmore (by simp)) (by simp) ?_
          rw [readOut_cons, hstep]
          rfl
        · rw [if_neg (by omega)] at hstep
          obtain ⟨ps, hps, hfst, hsnd⟩ := ih (.inr ⟨lead, _, missing, rfl, hmore, hlast⟩)
          refine ⟨ps, hps, by simpa using hfst, ?_⟩
          rw [hsnd, readOut_cons, hstep]
          rfl
      · have hb : isTail b = false := Bool.not_eq_true _ ▸ hb
        refine (segments_start b ih).cons (.brokenOff hgroup hmissing (by simpa using hb)) rfl ?_
        rw [readOut_cons, readOut_cons, step_of_not_isTail _ hb]
        rfl

/-- The text read from bytes that arrive in chunks, and then end. -/
def textOf (chunks : List (List UInt8)) : Text :=
  (collect decode {} chunks).2 ++ (collect decode {} chunks).1.finish.2.toList

/-- Bytes that arrive in any chunks, and then end, fall into pieces that are not empty, one for each
code point that is read, in order: each is the writing of its code point, or is malformed and read as a
replacement. So if no replacement is read, then the bytes were the text as it is written. Between two
chunks nothing waits, or a lead byte with fewer continuation bytes than it asks for, at most three bytes
in all; and before no byte does anything wait whose first byte starts no sequence. -/
theorem segmented_of_chunks (chunks : List (List UInt8)) :
    (∃ ps, Segmented ps ∧ (∀ p ∈ ps, p.1 ≠ []) ∧ ps.flatMap Prod.fst = chunks.flatten ∧
        ps.map Prod.snd = textOf chunks) ∧
      (replacement ∉ textOf chunks → chunks.flatten = encodeText (textOf chunks)) ∧
      (collect decode {} chunks).1.Waiting ∧ (collect decode {} chunks).1.pending.length ≤ 3 ∧
      ∀ seen, seen <+: chunks.flatten →
        ∀ lead ∈ (decode {} seen).1.pending.head?, sequenceLength lead ≠ none := by
  rw [textOf, collect_decode]
  obtain ⟨ps, hps, hfst, hsnd⟩ := segments_of_waiting waiting_empty chunks.flatten
  have hwaits := waiting_empty.decode chunks.flatten
  refine ⟨⟨ps, hps, hps.ne_nil, hfst, hsnd⟩, fun hgood => ?_, hwaits, hwaits.length_le,
    fun seen _ => (waiting_empty.decode seen).sequenceLength_ne_none⟩
  rw [readOut] at hsnd
  rw [← hsnd] at hgood ⊢
  rw [← hps.flatMap_fst hgood, hfst]
  rfl

/-- Overlong forms and surrogates are each read as one replacement, also where a read ends inside. -/
example : collect decode {} [[0xC0, 0x80], [0xED, 0xA0], [0x80, 0x61]] =
    ({}, [replacement, replacement, 'a']) := by decide

end Decoder

end LineEditor.Utf8
