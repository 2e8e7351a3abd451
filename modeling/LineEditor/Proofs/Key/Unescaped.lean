import LineEditor.Proofs.Key.Cuts
import LineEditor.Proofs.Text.Only
import LineEditor.Proofs.Text.Utf8
import Mathlib.Data.List.Basic

/-!
Input without an escape. No byte but the escape's own is ever decoded to an escape, and in input
without one every event is a single code point: none is the escape key or a meta chord, whichever
chords are recognized, and the two tables for inserting bind it in the same way.

Main definitions: `Text.Unescaped` and `KeyEvent.Unescaped`. Main statements: `unescaped_decode` and
`unescaped_deliveries` for what arrives, `next_unescaped` for the events in it, and
`lookup?_viInsert` for what they are bound to.
-/
namespace LineEditor

/-- No code point is an escape. -/
def Text.Unescaped (t : Text) : Prop := t.Only (· ≠ Key.esc)

/-! ### Arriving -/

namespace Utf8

variable {c : Char} {b : UInt8} {bytes : List UInt8}

theorem le_of_scalar? {least n : Nat} (h : scalar? least n = some c) : least ≤ c.toNat := by
  rw [scalar?] at h
  split at h
  · rename_i hn
    cases h
    rw [toNat_ofNat hn.2]
    exact hn.1
  · cases h

/-- A sequence of several bytes is no ASCII character. -/
theorem le_of_decodeSequence (h : decodeSequence bytes = some c) : 0x80 ≤ c.toNat := by
  unfold decodeSequence at h
  split at h
  · exact le_of_scalar? h
  · exact Nat.le_trans (by decide) (le_of_scalar? h)
  · exact Nat.le_trans (by decide) (le_of_scalar? h)
  · cases h

namespace Decoder

theorem eq_of_mem_start (hc : c.toNat < 0x80) (h : c ∈ (start b).2) : b = UInt8.ofNat c.toNat := by
  rw [start] at h
  split at h
  · obtain rfl := List.mem_singleton.1 h
    have hvalid : b.toNat.isValidChar := .inl (Nat.lt_trans b.toNat_lt (by decide))
    rw [toNat_ofNat hvalid, UInt8.ofNat_toNat]
  · cases h
  · obtain rfl := List.mem_singleton.1 h
    exact absurd hc (by decide)

theorem eq_of_mem_step (hc : c.toNat < 0x80) {d : Decoder} (h : c ∈ (step d b).2) :
    b = UInt8.ofNat c.toNat := by
  have hreplacement : c ≠ replacement := by
    rintro rfl
    exact absurd hc (by decide)
  rw [step] at h
  split at h
  · exact eq_of_mem_start hc h
  · split at h
    · dsimp only at h
      split at h
      · exact absurd (List.mem_singleton.1 h) hreplacement
      · split at h
        · cases hdecoded : decodeSequence _ with
          | none =>
            rw [hdecoded] at h
            exact absurd (List.mem_singleton.1 h) hreplacement
          | some c' =>
            rw [hdecoded] at h
            obtain rfl := List.mem_singleton.1 h
            exact absurd (le_of_decodeSequence hdecoded) (Nat.not_le_of_lt hc)
        · cases h
    · rcases List.mem_cons.1 h with hfirst | hstart
      · exact absurd hfirst hreplacement
      · exact eq_of_mem_start hc hstart

/-- An ASCII character is decoded from its own byte only. -/
theorem mem_of_mem_decode (hc : c.toNat < 0x80) {d : Decoder} (h : c ∈ (decode d bytes).2) :
    UInt8.ofNat c.toNat ∈ bytes := by
  induction bytes generalizing d with
  | nil => cases h
  | cons b bytes ih =>
    rw [decode, collect_cons] at h
    rcases List.mem_append.1 h with hfirst | hrest
    · exact List.mem_cons.2 (.inl (eq_of_mem_step hc hfirst).symm)
    · exact List.mem_cons_of_mem _ (ih hrest)

/-- Bytes without the escape's own are decoded to text without an escape, whatever came before. -/
theorem unescaped_decode (hbytes : 0x1B ∉ bytes) (d : Decoder) : (decode d bytes).2.Unescaped := by
  rintro c hc rfl
  exact hbytes (mem_of_mem_decode (by decide) hc)

end Decoder

end Utf8

namespace ControlChars

/-- Every read is part of the chunk. -/
theorem subset_of_read_mem_splitFrom (cc : ControlChars) {t run chunk : Text}
    (h : .read t ∈ cc.splitFrom run chunk) : t ⊆ run ++ chunk := by
  have hflush : ∀ run : Text, .read t ∈ flush run → t ⊆ run := by
    intro run hmem
    rw [flush] at hmem
    split at hmem
    · cases hmem
    · cases List.mem_singleton.1 hmem
      exact (List.reverse_subset).2 (List.Subset.refl run)
  induction chunk generalizing run with
  | nil =>
    rw [List.append_nil]
    exact hflush run h
  | cons c rest ih =>
    rw [splitFrom] at h
    split at h
    · rcases List.mem_append.1 h with hrun | hrest
      · exact List.subset_append_of_subset_left _ (hflush run hrun)
      · rcases List.mem_cons.1 hrest with hsignal | hrest
        · cases hsignal
        · exact List.subset_append_of_subset_right _ (List.subset_cons_of_subset c (ih hrest))
    · intro x hmem
      have hx := ih h hmem
      simp only [List.cons_append, List.mem_cons, List.mem_append] at hx ⊢
      exact or_left_comm.1 hx

theorem subset_of_read_mem_split (cc : ControlChars) {listening : Bool} {t chunk : Text}
    (h : .read t ∈ cc.split listening chunk) : t ⊆ chunk := by
  rw [split] at h
  split at h
  · exact cc.subset_of_read_mem_splitFrom h
  · split at h
    · cases h
    · cases List.mem_singleton.1 h
      exact List.Subset.refl _

end ControlChars

/-- Text without an escape is delivered without one. -/
theorem Connection.unescaped_deliveries (c : Connection) {chunk t : Text} {o : Owner}
    (hchunk : chunk.Unescaped) (h : (o, .read t) ∈ c.deliveries chunk) : t.Unescaped := by
  obtain ⟨d, hd, hmem⟩ := List.mem_filterMap.1 h
  cases d with
  | read u =>
    obtain ⟨o', -, heq⟩ := Option.map_eq_some_iff.1 hmem
    cases heq
    exact hchunk.of_subset (c.controls.subset_of_read_mem_split hd)
  | signal s x =>
    obtain ⟨o', -, heq⟩ := Option.map_eq_some_iff.1 hmem
    cases heq

/-! ### Events -/

/-- An event that no escape starts. -/
def KeyEvent.Unescaped (e : KeyEvent) : Prop :=
  e ≠ .key .escape ∧ Bindings.isMetaChord e = false

namespace EventQueue

variable {recognizes recognizes' : Key → Bool} {q q' : EventQueue} {event : KeyEvent}

/-- The longest key depends on the keys only that the input starts with. -/
theorem longest?_congr {pending : Text}
    (h : ∀ x ∈ Key.sequences, x.1 <+: pending → recognizes x.2 = recognizes' x.2) :
    longest? recognizes pending = longest? recognizes' pending := by
  refine List.foldl_ext _ _ _ fun best x hx => ?_
  by_cases hstarts : x.1 <+: pending
  · rw [h x hx hstarts]
  · have hno : x.1.isPrefixOf pending = false := by
      rwa [Bool.eq_false_iff, ne_eq, List.isPrefixOf_iff_prefix]
    rw [hno, Bool.and_false, Bool.and_false]

/-- No sequence without an escape is a meta chord or the escape key. -/
theorem unescaped_of_mem_sequences :
    ∀ x ∈ Key.sequences, Key.esc ∉ x.1 → x.2.isMeta = false ∧ x.2 ≠ .escape := by decide

/-- In input without an escape the next event is a single code point, whichever keys are recognized
beyond these, and what stays is without one as well. -/
theorem next_unescaped (hq : q.pending.Unescaped)
    (hrecognizes : ∀ k, k.isMeta = false → recognizes k = recognizes' k) :
    q.next recognizes = q.next recognizes' ∧
      ∀ event left, q.next recognizes = some (event, left) →
        event.Unescaped ∧ left.pending.Unescaped := by
  have hsequence : ∀ x ∈ Key.sequences, x.1 <+: q.pending → Key.esc ∉ x.1 := fun x _ hstarts hesc =>
    hq _ (hstarts.subset hesc) rfl
  have hlongest := longest?_congr fun x hx hstarts =>
    hrecognizes _ (unescaped_of_mem_sequences x hx (hsequence x hx hstarts)).1
  obtain ⟨pending⟩ := q
  cases pending with
  | nil => exact ⟨rfl, nofun⟩
  | cons c rest =>
    dsimp only at hq hsequence hlongest
    cases hkey : longest? recognizes (c :: rest) with
    | none =>
      rw [next_of_none hkey, next_of_none (hlongest.symm.trans hkey)]
      refine ⟨rfl, fun event left hnext => ?_⟩
      cases hnext
      exact ⟨⟨nofun, rfl⟩, hq.of_subset (List.subset_cons_self c rest)⟩
    | some r =>
      obtain ⟨x, hx, -, hstarts, rfl⟩ := mem_of_longest? hkey
      obtain ⟨hmeta, hescape⟩ := unescaped_of_mem_sequences x hx (hsequence x hx hstarts)
      have hne : c :: rest ≠ [] := nofun
      rw [next_of_longest hne hkey, next_of_longest hne (hlongest.symm.trans hkey)]
      refine ⟨rfl, fun event left hnext => ?_⟩
      cases hnext
      exact ⟨⟨fun heq => hescape (KeyEvent.key.inj heq), hmeta⟩, hq.drop _⟩

end EventQueue

/-! ### Bindings -/

namespace Bindings

theorem lookup?_filter {entries : List (KeyEvent × Command)} {p : KeyEvent × Command → Bool}
    {e : KeyEvent} (h : ∀ k, p (e, k) = true) :
    lookup? ⟨entries.filter p⟩ e = lookup? ⟨entries⟩ e := by
  have hsame : (fun x : KeyEvent × Command => decide (p x = true ∧ decide (x.1 = e) = true)) =
      fun x => decide (x.1 = e) := by
    funext ⟨e', k⟩
    by_cases he : e' = e
    · subst he
      simp [h k]
    · simp [he]
  rw [lookup?, lookup?, List.find?_filter, hsame]

theorem lookup?_bind_of_ne {b : Bindings} {e e' : KeyEvent} {k : Command} (h : e ≠ e') :
    (b.bind e' k).lookup? e = b.lookup? e := by
  have hkept : lookup? ⟨b.entries.filter fun x => decide (x.1 ≠ e')⟩ e = b.lookup? e :=
    lookup?_filter fun _ => decide_eq_true h
  rw [← hkept, lookup?, bind, List.find?_cons_of_neg (by simpa using h.symm)]
  rfl

/-- Both tables for inserting bind what no escape starts in the same way. -/
theorem lookup?_viInsert {e : KeyEvent} (he : e.Unescaped) : viInsert.lookup? e = emacs.lookup? e := by
  rw [viInsert, lookup?_bind_of_ne he.1]
  refine lookup?_filter fun _ => ?_
  rw [he.2]
  rfl

end Bindings

end LineEditor
