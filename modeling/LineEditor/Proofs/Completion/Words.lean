import LineEditor.Completion.Candidates
import Mathlib.Data.Char
import Mathlib.Data.List.Lex
import Mathlib.Data.List.Nodup

/-!
Lists of words as candidates. A list of words offers exactly those of its words that start with the given
one, each once, and the common start of some candidates is the longest text that all of them start with.

Main definition: `Text.CommonStart`. Main statements: `Completer.mem_ofWords`, `Completer.nodup_ofWords`
and `commonStart_spec`.
-/
namespace LineEditor

variable {p q s t w x : Text} {words ts : List Text}

/-! ### Words in order -/

namespace Completer

/-- The order of words is the lexicographic order of their code points. -/
theorem precedes_iff : precedes s t = true ↔ s ≤ t := by
  rw [← not_lt]
  induction s generalizing t with
  | nil => simp [precedes]
  | cons a s ih =>
    cases t with
    | nil => simp [precedes]
    | cons b t =>
      have hlt : a.toNat < b.toNat ↔ a < b := Iff.rfl
      have hcons : ¬ b :: t < a :: s ↔ a < b ∨ a = b ∧ ¬ t < s := by
        rw [List.cons_lt_cons_iff, not_or, not_lt, not_and, le_iff_lt_or_eq]
        grind
      rw [hcons, ← ih, precedes, ← hlt]
      simp

/-- A word that is dropped is there once more. -/
@[simp] theorem mem_dedup : x ∈ dedup ts ↔ x ∈ ts := by
  induction ts using dedup.induct with
  | case1 a rest ih =>
    rw [dedup, if_pos rfl, ih]
    simp
  | case2 a b rest hne ih => rw [dedup, if_neg hne, List.mem_cons, ih, ← List.mem_cons]
  | case3 ts hshort =>
    rw [dedup]
    exact hshort

/-- In order, equal words are neighbours. -/
theorem pairwise_dedup (h : ts.Pairwise (· ≤ ·)) : (dedup ts).Pairwise (· < ·) := by
  induction ts using dedup.induct with
  | case1 a rest ih =>
    rw [dedup, if_pos rfl]
    exact ih h.of_cons
  | case2 a b rest hne ih =>
    rw [dedup, if_neg hne, List.pairwise_cons]
    refine ⟨fun y hy => ?_, ih h.of_cons⟩
    have hab : a < b := lt_of_le_of_ne (List.rel_of_pairwise_cons h (List.mem_cons_self ..)) hne
    rcases List.mem_cons.1 (mem_dedup.1 hy) with rfl | hrest
    · exact hab
    · exact hab.trans_le (List.rel_of_pairwise_cons h.of_cons hrest)
  | case3 ts hshort =>
    match ts, hshort with
    | [], _ => exact List.Pairwise.nil
    | [a], _ => exact List.pairwise_singleton ..
    | a :: b :: rest, hshort => exact (hshort a b rest rfl).elim

theorem pairwise_wordList (words : List Text) : (wordList words).Pairwise (· < ·) := by
  have htrans : ∀ a b c, precedes a b = true → precedes b c = true → precedes a c = true :=
    fun a b c hab hbc => precedes_iff.2 ((precedes_iff.1 hab).trans (precedes_iff.1 hbc))
  have htotal : ∀ a b, (precedes a b || precedes b a) = true := by
    intro a b
    simpa only [Bool.or_eq_true, precedes_iff] using le_total a b
  have hsorted := List.pairwise_mergeSort htrans htotal words
  exact pairwise_dedup (hsorted.imp precedes_iff.1)

@[simp] theorem mem_wordList : x ∈ wordList words ↔ x ∈ words := by
  rw [wordList, mem_dedup, List.mem_mergeSort]

/-- Words that are in order without repeats are left as they are. -/
theorem wordList_of_pairwise (h : words.Pairwise (· < ·)) : wordList words = words := by
  have hsorted : words.mergeSort precedes = words :=
    List.mergeSort_of_pairwise (h.imp fun hlt => precedes_iff.2 hlt.le)
  rw [wordList, hsorted]
  clear hsorted
  induction words using dedup.induct with
  | case1 a rest => exact absurd (List.rel_of_pairwise_cons h (List.mem_cons_self ..)) (lt_irrefl a)
  | case2 a b rest hne ih => rw [dedup, if_neg hne, ih h.of_cons]
  | case3 ts hshort =>
    rw [dedup]
    exact hshort

theorem ofWords_of_pairwise (h : words.Pairwise (· < ·)) :
    ofWords words = ⟨fun word => words.filter word.isPrefixOf⟩ := by
  rw [ofWords, wordList_of_pairwise h]

/-- A list of words offers those of its words that start with the given one. -/
theorem mem_ofWords : x ∈ (ofWords words).candidates w ↔ x ∈ words ∧ w <+: x := by
  change x ∈ (wordList words).filter w.isPrefixOf ↔ _
  rw [List.mem_filter, mem_wordList, List.isPrefixOf_iff_prefix]

/-- No word is offered twice. -/
theorem nodup_ofWords (words : List Text) (w : Text) : ((ofWords words).candidates w).Nodup :=
  List.Nodup.filter _ ((pairwise_wordList words).imp fun h => h.ne)

end Completer

/-! ### What candidates have in common -/

namespace Text

/-- The longest text that some texts all start with. -/
structure CommonStart (ts : List Text) (p : Text) : Prop where
  isPrefix : ∀ t ∈ ts, p <+: t
  longest : ∀ q, (∀ t ∈ ts, q <+: t) → q.length ≤ p.length

theorem CommonStart.unique (hts : ts ≠ []) (hp : CommonStart ts p) (hq : CommonStart ts q) : p = q := by
  obtain ⟨t, ht⟩ := List.exists_mem_of_ne_nil ts hts
  have hle : p.length ≤ q.length := hq.longest p hp.isPrefix
  have hpq : p <+: q := List.prefix_of_prefix_length_le (hp.isPrefix t ht) (hq.isPrefix t ht) hle
  exact hpq.eq_of_length (le_antisymm hle (hp.longest q hq.isPrefix))

/-- What two texts both start with is not longer than what they share. -/
theorem length_le_sharedLength (hs : p <+: s) (ht : p <+: t) : p.length ≤ sharedLength s t := by
  induction p generalizing s t with
  | nil => exact Nat.zero_le _
  | cons c p ih =>
    obtain ⟨s, rfl⟩ := hs
    obtain ⟨t, rfl⟩ := ht
    rw [List.cons_append, List.cons_append, sharedLength_cons, if_pos rfl, List.length_cons]
    exact Nat.succ_le_succ (ih (List.prefix_append ..) (List.prefix_append ..))

end Text

theorem commonStart_cons_cons (s t : Text) (ts : List Text) :
    commonStart (s :: t :: ts) = commonStart (s.take (Text.sharedLength s t) :: ts) := rfl

/-- Candidates start with their common start, and it with all that they start with. -/
theorem isPrefix_commonStart (t : Text) (ts : List Text) :
    (∀ x ∈ t :: ts, commonStart (t :: ts) <+: x) ∧
      ∀ q, (∀ x ∈ t :: ts, q <+: x) → q <+: commonStart (t :: ts) := by
  induction ts generalizing t with
  | nil =>
    have hsame : commonStart [t] = t := rfl
    rw [hsame]
    exact ⟨List.forall_mem_singleton.2 List.prefix_rfl, fun q hq => hq t (List.mem_singleton_self t)⟩
  | cons s ts ih =>
    obtain ⟨hcommon, hlongest⟩ := ih (t.take (Text.sharedLength t s))
    rw [commonStart_cons_cons]
    simp only [List.forall_mem_cons] at hcommon hlongest ⊢
    obtain ⟨hshared, hrest⟩ := hcommon
    refine ⟨⟨hshared.trans (List.take_prefix ..), ?_, hrest⟩, ?_⟩
    · rw [Text.take_sharedLength t s] at hshared ⊢
      exact hshared.trans (List.take_prefix ..)
    · rintro q ⟨ht, hs, hrest⟩
      exact hlongest q ⟨List.prefix_take_iff.2 ⟨ht, Text.length_le_sharedLength ht hs⟩, hrest⟩

/-- The common start of candidates is the longest text that all of them start with. -/
theorem commonStart_spec (hts : ts ≠ []) : Text.CommonStart ts (commonStart ts) := by
  cases ts with
  | nil => exact absurd rfl hts
  | cons t ts =>
    obtain ⟨hcommon, hlongest⟩ := isPrefix_commonStart t ts
    exact ⟨hcommon, fun q hq => (hlongest q hq).length_le⟩

end LineEditor
