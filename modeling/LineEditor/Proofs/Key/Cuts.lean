import LineEditor.Proofs.Engine.Core

/-!
Input that is cut between two events. Which event is next depends on all of the input that waits,
since the longest key wins; but an event that ends before a cut is read in the same way when what
follows the cut has not arrived yet.

Main definition: `EventQueue.Cuts`. Main statements: `longest?_append`, the longest key is in front
of the cut if it ends there, and `Cuts.next_eq`, the next event in front of a cut.
-/
namespace LineEditor.EventQueue

variable {recognizes : Key → Bool} {s t u : Text} {event : KeyEvent}

/-! ### The longest key -/

/-- One entry of the table of keys looked at; the longest key is what is left of all of them. -/
def longer (recognizes : Key → Bool) (pending : Text) (best : Option (Nat × Key))
    (e : Text × Key) : Option (Nat × Key) :=
  if best.all (fun b => b.1 < e.1.length) && recognizes e.2 && e.1.isPrefixOf pending
  then some (e.1.length, e.2) else best

/-- A longer key replaces a shorter one only. -/
theorem le_foldl_longer (recognizes : Key → Bool) (s : Text) (table : List (Text × Key))
    (b : Nat × Key) : ∃ r, table.foldl (longer recognizes s) (some b) = some r ∧ b.1 ≤ r.1 := by
  induction table generalizing b with
  | nil => exact ⟨b, rfl, Nat.le_refl _⟩
  | cons e table ih =>
    rw [List.foldl_cons, longer]
    split
    · rename_i hlonger
      obtain ⟨r, hr, hle⟩ := ih (e.1.length, e.2)
      simp only [Option.all_some, Bool.and_eq_true, decide_eq_true_eq] at hlonger
      exact ⟨r, hr, Nat.le_trans (Nat.le_of_lt hlonger.1.1) hle⟩
    · exact ih b

/-- What is found is what was found before or a recognized entry that the input starts with. -/
theorem mem_of_foldl_longer {table : List (Text × Key)} {best : Option (Nat × Key)} {r : Nat × Key}
    (h : table.foldl (longer recognizes s) best = some r) :
    best = some r ∨ ∃ e ∈ table, recognizes e.2 = true ∧ e.1 <+: s ∧ r = (e.1.length, e.2) := by
  induction table generalizing best with
  | nil => exact .inl h
  | cons e table ih =>
    rw [List.foldl_cons] at h
    rcases ih h with hbest | ⟨e', he', hr⟩
    · rw [longer] at hbest
      split at hbest
      · rename_i hlonger
        cases hbest
        simp only [Bool.and_eq_true, List.isPrefixOf_iff_prefix] at hlonger
        exact .inr ⟨e, List.mem_cons_self, hlonger.1.2, hlonger.2, rfl⟩
      · exact .inl hbest
    · exact .inr ⟨e', List.mem_cons_of_mem _ he', hr⟩

/-- The longest key is a recognized one that the input starts with. -/
theorem mem_of_longest? {r : Nat × Key} (h : longest? recognizes s = some r) :
    ∃ e ∈ Key.sequences, recognizes e.2 = true ∧ e.1 <+: s ∧ r = (e.1.length, e.2) :=
  (mem_of_foldl_longer h).resolve_left nofun

/-- Every key has at least one code point. -/
theorem longest?_pos {r : Nat × Key} (h : longest? recognizes s = some r) : 0 < r.1 := by
  have htable : ∀ e ∈ Key.sequences, 0 < e.1.length := by decide
  obtain ⟨e, he, -, -, rfl⟩ := mem_of_longest? h
  exact htable e he

theorem isPrefixOf_append {k : Text} (hk : k.length ≤ s.length) :
    k.isPrefixOf (s ++ t) = k.isPrefixOf s := by
  rw [Bool.eq_iff_iff, List.isPrefixOf_iff_prefix, List.isPrefixOf_iff_prefix]
  constructor
  · intro h
    exact List.prefix_of_prefix_length_le h (List.prefix_append s t) hk
  · intro h
    exact h.trans (List.prefix_append s t)

/-- If the longest key ends in front of a cut, then no key that goes on behind it was ever looked
at. -/
theorem foldl_longer_append (table : List (Text × Key)) (best : Option (Nat × Key))
    (hfits : ∀ r, table.foldl (longer recognizes (s ++ t)) best = some r → r.1 ≤ s.length) :
    table.foldl (longer recognizes s) best = table.foldl (longer recognizes (s ++ t)) best := by
  induction table generalizing best with
  | nil => rfl
  | cons e table ih =>
    rw [List.foldl_cons] at hfits ⊢
    rw [List.foldl_cons, ← ih _ hfits]
    congr 1
    by_cases hshort : e.1.length ≤ s.length
    · rw [longer, longer, isPrefixOf_append hshort]
    · have hbehind : e.1.isPrefixOf s = false := by
        rw [Bool.eq_false_iff, ne_eq, List.isPrefixOf_iff_prefix]
        exact fun hprefix => hshort hprefix.length_le
      have hkept : longer recognizes (s ++ t) best e = best := by
        rw [longer]
        refine if_neg fun htaken => hshort ?_
        rw [longer, if_pos htaken] at hfits
        obtain ⟨r, hr, hle⟩ := le_foldl_longer recognizes (s ++ t) table (e.1.length, e.2)
        exact Nat.le_trans hle (hfits r hr)
      rw [hkept, longer, hbehind, Bool.and_false]
      rfl

/-- The longest key is the same without what follows a cut behind it. -/
theorem longest?_append (hfits : ∀ r, longest? recognizes (s ++ t) = some r → r.1 ≤ s.length) :
    longest? recognizes s = longest? recognizes (s ++ t) :=
  foldl_longer_append Key.sequences none hfits

/-! ### Events -/

theorem next_of_longest {n : Nat} {k : Key} (hs : s ≠ [])
    (hlongest : longest? recognizes s = some (n, k)) :
    next recognizes ⟨s⟩ = some (.key k, ⟨s.drop n⟩) := by
  obtain ⟨c, rest, rfl⟩ := List.exists_cons_of_ne_nil hs
  simp only [next, hlongest]

theorem next_of_none {c : Char} {rest : Text}
    (hlongest : longest? recognizes (c :: rest) = none) :
    next recognizes ⟨c :: rest⟩ = some (.char c, ⟨rest⟩) := by
  simp only [next, hlongest]

theorem next_isSome (hs : s ≠ []) (recognizes : Key → Bool) :
    ∃ event q, next recognizes ⟨s⟩ = some (event, q) := by
  cases hlongest : longest? recognizes s with
  | none =>
    obtain ⟨c, rest, rfl⟩ := List.exists_cons_of_ne_nil hs
    exact ⟨_, _, next_of_none hlongest⟩
  | some r => exact ⟨_, _, next_of_longest hs hlongest⟩

/-- An event takes at least one code point. -/
theorem length_lt_of_next {q q' : EventQueue} (h : next recognizes q = some (event, q')) :
    q'.pending.length < q.pending.length := by
  obtain ⟨s⟩ := q
  cases hs : s with
  | nil =>
    rw [hs] at h
    cases h
  | cons c rest =>
    rw [hs] at h
    cases hlongest : longest? recognizes (c :: rest) with
    | none =>
      rw [next_of_none hlongest] at h
      cases h
      exact Nat.lt_succ_self _
    | some r =>
      rw [next_of_longest (List.cons_ne_nil c rest) hlongest] at h
      cases h
      have hpos := longest?_pos hlongest
      rw [List.length_drop]
      exact Nat.sub_lt (Nat.succ_pos _) hpos

/-- An event that ends in front of a cut is read without what follows the cut. -/
theorem next_append (hs : s ≠ []) (hnext : next recognizes ⟨s ++ t⟩ = some (event, ⟨u ++ t⟩)) :
    next recognizes ⟨s⟩ = some (event, ⟨u⟩) := by
  have hst : s ++ t ≠ [] := List.append_ne_nil_of_left_ne_nil hs t
  cases hlongest : longest? recognizes (s ++ t) with
  | none =>
    have hsame : longest? recognizes s = longest? recognizes (s ++ t) :=
      longest?_append fun r hr => by
        rw [hlongest] at hr
        cases hr
    rw [hlongest] at hsame
    obtain ⟨c, rest, rfl⟩ := List.exists_cons_of_ne_nil hs
    rw [List.cons_append] at hlongest hnext
    rw [next_of_none hlongest, Option.some.injEq, Prod.mk.injEq, EventQueue.mk.injEq] at hnext
    rw [next_of_none hsame, hnext.1, List.append_cancel_right hnext.2]
  | some r =>
    obtain ⟨n, k⟩ := r
    rw [next_of_longest hst hlongest, Option.some.injEq, Prod.mk.injEq,
      EventQueue.mk.injEq] at hnext
    obtain ⟨hkey, hleft⟩ := hnext
    by_cases ht : t = []
    · rw [ht, List.append_nil] at hlongest hleft
      rw [next_of_longest hs hlongest, hkey, hleft, List.append_nil]
    · have hfits : n ≤ s.length := by
        have hlength := congrArg List.length hleft
        have hpos := List.length_pos_iff.2 ht
        rw [List.length_drop, List.length_append, List.length_append] at hlength
        omega
      have hsame : longest? recognizes s = longest? recognizes (s ++ t) :=
        longest?_append fun r hr => by
          rw [hlongest, Option.some.injEq] at hr
          rw [← hr]
          exact hfits
      rw [hlongest] at hsame
      rw [List.drop_append_of_le_length hfits] at hleft
      rw [next_of_longest hs hsame, hkey, List.append_cancel_right hleft]

/-- Some number of events may be read of a text so that `t` is left. -/
def Cuts (recognizes : Key → Bool) (s t : Text) : Prop :=
  ∃ n, (take recognizes n ⟨s⟩).2.pending = t

/-- What an event leaves is behind what it takes. -/
theorem suffix_of_next {q q' : EventQueue} (h : next recognizes q = some (event, q')) :
    q'.pending <:+ q.pending := ⟨_, taken_append h⟩

/-- What is left is behind what was read. -/
theorem Cuts.suffix (h : Cuts recognizes s t) : t <:+ s := by
  obtain ⟨n, rfl⟩ := h
  induction n generalizing s with
  | zero => exact List.suffix_refl s
  | succ n ih =>
    rw [take]
    split
    · exact List.suffix_refl s
    · rename_i event q hnext
      obtain ⟨left⟩ := q
      exact ih.trans (suffix_of_next hnext)

/-- The next event does not go over a cut. -/
theorem Cuts.of_next {q : EventQueue} (h : Cuts recognizes s t)
    (hnext : next recognizes ⟨s⟩ = some (event, q)) (hlt : t.length < s.length) :
    Cuts recognizes q.pending t := by
  obtain ⟨n, hn⟩ := h
  cases n with
  | zero =>
    rw [← hn] at hlt
    exact absurd hlt (Nat.lt_irrefl _)
  | succ n =>
    rw [take, hnext] at hn
    exact ⟨n, hn⟩

/-- In front of a cut the next event is read in the same way as if nothing followed. -/
theorem Cuts.next_eq (h : Cuts recognizes (s ++ t) t) (hs : s ≠ []) :
    ∃ event u, next recognizes ⟨s⟩ = some (event, ⟨u⟩) ∧
      next recognizes ⟨s ++ t⟩ = some (event, ⟨u ++ t⟩) := by
  obtain ⟨event, q, hnext⟩ := next_isSome (List.append_ne_nil_of_left_ne_nil hs t) recognizes
  have hlt : t.length < (s ++ t).length := by
    rw [List.length_append]
    exact Nat.lt_add_of_pos_left (List.length_pos_iff.2 hs)
  obtain ⟨u, hu⟩ := (h.of_next hnext hlt).suffix
  have hq : q = ⟨u ++ t⟩ := by rw [hu]
  rw [hq] at hnext
  exact ⟨event, u, next_append hs hnext, hnext⟩

end LineEditor.EventQueue
