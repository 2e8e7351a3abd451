import LineEditor.Proofs.Key.Cuts

/-!
Key events by maximal munch. Whatever the order of the table and whichever keys are recognized, an
event is read of the longest entry that the input starts with, and of one code point where there is
none; what is read of the input and what still waits are all that arrived, in the order it came.

Main definitions: `EventQueue.Offers` and `EventQueue.Munches`, how input is read;
`EventQueue.Work` and `EventQueue.work`, a queue at work. Main statements: `munches_of_next`, what
one event takes, and `munches_without_loss`, what any work on a queue leaves.
-/
namespace LineEditor.EventQueue

variable {recognizes : Key → Bool} {s : Text} {event : KeyEvent} {q q' : EventQueue}

/-! ### One event -/

/-- Some input starts with an entry of the table of keys, and the entry's key is recognized. -/
def Offers (recognizes : Key → Bool) (s : Text) (e : Text × Key) : Prop :=
  e ∈ Key.sequences ∧ recognizes e.2 = true ∧ e.1 <+: s

/-- How input is read: which event comes first, and the code points that it takes. -/
inductive Munches (recognizes : Key → Bool) (s : Text) : KeyEvent → Text → Prop
  | key {c : Text} {k : Key} (hoffers : Offers recognizes s (c, k))
      (hlongest : ∀ e, Offers recognizes s e → e.1.length ≤ c.length) :
      Munches recognizes s (.key k) c
  | char {x : Char} (hnone : ∀ e, ¬ Offers recognizes s e) : Munches recognizes s (.char x) [x]

/-- The scan never passes over an entry that the input starts with for a shorter one. -/
theorem le_of_mem_table {table : List (Text × Key)} {e : Text × Key} (he : e ∈ table)
    (hrecognized : recognizes e.2 = true) (hstarts : e.1 <+: s) (best : Option (Nat × Key)) :
    ∃ r, table.foldl (longer recognizes s) best = some r ∧ e.1.length ≤ r.1 := by
  induction table generalizing best with
  | nil => cases he
  | cons e' table ih =>
    rw [List.foldl_cons]
    rcases List.mem_cons.1 he with rfl | he
    · -- behind this entry the best one is at least as long, taken or not
      obtain ⟨b, hb, hle⟩ : ∃ b, longer recognizes s best e = some b ∧ e.1.length ≤ b.1 := by
        rw [longer]
        split
        · exact ⟨_, rfl, Nat.le_refl _⟩
        · rename_i hkept
          rw [hrecognized, List.isPrefixOf_iff_prefix.2 hstarts, Bool.and_true, Bool.and_true] at hkept
          cases best with
          | none => exact absurd rfl hkept
          | some b => exact ⟨b, rfl, by simpa using hkept⟩
      obtain ⟨r, hr, hlonger⟩ := le_foldl_longer recognizes s table b
      rw [hb]
      exact ⟨r, hr, Nat.le_trans hle hlonger⟩
    · exact ih he _

theorem le_of_offers {e : Text × Key} (h : Offers recognizes s e) :
    ∃ r, longest? recognizes s = some r ∧ e.1.length ≤ r.1 :=
  le_of_mem_table h.1 h.2.1 h.2.2 none

/-- The longest key is offered, and nothing longer is. -/
theorem offers_of_longest? {n : Nat} {k : Key} (h : longest? recognizes s = some (n, k)) :
    ∃ c, c.length = n ∧ Offers recognizes s (c, k) ∧
      ∀ e, Offers recognizes s e → e.1.length ≤ n := by
  obtain ⟨⟨c, k'⟩, he, hrecognized, hstarts, hr⟩ := mem_of_longest? h
  cases hr
  refine ⟨c, rfl, ⟨he, hrecognized, hstarts⟩, fun e' he' => ?_⟩
  obtain ⟨r, hr, hle⟩ := le_of_offers he'
  cases hr.symm.trans h
  exact hle

/-- An event takes the code points that are read of what waits, and all others still wait. -/
theorem munches_of_next (h : next recognizes q = some (event, q')) :
    q.taken recognizes ≠ [] ∧ q.pending = q.taken recognizes ++ q'.pending ∧
      Munches recognizes q.pending event (q.taken recognizes) := by
  have hsplit := taken_append h
  obtain ⟨s⟩ := q
  cases s with
  | nil => cases h
  | cons x rest =>
    cases hlongest : longest? recognizes (x :: rest) with
    | none =>
      rw [next_of_none hlongest] at h
      cases h
      have htaken : taken recognizes ⟨x :: rest⟩ = [x] := List.append_cancel_right hsplit
      rw [htaken]
      refine ⟨List.cons_ne_nil _ _, rfl, .char fun e he => ?_⟩
      obtain ⟨r, hr, -⟩ := le_of_offers he
      cases hr.symm.trans hlongest
    | some r =>
      obtain ⟨n, k⟩ := r
      rw [next_of_longest (List.cons_ne_nil x rest) hlongest] at h
      cases h
      obtain ⟨c, rfl, hoffers, hmost⟩ := offers_of_longest? hlongest
      have hc := List.prefix_iff_eq_append.1 hoffers.2.2
      have htaken : taken recognizes ⟨x :: rest⟩ = c :=
        List.append_cancel_right (hsplit.trans hc.symm)
      rw [htaken]
      refine ⟨?_, hc.symm, .key hoffers hmost⟩
      rintro rfl
      exact absurd (longest?_pos hlongest) (Nat.lt_irrefl _)

theorem eq_nil_of_next (h : next recognizes q = none) : q.pending = [] := by
  refine Decidable.byContradiction fun hne => ?_
  obtain ⟨event, q', hnext⟩ := next_isSome hne recognizes
  cases h.symm.trans hnext

/-! ### A queue at work -/

/-- What is done to a queue: input arrives, or the next event is read, with any keys recognized. -/
inductive Work where
  | arrives (t : Text)
  | reads (recognizes : Key → Bool)

/-- The input that arrives. -/
def Work.arrived : Work → Text
  | .arrives t => t
  | .reads _ => []

/-- The queue after some work, and the event that is read with the code points that it takes. -/
def work (q : EventQueue) : Work → EventQueue × List (KeyEvent × Text)
  | .arrives t => (q.append t, [])
  | .reads recognizes =>
    match q.next recognizes with
    | none => (q, [])
    | some (event, q') => (q', [(event, q.taken recognizes)])

/-- What is read and what still waits are what waited and what arrives. -/
theorem work_append (q : EventQueue) (w : Work) :
    (q.work w).2.flatMap Prod.snd ++ (q.work w).1.pending = q.pending ++ w.arrived := by
  cases w with
  | arrives t => rfl
  | reads recognizes =>
    rw [work, Work.arrived, List.append_nil]
    split
    · rfl
    · rename_i event q' h
      rw [List.flatMap_singleton]
      exact taken_append h

theorem collect_work_append (q : EventQueue) (ws : List Work) :
    (collect work q ws).2.flatMap Prod.snd ++ (collect work q ws).1.pending =
      q.pending ++ ws.flatMap Work.arrived := by
  induction ws generalizing q with
  | nil => exact (List.append_nil _).symm
  | cons w ws ih =>
    rw [collect_cons, List.flatMap_append, List.append_assoc, ih, ← List.append_assoc, work_append,
      List.flatMap_cons, List.append_assoc]

/-- A read takes at least one code point, unless none waits. -/
theorem work_reads (recognizes : Key → Bool) (q : EventQueue) :
    (q.work (.reads recognizes)).1.pending.length ≤ q.pending.length - 1 ∧
      (q.work (.reads recognizes)).2.length + (q.work (.reads recognizes)).1.pending.length ≤
        q.pending.length := by
  rw [work]
  split
  · rename_i h
    rw [eq_nil_of_next h]
    exact ⟨Nat.le_refl _, Nat.le_refl _⟩
  · rename_i event q' h
    have hless := length_lt_of_next h
    dsimp only [List.length_singleton]
    omega

/-- After as many reads as code points wait nothing waits, and there were no more events. -/
theorem collect_work_reads (q : EventQueue) (rs : List (Key → Bool)) :
    (collect work q (rs.map .reads)).1.pending.length ≤ q.pending.length - rs.length ∧
      (collect work q (rs.map .reads)).2.length +
        (collect work q (rs.map .reads)).1.pending.length ≤ q.pending.length := by
  induction rs generalizing q with
  | nil => simp
  | cons recognizes rs ih =>
    have hfirst := work_reads recognizes q
    have hrest := ih (q.work (.reads recognizes)).1
    rw [List.map_cons, collect_cons]
    dsimp only
    rw [List.length_append, List.length_cons]
    omega

/-- Events are read by maximal munch, and no input is lost. Only an empty queue has no event. An event
takes some code points from the front: those of the longest entry of the table that is there and whose
key is recognized, or a single one if there is no such entry. However input arrives between the reads,
and whichever keys each read recognizes, the code points that were taken and those that wait are the
ones that came, in order; and reading alone empties a queue in no more events than code points wait. -/
theorem munches_without_loss :
    (∀ (recognizes : Key → Bool) (q : EventQueue),
      match q.next recognizes with
      | none => q.pending = []
      | some (event, q') => q.taken recognizes ≠ [] ∧
        q.pending = q.taken recognizes ++ q'.pending ∧
        Munches recognizes q.pending event (q.taken recognizes)) ∧
    (∀ (q : EventQueue) (ws : List Work),
      (collect work q ws).2.flatMap Prod.snd ++ (collect work q ws).1.pending =
        q.pending ++ ws.flatMap Work.arrived) ∧
    ∀ (q : EventQueue) (rs : List (Key → Bool)),
      (collect work q (rs.map .reads)).2.length ≤ q.pending.length ∧
      (collect work q (rs.map .reads)).1.pending.length ≤ q.pending.length - rs.length := by
  refine ⟨fun recognizes q => ?_, collect_work_append, fun q rs => ?_⟩
  · cases h : q.next recognizes with
    | none => exact eq_nil_of_next h
    | some r => exact munches_of_next h
  · obtain ⟨hwaiting, hevents⟩ := collect_work_reads q rs
    exact ⟨Nat.le_trans (Nat.le_add_right _ _) hevents, hwaiting⟩

/-- Without the key that the input starts with a shorter one is read of its first code point. -/
example : next (· ≠ .ctrlLeft) ⟨Key.codePoints .ctrlLeft⟩ =
    some (.key .escape, ⟨['[', '1', ';', '5', 'D']⟩) := by decide +kernel

end LineEditor.EventQueue
