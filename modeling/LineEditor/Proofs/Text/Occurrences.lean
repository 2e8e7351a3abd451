import LineEditor.Text.Basic

/-!
Where one text is inside another.

Main statements: `indexOf?_eq_some_iff`, the place that is found is that of the first occurrence, and
`includes_iff`, a place is found if there is an occurrence.
-/
namespace LineEditor.Text

variable {query t : Text} {n : Nat}

/-- The place of the first occurrence. -/
theorem indexOf?_eq_some_iff :
    indexOf? query t = some n ↔ query <+: t.drop n ∧ ∀ m < n, ¬ query <+: t.drop m := by
  induction t generalizing n with
  | nil =>
    simp only [indexOf?, List.drop_nil, List.prefix_nil, List.isEmpty_iff]
    constructor
    · intro h
      split at h
      · rename_i hempty
        cases h
        exact ⟨hempty, fun m hm => absurd hm (Nat.not_lt_zero m)⟩
      · cases h
    · rintro ⟨hempty, hfirst⟩
      cases n with
      | zero => rw [if_pos hempty]
      | succ n => exact absurd hempty (hfirst 0 n.succ_pos)
  | cons c rest ih =>
    simp only [indexOf?]
    split
    · rename_i hstarts
      rw [List.isPrefixOf_iff_prefix] at hstarts
      constructor
      · intro h
        cases h
        exact ⟨hstarts, fun m hm => absurd hm (Nat.not_lt_zero m)⟩
      · rintro ⟨-, hfirst⟩
        cases n with
        | zero => rfl
        | succ n => exact absurd hstarts (hfirst 0 n.succ_pos)
    · rename_i hstarts
      rw [List.isPrefixOf_iff_prefix] at hstarts
      cases n with
      | zero => simp [hstarts]
      | succ n =>
        rw [Option.map_eq_some_iff]
        simp only [Nat.add_right_cancel_iff, exists_eq_right, ih, List.drop_succ_cons]
        refine and_congr_right fun _ => ⟨fun hfirst m hm => ?_, fun hfirst m hm => ?_⟩
        · cases m with
          | zero => exact hstarts
          | succ m => exact hfirst m (Nat.lt_of_succ_lt_succ hm)
        · exact hfirst (m + 1) (Nat.succ_lt_succ hm)

theorem includes_iff : includes t query = true ↔ query <:+: t := by
  rw [includes]
  induction t with
  | nil => simp [indexOf?, List.infix_nil]
  | cons c rest ih =>
    rw [List.infix_cons_iff, ← ih, indexOf?, ← List.isPrefixOf_iff_prefix]
    split
    · rename_i hstarts
      simp [hstarts]
    · rename_i hstarts
      simp [hstarts]

end LineEditor.Text
