import LineEditor.Text.Visible

/-!
Plain texts: those without control characters. A terminal shows every code point of a plain text,
so the columns a plain text takes are its code points.

Main statement: `visible_eq_self`, a plain text is all visible.
-/
namespace LineEditor.Text

/-- No control characters. -/
def Plain (t : Text) : Prop := ∀ c ∈ t, isControl c = false

instance (t : Text) : Decidable t.Plain := List.decidableBAll ..

@[simp] theorem plain_nil : Plain [] := by simp [Plain]

@[simp] theorem plain_cons (c : Char) (t : Text) :
    Plain (c :: t) ↔ isControl c = false ∧ Plain t := by
  simp [Plain]

@[simp] theorem plain_append (t u : Text) : Plain (t ++ u) ↔ Plain t ∧ Plain u := by
  simp only [Plain, List.mem_append]
  exact ⟨fun h => ⟨fun c hc => h c (Or.inl hc), fun c hc => h c (Or.inr hc)⟩,
    fun h c hc => hc.elim (h.1 c) (h.2 c)⟩

/-- Whatever is picked out of a plain text is plain. -/
theorem Plain.of_subset {t u : Text} (h : Plain t) (hu : u ⊆ t) : Plain u :=
  fun c hc => h c (hu hc)

theorem Plain.drop {t : Text} (h : Plain t) (n : Nat) : Plain (t.drop n) :=
  h.of_subset (List.drop_subset n t)

/-- A code point that is not a control character passes outside of sequences. -/
theorem Escape.step_ground {c : Char} (h : isControl c = false) :
    Escape.step .ground c = (.ground, [c]) := by
  have hesc : c ≠ '\x1b' := by rintro rfl; revert h; decide
  have hnl : c ≠ '\n' := by rintro rfl; revert h; decide
  simp [Escape.step, hesc, hnl, h]

theorem collect_step_ground {t : Text} (h : Plain t) :
    collect Escape.step .ground t = (.ground, t) := by
  induction t with
  | nil => rfl
  | cons c t ih =>
    rw [plain_cons] at h
    rw [collect_cons, Escape.step_ground h.1, ih h.2]
    rfl

/-- A plain text is all visible. -/
theorem visible_eq_self {t : Text} (h : Plain t) : visible t = t := by
  rw [visible, collect_step_ground h]

end LineEditor.Text
