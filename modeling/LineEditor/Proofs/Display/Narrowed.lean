import LineEditor.Proofs.Display.Incremental

/-!
A frame on a terminal that changes its width several times before anything is drawn. Each width cuts
off the rows again, and nothing brings back what was cut off but a drawing. If there is one in the
end, it finds no more than it needs; if there is none, the frame is still there exactly if none of
the widths reached into it.

Main definitions: `Frame.IsWithin`, what of a frame is on the screen is in front of a column, and
`Screen.setWidths`, the widths one after the other. Main statements: `Displays.resize` and
`Displays.setWidths_iff`.
-/
namespace LineEditor

/-- Laid out for `w` columns, a frame has its cursor and all that is not blank in the first `z`. -/
def Frame.IsWithin (f : Frame) (w z : Nat) : Prop :=
  (f.cursorPosition w).col < max z 1 ∧
    ∀ i < f.text.length, i % max w 1 < max z 1 ∨ f.text[i]? = some ' '

instance (f : Frame) (w z : Nat) : Decidable (f.IsWithin w z) :=
  inferInstanceAs (Decidable (_ ∧ _))

deriving instance DecidableEq for Screen

namespace Screen

/-- A screen made as wide as each of some widths says, one after the other. -/
def setWidths (s : Screen) (ws : List Nat) : Screen := ws.foldl setWidth s

variable {s : Screen} {f : Frame} {w w' top : Nat}

@[simp] theorem setWidths_nil (s : Screen) : s.setWidths [] = s := rfl

theorem setWidths_append (s : Screen) (ws : List Nat) (w : Nat) :
    s.setWidths (ws ++ [w]) = (s.setWidths ws).setWidth w := by
  rw [setWidths, List.foldl_append]
  rfl

section SetWidths

variable (s : Screen) (ws : List Nat)

theorem row_setWidths : (s.setWidths ws).row = s.row := by
  induction ws generalizing s with
  | nil => rfl
  | cons w ws ih => exact ih (s.setWidth w)

/-- A cell is kept if it is in front of all widths. -/
theorem cell_setWidths (r k : Nat) :
    (s.setWidths ws).cell r k = if ∀ w ∈ ws, k < max w 1 then s.cell r k else ' ' := by
  induction ws generalizing s with
  | nil => exact (if_pos (List.forall_mem_nil _)).symm
  | cons w ws ih =>
    rw [show s.setWidths (w :: ws) = (s.setWidth w).setWidths ws from rfl, ih, cell_setWidth]
    simp only [List.forall_mem_cons, ite_and]
    split <;> split <;> rfl

/-- The cursor moves to the last column of a width that it is behind, and does not come back. -/
theorem col_setWidths_eq_iff :
    (s.setWidths ws).col = s.col ↔ ∀ w ∈ ws, s.col < max w 1 := by
  have hle : ∀ (ws : List Nat) (s : Screen), (s.setWidths ws).col ≤ s.col := by
    intro ws
    induction ws with
    | nil => exact fun s => Nat.le_refl _
    | cons w ws ih => exact fun s => Nat.le_trans (ih (s.setWidth w)) (Nat.min_le_left ..)
  induction ws generalizing s with
  | nil => exact iff_of_true rfl (List.forall_mem_nil _)
  | cons w ws ih =>
    rw [List.forall_mem_cons]
    change ((s.setWidth w).setWidths ws).col = s.col ↔ _
    by_cases hw : s.col < max w 1
    · have hcol : (s.setWidth w).col = s.col := by
        change min s.col (max w 1 - 1) = s.col
        omega
      have hrest := ih (s.setWidth w)
      rw [hcol] at hrest
      exact ⟨fun h => ⟨hw, hrest.1 h⟩, fun h => hrest.2 h.2⟩
    · refine iff_of_false (fun h => ?_) fun h => hw h.1
      have hcut := hle ws (s.setWidth w)
      change _ ≤ min s.col (max w 1 - 1) at hcut
      omega

theorem pendingWrap_setWidths (h : s.pendingWrap = false) :
    (s.setWidths ws).pendingWrap = false := by
  induction ws generalizing s with
  | nil => exact h
  | cons w ws ih => exact ih (s.setWidth w) rfl

end SetWidths

/-- Cutting off rows several times leaves less and less of a frame. -/
theorem Remains.setWidths (h : s.Remains f w top) (ws : List Nat) :
    (s.setWidths ws).Remains f w top := by
  induction ws generalizing s with
  | nil => exact h
  | cons w' ws ih => exact ih (h.setWidth w')

/-- A frame that is drawn again after all widths is displayed for the last one. -/
theorem Displays.resize (h : s.Displays f w top) (hreading : s.reading = .ground) (ws : List Nat)
    (hwidth : (s.setWidths ws).width = max w' 1) (hmax : max w' 1 ≤ Draw.maxCount) (hf : f.Plain)
    (hfits : f.Fits w) (hfits' : f.Fits w') :
    ((s.setWidths ws).write (Draw.renderAll (f.resize w w'))).Displays f w' top :=
  ((((h.shows hreading).remains rfl hf).setWidths ws).resize hwidth hmax hf hfits hfits').displays
    hwidth

/-- A frame for which nothing is drawn is displayed after some widths, of which the last is that it
was drawn for, if and only if it is within each of them. -/
theorem Displays.setWidths_iff (h : s.Displays f w top) (ws : List Nat)
    (hwidth : (s.setWidths ws).width = max w 1) :
    (s.setWidths ws).Displays f w top ↔ ∀ z ∈ ws, f.IsWithin w z := by
  constructor
  · intro h' z hz
    constructor
    · have hcol := (col_setWidths_eq_iff s ws).1 (h'.col_eq.trans h.col_eq.symm) z hz
      rwa [h.col_eq] at hcol
    · intro i hi
      by_contra hcut
      rw [not_or] at hcut
      have hcell := h'.cell_eq (i / max w 1) (i % max w 1)
      rw [cell_setWidths, if_neg fun hall => hcut.1 (hall z hz),
        if_pos (Nat.mod_lt i (by omega)), Nat.div_add_mod', List.getElem?_eq_getElem hi] at hcell
      exact hcut.2 (by rw [List.getElem?_eq_getElem hi, hcell, Option.getD_some])
  · intro hwithin
    refine ⟨hwidth, fun r k => ?_, (row_setWidths s ws).trans h.row_eq, ?_,
      pendingWrap_setWidths s ws h.settled⟩
    · rw [← h.cell_eq r k, cell_setWidths]
      split
      · rfl
      · rename_i hcut
        obtain ⟨z, hz, hk⟩ : ∃ z ∈ ws, ¬ k < max z 1 := by simpa using hcut
        rw [h.cell_eq]
        split
        · rename_i hkw
          by_cases hi : r * max w 1 + k < f.text.length
          · have hi' := (hwithin z hz).2 _ hi
            rw [offset_mod hkw] at hi'
            rw [hi'.resolve_left hk, Option.getD_some]
          · rw [List.getElem?_eq_none (Nat.le_of_not_lt hi)]
            rfl
        · rfl
    · rw [← h.col_eq, col_setWidths_eq_iff]
      intro z hz
      rw [h.col_eq]
      exact (hwithin z hz).1

/-- A frame drawn on a blank terminal is displayed from the row on where it was drawn. -/
theorem displays_redraw (hmax : max w 1 ≤ Draw.maxCount) (hf : f.Plain) (hfits : f.Fits w)
    (top : Nat) : (({ blank w with row := top } : Screen).write
      (Draw.renderAll (f.redraw w))).Displays f w top :=
  (Shows.redraw (p := Strip.blank (max w 1) top _) (fresh_blank w top).shows rfl hmax hf
    hfits).displays rfl

end Screen

end LineEditor
