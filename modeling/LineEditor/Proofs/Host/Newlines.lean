import LineEditor.Display.Redraw
import LineEditor.Host.Connection
import LineEditor.Proofs.Text.Plain

/-!
Newlines on their way to a terminal. Only the newline itself is translated, so a drawing that stays
in its rows arrives as it was written.

Main statements: `NewlineMode.translate_apply`, a text without newlines is left alone, and
`Draw.newline_notMem_update` and its siblings, which say that the drawings of frames are such texts.
-/
namespace LineEditor

/-- A text without newlines is left alone. -/
theorem NewlineMode.translate_apply {t : Text} (h : '\n' ∉ t) :
    NewlineMode.translate.apply t = t := by
  simp only [NewlineMode.apply]
  induction t with
  | nil => rfl
  | cons c t ih =>
    simp only [List.mem_cons, not_or] at h
    rw [List.flatMap_cons, ih h.2, if_neg (Ne.symm h.1)]
    rfl

theorem NewlineMode.translate_append (t u : Text) :
    NewlineMode.translate.apply (t ++ u) =
      NewlineMode.translate.apply t ++ NewlineMode.translate.apply u :=
  List.flatMap_append ..

theorem Text.Plain.newline_notMem {t : Text} (h : t.Plain) : '\n' ∉ t :=
  fun hmem => absurd (h _ hmem) (by decide)

namespace Draw

theorem newline_notMem_counted (n : Nat) {final : Char} (h : final ≠ '\n') :
    '\n' ∉ counted n final := by
  simp only [counted, List.mem_append, List.mem_cons, List.not_mem_nil, or_false, not_or]
  refine ⟨⟨⟨by decide, by decide⟩, fun hmem => ?_⟩, Ne.symm h⟩
  exact absurd (Nat.isDigit_of_mem_toDigits (by omega) (by omega) hmem) (by decide)

/-- Whether a drawing command stays in its row or names the rows it goes by. -/
def StaysInRow : Draw → Prop
  | text t => '\n' ∉ t
  | newline => False
  | _ => True

theorem StaysInRow.newline_notMem {d : Draw} (h : d.StaysInRow) : '\n' ∉ d.render := by
  cases d with
  | text t => exact h
  | newline => exact absurd h id
  | carriageReturn => decide
  | up n => exact newline_notMem_counted n (by decide)
  | down n => exact newline_notMem_counted n (by decide)
  | right n => exact newline_notMem_counted n (by decide)
  | left n => exact newline_notMem_counted n (by decide)
  | home => decide
  | eraseRight => decide
  | eraseScreen => decide

theorem newline_notMem_renderAll {ds : List Draw} (h : ∀ d ∈ ds, d.StaysInRow) :
    '\n' ∉ renderAll ds := by
  intro hmem
  obtain ⟨d, hd, hin⟩ := List.mem_flatMap.1 hmem
  exact (h d hd).newline_notMem hin

theorem staysInRow_moveTo (source target : Point) : ∀ d ∈ moveTo source target, d.StaysInRow := by
  intro d hd
  rw [moveTo, List.mem_append] at hd
  rcases hd with hd | hd
  · split at hd
    · rw [List.mem_singleton.1 hd]
      trivial
    · split at hd
      · rw [List.mem_singleton.1 hd]
        trivial
      · exact absurd hd List.not_mem_nil
  · split at hd
    · exact absurd hd List.not_mem_nil
    · split at hd
      · rw [List.mem_singleton.1 hd]
        trivial
      · split at hd <;> rw [List.mem_singleton.1 hd] <;> trivial

theorem staysInRow_settleWrap (stop width : Nat) : ∀ d ∈ settleWrap stop width, d.StaysInRow := by
  intro d hd
  rw [settleWrap] at hd
  split at hd
  · simp only [List.mem_cons, List.not_mem_nil, or_false] at hd
    rcases hd with rfl | rfl
    · change '\n' ∉ [' ']
      decide
    · trivial
  · exact absurd hd List.not_mem_nil

theorem staysInRow_eraseRowsBelow (n : Nat) : ∀ d ∈ eraseRowsBelow n, d.StaysInRow := by
  intro d hd
  rw [eraseRowsBelow, List.mem_flatten] at hd
  obtain ⟨ds, hds, hd⟩ := hd
  rw [List.eq_of_mem_replicate hds] at hd
  simp only [List.mem_cons, List.not_mem_nil, or_false] at hd
  rcases hd with rfl | rfl | rfl <;> trivial

theorem staysInRow_eraseRowsUpward (n : Nat) : ∀ d ∈ eraseRowsUpward n, d.StaysInRow := by
  intro d hd
  rw [eraseRowsUpward, List.mem_append, List.mem_singleton, List.mem_flatten] at hd
  rcases hd with ⟨ds, hds, hd⟩ | rfl
  · rw [List.eq_of_mem_replicate hds] at hd
    simp only [List.mem_cons, List.not_mem_nil, or_false] at hd
    rcases hd with rfl | rfl <;> trivial
  · trivial

variable {f g : Frame}

theorem staysInRow_redraw (hp : f.prompt.text.Plain) (hb : f.buffer.text.Plain) (width : Nat) :
    ∀ d ∈ f.redraw width, d.StaysInRow := by
  intro d hd
  simp only [Frame.redraw, List.mem_append, List.mem_cons, List.not_mem_nil, or_false] at hd
  rcases hd with (((rfl | rfl) | hd) | rfl) | hd
  · exact hp.newline_notMem
  · exact hb.newline_notMem
  · split at hd
    · exact absurd hd List.not_mem_nil
    · exact staysInRow_settleWrap _ _ d hd
  · trivial
  · exact staysInRow_moveTo _ _ d hd

theorem newline_notMem_redraw (hp : f.prompt.text.Plain) (hb : f.buffer.text.Plain) (width : Nat) :
    '\n' ∉ renderAll (f.redraw width) :=
  newline_notMem_renderAll (staysInRow_redraw hp hb width)

theorem newline_notMem_update (hp : g.prompt.text.Plain) (hb : g.buffer.text.Plain) (width : Nat) :
    '\n' ∉ renderAll (f.update g width) := by
  refine newline_notMem_renderAll fun d hd => ?_
  rw [Frame.update] at hd
  split at hd
  · simp only [List.mem_append, List.mem_singleton] at hd
    rcases hd with (((hd | hd) | rfl) | hd) | hd
    · exact staysInRow_moveTo _ _ d hd
    · split at hd
      · exact absurd hd List.not_mem_nil
      · rw [List.mem_singleton.1 hd]
        exact hp.newline_notMem
    · exact (hb.drop _).newline_notMem
    · split at hd
      · exact staysInRow_settleWrap _ _ d hd
      · exact absurd hd List.not_mem_nil
    · split at hd
      · simp only [List.mem_append, List.mem_cons] at hd
        rcases hd with (rfl | hd) | hd
        · trivial
        · exact staysInRow_eraseRowsBelow _ d hd
        · exact staysInRow_moveTo _ _ d hd
      · exact staysInRow_moveTo _ _ d hd
  · exact staysInRow_moveTo _ _ d hd

theorem newline_notMem_moveToEnd (f : Frame) (width : Nat) :
    '\n' ∉ renderAll (f.moveToEnd width) :=
  newline_notMem_renderAll (staysInRow_moveTo _ _)

theorem newline_notMem_resize (hp : f.prompt.text.Plain) (hb : f.buffer.text.Plain)
    (old new : Nat) : '\n' ∉ renderAll (f.resize old new) := by
  refine newline_notMem_renderAll fun d hd => ?_
  simp only [Frame.resize, List.cons_append, List.mem_cons, List.mem_append] at hd
  rcases hd with rfl | (hd | hd) | hd
  · trivial
  · split at hd
    · rw [List.mem_singleton.1 hd]
      trivial
    · exact absurd hd List.not_mem_nil
  · exact staysInRow_eraseRowsUpward _ d hd
  · exact staysInRow_redraw hp hb new d hd

end Draw

end LineEditor
