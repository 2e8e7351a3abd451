import LineEditor.Proofs.Display.Rows
import Mathlib.Data.List.DropRight
import Mathlib.Data.List.Infix

/-!
Drawing step by step. A frame is drawn at the start of a blank row, further frames are drawn over
it, and the width changes in between. Whatever the steps, the rows from there down and the cursor
are in the end what drawing the last frame once on a blank screen of the last width leaves, and the
rows above are only cut off with the width.

Main definitions: `Redrawing` is a step, `Drawing.start` and `Drawing.run` do the drawing and
`Screen.cutOff` is what a step does to the rows above. Main statement: `Drawing.run_eq_redraw`.
-/
namespace LineEditor

/-! ### Rows without their trailing blanks -/

section Trim

variable {α : Type} {p : α → Bool} {d : α}

theorem rdropWhile_append_replicate (hd : p d = true) (l : List α) (n : Nat) :
    (l ++ List.replicate n d).rdropWhile p = l.rdropWhile p := by
  induction n with
  | zero => rw [List.replicate_zero, List.append_nil]
  | succ n ih =>
    rw [List.replicate_succ', ← List.append_assoc, List.rdropWhile_concat_pos _ _ _ hd, ih]

theorem getD_append_replicate (l : List α) (n i : Nat) :
    (l ++ List.replicate n d)[i]?.getD d = l[i]?.getD d := by
  by_cases hi : i < l.length
  · rw [List.getElem?_append_left hi]
  · rw [List.getElem?_append_right (by omega), List.getElem?_replicate,
      List.getElem?_eq_none (by omega : l.length ≤ i)]
    split <;> rfl

/-- What is left of a list without its end depends on no more than what a reader sees who takes
missing elements for one that is dropped. -/
theorem rdropWhile_congr (hd : p d = true) {l m : List α}
    (h : ∀ i : Nat, l[i]?.getD d = m[i]?.getD d) : l.rdropWhile p = m.rdropWhile p := by
  have hpad : l ++ List.replicate (m.length - l.length) d =
      m ++ List.replicate (l.length - m.length) d := by
    apply List.ext_getElem
    · simp only [List.length_append, List.length_replicate]
      omega
    · intro i hi hi'
      have hsame := h i
      rw [← getD_append_replicate l (m.length - l.length),
        ← getD_append_replicate m (l.length - m.length),
        List.getElem?_eq_getElem hi, List.getElem?_eq_getElem hi'] at hsame
      exact hsame
  rw [← rdropWhile_append_replicate hd l, hpad, rdropWhile_append_replicate hd m]

theorem drop_rdropWhile (l : List α) (n : Nat) :
    (l.rdropWhile p).drop n = (l.drop n).rdropWhile p := by
  induction l using List.reverseRecOn with
  | nil => rw [List.rdropWhile_nil, List.drop_nil, List.rdropWhile_nil]
  | append_singleton l x ih =>
    by_cases hn : n ≤ l.length
    · rw [List.drop_append_of_le_length hn]
      by_cases hx : p x
      · rw [List.rdropWhile_concat_pos _ _ _ hx, List.rdropWhile_concat_pos _ _ _ hx, ih]
      · rw [List.rdropWhile_concat_neg _ _ _ hx, List.rdropWhile_concat_neg _ _ _ hx,
          List.drop_append_of_le_length hn]
    · have hlen : (l ++ [x]).length ≤ n := by
        rw [List.length_append, List.length_singleton]
        omega
      rw [List.drop_eq_nil_of_le hlen, List.rdropWhile_nil]
      exact List.drop_eq_nil_of_le
        (Nat.le_trans (List.IsPrefix.length_le (List.rdropWhile_prefix _ _)) hlen)

end Trim

namespace Screen

/-- The rows from some row down are told by what stands in their cells. -/
theorem lines_drop_congr {s s' : Screen} {top : Nat}
    (h : ∀ r k, s.cell (top + r) k = s'.cell (top + r) k) :
    s.lines.drop top = s'.lines.drop top := by
  have htrim (r : Nat) : Text.trimRight (s.line (top + r)).toList =
      Text.trimRight (s'.line (top + r)).toList := by
    refine rdropWhile_congr (d := ' ') (by decide) fun k => ?_
    simpa [cell, line] using h r k
  have hrow (s : Screen) (r : Nat) : ((s.rows.toList.map fun line =>
      Text.trimRight line.toList).drop top)[r]?.getD [] =
      Text.trimRight (s.line (top + r)).toList := by
    rw [List.getElem?_drop, List.getElem?_map, Array.getElem?_toList, line]
    cases s.rows[top + r]? <;> rfl
  change (List.rdropWhile _ _).drop top = (List.rdropWhile _ _).drop top
  rw [drop_rdropWhile, drop_rdropWhile]
  refine rdropWhile_congr (d := []) rfl fun r => ?_
  rw [hrow, hrow, htrim]

/-- Two screens that display the same frame in the same place agree there. -/
theorem Displays.agree {s s' : Screen} {f : Frame} {width top : Nat}
    (h : s.Displays f width top) (h' : s'.Displays f width top) :
    s.lines.drop top = s'.lines.drop top ∧ s.cursor = s'.cursor := by
  refine ⟨lines_drop_congr fun r k => (h.cell_eq r k).trans (h'.cell_eq r k).symm, ?_⟩
  exact Prod.ext (h.row_eq.trans h'.row_eq.symm) (h.col_eq.trans h'.col_eq.symm)

end Screen

/-! ### Drawings -/

/-- A step of drawing. -/
inductive Redrawing where
  /-- Another frame. -/
  | update (f : Frame)
  /-- The same frame for another number of columns. -/
  | resize (width : UInt16)
  deriving DecidableEq, Repr

/-- A terminal, the frame that is drawn on it and the number of columns it was drawn for. -/
structure Drawing where
  screen : Screen
  frame : Frame
  width : UInt16

/-- What a step does to rows that it does not draw on. -/
def Screen.cutOff (s : Screen) : Redrawing → Screen
  | .update _ => s
  | .resize width => s.setWidth width.toNat

namespace Drawing

/-- The first drawing of a frame. -/
def start (s : Screen) (f : Frame) (width : UInt16) : Drawing :=
  ⟨s.write (Draw.renderAll (f.redraw width.toNat)), f, width⟩

/-- One step. -/
def step (d : Drawing) : Redrawing → Drawing
  | .update f => ⟨d.screen.write (Draw.renderAll (d.frame.update f d.width.toNat)), f, d.width⟩
  | .resize width =>
    ⟨(d.screen.setWidth width.toNat).write
      (Draw.renderAll (d.frame.resize d.width.toNat width.toNat)), d.frame, width⟩

/-- Several steps, one after the other. -/
def run (d : Drawing) (steps : List Redrawing) : Drawing := steps.foldl step d

/-- A frame without control characters whose rows a count can tell apart. -/
def Drawable (d : Drawing) : Prop := d.frame.Plain ∧ d.frame.Fits d.width.toNat

instance (d : Drawing) : Decidable d.Drawable := inferInstanceAs (Decidable (_ ∧ _))

/-- The rows from `top` down hold the frame, and the rows above are those of `base`. -/
def Holds (d : Drawing) (top : Nat) (base : Screen) : Prop :=
  d.screen.Shows
    ((Strip.blank (max d.width.toNat 1) top base.line).holding d.frame.text d.frame.cursor)

variable {d : Drawing} {s base : Screen} {top : Nat} {f : Frame} {width : UInt16}

/-- A width that 16 bits hold is one that a count can tell. -/
theorem width_le_maxCount (width : UInt16) : max width.toNat 1 ≤ Draw.maxCount := by
  have hlt := width.toNat_lt
  simp only [Draw.maxCount]
  omega

theorem holds_start (h : s.Fresh width.toNat) (hf : (start s f width).Drawable) :
    (start s f width).Holds s.row s :=
  Screen.Shows.redraw (p := Strip.blank (max width.toNat 1) s.row s.line) h.shows rfl
    (width_le_maxCount width) hf.1 hf.2

theorem Holds.step (h : d.Holds top base) (x : Redrawing) (hd : d.Drawable)
    (hd' : (d.step x).Drawable) : (d.step x).Holds top (base.cutOff x) := by
  cases x with
  | update f =>
    exact Screen.Shows.update h rfl (width_le_maxCount d.width) hd.1 hd'.1 hd.2 hd'.2
  | resize width =>
    have hdraw := Screen.Shows.resize h rfl (width_le_maxCount width) hd.1 hd.2 hd'.2
    exact hdraw.congr_above fun r _ => (Screen.line_setWidth base width.toNat r).symm

/-- What a step keeps, a run keeps. -/
theorem Holds.run (steps : List Redrawing) (h : d.Holds top base)
    (hd : ∀ part, part <+: steps → (d.run part).Drawable) :
    (d.run steps).Holds top (steps.foldl Screen.cutOff base) := by
  -- the base is generalized with the drawing: a resize cuts off the rows above as well
  induction steps generalizing d base with
  | nil => exact h
  | cons x steps ih =>
    have hnow : d.Drawable := hd [] (List.nil_prefix)
    have hnext : (d.step x).Drawable := hd [x] ⟨steps, rfl⟩
    exact ih (h.step x hnow hnext) fun part hpart =>
      hd (x :: part) (List.cons_prefix_cons.2 ⟨rfl, hpart⟩)

/-- Two screens that hold the same frame in the same place agree there. -/
theorem Holds.agree {d' : Drawing} {base' : Screen} (h : d.Holds top base)
    (h' : d'.Holds top base') (hframe : d.frame = d'.frame) (hwidth : d.width = d'.width) :
    d.screen.lines.drop top = d'.screen.lines.drop top ∧ d.screen.cursor = d'.screen.cursor ∧
      d.screen.pendingWrap = d'.screen.pendingWrap := by
  have hshown : d.screen.Displays d.frame d.width.toNat top := Screen.Shows.displays h rfl
  have hshown' : d'.screen.Displays d'.frame d'.width.toNat top := Screen.Shows.displays h' rfl
  rw [← hframe, ← hwidth] at hshown'
  obtain ⟨hlines, hcursor⟩ := hshown.agree hshown'
  exact ⟨hlines, hcursor, h.settled.trans h'.settled.symm⟩

/-- Drawing step by step leaves what drawing the last frame once does, on a terminal of the last
width that has nothing else on it, and the rows above are only cut off. -/
theorem run_eq_redraw {steps : List Redrawing} (h : s.Fresh width.toNat)
    (hd : ∀ part, part <+: steps → ((start s f width).run part).Drawable) :
    let d := (start s f width).run steps
    let once := start { Screen.blank d.width.toNat with row := s.row } d.frame d.width
    d.screen.lines.drop s.row = once.screen.lines.drop s.row ∧
      d.screen.cursor = once.screen.cursor ∧ d.screen.pendingWrap = once.screen.pendingWrap ∧
      ∀ r, r < s.row → d.screen.line r = (steps.foldl Screen.cutOff s).line r := by
  have hrun := (holds_start h (hd [] (List.nil_prefix))).run steps hd
  have hblank := Screen.fresh_blank ((start s f width).run steps).width.toNat s.row
  have honce := holds_start hblank (hd steps (List.prefix_refl _))
  obtain ⟨hlines, hcursor, hwrap⟩ := hrun.agree honce rfl rfl
  exact ⟨hlines, hcursor, hwrap, hrun.line_eq⟩

/-- Under a row of another program's text a prompt is drawn, seven characters are typed into it on a
terminal of four columns, and the terminal gets two columns. -/
theorem run_eq_redraw_narrowed :
    let s : Screen := { Screen.blank 4 with rows := #[#['u', 'p']], row := 1 }
    let prompt : Prompt := ⟨['$', ' ']⟩
    let steps := [.update ⟨prompt, ⟨['a', 'b', 'c', 'd', 'e', 'f', 'g'], 3, by decide⟩⟩, .resize 2]
    let d := (start s ⟨prompt, ⟨[], 0, by decide⟩⟩ 4).run steps
    let once := start { Screen.blank 2 with row := 1 } d.frame 2
    (d.screen.lines.drop 1 = once.screen.lines.drop 1 ∧
      d.screen.cursor = once.screen.cursor ∧ d.screen.pendingWrap = once.screen.pendingWrap ∧
      ∀ r, r < 1 → d.screen.line r = (steps.foldl Screen.cutOff s).line r) ∧
      d.screen.lines.drop 1 = [['$'], ['a', 'b'], ['c', 'd'], ['e', 'f'], ['g']] ∧
      d.screen.cursor = (3, 1) ∧ d.screen.line 0 = #['u', 'p'] := by
  intro s prompt steps d once
  have hfresh : s.Fresh 4 := by
    refine ⟨rfl, rfl, rfl, rfl, fun r k => ?_⟩
    have hnone : s.rows[1 + r]? = none := Array.getElem?_eq_none (Nat.le_add_right 1 r)
    rw [Screen.cell, hnone]
    rfl
  have hdrawable : ∀ part ∈ steps.inits,
      ((start s ⟨prompt, ⟨[], 0, by decide⟩⟩ 4).run part).Drawable := by decide
  obtain ⟨hlines, hcursor, hwrap, habove⟩ :=
    run_eq_redraw hfresh fun part hpart => hdrawable part ((List.mem_inits _ _).2 hpart)
  have honce : once.screen.lines.drop 1 = [['$'], ['a', 'b'], ['c', 'd'], ['e', 'f'], ['g']] ∧
      once.screen.cursor = (3, 1) ∧ (steps.foldl Screen.cutOff s).line 0 = #['u', 'p'] := by
    decide +kernel
  exact ⟨⟨hlines, hcursor, hwrap, habove⟩, hlines.trans honce.1, hcursor.trans honce.2.1,
    (habove 0 Nat.one_pos).trans honce.2.2⟩

end Drawing

end LineEditor
