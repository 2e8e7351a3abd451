import LineEditor.Proofs.Display.Rows

/-!
Prompts with styles in them. A style is a control sequence that says how what follows is to look. It
takes no columns, and the terminal makes nothing of it, except that it takes back a wrap that is pending:
a style behind a row that has just been filled lets the next code point overwrite the last column. Styles
in any other place leave no trace on the screen.

Main definitions: `Styled`, a part of a styled text, and `Styled.AvoidsWraps`, that no style stands behind
a row that has just been filled. Main statements: `Styled.visible_text` and `Styled.redraw_styled`.
-/
namespace LineEditor

/-- What a style is written in, between the introducer and its end. -/
def isStyleParameter (c : Char) : Bool := c.isDigit || c == ';'

/-- A part of a styled text: a code point that is shown, or the style of what follows, in digits and
semicolons. -/
inductive Styled where
  | shown (c : Char) (h : Text.isControl c = false)
  | style (parameters : Text) (h : parameters.all isStyleParameter = true)

namespace Styled

/-- What is written for a part. -/
def render : Styled → Text
  | .shown c _ => [c]
  | .style parameters _ => ['\x1b', '['] ++ parameters ++ ['m']

/-- What is to be seen of a part. -/
def glyphs : Styled → Text
  | .shown c _ => [c]
  | .style .. => []

/-- What is written for several parts. -/
def text (xs : List Styled) : Text := xs.flatMap render

/-- The code points outside of the styles. -/
def plain (xs : List Styled) : Text := xs.flatMap glyphs

/-- Whether a part is a style. -/
def isStyle : Styled → Bool
  | .shown .. => false
  | .style .. => true

/-- On a terminal of `width` columns no style stands behind a row that has just been filled. -/
def AvoidsWraps (width : Nat) (xs : List Styled) : Prop :=
  ∀ i < xs.length, xs[i]?.any isStyle = true →
    (plain (xs.take i)).length % max width 1 = 0 → plain (xs.take i) = []

instance (width : Nat) (xs : List Styled) : Decidable (AvoidsWraps width xs) :=
  inferInstanceAs (Decidable (∀ i < xs.length, _ → _ → _))

variable {xs : List Styled} {parameters : Text} {width : Nat} {c : Char}

theorem plain_append (xs ys : List Styled) : plain (xs ++ ys) = plain xs ++ plain ys :=
  List.flatMap_append ..

theorem plain_plain (xs : List Styled) : (plain xs).Plain := by
  induction xs with
  | nil => exact Text.plain_nil
  | cons x xs ih =>
    cases x with
    | shown c h => exact (Text.plain_cons c _).2 ⟨h, ih⟩
    | style parameters h => exact ih

/-- A style stands behind a filled row only if nothing was shown before it. -/
theorem AvoidsWraps.of_append {done : List Styled} {h : parameters.all isStyleParameter = true}
    (havoids : AvoidsWraps width (done ++ .style parameters h :: xs))
    (hfilled : (plain done).length % max width 1 = 0) : plain done = [] := by
  have hstyle := havoids done.length (by simp) (by simp [isStyle])
  rw [List.take_left] at hstyle
  exact hstyle hfilled

/-! ### Columns -/

/-- The bytes that digits and semicolons are. -/
theorem encode_parameter (h : isStyleParameter c = true) :
    ∃ b, 0x30 ≤ b ∧ b ≤ 0x3B ∧ (Utf8.encode c).map UInt8.toNat = [b] := by
  have hbyte : 0x30 ≤ c.toNat ∧ c.toNat ≤ 0x3B := by
    rw [isStyleParameter, Bool.or_eq_true, beq_iff_eq] at h
    rcases h with h | rfl
    · obtain ⟨hlow, hhigh⟩ := Char.isDigit_iff_toNat.1 h
      exact ⟨hlow, Nat.le_trans hhigh (by decide)⟩
    · decide
  refine ⟨c.toNat, hbyte.1, hbyte.2, ?_⟩
  have hone : Utf8.encode c = [UInt8.ofNat c.toNat] := if_pos (by omega)
  have hnat : (UInt8.ofNat c.toNat).toNat = c.toNat :=
    UInt8.toNat_ofNat_of_lt (show c.toNat < 256 by omega)
  rw [hone, List.map_singleton, hnat]

/-- Parameters show nothing, and behind them the sequence goes on. -/
theorem collect_parameters (h : parameters.all isStyleParameter = true) {s : Text.Escape}
    (hs : s = .csiEntry ∨ s = .csiParam) :
    ∃ s', collect Text.Escape.step s parameters = (s', []) ∧ (s' = .csiEntry ∨ s' = .csiParam) := by
  induction parameters generalizing s with
  | nil => exact ⟨s, rfl, hs⟩
  | cons c parameters ih =>
    rw [List.all_cons, Bool.and_eq_true] at h
    obtain ⟨hc, hrest⟩ := h
    obtain ⟨b, hlow, hhigh, hb⟩ := encode_parameter hc
    have hbyte : ∀ b ≤ 0x3B, 0x30 ≤ b → Text.Escape.byte .csiEntry b = (.csiParam, []) ∧
        Text.Escape.byte .csiParam b = (.csiParam, []) := by decide
    have hstep : Text.Escape.step s c = (.csiParam, []) := by
      rcases hs with rfl | rfl
      · change Text.Escape.bytes .csiEntry (Utf8.encode c) = _
        rw [Text.Escape.bytes, hb, collect_cons, (hbyte b hhigh hlow).1]
        rfl
      · change Text.Escape.bytes .csiParam (Utf8.encode c) = _
        rw [Text.Escape.bytes, hb, collect_cons, (hbyte b hhigh hlow).2]
        rfl
    obtain ⟨s', hcollect, hs'⟩ := ih hrest (.inr rfl)
    rw [collect_cons, hstep, hcollect]
    exact ⟨s', rfl, hs'⟩

/-- A part shows its glyphs and leaves no sequence open. -/
theorem collect_render (x : Styled) :
    collect Text.Escape.step .ground x.render = (.ground, x.glyphs) := by
  cases x with
  | shown c h => exact Text.collect_step_ground ((Text.plain_cons c []).2 ⟨h, Text.plain_nil⟩)
  | style parameters h =>
    have hopen : collect Text.Escape.step .ground ['\x1b', '['] = (.csiEntry, []) := by decide
    have hclose : ∀ s, s = .csiEntry ∨ s = .csiParam →
        collect Text.Escape.step s ['m'] = (.ground, []) := by
      rintro s (rfl | rfl) <;> decide
    obtain ⟨s, hcollect, hs⟩ := collect_parameters h (.inl rfl)
    rw [render, collect_append, collect_append, hopen, hcollect, hclose s hs]
    rfl

/-- Styles take no columns. -/
theorem visible_text (xs : List Styled) : Text.visible (text xs) = plain xs := by
  have hcollect : collect Text.Escape.step .ground (text xs) = (.ground, plain xs) := by
    induction xs with
    | nil => rfl
    | cons x xs ih =>
      change collect Text.Escape.step .ground (x.render ++ text xs) = (.ground, x.glyphs ++ plain xs)
      rw [collect_append, collect_render, ih]
  rw [Text.visible, hcollect]

/-! ### The screen -/

open Screen (Prints write_append)

variable {s : Screen} {p : Strip}

/-- A style does nothing but that it takes back a wrap that is pending. -/
theorem write_style (hs : s.reading = .ground) (h : parameters.all isStyleParameter = true) :
    s.write (style parameters h).render = { s with pendingWrap := false } := by
  refine Screen.write_sequence s parameters 'm' hs (fun c hc => ?_) (by decide)
  exact Bool.or_eq_true_iff.2 (.inl (List.all_eq_true.1 h c hc))

/-- Behind the parts that are on a strip already, styles leave no trace. -/
theorem write_text {done : List Styled} (havoids : AvoidsWraps width (done ++ xs)) (h : s.Prints p)
    (hw : p.width = max width 1) (hhead : p.head = (plain done).length) :
    s.write (text xs) = s.write (plain xs) := by
  induction xs generalizing s p done with
  | nil => rfl
  | cons x xs ih =>
    have hdone : done ++ x :: xs = (done ++ [x]) ++ xs := (List.append_cons ..)
    change s.write (x.render ++ text xs) = s.write (x.glyphs ++ plain xs)
    rw [write_append, write_append]
    cases x with
    | shown c hc =>
      have hprints := h.write ((Text.plain_cons c []).2 ⟨hc, Text.plain_nil⟩)
      refine ih (hdone ▸ havoids) hprints ((Strip.width_write ..).trans hw) ?_
      rw [Strip.head_write, hhead, plain_append, List.length_append]
      rfl
    | style parameters hp =>
      have hsettled : s.pendingWrap = false := by
        cases hpending : s.pendingWrap with
        | false => rfl
        | true =>
          have hcursor := h.cursor_eq
          rw [hpending] at hcursor
          obtain ⟨hpos, hfilled, -⟩ := hcursor
          rw [hhead, hw] at hfilled
          rw [hhead, havoids.of_append hfilled] at hpos
          exact absurd hpos (Nat.lt_irrefl 0)
      have hsame : s.write (style parameters hp).render = s := by
        rw [write_style h.reading_eq hp, ← hsettled]
      rw [hsame]
      refine ih (hdone ▸ havoids) h hw ?_
      rw [hhead, plain_append]
      exact congrArg List.length (List.append_nil _).symm

/-- What a drawing writes behind the prompt. -/
theorem render_redraw (f : Frame) (w : Nat) : Draw.renderAll (f.redraw w) =
    f.prompt.text ++ (f.buffer.text ++
      Draw.renderAll ((if f.length = 0 then [] else settleWrap f.length w) ++ [.eraseRight] ++
        moveTo (f.endPosition w) (f.cursorPosition w))) := by
  simp [Frame.redraw, Draw.render]

/-- The styling of a prompt is invisible. Its styles take no columns, and as long as none of them stands
behind a row that has just been filled a frame leaves the same screen, with the same cursor, as it does
without them. -/
theorem redraw_styled (xs : List Styled) :
    (Prompt.mk (text xs)).width = (plain xs).length ∧
      ∀ (b : Buffer) (width : Nat), AvoidsWraps width xs →
        (Screen.blank width).write (Draw.renderAll (Frame.redraw ⟨⟨text xs⟩, b⟩ width)) =
          (Screen.blank width).write (Draw.renderAll (Frame.redraw ⟨⟨plain xs⟩, b⟩ width)) := by
  have hwidth : (Prompt.mk (text xs)).width = (plain xs).length :=
    congrArg List.length (visible_text xs)
  refine ⟨hwidth, fun b width havoids => ?_⟩
  have hplain : (Prompt.mk (plain xs)).width = (plain xs).length :=
    congrArg List.length (Text.visible_eq_self (plain_plain xs))
  have hsame : (Prompt.mk (text xs)).width = (Prompt.mk (plain xs)).width := hwidth.trans hplain.symm
  have hstart : AvoidsWraps width ([] ++ xs) := havoids
  have hprompt : (Screen.blank width).write (text xs) = (Screen.blank width).write (plain xs) :=
    write_text hstart (Screen.fresh_blank width 0).shows.toPrints rfl rfl
  rw [render_redraw, render_redraw, write_append _ (text xs), hprompt, ← write_append]
  -- what comes behind the prompt depends on its width alone
  unfold Frame.endPosition Frame.cursorPosition Frame.cursor Frame.length
  dsimp only
  rw [hsame]

/-- A green prompt whose second style stands in the middle of a row leaves the screen that `$ ` leaves. -/
theorem redraw_green_prompt :
    (Screen.blank 3).write (Draw.renderAll (Frame.redraw
        ⟨⟨text [.style ['3', '2', ';', '1'] rfl, .shown '$' rfl, .style [] rfl, .shown ' ' rfl]⟩,
          ⟨['o', 'k'], 1, by decide⟩⟩ 3)) =
      (Screen.blank 3).write (Draw.renderAll (Frame.redraw
        ⟨⟨['$', ' ']⟩, ⟨['o', 'k'], 1, by decide⟩⟩ 3)) :=
  (redraw_styled [.style ['3', '2', ';', '1'] rfl, .shown '$' rfl, .style [] rfl, .shown ' ' rfl]).2
    _ 3 (by decide)

/-- The style behind a row that has just been filled takes the pending wrap back, and what is typed
behind the prompt lands on the prompt's last code point. -/
theorem redraw_of_style_at_wrap :
    let styled := (Screen.blank 3).write (Draw.renderAll (Frame.redraw
      ⟨⟨text [.shown 'a' rfl, .shown 'b' rfl, .shown 'c' rfl, .style [] rfl]⟩,
        ⟨['d'], 1, by decide⟩⟩ 3))
    let plain := (Screen.blank 3).write (Draw.renderAll (Frame.redraw
      ⟨⟨['a', 'b', 'c']⟩, ⟨['d'], 1, by decide⟩⟩ 3))
    styled.lines = [['a', 'b']] ∧ styled.cursor = (0, 2) ∧
      plain.lines = [['a', 'b', 'c'], ['d']] ∧ plain.cursor = (1, 1) := by
  decide +kernel

end Styled

end LineEditor
