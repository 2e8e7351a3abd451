import LineEditor.Proofs.Session.Shown

/-!
Completion and the screen. A completion edits the line, or lists candidates below the line and draws
the line again, or leaves a question below the line, which is answered by the next key. While the
question stands there the cursor is behind the line as far as the session knows, and nothing is
written below it.

Main definition: `Desk.Asking`. Main statements: `Ready.beginCompletion`, a completion begins, and
`Asking.beginCompletion`, its question is answered.
-/
namespace LineEditor

/-- From the end of a frame there is nowhere to go. -/
theorem Frame.moveToEnd_eq_nil {f : Frame} {width : Nat} (h : f.buffer.cursor = f.buffer.length) :
    f.moveToEnd width = [] := by
  have hend : f.cursorPosition width = f.endPosition width :=
    congrArg (fun n => position (f.prompt.width + n) width) h
  rw [moveToEnd, hend, moveTo, if_neg (Nat.lt_irrefl _), if_neg (Nat.lt_irrefl _), if_pos rfl]
  rfl

namespace Desk

/-- The question of a handler stands below the line. -/
structure Asking (style : BellStyle) (s : Screen) (d : Desk) : Prop where
  below : { d with session.handler := none }.Below Screen.Loose style s
  handler : ∃ h : CandidateHandler, d.session.handler = some (.candidates h) ∧ h.Plain ∧ h.ask = true
  fits : d.Fits
  end_eq : d.session.buffer.cursor = d.session.buffer.length
  shown_eq : d.session.shown = d.session.current

variable {d : Desk} {P : Screen → Nat → Prop} {style : BellStyle} {s : Screen} {own : Bool}
  {t : Text}

/-! ### Output below the line -/

theorem Below.write (h : d.Below Screen.Loose style s) (ht : t.Plain) :
    (d.write t).Below Screen.Loose style s := by
  have hseen := d.seen_write style s t
  rw [NewlineMode.translate_apply ht.newline_notMem] at hseen
  have hloose := h.screen.write ht
  rw [← hseen] at hloose
  rw [write_eq] at hloose ⊢
  exact { h with plain := { h.plain with }, screen := hloose }

theorem Below.writeLine (h : d.Below Screen.Loose style s) (ht : t.Plain) :
    (d.write (t ++ ['\n'])).Below Screen.Fresh style s := by
  have hseen := d.seen_write style s (t ++ ['\n'])
  rw [NewlineMode.translate_append, NewlineMode.translate_apply ht.newline_notMem,
    Screen.write_append] at hseen
  have hfresh := (h.screen.write ht).newline
  rw [write_eq] at hseen ⊢
  exact { h with
    plain := { h.plain with }
    screen := by
      rw [hseen]
      exact hfresh }

theorem Below.loose (h : d.Below Screen.Fresh style s) : d.Below Screen.Loose style s :=
  { h with screen := h.screen.loose }

theorem Below.listCandidates {candidates : List Text} (h : d.Below Screen.Loose style s)
    (hp : ∀ t ∈ candidates, t.Plain) (hfits : (d.listCandidates candidates).Fits) :
    (d.listCandidates candidates).Ready style s own :=
  (h.writeLine (plain_intercalate (by decide) hp)).redraw hfits

/-! ### A completion begins -/

theorem Ready.setHandler {h' : CandidateHandler} (h : d.Ready style s own) (hp : h'.Plain)
    (hcalm : h'.ask = false) :
    { d with session.handler := some (.candidates h') }.Ready style s own :=
  { h with
    plain := { h.plain with handler := fun _ hh => Option.some.inj hh ▸ hp }
    calm := fun _ hh => Option.some.inj hh ▸ hcalm }

theorem Ready.replaceWord (h : d.Ready style s own) (ht : t.Plain)
    (hfits : (d.replaceWord t).Fits) : (d.replaceWord t).Ready style s own := by
  have hcut := (Buffer.plain_deleteRange h.plain.frame.buffer d.session.buffer.wordStart
    d.session.buffer.cursor).1
  unfold Desk.replaceWord at hfits ⊢
  dsimp only at hfits ⊢
  split
  · rename_i b hb
    rw [hb] at hfits
    exact h.applyEdit (Buffer.plain_insert hcut ht hb) hfits
  · exact h.bell

theorem plain_question (count : Nat) : Text.Plain ("Display all ".toList ++
    Nat.toDigits 10 count ++ " possibilities? (y or n)".toList) := by
  have hdigits : Text.Plain (Nat.toDigits 10 count) := by
    intro c hc
    have hdigit := Nat.isDigit_of_mem_toDigits (by omega) (by omega) hc
    obtain ⟨hlow, hhigh⟩ : 48 ≤ c.toNat ∧ c.toNat ≤ 57 := Char.isDigit_iff_toNat.1 hdigit
    have hsmall : ¬ c.toNat < 0x20 := by omega
    have hlarge : ¬ 0x7F ≤ c.toNat := by omega
    simp [Text.isControl, hsmall, hlarge]
  simp only [Text.plain_append]
  exact ⟨⟨by decide, hdigits⟩, by decide⟩

theorem Below.noHandler (h : d.Below P style s) :
    { d with session.handler := none }.Below P style s :=
  { h with
    plain := { h.plain with handler := fun _ hh => by cases hh }
    calm := fun _ hh => by cases hh }

/-- The question is put below the line, and the cursor of the line goes to its end. -/
theorem Ready.askBeforeListing {h : CandidateHandler} (hd : d.Ready style s false) (hh : h.Plain)
    (hask : h.ask = true) (count : Nat) (hfits : (d.askBeforeListing count).Fits) :
    { d.askBeforeListing count with session.handler := some (.candidates h) }.Asking style s := by
  have hbelow := (hd.newLine.loose.write (plain_question count)).noHandler
  have hshown := hd.shown_eq rfl
  unfold Desk.askBeforeListing at hfits ⊢
  rw [write_eq, newLine_eq, write_eq] at hbelow hfits ⊢
  exact ⟨hbelow, ⟨h, rfl, hh, hask⟩, hfits, rfl, hshown⟩

/-- How the work of the usual handler leaves a desk: with the line drawn, or with the question of the
handler below the line. -/
def Completed (style : BellStyle) (s : Screen) (r : CandidateHandler × Desk) : Prop :=
  r.1.Plain ∧ r.1.ask = false ∧ r.2.Ready style s false ∨
    { r.2 with session.handler := some (.candidates r.1) }.Asking style s

theorem Ready.completeFrom {h : CandidateHandler} (hd : d.Ready style s false) (hh : h.Plain)
    (hask : h.ask = false) (hfits : (d.completeFrom h).2.Fits) :
    Completed style s (d.completeFrom h) := by
  have hcandidates : ∀ t ∈ h.completer.candidates d.session.buffer.word, t.Plain :=
    hh.completer _ (Buffer.plain_word hd.plain.frame.buffer)
  unfold Desk.completeFrom at hfits ⊢
  rw [if_neg (by rw [hask]; decide)] at hfits ⊢
  dsimp only at hfits ⊢
  generalize h.completer.candidates d.session.buffer.word = candidates at hcandidates hfits ⊢
  have hlog := hd.log .debug .completion "complete"
    [("word", .quoted d.session.buffer.word), ("candidates", .number candidates.length)]
  generalize d.log .debug .completion "complete"
    [("word", .quoted d.session.buffer.word), ("candidates", .number candidates.length)] = d'
    at hlog hfits ⊢
  rcases candidates with _ | ⟨first, _ | ⟨second, rest⟩⟩
  · exact Or.inl ⟨hh, hask, hlog.bell⟩
  · have hword : Text.Plain (first ++ [' ']) :=
      (Text.plain_append ..).2 ⟨hcandidates first (List.mem_singleton_self _), by decide⟩
    exact Or.inl ⟨hh, hask, hlog.replaceWord hword hfits⟩
  · dsimp only at hfits ⊢
    split
    · rename_i hlonger
      rw [if_pos hlonger] at hfits
      exact Or.inl ⟨hh, hask, hlog.replaceWord (plain_commonStart hcandidates) hfits⟩
    · rename_i hlonger
      rw [if_neg hlonger] at hfits
      split
      · rename_i hmany
        rw [if_pos hmany] at hfits
        have hpending : { h with ask := true, pending := first :: second :: rest }.Plain :=
          ⟨hh.completer, hcandidates⟩
        exact Or.inr (hlog.askBeforeListing hpending rfl _ hfits)
      · rename_i hmany
        rw [if_neg hmany] at hfits
        exact Or.inl ⟨hh, hask, hlog.newLine.loose.listCandidates hcandidates hfits⟩

/-- A completion that is applied at a desk leaves it with the line drawn, or asks. -/
def Completes (style : BellStyle) (s : Screen) : CompletionStep → Prop
  | .finished c d => d.Fits →
    c.asking = false ∧ d.Ready style s false ∨ c.asking = true ∧ d.Asking style s
  | .script .. => False

theorem Ready.beginCompletion (hd : d.Ready style s false) {c : Completion}
    (hc : c.asking = false) : Completes style s (d.beginCompletion c) := by
  unfold Desk.beginCompletion
  split
  · exact fun _ => Or.inl ⟨hc, hd.bell.resume⟩
  · rename_i handler hhandler
    have hplain := hd.plain.handler handler hhandler
    have hcalm := hd.calm handler hhandler
    cases handler with
    | scripted h => exact absurd hplain id
    | candidates h =>
      have hask : h.ask = false := hcalm
      have htaken : { d with session.handler := none }.Ready style s false :=
        { hd with
          plain := { hd.plain with handler := fun _ hh => by cases hh }
          calm := fun _ hh => by cases hh }
      simp only [Handler.asks, hask, Bool.false_and, Bool.false_eq_true, if_false]
      intro hfits
      rcases htaken.completeFrom hplain hask hfits with ⟨hp, hkept, hready⟩ | hasking
      · exact Or.inl ⟨hkept, (hready.setHandler hp hkept).resume⟩
      · obtain ⟨h', hsome, -, hask'⟩ := hasking.handler
        cases hsome
        refine Or.inr ⟨hask', ?_⟩
        exact { hasking with below := { hasking.below with plain := { hasking.below.plain with } } }

/-! ### A question is answered -/

theorem Asking.beginCompletion (hd : d.Asking style s) (c : Completion) :
    Completes style s (d.beginCompletion c) := by
  obtain ⟨h, hhandler, hplain, hask⟩ := hd.handler
  have hnone : Text.Plain [] := Text.plain_nil
  unfold Desk.beginCompletion
  rw [hhandler]
  simp only [Handler.asks, hask, Bool.true_and]
  split
  · intro hfits
    have hline := (hd.below.setUndo (UndoStack.plain_clear d.undo)).writeLine hnone
    exact Or.inl ⟨rfl, ((hline.resetDisplay hfits).setHandler (hplain.setAsk false) rfl).resume⟩
  · intro hfits
    unfold Desk.completeFrom at hfits ⊢
    rw [if_pos hask] at hfits ⊢
    have hline := (hd.below.writeLine hnone).loose
    have hdropped : { h with ask := false, pending := [] }.Plain :=
      ⟨hplain.completer, fun _ ht => by cases ht⟩
    exact Or.inl
      ⟨rfl, ((hline.listCandidates hplain.pending hfits).setHandler hdropped rfl).resume⟩

end Desk

end LineEditor
