import LineEditor.Buffer.Words
import LineEditor.Proofs.Text.Only

/-!
Spans of a buffer around its cursor: cutting one out leaves the cursor where the span was, inserting it
again gives the text back, and words end where the text does at the latest.

Main statements: `Buffer.deleteRange_eq`, `Buffer.insert_cut`, and the bounds of the places that motions
go to.
-/
namespace LineEditor

namespace Text

/-- Two runs, one behind the other. -/
theorem runs_le (p q : Char → Bool) (t : Text) :
    runLength p t + runLength q (t.dropWhile p) ≤ t.length := by
  have hsplit : (t.takeWhile p).length + (t.dropWhile p).length = t.length := by
    rw [← List.length_append, List.takeWhile_append_dropWhile]
  rw [← hsplit]
  exact Nat.add_le_add_left (List.takeWhile_prefix q).length_le _

end Text

namespace Buffer

variable {b : Buffer} {first last : Nat} {s t : Text}

/-! ### Cutting and inserting -/

/-- Insertable text is all inserted. -/
theorem insert_eq_ok (b : Buffer) (ht : t.Only (isInsertable · = true)) :
    b.insert t = .ok (ofSides (b.before ++ t) b.after) := by
  have hnone : List.find? (fun c => !isInsertable c) t = none := by
    rw [List.find?_eq_none]
    intro c hc
    rw [ht c hc]
    decide
  rw [insert, hnone]

/-- A span around the cursor is cut out, and the cursor is where it was. -/
theorem deleteRange_eq (hfirst : first ≤ b.cursor) (hcursor : b.cursor ≤ last)
    (hlast : last ≤ b.length) : b.deleteRange first last =
      (ofSides (b.text.take first) (b.text.drop last), (b.text.take last).drop first) := by
  have hspan : first ≤ last := Nat.le_trans hfirst hcursor
  have hend : min last b.length = last := Nat.min_eq_left hlast
  have hstart : min first last = first := Nat.min_eq_left hspan
  have hcut : min b.cursor first + (b.cursor - last) = first := by omega
  have hlength : (b.text.take first).length = first :=
    List.length_take_of_le (Nat.le_trans hspan hlast)
  rw [deleteRange, hend, hstart, hcut, clamp, ofSides]
  congr 2
  rw [hlength, List.length_append, hlength]
  exact Nat.min_eq_left (Nat.le_add_right ..)

/-- What was cut out gives the text back where it is inserted, and the cursor is behind it. -/
theorem insert_cut (hspan : first ≤ last) (hb : b.text.Only (isInsertable · = true)) :
    (ofSides (b.text.take first) (b.text.drop last)).insert ((b.text.take last).drop first) =
      .ok (b.setCursor last) := by
  have hjoin : b.text.take first ++ (b.text.take last).drop first = b.text.take last := by
    have hsplit := (b.text.take last).take_append_drop first
    rwa [List.take_take, Nat.min_eq_left hspan] at hsplit
  rw [insert_eq_ok _ ((hb.take last).drop first), before_ofSides, after_ofSides, hjoin]
  congr 1
  ext1
  · exact b.text.take_append_drop last
  · exact List.length_take ..

/-! ### Words -/

section Words

variable (b) (gap : Char → Bool)

theorem min_cursor : min b.cursor b.length = b.cursor := Nat.min_eq_left b.cursor_le

/-- What starts at the cursor and is no longer than the rest ends with the text at the latest. -/
theorem cursor_add_le {n : Nat} (hn : n ≤ (b.text.drop b.cursor).length) :
    b.cursor + n ≤ b.length := by
  have hcursor := b.cursor_le
  rw [List.length_drop] at hn
  rw [length]
  omega

theorem le_nextWordEnd : b.cursor ≤ b.nextWordEnd b.cursor := by
  rw [nextWordEnd, min_cursor]
  exact Nat.le_add_right ..

theorem nextWordEnd_le : b.nextWordEnd b.cursor ≤ b.length := by
  rw [nextWordEnd, min_cursor]
  exact b.cursor_add_le (Text.runs_le ..)

theorem le_nextWordStart : b.cursor ≤ b.nextWordStart b.cursor := by
  rw [nextWordStart, min_cursor]
  rw [Nat.add_assoc]
  exact Nat.le_add_right ..

theorem nextWordStart_le : b.nextWordStart b.cursor ≤ b.length := by
  rw [nextWordStart, min_cursor]
  rw [Nat.add_assoc]
  exact b.cursor_add_le (Text.runs_le ..)

theorem previousStart_le : previousStart gap b b.cursor ≤ b.cursor := by
  rw [previousStart, min_cursor]
  exact Nat.sub_le ..

end Words

end Buffer

end LineEditor
