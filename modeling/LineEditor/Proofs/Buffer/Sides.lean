import Mathlib.Data.List.DropRight
import LineEditor.Collect
import LineEditor.Proofs.Buffer.Spans
import LineEditor.Reply

/-!
A buffer as the two texts on the sides of its cursor. Every edit does to the buffer what the same edit does to
the two texts alone, as plain cutting and joining of lists, and answers the same; so does every run of edits.

Main definitions: `BufferCall`, an edit, and `Sides` with its operations, what edits do to two texts. Main
statements: `deleteRange_buffer` and its siblings, one for each operation, `BufferCall.run_buffer`, one edit,
and `edits_refine_sides`, any run of them.
-/
namespace LineEditor

/-! ### Edits of a buffer -/

/-- An edit of a buffer. A single code point is inserted as a text of one. -/
inductive BufferCall where
  | insert (t : Text)
  | deleteRange (first last : Nat)
  | delete (n : Int)
  | moveBy (d : Int)
  | setCursor (n : Nat)
  | moveToEnd
  | clear
  | replace (t : Text)
  | transpose
  deriving DecidableEq, Repr

/-- Carries an edit out. -/
def BufferCall.run (b : Buffer) : BufferCall → Buffer × Reply
  | insert t =>
    match b.insert t with
    | .ok b' => (b', .done)
    | .error e => (b, .editError e)
  | deleteRange first last => (b.deleteRange first last).map id (.text? ∘ some)
  | delete n => (b.delete n).map id (.text? ∘ some)
  | moveBy d => (b.moveBy d, .nothing)
  | setCursor n => (b.setCursor n, .nothing)
  | moveToEnd => (b.moveToEnd, .nothing)
  | clear => (.empty, .nothing)
  | replace t => (.ofText t, .nothing)
  | transpose => (b.transpose.getD b, .flag b.transpose.isSome)

/-! ### Two texts with a gap between them -/

namespace Text

/-- A text without the places from `first` up to `last`. -/
def without (first last : Nat) (t : Text) : Text := t.take first ++ t.drop (max first last)

/-- What is at the places from `first` up to `last`. -/
def span (first last : Nat) (t : Text) : Text := (t.take last).drop first

end Text

/-- The text before a gap and the text after it. -/
@[ext]
structure Sides where
  before : Text
  after : Text
  deriving DecidableEq, Repr

namespace Sides

/-- The buffer with the cursor in the gap. -/
def buffer (s : Sides) : Buffer := .ofSides s.before s.after

/-- Both texts as one. -/
def text (s : Sides) : Text := s.before ++ s.after

/-- A text put behind the one before the gap, unless it has a control character other than a newline. -/
def insert (s : Sides) (t : Text) : Except EditError Sides :=
  match t.find? fun c => Text.isControl c && c != '\n' with
  | some c => .error (.invalidCharacter c)
  | none => .ok ⟨s.before ++ t, s.after⟩

/-- The places from `first` up to `last` taken out of both texts, and what was there. -/
def deleteRange (s : Sides) (first last : Nat) : Sides × Text :=
  let gap := s.before.length
  (⟨s.before.without first last, s.after.without (first - gap) (last - gap)⟩,
    s.before.span first last ++ s.after.span (first - gap) (last - gap))

/-- As many code points as there are, up to `n`, taken from behind the gap, or from before it. -/
def delete (s : Sides) (n : Int) : Sides × Text :=
  if 0 ≤ n then (⟨s.before, s.after.drop n.natAbs⟩, s.after.take n.natAbs)
  else (⟨s.before.rdrop n.natAbs, s.after⟩, s.before.rtake n.natAbs)

/-- As many code points as there are, up to `d`, handed over the gap. -/
def moveBy (s : Sides) (d : Int) : Sides :=
  if 0 ≤ d then ⟨s.before ++ s.after.take d.natAbs, s.after.drop d.natAbs⟩
  else ⟨s.before.rdrop d.natAbs, s.before.rtake d.natAbs ++ s.after⟩

/-- The gap behind `n` code points, or behind all if there are fewer. -/
def setCursor (s : Sides) (n : Nat) : Sides := ⟨s.text.take n, s.text.drop n⟩

/-- The neighbours on both sides of the gap swapped and the gap behind them; at the end, the last two. -/
def transpose (s : Sides) : Option Sides :=
  match s.before.reverse, s.after with
  | x :: rest, y :: after => some ⟨rest.reverse ++ [y, x], after⟩
  | y :: x :: rest, [] => some ⟨rest.reverse ++ [y, x], []⟩
  | _, _ => none

/-- Carries an edit out. -/
def run (s : Sides) : BufferCall → Sides × Reply
  | .insert t =>
    match s.insert t with
    | .ok s' => (s', .done)
    | .error e => (s, .editError e)
  | .deleteRange first last => (s.deleteRange first last).map id (.text? ∘ some)
  | .delete n => (s.delete n).map id (.text? ∘ some)
  | .moveBy d => (s.moveBy d, .nothing)
  | .setCursor n => (s.setCursor n, .nothing)
  | .moveToEnd => (⟨s.text, []⟩, .nothing)
  | .clear => (⟨[], []⟩, .nothing)
  | .replace t => (⟨t, []⟩, .nothing)
  | .transpose => (s.transpose.getD s, .flag s.transpose.isSome)

end Sides

variable {first last n : Nat} {s t : Text} {p : Sides}

/-! ### Spans of joined texts -/

namespace Text

theorem without_append (first last : Nat) (s t : Text) :
    (s ++ t).without first last =
      s.without first last ++ t.without (first - s.length) (last - s.length) := by
  have hmax : max first last - s.length = max (first - s.length) (last - s.length) := by omega
  rw [without, without, without, List.take_append, List.drop_append, hmax]
  -- what is taken of `t` or what is dropped of `s` is nothing
  rcases Nat.le_total first s.length with hle | hle
  · rw [Nat.sub_eq_zero_of_le hle, List.take_zero]
    simp
  · rw [List.drop_eq_nil_of_le (Nat.le_trans hle (Nat.le_max_left ..))]
    simp

theorem span_append (first last : Nat) (s t : Text) :
    (s ++ t).span first last = s.span first last ++ t.span (first - s.length) (last - s.length) := by
  rw [span, span, span, List.take_append, List.drop_append, List.length_take]
  rcases Nat.le_total last s.length with hle | hle
  · rw [Nat.sub_eq_zero_of_le hle, List.take_zero, List.drop_nil, List.drop_nil]
  · rw [Nat.min_eq_right hle]

theorem length_without (first last : Nat) (t : Text) :
    (t.without first last).length = min t.length first + (t.length - max first last) := by
  rw [without, List.length_append, List.length_take, List.length_drop, Nat.min_comm]

/-- How much of a text stays, with the places clamped to a text that goes on behind it. -/
theorem length_without_clamp {n : Nat} (first last : Nat) (h : t.length ≤ n) :
    min t.length (min first (min last n)) + (t.length - min last n) =
      (t.without first last).length := by
  rw [length_without]
  rcases Nat.le_total first last with hle | hle
  · rw [Nat.max_eq_right hle]
    omega
  · rw [Nat.max_eq_left hle]
    omega

/-- Places past the end do not count, and an inverted span is empty. -/
theorem without_clamp (first last : Nat) (t : Text) :
    t.take (min first (min last t.length)) ++ t.drop (min last t.length) = t.without first last := by
  rw [without]
  rcases Nat.le_total first last with hle | hle
  · have hstart : min first (min last t.length) = min first t.length := by omega
    have hdrop : t.drop (min last t.length) = t.drop last := by
      rw [List.drop_eq_drop_iff]
      omega
    rw [hstart, Nat.max_eq_right hle, hdrop, ← List.take_eq_take_min]
  · have hstart : min first (min last t.length) = min last t.length := by omega
    rw [hstart, Nat.max_eq_left hle, List.take_append_drop, List.take_append_drop]

theorem span_clamp (first last : Nat) (t : Text) :
    (t.take (min last t.length)).drop (min first (min last t.length)) = t.span first last := by
  have htake : t.take (min last t.length) = t.take last := List.take_eq_take_min.symm
  rw [span, htake, List.drop_eq_drop_iff, List.length_take]
  omega

end Text

/-! ### Each edit -/

namespace Sides

@[simp] theorem text_buffer (p : Sides) : p.buffer.text = p.before ++ p.after := rfl

@[simp] theorem cursor_buffer (p : Sides) : p.buffer.cursor = p.before.length := rfl

@[simp] theorem length_buffer (p : Sides) : p.buffer.length = p.before.length + p.after.length :=
  List.length_append ..

/-- A text with the cursor at its end has nothing behind the gap. -/
theorem ofText_eq_buffer (t : Text) : Buffer.ofText t = buffer ⟨t, []⟩ := by
  ext1
  · exact (List.append_nil t).symm
  · rfl

/-- A text and a cursor in it are those of two sides if the cursor stands between them. -/
theorem clamp_eq_buffer (htext : t = p.text) (hn : min n t.length = p.before.length) :
    Buffer.clamp t n = p.buffer := by
  ext1
  · exact htext
  · exact hn

theorem insert_buffer (p : Sides) (t : Text) : p.buffer.insert t = (p.insert t).map buffer := by
  have hinsertable : (fun c => !Buffer.isInsertable c) = fun c => Text.isControl c && c != '\n' := by
    funext c
    rw [Buffer.isInsertable, Bool.not_or, Bool.not_not]
    rfl
  rw [Buffer.insert, insert, hinsertable]
  cases t.find? fun c => Text.isControl c && c != '\n' with
  | some c => rfl
  | none =>
    rw [buffer, Buffer.before_ofSides, Buffer.after_ofSides]
    rfl

theorem deleteRange_buffer (p : Sides) (first last : Nat) :
    p.buffer.deleteRange first last =
      ((p.deleteRange first last).1.buffer, (p.deleteRange first last).2) := by
  have hstays := Text.length_without_clamp first last
    (Nat.le_add_right p.before.length p.after.length)
  have hle : (p.before.without first last).length ≤ (p.text.without first last).length := by
    rw [text, Text.without_append, List.length_append]
    exact Nat.le_add_right ..
  rw [Buffer.deleteRange, deleteRange]
  dsimp only [Buffer.length]
  rw [Text.without_clamp, Text.span_clamp, text_buffer, Text.span_append, cursor_buffer,
    List.length_append, hstays]
  exact congrArg (·, _) (clamp_eq_buffer (Text.without_append ..) (Nat.min_eq_left hle))

theorem delete_buffer (p : Sides) (n : Int) :
    p.buffer.delete n = ((p.delete n).1.buffer, (p.delete n).2) := by
  have hafter : (p.deleteRange p.before.length (p.before.length + n.natAbs)) =
      (⟨p.before, p.after.drop n.natAbs⟩, p.after.take n.natAbs) := by
    simp [deleteRange, Text.without, Text.span]
  have hbefore : (p.deleteRange (p.before.length - n.natAbs) p.before.length) =
      (⟨p.before.rdrop n.natAbs, p.after⟩, p.before.rtake n.natAbs) := by
    simp [deleteRange, Text.without, Text.span, List.rdrop, List.rtake]
  rw [Buffer.delete, delete, cursor_buffer, deleteRange_buffer, deleteRange_buffer, hafter, hbefore]
  split <;> rfl

theorem setCursor_buffer (p : Sides) (n : Nat) : p.buffer.setCursor n = (p.setCursor n).buffer := by
  refine clamp_eq_buffer (List.take_append_drop ..).symm ?_
  rw [setCursor, List.length_take]
  rfl

theorem moveBy_buffer (p : Sides) (d : Int) : p.buffer.moveBy d = (p.moveBy d).buffer := by
  rw [Buffer.moveBy, Buffer.setCursor, moveBy, cursor_buffer, text_buffer]
  split
  · refine clamp_eq_buffer ?_ ?_
    · rw [text, List.append_assoc, List.take_append_drop]
    · rw [List.length_append, List.length_append, List.length_take]
      omega
  · refine clamp_eq_buffer ?_ ?_
    · rw [text, ← List.append_assoc, List.rdrop, List.rtake, List.take_append_drop]
    · rw [List.length_append, List.rdrop, List.length_take]
      omega

/-- The two code points that are swapped, and where the cursor goes. -/
theorem transpose_of_text {b : Buffer} {x y : Char} (htext : b.text = s ++ x :: y :: t)
    (hright : min b.cursor (b.length - 1) = s.length + 1) :
    b.transpose = some (buffer ⟨s ++ [y, x], t⟩) := by
  have hlength : b.length = s.length + (t.length + 2) := by
    rw [Buffer.length, htext, List.length_append]
    rfl
  rw [Buffer.transpose, if_neg (by omega), hright]
  dsimp only
  rw [Nat.add_sub_cancel, htext, List.drop_left, List.take_left]
  refine congrArg some (clamp_eq_buffer ?_ ?_)
  · rw [text, List.append_assoc]
    rfl
  · rw [List.length_append, List.length_append]
    dsimp only [List.length_cons, List.length_nil]
    omega

theorem transpose_buffer (p : Sides) : p.buffer.transpose = p.transpose.map buffer := by
  obtain ⟨before, after⟩ := p
  have hfew : before.length = 0 ∨ before.length + after.length < 2 →
      (buffer ⟨before, after⟩).transpose = none := by
    intro hfew
    rw [Buffer.transpose, length_buffer, cursor_buffer]
    exact if_pos (by dsimp only; omega)
  rw [transpose]
  dsimp only
  cases hbefore : before.reverse with
  | nil => exact hfew (.inl (List.length_eq_zero_iff.2 (List.reverse_eq_nil_iff.1 hbefore)))
  | cons x rest =>
    rw [List.reverse_eq_iff, List.reverse_cons] at hbefore
    subst hbefore
    cases after with
    | cons y after =>
      refine transpose_of_text (x := x) ?_ ?_
      · rw [text_buffer, List.append_assoc]
        rfl
      · rw [cursor_buffer, length_buffer, List.length_append, List.length_singleton, List.length_cons]
        omega
    | nil =>
      cases rest with
      | nil => exact hfew (.inr Nat.one_lt_two)
      | cons y rest =>
        refine transpose_of_text (x := y) ?_ ?_
        · rw [text_buffer, List.append_nil, List.reverse_cons, List.append_assoc]
          rfl
        · rw [cursor_buffer, length_buffer, List.reverse_cons, List.length_append, List.length_append]
          dsimp only [List.length_cons, List.length_nil]
          omega

/-- Two neighbours are swapped. -/
theorem exists_of_transpose {p' : Sides} (h : p.transpose = some p') :
    ∃ s x y t, p.text = s ++ x :: y :: t ∧ p'.text = s ++ y :: x :: t := by
  obtain ⟨before, after⟩ := p
  rw [transpose] at h
  dsimp only at h
  split at h
  · rename_i x rest y after hbefore
    rw [List.reverse_eq_iff, List.reverse_cons] at hbefore
    cases h
    exact ⟨rest.reverse, x, y, after, by simp [text, hbefore], by simp [text]⟩
  · rename_i y x rest hbefore
    rw [List.reverse_eq_iff, List.reverse_cons, List.reverse_cons] at hbefore
    cases h
    exact ⟨rest.reverse, x, y, [], by simp [text, hbefore], by simp [text]⟩
  · cases h

end Sides

/-! ### Runs of edits -/

/-- An edit of a buffer is the edit of the two sides of its cursor. -/
theorem BufferCall.run_buffer (p : Sides) (c : BufferCall) :
    c.run p.buffer = ((p.run c).1.buffer, (p.run c).2) := by
  cases c with
  | insert t =>
    rw [run, Sides.insert_buffer, Sides.run]
    cases p.insert t <;> rfl
  | deleteRange first last =>
    rw [run, Sides.deleteRange_buffer]
    rfl
  | delete n =>
    rw [run, Sides.delete_buffer]
    rfl
  | moveBy d =>
    rw [run, Sides.moveBy_buffer]
    rfl
  | setCursor n =>
    rw [run, Sides.setCursor_buffer]
    rfl
  | moveToEnd => exact congrArg (·, _) (Sides.ofText_eq_buffer _)
  | clear => rfl
  | replace t => exact congrArg (·, _) (Sides.ofText_eq_buffer t)
  | transpose =>
    rw [run, Sides.transpose_buffer, Sides.run]
    cases p.transpose <;> rfl

theorem BufferCall.collect_buffer (p : Sides) (calls : List BufferCall) :
    collectEach BufferCall.run p.buffer calls =
      ((collectEach Sides.run p calls).1.buffer, (collectEach Sides.run p calls).2) := by
  induction calls generalizing p with
  | nil => rfl
  | cons c calls ih =>
    rw [collectEach_cons, collectEach_cons, BufferCall.run_buffer, ih]

/-- What was just inserted is what is deleted before the cursor, and the buffer is as it was. -/
theorem Buffer.delete_insert (b : Buffer) (ht : t.Only (isInsertable · = true)) :
    ∃ b', b.insert t = .ok b' ∧ b'.delete (-t.length) = (b, t) := by
  refine ⟨_, b.insert_eq_ok ht, ?_⟩
  have hsides : Buffer.ofSides (b.before ++ t) b.after = Sides.buffer ⟨b.before ++ t, b.after⟩ := rfl
  rw [hsides, Sides.delete_buffer, Sides.delete]
  split
  · rename_i hle
    obtain rfl : t = [] := List.length_eq_zero_iff.1 (by omega)
    simp [Sides.buffer]
  · simp [Sides.buffer, List.rdrop, List.rtake]

/-! ### Words of the machine -/

/-- The sum of two words of 64 bits, or the largest word if it is none. -/
def saturatedSum (m n : Nat) : Nat := min (m + n) (UInt64.size - 1)

/-- A sum that is too large for a word is past the end of every text. -/
theorem Buffer.moveBy_saturated {b : Buffer} (hb : b.length < UInt64.size) (d : Int) :
    b.moveBy d =
      b.setCursor (if 0 ≤ d then saturatedSum b.cursor d.natAbs else b.cursor - d.natAbs) := by
  rw [Buffer.length] at hb
  ext1
  · rfl
  · rw [moveBy, setCursor, setCursor, clamp, clamp, saturatedSum]
    split <;> dsimp only <;> omega

theorem Buffer.delete_saturated {b : Buffer} (hb : b.length < UInt64.size) (n : Int) :
    b.delete n =
      if 0 ≤ n then b.deleteRange b.cursor (saturatedSum b.cursor n.natAbs)
      else b.deleteRange (b.cursor - n.natAbs) b.cursor := by
  have hlast : min (b.cursor + n.natAbs) b.length = min (saturatedSum b.cursor n.natAbs) b.length := by
    rw [saturatedSum]
    omega
  rw [delete]
  split
  · rw [deleteRange, deleteRange, hlast]
  · rfl

/-! ### The refinement -/

/-- Any edits, with any places and counts, do to a buffer what they do to the text before and the text after
its cursor, and answer the same. In particular the cursor never leaves the text. What was just inserted is
what as many deletions before the cursor give back; swapping neighbours keeps all code points; and a machine
that stops its sums at the largest word edits in the same way. -/
theorem edits_refine_sides (b : Buffer) (calls : List BufferCall) :
    let r := collectEach BufferCall.run b calls
    let p := collectEach Sides.run ⟨b.before, b.after⟩ calls
    (r.1.text = p.1.before ++ p.1.after ∧ r.1.cursor = p.1.before.length ∧
      r.1.cursor ≤ r.1.length ∧ r.2 = p.2) ∧
    (∀ t : Text, (∀ c ∈ t, Text.isControl c = true → c = '\n') →
      ∃ b', r.1.insert t = .ok b' ∧ b'.delete (-t.length) = (r.1, t)) ∧
    (∀ b', r.1.transpose = some b' → b'.text.Perm r.1.text ∧
      ∃ s x y t, r.1.text = s ++ x :: y :: t ∧ b'.text = s ++ y :: x :: t) ∧
    (r.1.length < UInt64.size → ∀ d : Int,
      r.1.moveBy d = r.1.setCursor
        (if 0 ≤ d then saturatedSum r.1.cursor d.natAbs else r.1.cursor - d.natAbs) ∧
      r.1.delete d =
        if 0 ≤ d then r.1.deleteRange r.1.cursor (saturatedSum r.1.cursor d.natAbs)
        else r.1.deleteRange (r.1.cursor - d.natAbs) r.1.cursor) := by
  intro r p
  have hrun : r = (p.1.buffer, p.2) := by
    have hsides : b = Sides.buffer ⟨b.before, b.after⟩ := b.ofSides_before_after.symm
    have hcollect := BufferCall.collect_buffer ⟨b.before, b.after⟩ calls
    rwa [← hsides] at hcollect
  have hbuffer : r.1 = p.1.buffer := congrArg Prod.fst hrun
  refine ⟨⟨by rw [hbuffer]; rfl, by rw [hbuffer]; rfl, r.1.cursor_le, by rw [hrun]⟩, ?_, ?_, ?_⟩
  · intro t ht
    refine r.1.delete_insert fun c hc => ?_
    change (!Text.isControl c || c == '\n') = true
    by_cases hcontrol : Text.isControl c = true
    · simp [ht c hc hcontrol]
    · simp [hcontrol]
  · intro b' hb'
    rw [hbuffer, Sides.transpose_buffer] at hb'
    obtain ⟨p', hp', rfl⟩ := Option.map_eq_some_iff.1 hb'
    obtain ⟨s, x, y, t, htext, htext'⟩ := Sides.exists_of_transpose hp'
    have hbefore : r.1.text = s ++ x :: y :: t := by rw [hbuffer]; exact htext
    have hafter : p'.buffer.text = s ++ y :: x :: t := htext'
    refine ⟨?_, s, x, y, t, hbefore, hafter⟩
    rw [hbefore, hafter]
    exact (List.Perm.swap x y t).append_left s
  · exact fun hlength d => ⟨Buffer.moveBy_saturated hlength d, Buffer.delete_saturated hlength d⟩

/-- The cursor is sent far before the start and then into the middle, where neighbours are swapped. -/
theorem edits_refine_sides_swap :
    let b := (collectEach BufferCall.run (.ofText ['a', 'b']) [.moveBy Int64.minValue.toInt, .moveBy 1]).1
    let far : Int := Int64.maxValue.toInt
    b.length < UInt64.size ∧ b.moveBy far = b.setCursor (saturatedSum b.cursor far.natAbs) ∧
      b.transpose = some (.ofText ['b', 'a']) ∧ List.Perm ['b', 'a'] b.text ∧
      ∃ b', b.insert ['\n'] = .ok b' ∧ b'.delete (-1) = (b, ['\n']) := by
  intro b far
  obtain ⟨-, hinsert, htranspose, hsaturated⟩ :=
    edits_refine_sides (.ofText ['a', 'b']) [.moveBy Int64.minValue.toInt, .moveBy 1]
  have hlength : b.length < UInt64.size := by decide
  have hswapped : b.transpose = some (.ofText ['b', 'a']) := by decide
  have hfar := (hsaturated hlength far).1
  rw [if_pos (by decide : 0 ≤ far)] at hfar
  exact ⟨hlength, hfar, hswapped, (htranspose _ hswapped).1,
    hinsert ['\n'] fun _ hc _ => List.mem_singleton.1 hc⟩

end LineEditor
