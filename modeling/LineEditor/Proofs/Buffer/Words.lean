import Mathlib.Data.List.TakeWhile
import Mathlib.Logic.Function.Iterate
import LineEditor.Proofs.Buffer.Spans

/-!
Motions by words go exactly where words end or start. A forward motion skips two whole runs of code points, a
backward motion is the forward one on the reversed text, and each gets on until there is nothing left, so
that repeating it comes to the end or to the start of the text.

Main definitions: `Text.RunsTo`, a run that does not go on, and `Text.WordEnds` and `Text.WordStarts`, where
the next word ends or starts. Main statements: `wordEnds_iff` and `wordStarts_iff`, the places that motions go
to, `previousStart_eq`, the mirror image, `exists_iterate_go_end` and `exists_iterate_go_start`, what
repeating comes to, and `motions_find_words`.
-/
namespace LineEditor

namespace Text

/-- The code points from one place up to another are a whole run: all of them satisfy `p`, and the one behind
them, if there is one, does not. -/
structure RunsTo (p : Char → Bool) (t : Text) (first last : Nat) : Prop where
  le : first ≤ last
  le_length : last ≤ t.length
  all : ∀ i c, first ≤ i → i < last → t[i]? = some c → p c = true
  stops : ∀ c, t[last]? = some c → p c = false

/-- The next word ends at `last`: from `first` on there is a run of what is in no word, which may be empty,
and then the word. -/
def WordEnds (word : Char → Bool) (t : Text) (first last : Nat) : Prop :=
  ∃ start, RunsTo (fun c => !word c) t first start ∧ RunsTo word t start last

/-- The run of the class of the code point at `first` ends at `last`; white space is of no class. -/
def ClassEnds (t : Text) (first last : Nat) : Prop :=
  match t[first]? with
  | none => last = first
  | some x =>
    if isSpace x then last = first
    else RunsTo (fun c => !isSpace c && isWordChar c == isWordChar x) t first last

/-- The next word starts at `last`: from `first` on there is the run of a class and then white space. -/
def WordStarts (t : Text) (first last : Nat) : Prop :=
  ∃ stop, ClassEnds t first stop ∧ RunsTo isSpace t stop last

variable {p word : Char → Bool} {t : Text} {first last last' : Nat}

/-! ### Runs -/

theorem drop_runLength (p : Char → Bool) (t : Text) : t.drop (runLength p t) = t.dropWhile p := by
  have hdrop : (t.takeWhile p ++ t.dropWhile p).drop (runLength p t) = t.dropWhile p := List.drop_left
  rwa [List.takeWhile_append_dropWhile] at hdrop

/-- A run is as long as it goes on. -/
theorem runsTo_runLength (p : Char → Bool) (h : first ≤ t.length) :
    RunsTo p t first (first + runLength p (t.drop first)) := by
  have hle : runLength p (t.drop first) ≤ (t.drop first).length :=
    (List.takeWhile_prefix p).length_le
  rw [List.length_drop] at hle
  refine ⟨Nat.le_add_right .., by omega, fun i c hi hlt hc => ?_, fun c hc => ?_⟩
  · have hplace : ((t.drop first).takeWhile p ++ (t.drop first).dropWhile p)[i - first]? = some c := by
      rwa [List.takeWhile_append_dropWhile, List.getElem?_drop, Nat.add_sub_of_le hi]
    rw [List.getElem?_append_left (Nat.sub_lt_left_of_lt_add hi hlt)] at hplace
    exact List.mem_takeWhile_imp (List.mem_of_getElem? hplace)
  · rw [← List.getElem?_drop, ← Nat.add_zero (runLength p (t.drop first)), ← List.getElem?_drop,
      drop_runLength, ← List.head?_eq_getElem?] at hc
    have hnot := List.head?_dropWhile_not p (t.drop first)
    rw [hc] at hnot
    exact hnot

/-- A run ends at one place only. -/
theorem RunsTo.unique (h : RunsTo p t first last) (h' : RunsTo p t first last') : last = last' := by
  have hshorter : ∀ {m n}, RunsTo p t first m → RunsTo p t first n → ¬ m < n := by
    intro m n hm hn hlt
    have hmem := List.getElem?_eq_getElem (Nat.lt_of_lt_of_le hlt hn.le_length)
    exact absurd (hn.all m _ hm.le hlt hmem) (Bool.eq_false_iff.1 (hm.stops _ hmem))
  exact Nat.le_antisymm (Nat.not_lt.1 (hshorter h' h)) (Nat.not_lt.1 (hshorter h h'))

theorem runsTo_iff (h : first ≤ t.length) :
    RunsTo p t first last ↔ last = first + runLength p (t.drop first) :=
  ⟨fun hruns => hruns.unique (runsTo_runLength p h), fun heq => heq ▸ runsTo_runLength p h⟩

/-- A run that is not empty. -/
theorem RunsTo.lt {x : Char} (h : RunsTo p t first last) (hx : t[first]? = some x) (hp : p x = true) :
    first < last := by
  refine Nat.lt_of_le_of_ne h.le fun heq => ?_
  rw [heq] at hx
  exact absurd hp (Bool.eq_false_iff.1 (h.stops x hx))

/-! ### Words -/

theorem wordEnds_iff (h : first ≤ t.length) :
    WordEnds word t first last ↔ last = first + gapAndWord (fun c => !word c) (t.drop first) := by
  have hgap := runsTo_runLength (fun c => !word c) h
  have hword : ∀ {stop}, stop ≤ t.length →
      (RunsTo word t stop last ↔ last = stop + runLength word (t.drop stop)) := runsTo_iff
  have hlength : first + gapAndWord (fun c => !word c) (t.drop first) =
      first + runLength (fun c => !word c) (t.drop first) +
        runLength word (t.drop (first + runLength (fun c => !word c) (t.drop first))) := by
    simp only [gapAndWord, Bool.not_not, ← drop_runLength, List.drop_drop, Nat.add_assoc]
  rw [hlength, ← hword hgap.le_length]
  constructor
  · rintro ⟨start, hstart, hlast⟩
    rwa [hstart.unique hgap] at hlast
  · exact fun hlast => ⟨_, hgap, hlast⟩

/-- There is a word or what is in none, so the end of the next word is further on. -/
theorem WordEnds.lt (h : WordEnds word t first last) (hfirst : first < t.length) : first < last := by
  obtain ⟨start, hgap, hword⟩ := h
  have hx := List.getElem?_eq_getElem hfirst
  by_cases hin : word t[first] = true
  · obtain rfl : first = start := by
      refine Nat.le_antisymm hgap.le (Nat.not_lt.1 fun hlt => ?_)
      have hout := hgap.all first _ (Nat.le_refl _) hlt hx
      rw [hin] at hout
      cases hout
    exact hword.lt hx hin
  · exact Nat.lt_of_lt_of_le (hgap.lt hx (by simpa using hin)) hword.le

/-- What belongs to the class of the code point at a place. -/
def classAt (t : Text) (first : Nat) : Char → Bool :=
  match t.drop first with
  | [] => fun _ => false
  | x :: _ => fun c => !isSpace x && !isSpace c && isWordChar c == isWordChar x

theorem classEnds_iff (h : first ≤ t.length) :
    ClassEnds t first last ↔ last = first + runLength (classAt t first) (t.drop first) := by
  rw [ClassEnds, classAt]
  cases hrest : t.drop first with
  | nil =>
    have hnone : t[first]? = none := List.getElem?_eq_none (List.drop_eq_nil_iff.1 hrest)
    rw [hnone]
    rfl
  | cons x rest =>
    have hsome : t[first]? = some x := by rw [← List.head?_drop, hrest, List.head?_cons]
    rw [hsome]
    dsimp only
    by_cases hx : isSpace x = true
    · simp [hx, runLength]
    · have hclass : (fun c => !isSpace x && !isSpace c && isWordChar c == isWordChar x) =
          fun c => !isSpace c && isWordChar c == isWordChar x := by simp [hx]
      rw [if_neg hx, hclass, ← hrest]
      exact runsTo_iff h

theorem wordStarts_iff (h : first ≤ t.length) :
    WordStarts t first last ↔ last = first + runLength (classAt t first) (t.drop first) +
      runLength isSpace ((t.drop first).dropWhile (classAt t first)) := by
  have hclass : ClassEnds t first (first + runLength (classAt t first) (t.drop first)) :=
    (classEnds_iff h).2 rfl
  have hle : first + runLength (classAt t first) (t.drop first) ≤ t.length :=
    (runsTo_runLength (classAt t first) h).le_length
  rw [← drop_runLength, List.drop_drop, ← runsTo_iff hle]
  constructor
  · rintro ⟨stop, hstop, hlast⟩
    rwa [(classEnds_iff h).1 hstop] at hlast
  · exact fun hlast => ⟨_, hclass, hlast⟩

/-- There is a class or white space, so the start of the next word is further on. -/
theorem WordStarts.lt (h : WordStarts t first last) (hfirst : first < t.length) : first < last := by
  obtain ⟨stop, hclass, hspace⟩ := h
  have hx := List.getElem?_eq_getElem hfirst
  rw [ClassEnds, hx] at hclass
  dsimp only at hclass
  split at hclass
  · rename_i hblank
    rw [hclass] at hspace
    exact hspace.lt hx hblank
  · rename_i hblank
    exact Nat.lt_of_lt_of_le (hclass.lt hx (by simp [hblank])) hspace.le

end Text

namespace Buffer

variable {motion : Buffer → Nat → Nat}

/-! ### Motions -/

theorem wordEnds_nextWordEnd (b : Buffer) (place last : Nat) :
    Text.WordEnds Text.isWordChar b.text (min place b.length) last ↔ last = b.nextWordEnd place :=
  Text.wordEnds_iff (Nat.min_le_right ..)

theorem wordStarts_nextWordStart (b : Buffer) (place last : Nat) :
    Text.WordStarts b.text (min place b.length) last ↔ last = b.nextWordStart place :=
  Text.wordStarts_iff (Nat.min_le_right ..)

theorem lt_nextWordEnd {b : Buffer} {place : Nat} (h : min place b.length < b.length) :
    min place b.length < b.nextWordEnd place :=
  ((b.wordEnds_nextWordEnd place _).2 rfl).lt h

theorem lt_nextWordStart {b : Buffer} {place : Nat} (h : min place b.length < b.length) :
    min place b.length < b.nextWordStart place :=
  ((b.wordStarts_nextWordStart place _).2 rfl).lt h

/-- Backward is forward on the reversed text. -/
theorem previousStart_eq (gap : Char → Bool) (b : Buffer) (place : Nat) :
    ∃ last, Text.WordEnds (fun c => !gap c) b.text.reverse (b.length - min place b.length) last ∧
      last ≤ b.length ∧ previousStart gap b place = b.length - last := by
  have hplace : min place b.length ≤ b.length := Nat.min_le_right ..
  have hrest : b.text.reverse.drop (b.length - min place b.length) =
      (b.text.take (min place b.length)).reverse := by
    rw [List.drop_reverse, ← length, Nat.sub_sub_self hplace]
  have hfirst : b.length - min place b.length ≤ b.text.reverse.length := by
    rw [List.length_reverse]
    exact Nat.sub_le ..
  have hends : Text.WordEnds (fun c => !gap c) b.text.reverse (b.length - min place b.length) _ :=
    (Text.wordEnds_iff hfirst).2 rfl
  obtain ⟨_, -, hruns⟩ := id hends
  have hle := hruns.le_length
  rw [List.length_reverse, ← length] at hle
  refine ⟨_, hends, hle, ?_⟩
  simp only [Bool.not_not, hrest] at hle ⊢
  change min place b.length - Text.gapAndWord gap (b.text.take (min place b.length)).reverse =
    b.length - (b.length - min place b.length +
      Text.gapAndWord gap (b.text.take (min place b.length)).reverse)
  omega

/-- The start of the word before a place is where the next word ends in the reversed text. -/
theorem previousWordStart_eq (b : Buffer) (place : Nat) :
    b.previousWordStart place =
      b.length - (Buffer.ofText b.text.reverse).nextWordEnd (b.length - min place b.length) := by
  obtain ⟨last, hends, -, heq⟩ := previousStart_eq (fun c => !Text.isWordChar c) b place
  simp only [Bool.not_not] at hends
  have hlength : (ofText b.text.reverse).length = b.length := List.length_reverse
  have hlast := (ofText b.text.reverse).wordEnds_nextWordEnd (b.length - min place b.length) last
  rw [hlength, Nat.min_eq_left (Nat.sub_le ..)] at hlast
  rw [previousWordStart, heq, hlast.1 hends]

/-- A backward motion gets on unless it is at the start. -/
theorem previousStart_lt (gap : Char → Bool) {b : Buffer} {place : Nat} (hpos : 0 < place)
    (hplace : place ≤ b.length) : previousStart gap b place < place := by
  obtain ⟨last, hends, hle, heq⟩ := previousStart_eq gap b place
  rw [Nat.min_eq_left hplace] at hends
  have hlt := hends.lt (by rw [List.length_reverse, ← length]; omega)
  omega

/-- The buffer after a motion of its cursor. -/
def go (motion : Buffer → Nat → Nat) (b : Buffer) : Buffer := b.setCursor (motion b b.cursor)

/-- Repeating a motion that gets on toward the end comes to the end. -/
theorem exists_iterate_go_end
    (hgoes : ∀ b place, min place b.length < b.length → min place b.length < motion b place)
    (b : Buffer) : ∃ n ≤ b.length - b.cursor, (go motion)^[n] b = b.moveToEnd := by
  induction hleft : b.length - b.cursor using Nat.strong_induction_on generalizing b with
  | h left ih =>
    have hcursor : b.cursor ≤ b.length := b.cursor_le
    by_cases hend : b.cursor = b.length
    · exact ⟨0, Nat.zero_le _, Buffer.ext rfl hend⟩
    · have hfurther := hgoes b b.cursor
      rw [min_cursor] at hfurther
      have hgo : b.cursor < (go motion b).cursor :=
        Nat.lt_min.2 ⟨hfurther (by omega), by rw [← length]; omega⟩
      have hlength : (go motion b).length = b.length := rfl
      obtain ⟨n, hn, heq⟩ := ih _ (by omega) (go motion b) rfl
      exact ⟨n + 1, by omega, heq⟩

/-- Repeating a motion that gets on toward the start comes to the start. -/
theorem exists_iterate_go_start
    (hgoes : ∀ b place, 0 < place → place ≤ b.length → motion b place < place) (b : Buffer) :
    ∃ n ≤ b.cursor, (go motion)^[n] b = b.setCursor 0 := by
  induction hleft : b.cursor using Nat.strong_induction_on generalizing b with
  | h left ih =>
    by_cases hstart : b.cursor = 0
    · exact ⟨0, Nat.zero_le _, Buffer.ext rfl (by rw [Function.iterate_zero, id, hstart]; rfl)⟩
    · have hgo : (go motion b).cursor < b.cursor :=
        Nat.lt_of_le_of_lt (Nat.min_le_left ..) (hgoes b b.cursor (by omega) b.cursor_le)
      obtain ⟨n, hn, heq⟩ := ih _ (by omega) (go motion b) rfl
      exact ⟨n + 1, by omega, heq⟩

/-- The forward motions go exactly to where the next word ends and to where it starts, which is further on
unless there is nothing behind. The backward ones are the mirror image of the motion to the end of a word,
with whatever is not white space for a word in the last one. Repeated, each comes to the end of the text, or to
the start, in no more steps than there are code points. -/
theorem motions_find_words (b : Buffer) (place : Nat) :
    let first := min place b.length
    ((∀ last, Text.WordEnds Text.isWordChar b.text first last ↔ last = b.nextWordEnd place) ∧
      (first < b.length → first < b.nextWordEnd place)) ∧
    ((∀ last, Text.WordStarts b.text first last ↔ last = b.nextWordStart place) ∧
      (first < b.length → first < b.nextWordStart place)) ∧
    b.previousWordStart place =
      b.length - (Buffer.ofText b.text.reverse).nextWordEnd (b.length - first) ∧
    (∃ last, Text.WordEnds (fun c => !Text.isSpace c) b.text.reverse (b.length - first) last ∧
      b.previousBlankWordStart place = b.length - last) ∧
    (∃ n ≤ b.length, (go nextWordEnd)^[n] b = b.moveToEnd) ∧
    (∃ n ≤ b.length, (go nextWordStart)^[n] b = b.moveToEnd) ∧
    (∃ n ≤ b.length, (go previousWordStart)^[n] b = b.setCursor 0) ∧
    ∃ n ≤ b.length, (go previousBlankWordStart)^[n] b = b.setCursor 0 := by
  intro first
  have hforward : ∀ {motion}, (∀ b place, min place b.length < b.length →
      min place b.length < motion b place) → ∃ n ≤ b.length, (go motion)^[n] b = b.moveToEnd := by
    intro motion hgoes
    obtain ⟨n, hn, heq⟩ := exists_iterate_go_end hgoes b
    exact ⟨n, hn.trans (Nat.sub_le ..), heq⟩
  have hbackward : ∀ gap, ∃ n ≤ b.length, (go (previousStart gap))^[n] b = b.setCursor 0 := by
    intro gap
    obtain ⟨n, hn, heq⟩ := exists_iterate_go_start (fun _ _ => previousStart_lt gap) b
    exact ⟨n, hn.trans b.cursor_le, heq⟩
  obtain ⟨last, hends, -, hblank⟩ := previousStart_eq Text.isSpace b place
  exact ⟨⟨b.wordEnds_nextWordEnd place, lt_nextWordEnd⟩,
    ⟨b.wordStarts_nextWordStart place, lt_nextWordStart⟩, b.previousWordStart_eq place,
    ⟨last, hends, hblank⟩, hforward fun _ _ => lt_nextWordEnd, hforward fun _ _ => lt_nextWordStart,
    hbackward _, hbackward _⟩

/-- The hyphens start a word, but they are in none. -/
example :
    let b := Buffer.ofText "git  commit --amend".toList
    (b.nextWordEnd 3, b.nextWordStart 5, b.nextWordStart 12) = (11, 12, 14) ∧
      (b.previousWordStart 19, b.previousBlankWordStart 19) = (14, 12) := by decide +kernel

end Buffer

end LineEditor
