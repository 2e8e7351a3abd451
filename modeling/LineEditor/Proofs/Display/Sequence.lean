import LineEditor.Display.Draw
import LineEditor.Display.Screen

/-!
What a screen makes of the control sequences that a drawing is written in. A count is written in
decimal digits and read back as the number it was, and each drawing command has one equation that
says which screen is left behind it.

Main statements: `parameterValue_toDigits`, a count reads back, and the equations `write_up`,
`write_down`, `write_right`, `write_left`, `write_eraseRight` and `write_carriageReturn`.
-/
namespace LineEditor

/-- Parameters without a semicolon are one field. -/
theorem parameterFields_eq_singleton {t : Text} (h : ';' ∉ t) : parameterFields t = [t] := by
  induction t with
  | nil => rfl
  | cons c t ih =>
    simp only [List.mem_cons, not_or] at h
    simp only [parameterFields, ih h.2]
    split
    · exact absurd rfl h.1
    · rename_i heq
      cases heq
      rfl
    · rename_i heq
      cases heq

/-- Decimal digits stand for the number they were made of. -/
theorem parameterValue_toDigits {n : Nat} (h : n < UInt64.size) :
    parameterValue (Nat.toDigits 10 n) = n := by
  have hvalue : (Nat.toDigits 10 n).foldl (fun n c => 10 * n + (c.toNat - '0'.toNat)) 0 = n := by
    rw [← Nat.ofDigitChars_eq_foldl]
    exact Nat.ofDigitChars_ten_toDigits
  have hdigits : (Nat.toDigits 10 n).all Char.isDigit = true :=
    List.all_eq_true.2 fun c hc => Nat.isDigit_of_mem_toDigits (by omega) (by omega) hc
  have hne : (Nat.toDigits 10 n).isEmpty = false := by
    rw [List.isEmpty_eq_false_iff]
    exact Nat.toDigits_ne_nil
  simp only [parameterValue, hvalue, hdigits, hne, h]
  rfl

/-- Whether a code point may stand between the introducer of a control sequence and its final
character. -/
def isParameter (c : Char) : Bool := c.isDigit || c == ';' || c == '?'

theorem isParameter_of_isDigit {c : Char} (h : c.isDigit = true) : isParameter c = true := by
  simp [isParameter, h]

namespace Screen

/-- Parameters behind the introducer are kept. -/
theorem write_parameters (s : Screen) (p t : Text) (hs : s.reading = .parameters p)
    (ht : ∀ c ∈ t, isParameter c = true) :
    s.write t = { s with reading := .parameters (p ++ t) } := by
  induction t generalizing s p with
  | nil => simp [← hs]
  | cons c t ih =>
    have hc : s.writeChar c = { s with reading := .parameters (p ++ [c]) } := by
      rw [writeChar, hs]
      exact if_pos (ht c (List.mem_cons_self ..))
    rw [write_cons, hc, ih _ (p ++ [c]) rfl fun d hd => ht d (List.mem_cons_of_mem _ hd)]
    simp

/-- A whole control sequence, from its introducer to its final character. -/
theorem write_sequence (s : Screen) (t : Text) (final : Char) (hs : s.reading = .ground)
    (ht : ∀ c ∈ t, isParameter c = true) (hfinal : isParameter final = false) :
    s.write (['\x1b', '['] ++ t ++ [final]) = s.control t final := by
  have hopen : s.write ['\x1b', '['] = { s with reading := .parameters [] } := by
    simp [write, writeChar, hs, ground]
  have hlast : ({ s with reading := .parameters t } : Screen).writeChar final =
      { s with reading := .ground }.control t final := if_neg (Bool.eq_false_iff.1 hfinal)
  rw [write_append, write_append, hopen, write_parameters _ [] t rfl ht, List.nil_append, write_cons,
    write_nil, hlast, ← hs]

/-- The parameters that a count is written in read back as the count. -/
theorem parameters_toDigits {n : Nat} (hmax : n ≤ Draw.maxCount) :
    (parameterFields ((Nat.toDigits 10 n).dropWhile (· == '?'))).map parameterValue = [n] := by
  have hdigit : ∀ c ∈ Nat.toDigits 10 n, c.isDigit = true :=
    fun _ hc => Nat.isDigit_of_mem_toDigits (by omega) (by omega) hc
  have hdrop : (Nat.toDigits 10 n).dropWhile (· == '?') = Nat.toDigits 10 n := by
    cases ht : Nat.toDigits 10 n with
    | nil => rfl
    | cons c t =>
      have hc : c ≠ '?' := by
        rintro rfl
        exact absurd (hdigit '?' (by simp [ht])) (by decide)
      simp [hc]
  have hsemi : ';' ∉ Nat.toDigits 10 n := fun h => absurd (hdigit _ h) (by decide)
  have hsmall : n < UInt64.size := by
    simp only [Draw.maxCount] at hmax
    simp only [UInt64.size]
    omega
  rw [hdrop, parameterFields_eq_singleton hsemi, List.map_singleton, parameterValue_toDigits hsmall]

/-- A control sequence with a count: the count is the only parameter. -/
theorem write_counted (s : Screen) {n : Nat} (final : Char) (hs : s.reading = .ground)
    (hmax : n ≤ Draw.maxCount) (hfinal : isParameter final = false) :
    s.write (Draw.counted n final) = s.control (Nat.toDigits 10 n) final := by
  have hdigit : ∀ c ∈ Nat.toDigits 10 n, c.isDigit = true :=
    fun _ hc => Nat.isDigit_of_mem_toDigits (by omega) (by omega) hc
  rw [Draw.counted, Nat.min_eq_left hmax]
  exact write_sequence s _ final hs (fun c hc => isParameter_of_isDigit (hdigit c hc)) hfinal

section Commands

variable {s : Screen} {n : Nat}

theorem write_up (hs : s.reading = .ground) (hpos : 0 < n) (hmax : n ≤ Draw.maxCount) :
    s.write (Draw.up n).render = { s with row := s.row - n, pendingWrap := false } := by
  rw [Draw.render, write_counted s _ hs hmax (by decide)]
  simp only [control, parameters_toDigits hmax]
  simp [Nat.max_eq_left (show 1 ≤ n from hpos)]

theorem write_down (hs : s.reading = .ground) (hpos : 0 < n) (hmax : n ≤ Draw.maxCount) :
    s.write (Draw.down n).render = { s with row := s.row + n, pendingWrap := false } := by
  rw [Draw.render, write_counted s _ hs hmax (by decide)]
  simp only [control, parameters_toDigits hmax]
  simp [Nat.max_eq_left (show 1 ≤ n from hpos)]

theorem write_right (hs : s.reading = .ground) (hpos : 0 < n) (hmax : n ≤ Draw.maxCount)
    (hfits : s.col + n < s.width) :
    s.write (Draw.right n).render = { s with col := s.col + n, pendingWrap := false } := by
  rw [Draw.render, write_counted s _ hs hmax (by decide)]
  simp only [control, parameters_toDigits hmax]
  have hcol : min (s.col + n) (s.width - 1) = s.col + n := by omega
  simp [Nat.max_eq_left (show 1 ≤ n from hpos), hcol]

theorem write_left (hs : s.reading = .ground) (hpos : 0 < n) (hmax : n ≤ Draw.maxCount) :
    s.write (Draw.left n).render = { s with col := s.col - n, pendingWrap := false } := by
  rw [Draw.render, write_counted s _ hs hmax (by decide)]
  simp only [control, parameters_toDigits hmax]
  simp [Nat.max_eq_left (show 1 ≤ n from hpos)]

theorem write_eraseRight (hs : s.reading = .ground) :
    s.write Draw.eraseRight.render =
      { s with pendingWrap := false }.eraseCells s.row s.col s.width := by
  have h := write_sequence s [] 'K' hs (by simp) (by decide)
  rw [List.append_nil] at h
  exact h

theorem write_carriageReturn (hs : s.reading = .ground) :
    s.write Draw.carriageReturn.render = { s with col := 0, pendingWrap := false } := by
  simp [Draw.render, write, writeChar, hs, ground]

end Commands

end Screen

end LineEditor
