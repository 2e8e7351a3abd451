import LineEditor.Proofs.Text.Plain
import LineEditor.Session.Accept

/-!
One pass over the raw input of continuation lines: the texts that are entered, with a newline behind
each. A backslash escapes what follows it except inside single quotes; an escaped newline goes with
its backslash, a newline inside an open quote is kept, and any other newline ends the input.

Main definitions: `Lexer.step` and `Lexer.read`, and `rawInput`. Main statement: `Lexer.read_entered`,
the line that accumulates by scanning it again behind every text is what the lexer keeps.
-/
namespace LineEditor

/-- The raw input of some texts that were entered. -/
def rawInput (ts : List Text) : Text := ts.flatMap fun t => t ++ ['\n']

/-- The lexer between two characters. A backslash that escapes is held back until it is known what it
escapes. -/
structure Lexer where
  escaped : Bool := false
  quote : Option Char := none
  kept : Text := []
  deriving DecidableEq, Repr

/-- How far the input reaches: it goes on, or it has ended with what is kept of it and with what comes
behind. -/
inductive Lexed where
  | more (l : Lexer)
  | ended (kept rest : Text)
  deriving DecidableEq, Repr

namespace Lexer

/-- The open quote behind a character that is not escaped. -/
def quoteAfter (quote : Option Char) (c : Char) : Option Char :=
  if c = '"' ∨ c = '\'' then
    match quote with
    | none => some c
    | some q => if q = c then none else some q
  else quote

/-- One character; none if it ends the input. -/
def step (l : Lexer) (c : Char) : Option Lexer :=
  if l.escaped then
    if c = '\n' then some { l with escaped := false }
    else some { l with escaped := false, kept := l.kept ++ ['\\', c] }
  else if c = '\\' ∧ l.quote ≠ some '\'' then some { l with escaped := true }
  else if c = '\n' ∧ l.quote = none then none
  else some { l with quote := quoteAfter l.quote c, kept := l.kept ++ [c] }

/-- Characters up to the end of the input. -/
def read (l : Lexer) : Text → Lexed
  | [] => .more l
  | c :: rest =>
    match l.step c with
    | none => .ended l.kept rest
    | some l => l.read rest

/-- The backslash that is held back. -/
def held (l : Lexer) : Text := if l.escaped then ['\\'] else []

/-- What is kept scans like the input so far, and only outside of single quotes is anything
escaped. -/
structure Agrees (l : Lexer) : Prop where
  scanned : l.kept.foldl QuoteStatus.Scanner.step {} = ⟨false, l.quote⟩
  escaping : l.escaped = true → l.quote ≠ some '\''

variable {l l' : Lexer} {c : Char} {t : Text}

theorem held_of_escaped (h : l.escaped = true) : l.held = ['\\'] := if_pos h

theorem held_of_not_escaped (h : l.escaped = false) : l.held = [] := by
  unfold held
  rw [h]
  rfl

theorem agrees_start : Agrees {} := ⟨rfl, nofun⟩

/-- The scanner takes a backslash and what it escapes for one character. -/
theorem scanned_escaped (h : l.Agrees) (hescaped : l.escaped = true) :
    (l.kept ++ ['\\', c]).foldl QuoteStatus.Scanner.step {} = ⟨false, l.quote⟩ := by
  rw [List.foldl_append, h.scanned]
  simp [QuoteStatus.Scanner.step, h.escaping hescaped]

/-- The scanner and the lexer agree on quotes. -/
theorem scanned_plain (h : l.Agrees) (hc : ¬ (c = '\\' ∧ l.quote ≠ some '\'')) :
    (l.kept ++ [c]).foldl QuoteStatus.Scanner.step {} = ⟨false, quoteAfter l.quote c⟩ := by
  rw [List.foldl_append, h.scanned, List.foldl_cons, List.foldl_nil]
  unfold QuoteStatus.Scanner.step quoteAfter
  rw [if_neg Bool.false_ne_true, if_neg hc]
  cases l.quote with
  | none => split <;> rfl
  | some q =>
    split
    · dsimp only
      split <;> rfl
    · rfl

theorem Agrees.step (h : l.Agrees) (hstep : l.step c = some l') : l'.Agrees := by
  unfold Lexer.step at hstep
  split at hstep
  · rename_i hescaped
    split at hstep
    · cases hstep
      exact ⟨h.scanned, nofun⟩
    · cases hstep
      exact ⟨scanned_escaped h hescaped, nofun⟩
  · rename_i hunescaped
    split at hstep
    · rename_i hbackslash
      cases hstep
      exact ⟨h.scanned, fun _ => hbackslash.2⟩
    · rename_i hc
      split at hstep
      · cases hstep
      · cases hstep
        exact ⟨scanned_plain h hc, fun hescaped => absurd hescaped hunescaped⟩

/-- A character other than the newline does not end the input, and it is kept or held back. -/
theorem step_of_ne (l : Lexer) (hc : c ≠ '\n') :
    ∃ l', l.step c = some l' ∧ l'.kept ++ l'.held = l.kept ++ l.held ++ [c] := by
  unfold Lexer.step
  cases hescaped : l.escaped with
  | true => exact ⟨_, if_neg hc, by simp [held, hescaped]⟩
  | false =>
    rw [if_neg Bool.false_ne_true]
    by_cases hbackslash : c = '\\' ∧ l.quote ≠ some '\''
    · exact ⟨_, if_pos hbackslash, by simp [held, hescaped, hbackslash.1]⟩
    · rw [if_neg hbackslash, if_neg fun h => hc h.1]
      exact ⟨_, rfl, by simp [held, hescaped]⟩

/-- A text without control characters does not end the input, and none of it is lost. -/
theorem read_of_plain (h : l.Agrees) (ht : t.Plain) :
    ∃ l' : Lexer, (∀ rest, l.read (t ++ rest) = l'.read rest) ∧ l'.Agrees ∧
      l'.kept ++ l'.held = l.kept ++ l.held ++ t := by
  induction t generalizing l with
  | nil => exact ⟨l, fun _ => rfl, h, (List.append_nil _).symm⟩
  | cons c t ih =>
    obtain ⟨hc, ht⟩ := (Text.plain_cons c t).1 ht
    have hne : c ≠ '\n' := by
      rintro rfl
      revert hc
      decide
    obtain ⟨l₁, hstep, hkept₁⟩ := l.step_of_ne hne
    obtain ⟨l', hread, hagrees, hkept⟩ := ih (h.step hstep) ht
    refine ⟨l', ?_, hagrees, ?_⟩
    · intro rest
      rw [List.cons_append, read, hstep]
      exact hread rest
    · rw [hkept, hkept₁, List.append_assoc]
      rfl

/-- How the input so far ends. -/
theorem scan_kept (h : l.Agrees) : QuoteStatus.scan (l.kept ++ l.held) =
    if l.escaped then .escaping else if l.quote.isSome then .quoted else .complete := by
  unfold QuoteStatus.scan held
  rw [List.foldl_append, h.scanned]
  cases hescaped : l.escaped with
  | false => rfl
  | true =>
    simp [QuoteStatus.Scanner.step, h.escaping hescaped, QuoteStatus.Scanner.status]

end Lexer

/-! ### Continuation lines -/

/-- A text without control characters is all added to the continuation lines. -/
theorem Buffer.extended_ofText (s : Text) {t : Text} (ht : t.Plain ∨ t = ['\n']) :
    (Buffer.ofText s).extended t = .ofText (s ++ t) := by
  have hinsertable : ∀ c ∈ t, isInsertable c = true := by
    intro c hc
    unfold isInsertable
    rcases ht with ht | rfl
    · rw [ht c hc]
      rfl
    · rw [List.mem_singleton.1 hc]
      decide
  have hnone : List.find? (fun c => !isInsertable c) t = none := by
    rw [List.find?_eq_none]
    intro c hc
    rw [hinsertable c hc]
    decide
  unfold extended insert
  rw [hnone]
  ext1 <;> simp [Except.toOption, ofSides, ofText, before, after]

/-- The last character of a line is dropped. -/
theorem Buffer.delete_ofText (s : Text) (c : Char) :
    ((Buffer.ofText (s ++ [c])).delete (-1)).1 = .ofText s := by
  ext1 <;> simp [delete, deleteRange, ofText, clamp, length]

namespace Lexer

variable {l : Lexer} {t : Text}

/-- What accumulates behind a text that is entered is what the lexer keeps of it and its newline: the
line is complete where the newline ends the input, and goes on with what is kept where it does not. -/
theorem read_entered (h : l.Agrees) (hescaped : l.escaped = false) (ht : t.Plain) :
    match QuoteStatus.scan (l.kept ++ t) with
    | .complete => ∀ rest, l.read (t ++ '\n' :: rest) = .ended (l.kept ++ t) rest
    | status => ∃ l' : Lexer, (∀ rest, l.read (t ++ '\n' :: rest) = l'.read rest) ∧ l'.Agrees ∧
        l'.escaped = false ∧ (Buffer.ofText (l.kept ++ t)).continued status = .ofText l'.kept := by
  obtain ⟨l₁, hread, hagrees, hkept⟩ := read_of_plain h ht
  rw [held_of_not_escaped hescaped, List.append_nil] at hkept
  rw [← hkept, scan_kept hagrees]
  cases hescaped₁ : l₁.escaped with
  | true =>
    -- the newline is dropped, and so is the backslash that was held back
    refine ⟨{ l₁ with escaped := false }, ?_, ⟨hagrees.scanned, nofun⟩, rfl, ?_⟩
    · intro rest
      rw [hread, read, step, if_pos hescaped₁, if_pos rfl]
    · rw [held_of_escaped hescaped₁]
      exact Buffer.delete_ofText ..
  | false =>
    have hno : ¬ l₁.escaped = true := by
      rw [hescaped₁]
      exact Bool.false_ne_true
    have hbackslash : ¬ ('\n' = '\\' ∧ l₁.quote ≠ some '\'') := fun h => absurd h.1 (by decide)
    rw [held_of_not_escaped hescaped₁, List.append_nil, if_neg Bool.false_ne_true]
    cases hquote : l₁.quote with
    | none =>
      rw [if_neg (by decide)]
      intro rest
      rw [hread, read, step, if_neg hno, if_neg hbackslash, if_pos ⟨rfl, hquote⟩]
    | some q =>
      have hopen : ¬ ('\n' = '\n' ∧ l₁.quote = none) := by
        rw [hquote]
        exact fun h => absurd h.2 nofun
      have hstep : l₁.step '\n' = some { l₁ with kept := l₁.kept ++ ['\n'] } := by
        rw [step, if_neg hno, if_neg hbackslash, if_neg hopen]
        rfl
      rw [if_pos (by rfl)]
      refine ⟨{ l₁ with kept := l₁.kept ++ ['\n'] }, ?_, hagrees.step hstep, hescaped₁, ?_⟩
      · intro rest
        rw [hread, read, hstep]
      · exact Buffer.extended_ofText _ (.inr rfl)

end Lexer

end LineEditor
