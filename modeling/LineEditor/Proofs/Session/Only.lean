import LineEditor.Proofs.Text.Only
import LineEditor.Session.Dispatch
import Mathlib.Data.List.DropRight

/-!
Where the code points of a session come from. Editing, cutting, undoing, fetching from the history
and searching only rearrange the code points that are there, and an insertion adds insertable ones.

Main definitions: `History.Only`, `KillRing.Only`, `UndoStack.Only` and `Search.Only`. Main
statements: one lemma for each operation that makes new text.
-/
namespace LineEditor

variable {P : Char → Prop}

/-! ### Buffers -/

namespace Buffer

variable {b b' : Buffer} {t : Text}

/-- What is inserted is insertable. -/
theorem insertable_of_insert (hb : b.insert t = .ok b') : t.Only (isInsertable · = true) := by
  rw [insert] at hb
  split at hb
  · exact absurd hb (by simp)
  · rename_i hnone
    intro c hc
    have hinsertable := List.find?_eq_none.1 hnone c hc
    simpa using hinsertable

theorem only_insert (h : b.text.Only P) (ht : t.Only P) (hb : b.insert t = .ok b') :
    b'.text.Only P := by
  rw [insert] at hb
  split at hb
  · exact absurd hb (by simp)
  · cases hb
    exact Text.only_append.2 ⟨Text.only_append.2 ⟨h.take _, ht⟩, h.drop _⟩

theorem only_deleteRange (h : b.text.Only P) (first last : Nat) :
    (b.deleteRange first last).1.text.Only P ∧ (b.deleteRange first last).2.Only P := by
  rw [deleteRange]
  refine ⟨Text.only_append.2 ⟨h.take _, h.drop _⟩, ?_⟩
  exact (h.take _).drop _

theorem only_delete (h : b.text.Only P) (n : Int) : (b.delete n).1.text.Only P := by
  rw [delete]
  split
  · exact (only_deleteRange h _ _).1
  · exact (only_deleteRange h _ _).1

theorem only_transpose (h : b.text.Only P) (hb : b.transpose = some b') : b'.text.Only P := by
  simp only [transpose] at hb
  split at hb
  · cases hb
  · split at hb
    · rename_i x y rest hdrop
      have hpair : Text.Only P (x :: y :: rest) := hdrop ▸ h.drop _
      have hswapped : Text.Only P (y :: x :: rest) :=
        hpair.of_subset (List.Perm.swap x y rest).subset
      cases hb
      exact Text.only_append.2 ⟨h.take _, hswapped⟩
    · cases hb

theorem only_word (h : b.text.Only P) : b.word.Only P := (h.take _).drop _

/-- The word at the cursor is the run behind the last white space before it. -/
theorem rtakeWhile_before (b : Buffer) :
    b.before.rtakeWhile (fun c => !Text.isSpace c) = b.word := by
  have hsuffix := List.suffix_iff_eq_drop.1 (b.before.rtakeWhile_suffix fun c => !Text.isSpace c)
  rw [hsuffix, List.rtakeWhile, List.length_reverse, length_before]
  rfl

/-- White space separates words. -/
theorem word_spaceless (b : Buffer) : b.word.Only (Text.isSpace · = false) := by
  rw [← rtakeWhile_before]
  intro c hc
  have hspaceless := List.mem_rtakeWhile_imp hc
  simpa using hspaceless

/-- Moving changes no text. -/
theorem only_move (h : b.text.Only P) (k : Command) : ((b.move? k).getD b).text.Only P := by
  cases k <;> exact h

/-- The continuation lines are extended by insertable code points at most. -/
theorem only_extended (h : b.text.Only P) (hinsertable : ∀ c, isInsertable c = true → P c)
    (t : Text) : (b.extended t).text.Only P := by
  rw [extended]
  cases hb : b.insert t with
  | error e => exact h
  | ok b' => exact only_insert h ((insertable_of_insert hb).mono hinsertable) hb

theorem only_continued (h : b.text.Only P) (hinsertable : ∀ c, isInsertable c = true → P c)
    (status : QuoteStatus) : (b.continued status).text.Only P := by
  cases status with
  | complete => exact h
  | escaping => exact only_delete h _
  | quoted => exact only_extended h hinsertable _

end Buffer

/-! ### Histories -/

namespace History

/-- Every entry is of a kind. -/
def Only (P : Char → Prop) (h : History) : Prop := ∀ t ∈ h.entries, t.Only P

/-- What a step or a search gives: the same entries, and one of them if any. -/
structure Fetches (h : History) (r : History × Option Text) : Prop where
  entries_eq : r.1.entries = h.entries
  mem : ∀ t, r.2 = some t → t ∈ h.entries

variable {h : History} {r : History × Option Text}

theorem Fetches.only (hr : h.Fetches r) (hP : h.Only P) :
    r.1.Only P ∧ ∀ t, r.2 = some t → t.Only P :=
  ⟨fun t ht => hP t (hr.entries_eq ▸ ht), fun t ht => hP t (hr.mem t ht)⟩

theorem fetches_none (h : History) : h.Fetches (h, none) := ⟨rfl, fun _ ht => absurd ht (by simp)⟩

theorem fetches_previous (h : History) : h.Fetches h.previous := by
  rw [previous]
  split
  · exact h.fetches_none
  · exact ⟨rfl, fun _ ht => List.mem_of_getElem? ht⟩

theorem fetches_next (h : History) : h.Fetches h.next := by
  rw [next]
  split
  · exact ⟨rfl, fun _ ht => absurd ht (by simp)⟩
  · exact ⟨rfl, fun _ ht => List.mem_of_getElem? ht⟩

theorem fetches_scan (h : History) (query : Text) (start : Nat) :
    h.Fetches (h.scan query start) := by
  rw [scan]
  split
  · exact h.fetches_none
  · exact ⟨rfl, fun _ ht => List.mem_of_getElem? ht⟩

theorem fetches_search (h : History) (query : Text) : h.Fetches (h.search query) := by
  rw [search]
  split
  · exact h.fetches_none
  · exact h.fetches_scan ..

theorem fetches_searchAgain (h : History) (query : Text) : h.Fetches (h.searchAgain query) := by
  rw [searchAgain]
  split
  · exact h.fetches_search query
  · exact h.fetches_none
  · exact h.fetches_scan ..
  · split
    · exact h.fetches_none
    · exact h.fetches_scan ..

/-- A line that is stored is the only new entry. -/
theorem Only.push {line : Text} (hP : h.Only P) (hline : line.Only P) : (h.push line).Only P := by
  rw [History.push]
  split
  · intro t ht
    have hkept : t ∈ h.entries ++ [line] := List.mem_of_mem_drop ht
    rcases List.mem_append.1 hkept with hold | hnew
    · exact hP t hold
    · rw [List.mem_singleton.1 hnew]
      exact hline
  · exact hP

end History

/-! ### Cut text and snapshots -/

namespace KillRing

/-- Every cut text is of a kind. -/
def Only (P : Char → Prop) (r : KillRing) : Prop := ∀ t ∈ r.entries, t.Only P

variable {r : KillRing} {t : Text}

theorem Only.add (h : r.Only P) (ht : t.Only P) : (r.add t).Only P := by
  rw [KillRing.add]
  split
  · exact h
  · intro u hu
    rcases List.mem_cons.1 (List.mem_of_mem_take hu) with rfl | hu
    · exact ht
    · exact h u hu

theorem Only.newest (h : r.Only P) (ht : r.newest? = some t) : t.Only P :=
  h t (List.mem_of_getElem? ht)

end KillRing

namespace UndoStack

/-- Every snapshot is of a kind. -/
def Only (P : Char → Prop) (u : UndoStack) : Prop := ∀ s ∈ u.snapshots, s.text.Only P

variable {u u' : UndoStack} {s : Snapshot}

theorem only_clear (u : UndoStack) : u.clear.Only P := List.forall_mem_nil _

theorem Only.push (h : u.Only P) (hs : s.text.Only P) : (u.push s).Only P := by
  rw [UndoStack.push]
  split
  · exact h
  · intro x hx
    rcases List.mem_cons.1 (List.mem_of_mem_take hx) with rfl | hx
    · exact hs
    · exact h x hx

theorem Only.pop (h : u.Only P) (hpop : u.pop = some (s, u')) : s.text.Only P ∧ u'.Only P := by
  rw [UndoStack.pop] at hpop
  split at hpop
  · cases hpop
  · rename_i x rest hsnapshots
    cases hpop
    exact ⟨h _ (hsnapshots ▸ List.mem_cons_self ..),
      fun x hx => h x (hsnapshots ▸ List.mem_cons_of_mem _ hx)⟩

end UndoStack

/-! ### Searches and candidates -/

namespace Search

/-- The result is of a kind. -/
def Only (P : Char → Prop) (q : Search) : Prop := ∀ t, q.result = some t → t.Only P

variable {q : Search}

theorem Only.resultBuffer (h : q.Only P) : q.resultBuffer.text.Only P := by
  change (q.result.getD []).Only P
  cases hr : q.result with
  | none => exact Text.only_nil
  | some t => exact h t hr

theorem Only.shownBuffer (h : q.Only P) : q.shownBuffer.text.Only P := by
  rw [Search.shownBuffer]
  split
  · exact h.resultBuffer
  · exact h.resultBuffer

/-- A key changes the query and not the result. -/
theorem Only.input (h : q.Only P) (bound : Option Command) (e : KeyEvent) :
    (q.input bound e).Only P := by
  simp only [Search.input]
  split
  · exact h
  · exact h

end Search

/-- What some texts have in common at their start is of their kind. -/
theorem only_commonStart {ts : List Text} (h : ∀ t ∈ ts, t.Only P) : (commonStart ts).Only P := by
  cases ts with
  | nil => exact Text.only_nil
  | cons t ts =>
    rw [commonStart]
    have hfirst : t.Only P := h t (List.mem_cons_self ..)
    clear h
    induction ts generalizing t with
    | nil => exact hfirst
    | cons s ts ih => exact ih _ (hfirst.take _)

end LineEditor
