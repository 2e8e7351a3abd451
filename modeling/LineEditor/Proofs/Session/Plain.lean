import LineEditor.Proofs.Session.Only
import LineEditor.Proofs.Text.Plain

/-!
Control characters stay out. What is edited, cut, remembered, fetched from the history, searched for
and offered for completion is plain as long as what it is made of is plain.

Main definitions: `History.Plain`, `KillRing.Plain`, `UndoStack.Plain`, `Search.Plain` and
`Handler.Plain`. Main statements: one lemma for each operation that makes new text.
-/
namespace LineEditor

/-! ### Buffers -/

namespace Buffer

variable {b b' : Buffer} {t : Text}

theorem plain_deleteRange (h : b.text.Plain) (first last : Nat) :
    (b.deleteRange first last).1.text.Plain ∧ (b.deleteRange first last).2.Plain :=
  only_deleteRange h first last

theorem plain_delete (h : b.text.Plain) (n : Int) : (b.delete n).1.text.Plain := only_delete h n

theorem plain_insert (h : b.text.Plain) (ht : t.Plain) (hb : b.insert t = .ok b') :
    b'.text.Plain := only_insert h ht hb

theorem plain_transpose (h : b.text.Plain) (hb : b.transpose = some b') : b'.text.Plain :=
  only_transpose h hb

theorem plain_word (h : b.text.Plain) : b.word.Plain := only_word h

/-- Moving changes no text. -/
theorem plain_move (h : b.text.Plain) (k : Command) : ((b.move? k).getD b).text.Plain :=
  only_move h k

end Buffer

/-! ### Histories -/

namespace History

/-- No control characters in any entry. -/
def Plain (h : History) : Prop := ∀ t ∈ h.entries, t.Plain

theorem Fetches.plain {h : History} {r : History × Option Text} (hr : h.Fetches r) (hp : h.Plain) :
    r.1.Plain ∧ ∀ t, r.2 = some t → t.Plain := hr.only hp

end History

/-! ### Cut text and snapshots -/

namespace KillRing

/-- No control characters in any cut text. -/
def Plain (r : KillRing) : Prop := ∀ t ∈ r.entries, t.Plain

variable {r : KillRing} {t : Text}

theorem Plain.add (h : r.Plain) (ht : t.Plain) : (r.add t).Plain := KillRing.Only.add h ht

theorem Plain.newest (h : r.Plain) (ht : r.newest? = some t) : t.Plain := KillRing.Only.newest h ht

end KillRing

namespace UndoStack

/-- No control characters in any snapshot. -/
def Plain (u : UndoStack) : Prop := ∀ s ∈ u.snapshots, s.text.Plain

variable {u u' : UndoStack} {s : Snapshot}

theorem plain_clear (u : UndoStack) : u.clear.Plain := u.only_clear

theorem Plain.push (h : u.Plain) (hs : s.text.Plain) : (u.push s).Plain := UndoStack.Only.push h hs

theorem Plain.pop (h : u.Plain) (hpop : u.pop = some (s, u')) : s.text.Plain ∧ u'.Plain :=
  UndoStack.Only.pop h hpop

end UndoStack

/-! ### Searches -/

namespace Search

/-- No control characters in the query and in the result. -/
structure Plain (s : Search) : Prop where
  query : s.query.Plain
  result : ∀ t, s.result = some t → t.Plain

variable {s : Search}

theorem Plain.prompt (h : s.Plain) : s.prompt.text.Plain := by
  obtain ⟨direction, status, query, result⟩ := s
  cases direction
  · simp only [Search.prompt, Text.plain_append]
    exact ⟨⟨by decide, h.query⟩, by decide⟩
  · simp only [Search.prompt, Text.plain_append]
    exact ⟨⟨by decide, h.query⟩, by decide⟩

theorem Plain.resultBuffer (h : s.Plain) : s.resultBuffer.text.Plain := Only.resultBuffer h.result

theorem Plain.shownBuffer (h : s.Plain) : s.shownBuffer.text.Plain := Only.shownBuffer h.result

/-- Only printable code points get into the query. -/
theorem printable_of_statusFor {bound : Option Command} {e : KeyEvent}
    (h : statusFor bound e = .input) : e.isPrintable = true := by
  unfold statusFor at h
  split at h
  · exact absurd h (by decide)
  · split at h
    all_goals first
      | exact absurd h (by decide)
      | skip
    split at h
    · assumption
    · exact absurd h (by decide)

theorem Plain.input (h : s.Plain) (bound : Option Command) (e : KeyEvent) :
    (s.input bound e).Plain := by
  unfold Search.input
  dsimp only
  split
  · rename_i c hstatus
    have hc : Text.isControl c = false := by
      have hprintable := printable_of_statusFor hstatus
      simpa [KeyEvent.isPrintable] using hprintable
    exact ⟨(Text.plain_append ..).2 ⟨h.query, (Text.plain_cons ..).2 ⟨hc, Text.plain_nil⟩⟩, h.result⟩
  · exact ⟨h.query, h.result⟩

end Search

/-! ### Completion -/

/-- Plain words have plain candidates. -/
def Completer.Plain (c : Completer) : Prop :=
  ∀ word : Text, word.Plain → ∀ t ∈ c.candidates word, t.Plain

/-- No control characters in any candidate. -/
structure CandidateHandler.Plain (h : CandidateHandler) : Prop where
  completer : h.completer.Plain
  pending : ∀ t ∈ h.pending, t.Plain

/-- The usual handler, with plain candidates. -/
def Handler.Plain : Handler → Prop
  | .candidates h => h.Plain
  | .scripted _ => False

theorem CandidateHandler.Plain.setAsk {h : CandidateHandler} (hp : h.Plain) (ask : Bool) :
    (h.setAsk ask).Plain := by
  refine ⟨hp.completer, ?_⟩
  rw [CandidateHandler.setAsk]
  cases ask
  · exact fun _ ht => absurd ht List.not_mem_nil
  · exact hp.pending

theorem plain_commonStart {ts : List Text} (h : ∀ t ∈ ts, t.Plain) : (commonStart ts).Plain :=
  only_commonStart h

theorem plain_intercalate {sep : Text} {ts : List Text} (hsep : sep.Plain)
    (h : ∀ t ∈ ts, t.Plain) : Text.Plain (sep.intercalate ts) := by
  induction ts with
  | nil => exact Text.plain_nil
  | cons t ts ih =>
    cases ts with
    | nil =>
      rw [List.intercalate_singleton]
      exact h t (List.mem_cons_self ..)
    | cons u ts =>
      rw [List.intercalate_cons_cons]
      refine (Text.plain_append ..).2 ⟨(Text.plain_append ..).2 ⟨?_, hsep⟩, ?_⟩
      · exact h t (List.mem_cons_self ..)
      · exact ih fun v hv => h v (List.mem_cons_of_mem _ hv)

end LineEditor
