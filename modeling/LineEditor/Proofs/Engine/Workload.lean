import LineEditor.Proofs.Engine.Requeue
import LineEditor.Proofs.Engine.Searched
import LineEditor.Proofs.Key.Cuts

/-!
How much is left to handle. An event takes at least one code point out of the queue, and a search that
is accepted leaves one; but then the search lets go, which counts for less than a code point. So every
event that is handled leaves less to do, whatever the keys are bound to.

Main definition: `Engine.workload`. Main statements: `workload_handle`, and `workload_start`,
`workload_resume`, `workload_answers` and `workload_resized`, which leave no more to do.
-/
namespace LineEditor

/-- Whether a search has the focus. -/
def Session.searches (s : Session) : Bool :=
  match s.focus with
  | some (.search _) => true
  | _ => false

/-- What is left to handle: the code points that are queued count twice, and a search counts once. -/
def Engine.workload (e : Engine) : Nat :=
  2 * e.queue.pending.length + if e.session.any Session.searches then 1 else 0

/-! ### Desks -/

namespace Desk

/-- What is left to handle at a desk. -/
def workload (d : Desk) : Nat := 2 * d.queue.pending.length + if d.session.searches then 1 else 0

variable (d : Desk)

@[simp] theorem workload_write (t : Text) : (d.write t).workload = d.workload := by
  rw [write]
  split
  · rfl
  · rfl

@[simp] theorem workload_refreshWith (p : Prompt) (b : Buffer) :
    (d.refreshWith p b).workload = d.workload := d.workload_write _

@[simp] theorem workload_resize (old new : Nat) : (d.resize old new).workload = d.workload :=
  workload_write _ _

/-- Calls from outside leave what is queued and what has the focus. -/
theorem workload_answer (size : Size) (k : SessionCall) :
    (d.answer size k).1.workload = d.workload := by
  cases k
  case insert t =>
    rw [answer]
    split
    · exact d.workload_refreshWith ..
    · rfl
  case refresh b => exact d.workload_refreshWith ..
  case refreshPrompt p b => exact d.workload_refreshWith ..
  case newLine => exact d.workload_write _
  case clearScreen => exact d.workload_write _
  case resize old new => exact d.workload_resize ..
  case write t => exact d.workload_write t
  all_goals rfl

theorem workload_answers (size : Size) (calls : List SessionCall) :
    (d.answers size calls).1.workload = d.workload := by
  induction calls generalizing d with
  | nil => rfl
  | cons k calls ih =>
    rw [answers_cons, ih, workload_answer]

theorem workload_le : d.workload ≤ 2 * d.queue.pending.length + 1 := by
  rw [workload]
  split <;> omega

variable {d} in
theorem workload_of_not_searches (h : d.session.searches = false) :
    d.workload = 2 * d.queue.pending.length := by
  rw [workload, h]
  rfl

end Desk

/-! ### Engines -/

namespace Engine

variable {e t : Engine} {d : Desk} {event : KeyEvent} {f : Option Finished}

theorem workload_of_desk? (hd : e.desk? = some d) : e.workload = d.workload := by
  obtain ⟨s, hs, rfl⟩ := Option.map_eq_some_iff.1 hd
  rw [workload, hs]
  rfl

/-- A session that is over leaves no more to do. -/
theorem workload_takeFinished (e : Engine) : e.takeFinished.1.workload ≤ e.workload := by
  rw [takeFinished]
  split
  · exact Nat.le_refl _
  · dsimp only
    split
    · exact Nat.le_refl _
    · rw [workload, workload]
      exact Nat.add_le_add_left (Nat.zero_le _) _

/-- A line begins without a search. -/
theorem workload_start (e : Engine) (r : Request) (callback width : Nat) (previous : Handlers) :
    (e.start r callback width previous).workload ≤ e.workload := by
  rw [workload, workload]
  exact Nat.add_le_add_left (Nat.zero_le _) _

theorem workload_resume {width : Nat} (h : e.resume width = .ok (t, f)) :
    t.workload ≤ e.workload := by
  obtain ⟨d, hd, ht⟩ := of_resume_eq_ok h
  have hcaught : (e.catchUp width d.resume).workload = d.workload := by
    obtain hsame | ⟨old, hresized⟩ := e.catchUp_eq width d.resume
    · rw [hsame]
      rfl
    · rw [hresized, Desk.workload_resize]
      rfl
  obtain rfl : _ = t := congrArg Prod.fst ht
  rw [workload_of_desk? hd, ← hcaught]
  exact workload_takeFinished _

theorem workload_answers {size : Size} {calls : List SessionCall} {replies : List Reply}
    (h : e.answers size calls = .ok (t, replies, f)) : t.workload ≤ e.workload := by
  rw [answers] at h
  split at h
  · cases h
  · rename_i d hd
    rw [workload_of_desk? hd, ← d.workload_answers size calls]
    dsimp only at h
    split at h
    · cases h
      exact Nat.le_refl _
    · have ht := congrArg Prod.fst (Except.ok.inj h)
      dsimp only at ht
      rw [← ht]
      exact workload_takeFinished _

theorem workload_resized (e : Engine) (size : Size) : (e.resized size).workload = e.workload := by
  rw [resized]
  split
  · rfl
  · rename_i d hd
    rw [workload_of_desk? hd]
    dsimp only
    split
    · rfl
    · split
      · exact d.workload_resize ..
      · exact workload_of_desk? hd

/-- Input is left by a search with a match only, which lets go. -/
theorem handle_of_given (hnext : e.next? = some (d, event)) (hgiven : e.givenBy d event ≠ []) :
    ∃ d', e.handle d event = .settled (e.put d').takeFinished.1 (e.put d').takeFinished.2 ∧
      d.session.searches = true ∧ d'.session.searches = false ∧
      d'.queue = d.queue.append Key.enter.codePoints := by
  have haccepts : e.AcceptsMatch :=
    Decidable.byContradiction fun h => hgiven (givenBy_eq_nil h hnext)
  obtain ⟨x, hx, hmatch, hbound⟩ := haccepts
  cases hnext.symm.trans hx
  dsimp only at hmatch hbound
  obtain ⟨q, r, hfocus, hresult⟩ : ∃ q r, d.session.focus = some (.search q) ∧ q.result = some r := by
    rw [Session.hasMatch] at hmatch
    split at hmatch
    · rename_i q hfocus
      obtain ⟨r, hr⟩ := Option.isSome_iff_exists.1 hmatch
      exact ⟨q, r, hfocus, hr⟩
    · cases hmatch
  have hplain : ¬ (e.Interrupts event ∨ e.AtEof d event) := fun h => hgiven (if_pos h)
  have hescape : event ≠ .key .escape := by
    rintro rfl
    refine hgiven ?_
    rw [givenBy, if_neg hplain, Desk.givenBy, Desk.actionFor, hfocus]
    change (q.input (d.keymap.lookup? (.key .escape)) (.key .escape)).given = []
    rw [Search.given, if_neg]
    rintro ⟨haccept, -⟩
    rw [(status_input q _ _).1] at haccept
    cases haccept
  obtain ⟨d', hdispatch, -, ⟨-, -, hlet⟩, hcore⟩ :=
    Desk.dispatch_search_accept hescape hbound hfocus hresult
  refine ⟨d', ?_, ?_, ?_, congrArg Core.queue hcore⟩
  · rw [handle_eq, if_neg fun h => hplain (.inl h), if_neg fun h => hplain (.inr h), hdispatch]
  · rw [Session.searches, hfocus]
  · rw [Session.searches, hlet]

/-- An event that is handled leaves less to do. -/
theorem workload_handle (hnext : e.next? = some (d, event))
    (h : e.handle d event = .settled t f) : t.workload < e.workload := by
  obtain ⟨s, queue, hs, hpaused, hqueue, hd⟩ := next?_eq_some hnext
  have hless := EventQueue.length_lt_of_next hqueue
  have hleft : d.queue = queue := by rw [hd]
  have hlisten : d.session.paused = false := by rw [hd]; exact hpaused
  have hdesk : e.workload = 2 * e.queue.pending.length + if d.session.searches then 1 else 0 := by
    rw [workload, hs, hd]
    rfl
  clear hd
  by_cases hgiven : e.givenBy d event = []
  · -- without new input the search makes up for no more than the code point that was taken
    have hbound : ∀ d' : Desk, d'.core.queue = d.core.queue → d'.workload < e.workload := by
      intro d' hqueue'
      have hsame : d'.queue = queue := hqueue'.trans hleft
      have hle := d'.workload_le
      rw [hsame] at hle
      omega
    rcases e.handle_cases event hlisten with
      ⟨-, hover⟩ | ⟨-, d', hsettled, hcore⟩ | ⟨-, k, c, d', hscript, -⟩
    · cases hover.symm.trans h
      have hqueue' := congrArg Core.queue d.core_startOver
      exact hbound d.startOver hqueue'
    · cases hsettled.symm.trans h
      rw [hgiven, EventQueue.append_nil] at hcore
      have hqueue' := congrArg Core.queue hcore
      exact Nat.lt_of_le_of_lt (workload_takeFinished _) (hbound d' hqueue')
    · cases hscript.symm.trans h
  · obtain ⟨d', hsettled, hsearches, hlet, hqueue'⟩ := handle_of_given hnext hgiven
    cases hsettled.symm.trans h
    refine Nat.lt_of_le_of_lt (workload_takeFinished _) ?_
    have hkey : d'.queue.pending.length = queue.pending.length + 1 := by
      rw [hqueue', hleft]
      exact List.length_append ..
    have hafter := Desk.workload_of_not_searches hlet
    rw [hsearches, if_pos rfl] at hdesk
    change d'.workload < e.workload
    omega

end Engine

end LineEditor
