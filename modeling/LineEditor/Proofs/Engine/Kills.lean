import LineEditor.Proofs.Engine.Turns
import LineEditor.Proofs.Session.Kills

/-!
The kill ring of an engine. What an event that is handled cuts goes in; lines that begin and end, calls,
pauses, changes of size and interrupts leave the ring.

Main definition: `Engine.cuts`, what a turn cuts. Main statement: `Engine.kills_takes`.
-/
namespace LineEditor

namespace Engine

variable {e t : Engine} {d : Desk} {turn : Turn}

/-- What a turn cuts, if it is no step of a script. -/
def cuts (e : Engine) : Turn → List Text
  | .handles d event => if e.Interrupts event ∨ e.AtEof d event then [] else d.cuts event
  | _ => []

theorem kills_of_desk (hd : e.desk? = some d) : d.kills = e.kills := by
  obtain ⟨s, -, rfl⟩ := Option.map_eq_some_iff.1 hd
  rfl

@[simp] theorem kills_takeFinished (e : Engine) : e.takeFinished.1.kills = e.kills := by
  rw [takeFinished]
  split
  · rfl
  · split <;> rfl

theorem kills_resized (e : Engine) (size : Size) : (e.resized size).kills = e.kills := by
  rw [resized]
  split
  · rfl
  · rename_i d hd
    rw [← kills_of_desk hd]
    dsimp only
    split
    · rfl
    · split
      · exact congrArg Kept.kills (d.kept_resize d.session.width size.cols)
      · exact (kills_of_desk hd).symm

theorem kills_resume {width : Nat} {f : Option Finished} (h : e.resume width = .ok (t, f)) :
    t.kills = e.kills := by
  obtain ⟨d, hd, ht⟩ := of_resume_eq_ok h
  have hcaught : (e.catchUp width d.resume).kills = d.kills := by
    obtain hsame | ⟨old, hresized⟩ := e.catchUp_eq width d.resume
    · rw [hsame]
      rfl
    · rw [hresized]
      exact congrArg Kept.kills (d.resume.kept_resize old width)
  have hfirst := congrArg Prod.fst ht
  dsimp only at hfirst
  rw [← hfirst, kills_takeFinished, ← kills_of_desk hd]
  exact hcaught

theorem kills_afterScript (hd : e.desk? = some d) (c : Completion) (h : ScriptedHandler) :
    (e.afterScript d c h).kills = e.kills := by
  rw [← kills_of_desk hd]
  exact congrArg Kept.kills ((Desk.kept_settleFocus ..).trans (d.kept_endCompletion c _ h.deferred))

theorem kills_answers {size : Size} {calls : List SessionCall} {replies : List Reply}
    {f : Option Finished} (h : e.answers size calls = .ok (t, replies, f)) : t.kills = e.kills := by
  obtain ⟨d, hd, hput⟩ := memory_answers h
  have hkills : (e.put (d.answers size calls).1).kills = e.kills :=
    (congrArg Kept.kills (d.kept_answers size calls)).trans (kills_of_desk hd)
  rcases hput with rfl | rfl
  · exact hkills
  · rw [kills_takeFinished, hkills]

/-- The handling of an event. -/
theorem kills_handle {event : KeyEvent} (hnext : e.next? = some (d, event)) :
    (e.handle d event).engine.kills = (e.cuts (.handles d event)).foldl KillRing.add e.kills := by
  obtain ⟨s, queue, -, -, -, hd⟩ := next?_eq_some hnext
  have hkills : e.kills = d.kills := by rw [hd]
  rw [hkills, handle_eq, cuts]
  by_cases hinterrupt : e.Interrupts event
  · rw [if_pos hinterrupt, if_pos (.inl hinterrupt)]
    exact congrArg Kept.kills d.kept_startOver
  by_cases heof : e.AtEof d event
  · rw [if_neg hinterrupt, if_pos heof, if_pos (.inr heof)]
    exact kills_takeFinished _
  rw [if_neg hinterrupt, if_neg heof, if_neg (not_or.2 ⟨hinterrupt, heof⟩)]
  have hdispatch := d.kills_dispatch event
  cases hd' : d.dispatch event with
  | finished d' =>
    rw [hd'] at hdispatch
    exact (kills_takeFinished _).trans hdispatch
  | script c h d' =>
    rw [hd'] at hdispatch
    exact hdispatch

/-- What a turn does to the kill ring, if it is no step of a script: what it cuts goes in. -/
theorem kills_takes (h : e.Takes turn (some t)) (hturn : ∀ s, turn ≠ .steps s) :
    t.kills = (e.cuts turn).foldl KillRing.add e.kills := by
  cases h with
  | rested h => exact h.kills_eq
  | resized size => exact e.kills_resized size
  | resumed h => exact (kills_resume h :)
  | left hd c h => exact (kills_takeFinished _).trans (kills_afterScript hd c h)
  | begun => rfl
  | handled hfree hnext h =>
    have hkills := kills_handle hnext
    rw [h] at hkills
    exact hkills
  | scripted hfree hnext h =>
    have hkills := kills_handle hnext
    rw [h] at hkills
    exact hkills
  | answered h => exact (kills_answers h :)
  | stepped hd size s => exact absurd rfl (hturn s)

end Engine

namespace Turn

variable {turn : Turn} {o o' : Option Engine}

/-- What a turn cuts. -/
def cuts (turn : Turn) : Option Engine → List Text
  | none => []
  | some e => e.cuts turn

/-- What is cut is not empty. -/
theorem ne_nil_of_mem_cuts {t : Text} (ht : t ∈ turn.cuts o) : t ≠ [] := by
  cases o with
  | none => cases ht
  | some e =>
    cases turn with
    | handles d event =>
      rw [cuts, Engine.cuts] at ht
      split at ht
      · cases ht
      · obtain ⟨a, d', -, -, -, -, hne⟩ := Desk.of_mem_cuts ht
        exact hne
    | rests | begins | answers | steps | drops => cases ht

theorem Takes.kills {kills : KillRing} (h : Turn.Takes o turn o') (hturn : ∀ s, turn ≠ .steps s)
    (ho : ∀ e ∈ o, e.kills = kills) :
    ∀ e ∈ o', e.kills = (turn.cuts o).foldl KillRing.add kills := by
  cases h with
  | gone => exact fun e he => absurd he (Option.not_mem_none e)
  | @takes e _ _ h =>
    intro t ht
    rw [ht] at h
    rw [← ho e rfl]
    exact Engine.kills_takes h hturn

end Turn

end LineEditor
