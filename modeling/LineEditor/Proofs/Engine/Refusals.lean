import LineEditor.Proofs.Engine.Turns
import LineEditor.Proofs.Session.Refusals

/-!
Refused events of an engine. An event for which the bell rings is taken out of the queue, and that is all:
the session goes on as it was, and so does the engine.

Main definition: `Engine.Open`, where only a pause may keep a session that was ended. Main statements:
`refused_handle`, and `open_takes` for every turn but the steps of a script.
-/
namespace LineEditor.Engine

variable {e t : Engine} {d : Desk} {event : KeyEvent} {turn : Turn}

/-- A session that listens was not ended. -/
def Open (e : Engine) : Prop := ∀ s ∈ e.session, s.paused = false → s.outcome = .reading

theorem rings_takeFinished (e : Engine) : e.takeFinished.1.rings = e.rings := by
  rw [takeFinished]
  split
  · rfl
  · split
    · rfl
    · change (e.effects ++ [_]).countP Effect.isRing = _
      rw [List.countP_append]
      rfl

/-- An event for which the bell rings is refused, unless a search has the focus or the line starts over:
it is taken out of the queue, and only who has the focus and whether a typed run goes on may have changed. -/
theorem refused_handle (hopen : e.Open) (hnext : e.next? = some (d, event))
    (hfocus : ∀ s ∈ e.session, ∀ q, s.focus ≠ some (.search q)) (hinterrupt : ¬ e.Interrupts event)
    (hrings : e.rings < (e.handle d event).engine.rings) :
    ∃ xs focus typing, (∀ x ∈ xs, Effect.isQuiet x = true) ∧
      e.handle d event = .settled
        { e with
          queue := d.queue
          effects := e.effects ++ xs
          session := e.session.map fun s => { s with focus, typing } } none := by
  obtain ⟨s, queue, hs, hlisten, -, hd⟩ := next?_eq_some hnext
  have hreading := hopen s hs hlisten
  have hsession : d.session = s := by rw [hd]
  have hbefore : e.rings = d.trace.rings := by
    rw [hd]
    rfl
  have hsilent : ∀ {t : Engine} {n : Nat}, t.rings = n → n = d.trace.rings → ¬ e.rings < t.rings := by
    intro t n ht hn
    rw [ht, hn, hbefore]
    exact Nat.lt_irrefl _
  rw [handle_eq, if_neg hinterrupt] at hrings ⊢
  by_cases heof : e.AtEof d event
  · rw [if_pos heof] at hrings
    exact absurd hrings (hsilent (rings_takeFinished _) (congrArg Trace.rings (d.trace_log ..)))
  rw [if_neg heof] at hrings ⊢
  have hdispatch := d.refuses_dispatch (e := event) (hsession ▸ hlisten)
    fun q => hsession ▸ hfocus s hs q
  cases hr : d.dispatch event with
  | script c h d' =>
    rw [hr] at hdispatch hrings
    exact absurd hrings (hsilent rfl hdispatch)
  | finished d' =>
    rw [hr] at hdispatch hrings
    change e.rings < (e.put d').takeFinished.1.rings at hrings
    rw [rings_takeFinished, hbefore] at hrings
    obtain ⟨focus, typing, xs, hxs, rfl⟩ := hdispatch hrings
    refine ⟨xs, focus, typing, hxs, ?_⟩
    dsimp only
    rw [takeFinished_of_reading, hs, hd]
    · rfl
    · rintro _ ⟨⟩
      rw [hd]
      exact hreading

/-! ### Open sessions -/

/-- A session that does not end is still read. -/
theorem open_takeFinished (e : Engine) : e.takeFinished.1.Open := by
  intro s hs _
  cases hsession : e.session with
  | none =>
    rw [takeFinished, hsession] at hs
    cases hsession.symm.trans hs
  | some s' =>
    cases houtcome : s'.outcome with
    | reading =>
      rw [takeFinished_of_reading] at hs
      · cases hsession.symm.trans hs
        exact houtcome
      · rintro _ hs'
        cases hsession.symm.trans hs'
        exact houtcome
    | accepted | eof =>
      rw [takeFinished_of_line hsession (congrArg Outcome.line? houtcome)] at hs
      cases hs

theorem Open.resized (he : e.Open) (size : Size) : (e.resized size).Open := by
  rw [Engine.resized]
  cases hd : e.desk? with
  | none => exact he
  | some d =>
    obtain ⟨s, hs, rfl⟩ := Option.map_eq_some_iff.1 hd
    have hput : ∀ {d' : Desk}, d'.core = Desk.core { toEditor := e.toEditor, session := s } →
        (e.put d').Open := by
      rintro d' hcore _ ⟨⟩ hlisten
      exact (congrArg Core.outcome hcore :).trans
        (he s hs ((congrArg Core.paused hcore :).symm.trans hlisten))
    dsimp only
    split
    · exact hput rfl
    · split
      · exact hput (congrArg Kept.core (Desk.kept_resize ..))
      · exact he

theorem open_handle (hnext : e.next? = some (d, event)) : (e.handle d event).engine.Open := by
  obtain ⟨s, queue, hs, hlisten, -, hd⟩ := next?_eq_some hnext
  rw [handle_eq]
  split
  · rintro _ ⟨⟩ _
    exact congrArg Core.outcome d.core_startOver
  · split
    · exact open_takeFinished _
    · have hcore := d.core_dispatch event (by rw [hd]; exact hlisten)
      cases hr : d.dispatch event with
      | finished d' => exact open_takeFinished _
      | script c h d' =>
        rw [hr] at hcore
        rintro _ ⟨⟩ hlistens
        cases hlistens.symm.trans (congrArg Core.paused hcore.1 :)

/-- Calls may end a session that is paused. -/
theorem open_answers {size : Size} {calls : List SessionCall} {replies : List Reply}
    {f : Option Finished} (h : e.answers size calls = .ok (t, replies, f)) : t.Open := by
  rw [answers] at h
  split at h
  · cases h
  · dsimp only at h
    split at h
    · rename_i hpaused
      cases h
      rintro _ ⟨⟩ hlistens
      cases hlistens.symm.trans hpaused
    · cases h
      exact open_takeFinished _

/-- Whatever happens to an engine leaves its session open, but for the steps of a script. -/
theorem open_takes (h : e.Takes turn (some t)) (hturn : ∀ s, turn ≠ .steps s) (he : e.Open) : t.Open := by
  cases h with
  | rested h =>
    intro s hs
    rw [h.session_eq] at hs
    exact he s hs
  | resized size => exact he.resized size
  | resumed h =>
    obtain ⟨d, -, ht⟩ := of_resume_eq_ok h
    have hfirst := congrArg Prod.fst ht
    dsimp only at hfirst
    rw [← hfirst]
    exact open_takeFinished _
  | left hd c h => exact open_takeFinished _
  | begun => rintro _ ⟨⟩ _; rfl
  | handled hfree hnext h =>
    have hopen := open_handle hnext
    rw [h] at hopen
    exact hopen
  | scripted hfree hnext h =>
    have hopen := open_handle hnext
    rw [h] at hopen
    exact hopen
  | answered h => exact (open_answers h :)
  | stepped hd size s => exact absurd rfl (hturn s)

end LineEditor.Engine

namespace LineEditor.Turn

variable {turn : Turn} {o o' : Option Engine}

theorem Takes.open (h : Turn.Takes o turn o') (hturn : ∀ s, turn ≠ .steps s)
    (ho : ∀ e ∈ o, e.Open) : ∀ e ∈ o', e.Open := by
  cases h with
  | gone => exact fun e he => absurd he (Option.not_mem_none e)
  | @takes e _ _ h =>
    intro t ht
    rw [ht] at h
    exact Engine.open_takes h hturn (ho e rfl)

end LineEditor.Turn
