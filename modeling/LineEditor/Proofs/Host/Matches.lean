import LineEditor.Proofs.Host.Seeking

/-!
What an incremental search shows, in the session of an engine among any others.

Main statement: `matches_of_play`, it shows a match or nothing; a character without a match is dropped
again, and the keys that step through the history leave the search for the entry beside the match.
-/
namespace LineEditor

namespace History

variable {h : History} {i : Nat}

/-- The entry before the one that was fetched, if there is one. -/
theorem previous_of_fetched (hfetched : h.fetched = i) (hi : i < h.entries.length) :
    h.previous.2 = if i = 0 then none else h.get? (i - 1) := by
  rw [previous, hfetched, Nat.min_eq_left (Nat.le_of_lt hi)]
  split <;> rfl

/-- The entry after the one that was fetched, if there is one. -/
theorem next_of_fetched (hfetched : h.fetched = i) : h.next.2 = h.get? (i + 1) := by
  rw [next, hfetched]
  split
  · rename_i hle
    exact (List.getElem?_eq_none hle).symm
  · rfl

end History

namespace Turn

variable {turn : Turn} {d : Desk} {event : KeyEvent}

/-- The event that is handled, and the desk that it is handled at. -/
def handled? : Turn → Option (Desk × KeyEvent)
  | .handles d event => some (d, event)
  | _ => none

theorem handled?_eq_some : turn.handled? = some (d, event) ↔ turn = .handles d event := by
  cases turn <;> simp [handled?]

end Turn

namespace Machine

variable {host : Host} {m : Machine} {n : Nat} {e : Engine} {s : Session} {q : Search}

/-- While a search has the focus, its result is the entry that the history found last, and the line that is
shown is this entry with the cursor on the first place where the query is in it; without a result the line
is empty. A character of the query for which nothing is found leaves the query, the result and the line,
and rings the bell. The keys that step through the history leave a search with a result for the entry
beside it, or for the result where there is none. -/
theorem matches_of_play (hm : m.search? n = none) (moves : List Move)
    (hadmits : m.Admits (Seeks n host) host moves)
    (he : (m.play host moves).world.engine? n = some e) (hs : e.session = some s)
    (hfocus : s.focus = some (.search q)) :
    q.Shows e.history s.buffer ∧
      ∀ x d event, x.turn n (m.play host moves) = .handles d event → ¬ e.Interrupts event →
        ¬ e.AtEof d event → event ≠ .key .escape →
        ∃ e' s', (m.play host (moves ++ [x])).world.engine? n = some e' ∧ e'.session = some s' ∧
          (∀ c, event = .char c → event.isPrintable = true → d.keymap.lookup? event = none →
            (e.history.search (q.query ++ [c])).2 = none →
            ∃ q', s'.focus = some (.search q') ∧ q'.query = q.query ∧ q'.result = q.result ∧
              s'.buffer = s.buffer ∧ (m.play host moves).presses n x = [⟨event, none, 1⟩]) ∧
          ∀ i r, q.result = some r → e.history.found = some i →
            (d.keymap.lookup? event = some .previousHistory → s'.focus = none ∧
              s'.buffer = .ofText ((if i = 0 then none else e.history.get? (i - 1)).getD r)) ∧
            (d.keymap.lookup? event = some .nextHistory → s'.focus = none ∧
              s'.buffer = .ofText ((e.history.get? (i + 1)).getD r)) := by
  obtain ⟨e₀, s₀, -, -, hk, hruns⟩ := runs_play hm moves hadmits he hs hfocus
  have hshows : q.Shows e.history s.buffer := (hk.shown hs).1 ▸ hruns.shows
  refine ⟨hshows, fun x d event hturn hinterrupt heof hescape => ?_⟩
  have htakes := takes_move host (m.play host moves) x n
  rw [hturn, he] at htakes
  obtain ⟨hnext, e', he', hsession, hhistory⟩ := htakes.handled
  obtain ⟨haction, hreading, -⟩ := hk.actionFor hnext
  have hhandle := Engine.handle_of_search haction hinterrupt heof hreading
  obtain ⟨s', hs'⟩ : ∃ s', e'.session = some s' := ⟨_, by rw [hsession, hhandle]; rfl⟩
  rw [play_append]
  refine ⟨e', s', he', hs', ?_, fun i r hresult hfound => ?_⟩
  · rintro c rfl hprintable hbound hnone
    obtain ⟨hpress, hseeks⟩ :=
      Engine.dropped_handle hk hnext hinterrupt heof hprintable hbound hnone
    obtain ⟨-, s'', hs'', hfocus', -, hbuffer, -⟩ := hseeks
    cases (hs'.symm.trans hsession).trans hs''
    refine ⟨_, hfocus', rfl, rfl, hbuffer.trans (hk.shown hs).1.symm, ?_⟩
    rw [presses, hturn, he]
    exact congrArg (fun p => [p]) hpress
  · cases hshows with
    | nothing hresult' hfound' => cases hfound'.symm.trans hfound
    | found hresult' hfound' hentry hfetched hmatch htext hcursor hfirst =>
      cases hfound'.symm.trans hfound
      have hleft : ∀ fetched : History × Option Text,
          (d.keymap.lookup? event = some .previousHistory ∧ fetched = e.history.previous ∨
            d.keymap.lookup? event = some .nextHistory ∧ fetched = e.history.next) →
          s'.focus = none ∧ s'.buffer = .ofText (fetched.2.getD r) := by
        intro fetched hbound
        obtain ⟨s'', hs'', hfocus', -, hbuffer⟩ :=
          Engine.neighbour_handle hk hnext hinterrupt heof hescape hbound
        cases (hs'.symm.trans hsession).trans hs''
        rw [hresult] at hbuffer
        exact ⟨hfocus', hbuffer⟩
      constructor
      · intro hbound
        rw [← History.previous_of_fetched hfetched (History.lt_length_of_get? hentry)]
        exact hleft _ (.inl ⟨hbound, rfl⟩)
      · intro hbound
        rw [← History.next_of_fetched hfetched]
        exact hleft _ (.inr ⟨hbound, rfl⟩)

/-- An `a` is searched for, a `z` behind it is dropped, and the search is left for the entry before the
match. -/
theorem matches_of_play_left :
    let r : Request := { engine := 0, conn := 0, prompt := ⟨['>', ' ']⟩, handler := none }
    let host : Host := ⟨fun _ _ => []⟩
    let start : Machine := ⟨.solo (.new {} [['a', '1'], ['b'], ['x', 'a']]) (.new { cols := 80 } {}) {}, []⟩
    let m := start.play host [.call (.readline r 0), .call (.queue 0 ['\x12', 'a', 'z', '\x10']),
      .call (.runTasks 0), .step]
    let moves : List Move := List.replicate 3 .step
    ∃ e s q e' s', (m.play host moves).world.engine? 0 = some e ∧ e.session = some s ∧
      s.focus = some (.search q) ∧ q.query = ['a'] ∧ q.Shows e.history s.buffer ∧
      (m.play host (moves ++ [.step])).world.engine? 0 = some e' ∧ e'.session = some s' ∧
      s'.focus = none ∧ s'.buffer = .ofText ['b'] := by
  intro r host start m moves
  have hm : m.search? 0 = none := by decide +kernel
  have hadmits : m.Admits (Seeks 0 host) host moves := by decide +kernel
  have hshown : ((m.play host moves).world.engine? 0).any (fun e => e.search?.any fun q =>
      q.query = ['a'] && q.result = some ['x', 'a'] && e.history.found = some 2 &&
        e.history.get? 1 = some ['b']) = true := by decide +kernel
  obtain ⟨e, he, hsearch⟩ := (Option.any_eq_true _ _).1 hshown
  obtain ⟨q, hq, hquery⟩ := (Option.any_eq_true _ _).1 hsearch
  simp only [Bool.and_eq_true, decide_eq_true_eq] at hquery
  obtain ⟨⟨⟨hquery, hresult⟩, hfound⟩, hentry⟩ := hquery
  obtain ⟨s, hs, hfocus⟩ := Engine.search?_eq_some hq
  obtain ⟨hshows, hnext⟩ := matches_of_play hm moves hadmits he hs hfocus
  have hturn : (Move.turn 0 (m.play host moves) .step).handled?.any (fun x =>
      ((m.play host moves).world.engine? 0).any fun e => ¬ e.Interrupts x.2 ∧ ¬ e.AtEof x.1 x.2 ∧
        x.2 = .key .ctrlP ∧ x.1.keymap.lookup? x.2 = some .previousHistory) = true := by
    decide +kernel
  obtain ⟨⟨d, event⟩, hhandled, hkey⟩ := (Option.any_eq_true _ _).1 hturn
  rw [he, Option.any_some] at hkey
  obtain ⟨hinterrupt, heof, rfl, hbound⟩ := of_decide_eq_true hkey
  obtain ⟨e', s', he', hs', -, hleft⟩ :=
    hnext _ d _ (Turn.handled?_eq_some.1 hhandled) hinterrupt heof (by decide)
  obtain ⟨hfocus', hbuffer⟩ := (hleft 2 _ hresult hfound).1 hbound
  refine ⟨e, s, q, e', s', he, hs, hfocus, hquery, hshows, he', hs', hfocus', hbuffer.trans ?_⟩
  rw [if_neg (by decide), hentry]
  rfl

end Machine

end LineEditor
