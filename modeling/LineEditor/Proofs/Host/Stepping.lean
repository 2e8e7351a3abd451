import LineEditor.Proofs.Host.Seeking
import LineEditor.Proofs.Session.Stepping

/-!
An incremental search finds what a direct search would, and goes through all matches one by one, in the
session of an engine among any others.

Main statement: `found_of_play`.
-/
namespace LineEditor.Machine

variable {host : Host} {m : Machine} {n : Nat} {e : Engine} {s : Session} {q : Search} {k : Seeking}

/-- A search keeps the focus at a character that is not bound and at the key of a direction. -/
theorem seeks_of_key {x : Move} {d : Desk} {event : KeyEvent} (he : m.world.engine? n = some e)
    (hk : e.Seeks k) (hturn : x.turn n m = .handles d event) (hinterrupt : ¬ e.Interrupts event)
    (heof : ¬ e.AtEof d event)
    (hkey : d.keymap.lookup? event = none ∧ event.isPrintable = true ∨
      event ≠ .key .escape ∧ ∃ heading : Direction, d.keymap.lookup? event = some heading.command) :
    m.Seeks n host x := by
  have htakes := takes_move host m x n
  rw [hturn, he] at htakes
  obtain ⟨hnext, e', he', hsession, -⟩ := htakes.handled
  have hinput : (k.search.input (d.keymap.lookup? event) event).keepsFocus = true := by
    rcases hkey with ⟨hbound, hprintable⟩ | ⟨hescape, heading, hbound⟩
    · cases event with
      | key key => cases hprintable
      | char c => rw [hbound, Search.input_of_printable hprintable]; rfl
    · rw [hbound, Search.input_of_command hescape]
      cases heading <;> rfl
  obtain ⟨q, hq⟩ := Engine.search?_handle hk hnext hinterrupt heof hinput
  rw [Seeks, hturn, he, he']
  refine ⟨?_, ?_⟩
  · rw [Option.bind_some, Engine.search?, hsession]
    exact Option.isSome_iff_exists.2 ⟨q, hq⟩
  · change (d.actionFor event).any Action.isSearch = true
    rw [(hk.actionFor hnext).1]
    rfl

/-- A search is begun on an empty line, some characters that are not bound are typed, and its key is
pressed some more times. Then the query is what is left of the characters when each is kept only if some
entry of the whole history has the query with it. An empty query has no result. For any other there is a
list of all entries with the query in them, in the order of the direction and each of them once, and the
result is the one as far behind the first as the key was pressed, or the last. The bell rings once for
every dropped character and once for every press behind the last entry. And neither a character nor the
key would end the search. -/
theorem found_of_play {e₀ : Engine} {s₀ : Session} (he₀ : m.world.engine? n = some e₀)
    (hs₀ : e₀.session = some s₀) (hempty : s₀.buffer.text = []) (hm : m.search? n = none)
    (moves : List Move) (hadmits : m.Admits (Seeks n host) host moves)
    (he : (m.play host moves).world.engine? n = some e) (hs : e.session = some s)
    (hfocus : s.focus = some (.search q)) {direction : Direction} {cs : Text} {steps : Nat}
    {first again : KeyEvent}
    (hkeys : (record (presses n) host m moves).map Press.key =
      (first, some direction.command) :: cs.map (fun c => (.char c, none)) ++
        List.replicate steps (again, some direction.command))
    {query : Text} (hquery : e₀.history.accepted [] cs = query) :
    q.query = query ∧
      (query = [] → q.result = none ∧
        ((record (presses n) host m moves).map Press.rings).sum = cs.length) ∧
      (query ≠ [] → ∃ (places : List Nat) (i : Nat), places.Pairwise direction.Leads ∧
        (∀ j, j ∈ places ↔ ∃ t, e₀.history.get? j = some t ∧ query <:+: t) ∧
        places[min steps (places.length - 1)]? = some i ∧ e.history.found = some i ∧
        q.result = e₀.history.get? i ∧
        ((record (presses n) host m moves).map Press.rings).sum =
          (cs.length - query.length) + (steps - (places.length - 1))) ∧
      ∀ x d event, x.turn n (m.play host moves) = .handles d event → ¬ e.Interrupts event →
        ¬ e.AtEof d event →
        (d.keymap.lookup? event = none ∧ event.isPrintable = true ∨
          event ≠ .key .escape ∧ ∃ heading : Direction,
            d.keymap.lookup? event = some heading.command) →
        (m.play host moves).Seeks n host x := by
  obtain ⟨e₁, s₁, he₁, hs₁, hk, hruns⟩ := runs_play hm moves hadmits he hs hfocus
  cases he₀.symm.trans he₁
  cases hs₀.symm.trans hs₁
  rw [hempty] at hruns
  obtain ⟨hnone, hsome⟩ := hruns.at_hit hkeys hquery
  refine ⟨?_, fun hquery => ?_, fun hquery => ?_, fun x d event hturn hinterrupt heof hkey =>
    seeks_of_key he hk hturn hinterrupt heof hkey⟩
  · by_cases hquery : query = []
    · exact (hnone hquery).1.query_eq
    · exact (hsome hquery).1.query_eq
  · obtain ⟨hat, hrings⟩ := hnone hquery
    refine ⟨?_, hrings⟩
    have hfound : e.history.found = none := hat.found_eq.trans (if_pos hquery)
    cases hruns.shows with
    | found hresult hfound' => cases hfound.symm.trans hfound'
    | nothing hresult hfound' => exact hresult
  · obtain ⟨hat, hrings⟩ := hsome hquery
    have hfound := hat.found_eq
    rw [if_neg hquery, List.getElem?_eq_getElem (hat.isHit hquery)] at hfound
    refine ⟨e₀.history.hits direction query, _, History.pairwise_hits .., fun j => History.mem_hits,
      List.getElem?_eq_getElem (hat.isHit hquery), hfound, ?_, hrings⟩
    have hentries : e.history.entries = e₀.history.entries := hat.entries_eq
    cases hruns.shows with
    | nothing hresult hfound' => cases hfound'.symm.trans hfound
    | found hresult hfound' hentry =>
      cases hfound'.symm.trans hfound
      rw [History.get?, hentries] at hentry
      exact hresult.trans hentry.symm

/-- An `a` is searched for, a `z` behind it is dropped, and the key of the search is pressed three more
times, though there are two matches. -/
theorem found_of_play_pressed :
    let r : Request := { engine := 0, conn := 0, prompt := ⟨['>', ' ']⟩, handler := none }
    let host : Host := ⟨fun _ _ => []⟩
    let start : Machine := ⟨.solo (.new {} [['a', '1'], ['b'], ['x', 'a']]) (.new { cols := 80 } {}) {}, []⟩
    let m := start.play host [.call (.readline r 0),
      .call (.queue 0 ['\x12', 'a', 'z', '\x12', '\x12', '\x12']), .call (.runTasks 0), .step]
    let moves : List Move := List.replicate 6 .step
    ∃ (e₀ e : Engine) (s : Session) (q : Search) (places : List Nat) (i : Nat),
      m.world.engine? 0 = some e₀ ∧ (m.play host moves).world.engine? 0 = some e ∧
      e.session = some s ∧ s.focus = some (.search q) ∧ q.query = ['a'] ∧
      places.Pairwise (· > ·) ∧ (∀ j, j ∈ places ↔ ∃ t, e₀.history.get? j = some t ∧ ['a'] <:+: t) ∧
      places[min 3 (places.length - 1)]? = some i ∧ q.result = e₀.history.get? i ∧
      ((record (presses 0) host m moves).map Press.rings).sum = 1 + (3 - (places.length - 1)) := by
  intro r host start m moves
  have hm : m.search? 0 = none := by decide +kernel
  have hadmits : m.Admits (Seeks 0 host) host moves := by decide +kernel
  have hkeys : (record (presses 0) host m moves).map Press.key =
      (.key .ctrlR, some Direction.reverse.command) ::
        ['a', 'z'].map (fun c => (KeyEvent.char c, none)) ++
          List.replicate 3 (.key .ctrlR, some Direction.reverse.command) := by decide +kernel
  have hstart : (m.world.engine? 0).any (fun e => e.history.accepted [] ['a', 'z'] = ['a'] &&
      e.session.any fun s => s.buffer.text = []) = true := by decide +kernel
  obtain ⟨e₀, he₀, hstart⟩ := (Option.any_eq_true _ _).1 hstart
  rw [Bool.and_eq_true, decide_eq_true_iff] at hstart
  obtain ⟨s₀, hs₀, hempty⟩ := (Option.any_eq_true _ _).1 hstart.2
  have hshown : ((m.play host moves).search? 0).isSome = true := by decide +kernel
  obtain ⟨q, hq⟩ := Option.isSome_iff_exists.1 hshown
  obtain ⟨e, he, hsearch⟩ := Option.bind_eq_some_iff.1 hq
  obtain ⟨s, hs, hfocus⟩ := Engine.search?_eq_some hsearch
  obtain ⟨hquery, -, hfound, -⟩ := found_of_play he₀ hs₀ (of_decide_eq_true hempty) hm moves hadmits he
    hs hfocus hkeys hstart.1
  obtain ⟨places, i, hplaces, hmem, hplace, -, hresult, hrings⟩ := hfound (List.cons_ne_nil _ _)
  exact ⟨e₀, e, s, q, places, i, he₀, he, hs, hfocus, hquery, hplaces, hmem, hplace, hresult, hrings⟩

end LineEditor.Machine
