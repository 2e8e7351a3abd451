import LineEditor.Proofs.Engine.Turns
import LineEditor.Proofs.Session.Seeking

/-!
The search that has the focus of an engine's session. A key of the search begins it or does to it what
the key asks for; what is no key and leaves the history alone leaves the search alone as well.

Main definitions: `Engine.search?`, `Engine.Seeks`, that a search has the focus and is shown, and
`Engine.press`, what is told of a key. Main statements: `begins_handle`, `next_handle` and `seeks_rests`.
-/
namespace LineEditor

/-- Whether an action is a search. -/
def Action.isSearch : Action → Bool
  | .search _ => true
  | _ => false

/-- The search that has the focus. -/
def Session.search? (s : Session) : Option Search :=
  match s.focus with
  | some (.search q) => some q
  | _ => none

/-- A later session with the same focus, that shows the same and has not ended either. -/
structure Session.Remains (s s' : Session) : Prop where
  focus_eq : s'.focus = s.focus
  outcome_eq : s'.outcome = s.outcome
  buffer_eq : s'.buffer = s.buffer
  shown_eq : s'.shown = s.shown

theorem Session.Remains.refl (s : Session) : s.Remains s := ⟨rfl, rfl, rfl, rfl⟩

theorem Session.Remains.trans {s s' s'' : Session} (h : s.Remains s') (h' : s'.Remains s'') :
    s.Remains s'' :=
  ⟨h'.focus_eq.trans h.focus_eq, h'.outcome_eq.trans h.outcome_eq, h'.buffer_eq.trans h.buffer_eq,
    h'.shown_eq.trans h.shown_eq⟩

theorem Session.search?_eq_some {s : Session} {q : Search} :
    s.search? = some q ↔ s.focus = some (.search q) := by
  rw [search?]
  split
  · rename_i q' hfocus
    rw [hfocus, Option.some_inj, Option.some_inj, Action.search.injEq]
  · rename_i hother
    exact ⟨nofun, fun hfocus => absurd hfocus (hother q)⟩

namespace Desk

variable {d : Desk} {q : Search} {event : KeyEvent}

/-- A search is what a key is for if it has the focus, or if the key begins one. -/
theorem actionFor_search (h : d.actionFor event = some (.search q)) :
    (∃ q', d.session.focus = some (.search q') ∧ q = q'.input (d.keymap.lookup? event) event) ∨
      ∃ direction : Direction, d.session.focus = none ∧
        d.keymap.lookup? event = some direction.command ∧ q = { direction } := by
  rw [actionFor] at h
  cases hfocus : d.session.focus with
  | some a =>
    rw [hfocus] at h
    cases a with
    | search q' => exact .inl ⟨q', rfl, (Action.search.inj (Option.some.inj h)).symm⟩
    | acceptLine | complete c | operator o | basic k => cases h
  | none =>
    rw [hfocus] at h
    obtain ⟨k, hk, haction⟩ := Option.map_eq_some_iff.1 h
    cases k
    case reverseSearchHistory => exact .inr ⟨.reverse, rfl, hk, (Action.search.inj haction).symm⟩
    case forwardSearchHistory => exact .inr ⟨.forward, rfl, hk, (Action.search.inj haction).symm⟩
    all_goals cases haction

theorem dispatch_search (h : d.actionFor event = some (.search q)) : d.dispatch event =
    .finished (((d.beginAction (.search q) event).search q).2.settleFocus
      (.search ((d.beginAction (.search q) event).search q).1)) := by
  rw [dispatch, h]
  rfl

theorem session_refresh (d : Desk) (b : Buffer) :
    (d.refresh b).session = { d.session with shown := d.session.current, buffer := b } :=
  session_refreshWith d _ b

theorem remains_resize (d : Desk) (old new : Nat) : d.session.Remains (d.resize old new).session := by
  rw [resize]
  dsimp only
  rw [session_write]
  exact ⟨rfl, rfl, rfl, rfl⟩

/-- A search that is over shows a buffer behind the current prompt. -/
theorem session_searchStep_of_leaves (h : (d.searchStep q).1.keepsFocus = false) :
    ∃ b, (d.searchStep q).2.session = { d.session with shown := d.session.current, buffer := b } := by
  rw [keepsFocus_searchStep] at h
  obtain ⟨direction, status, query, result⟩ := q
  cases status
  case accept =>
    cases result with
    | none => exact ⟨_, d.session_refresh _⟩
    | some t => exact ⟨_, d.session_refresh _⟩
  case exit => exact ⟨_, d.session_refresh _⟩
  case moveRight => exact ⟨_, d.session_refresh _⟩
  case interrupt => exact ⟨_, d.session_refresh _⟩
  case movePrevious => exact ⟨_, session_refresh { d with history := d.history.previous.1 } _⟩
  case moveNext => exact ⟨_, session_refresh { d with history := d.history.next.1 } _⟩
  all_goals cases h

/-- A search that is left for the entry beside its result shows it, or the result if there is none. -/
theorem session_search_of_neighbour {fetched : History × Option Text}
    (hstep : d.searchStep q = (q, d.showNeighbour q fetched)) (hkeeps : q.keepsFocus = false) :
    (d.search q).1 = q ∧ (d.search q).2.session = { d.session with
      shown := d.session.current
      buffer := .ofText (fetched.2.getD (q.result.getD []))
      paused := false } := by
  obtain ⟨hsearch, -, hsession⟩ := search_of_leaves (d := d) (q := q) (by rw [hstep]; exact hkeeps)
  rw [hstep] at hsearch hsession
  refine ⟨hsearch, hsession.trans ?_⟩
  obtain ⟨h, line⟩ := fetched
  rw [showNeighbour, session_refresh]
  cases line <;> rfl

end Desk

namespace Engine

variable {e t : Engine} {d : Desk} {k : Seeking} {q : Search} {event : KeyEvent}

/-- The search that has the focus of the session. -/
def search? (e : Engine) : Option Search := e.session.bind Session.search?

/-- A search has the focus and is shown. -/
def Seeks (e : Engine) (k : Seeking) : Prop :=
  e.history = k.history ∧ ∃ s, e.session = some s ∧ s.focus = some (.search k.search) ∧
    s.outcome = .reading ∧ s.buffer = k.search.shownBuffer ∧ s.shown = k.search.prompt

/-- What is told of a key. -/
def press (e : Engine) (d : Desk) (event : KeyEvent) : Press :=
  ⟨event, d.keymap.lookup? event, (e.handle d event).engine.rings - e.rings⟩

theorem search?_eq_some (h : e.search? = some q) :
    ∃ s, e.session = some s ∧ s.focus = some (.search q) := by
  obtain ⟨s, hs, hq⟩ := Option.bind_eq_some_iff.1 h
  exact ⟨s, hs, Session.search?_eq_some.1 hq⟩

theorem Seeks.search?_eq (h : e.Seeks k) : e.search? = some k.search := by
  obtain ⟨-, s, hs, hfocus, -⟩ := h
  rw [search?, hs]
  exact Session.search?_eq_some.2 hfocus

theorem Seeks.shown {s : Session} (h : e.Seeks k) (hs : e.session = some s) :
    s.buffer = k.search.shownBuffer ∧ s.shown = k.search.prompt := by
  obtain ⟨-, s', hs', -, -, hbuffer, hshown⟩ := h
  cases hs.symm.trans hs'
  exact ⟨hbuffer, hshown⟩

/-- The session that work left is still read if a search has the focus. -/
theorem search?_takeFinished (h : e.takeFinished.1.search? = some q) :
    e.takeFinished = (e, none) ∧ ∃ s, e.session = some s ∧ s.outcome = .reading := by
  cases hs : e.session with
  | none =>
    have hsame : e.takeFinished = (e, none) := by rw [takeFinished, hs]
    rw [hsame, search?, hs] at h
    cases h
  | some s =>
    cases houtcome : s.outcome with
    | reading =>
      refine ⟨takeFinished_of_reading fun s' hs' => ?_, s, rfl, houtcome⟩
      cases hs.symm.trans hs'
      exact houtcome
    | accepted | eof =>
      have hline : s.outcome.line? = some _ := congrArg Outcome.line? houtcome
      rw [takeFinished_of_line hs hline] at h
      cases h

/-- A key of a search that has the focus after it: the search is shown as the key has left it. -/
theorem handle_search {q' : Search} (haction : d.actionFor event = some (.search q))
    (hkeeps : (e.handle d event).engine.search? = some q') :
    ((d.beginAction (.search q) event).searchStep q).1.keepsFocus = true ∧
      ∃ d', e.handle d event = .settled (e.put d') none ∧
        (e.put d').Seeks ⟨((d.beginAction (.search q) event).searchStep q).2.history,
          ((d.beginAction (.search q) event).searchStep q).1⟩ ∧
        d'.trace.rings = ((d.beginAction (.search q) event).searchStep q).2.trace.rings := by
  rw [handle_eq] at hkeeps ⊢
  by_cases hinterrupt : e.Interrupts event
  · rw [if_pos hinterrupt] at hkeeps
    cases hkeeps
  by_cases heof : e.AtEof d event
  · rw [if_neg hinterrupt, if_pos heof] at hkeeps
    cases hkeeps
  rw [if_neg hinterrupt, if_neg heof, Desk.dispatch_search haction] at hkeeps ⊢
  dsimp only [Handled.engine] at hkeeps ⊢
  obtain ⟨hgoes, s, hs, hreading⟩ := search?_takeFinished hkeeps
  rw [hgoes] at hkeeps ⊢
  obtain ⟨s', hs', hfocus⟩ := search?_eq_some hkeeps
  cases hs'
  cases hs
  have hfresh : (d.beginAction (.search q) event).session.focus = none := rfl
  generalize d.beginAction (.search q) event = d₁ at *
  cases hstep : (d₁.searchStep q).1.keepsFocus with
  | false =>
    -- the focus was given up before the search was applied
    obtain ⟨hsearch, -, hsession⟩ := Desk.search_of_leaves hstep
    obtain ⟨b, hleft⟩ := Desk.session_searchStep_of_leaves hstep
    have hsettled : (d₁.search q).2.settleFocus (.search (d₁.search q).1) = (d₁.search q).2 := by
      rw [hsearch]
      exact if_neg (Bool.eq_false_iff.1 hstep)
    rw [hsettled, hsession, hleft] at hfocus
    cases hfresh.symm.trans hfocus
  | true =>
    obtain ⟨hsearch, hhistory, hrings, hsession⟩ := Desk.search_of_keeps hstep
    have hsettled : (d₁.search q).2.settleFocus (.search (d₁.search q).1) =
        { (d₁.search q).2 with session.focus := some (.search (d₁.searchStep q).1) } := by
      rw [hsearch]
      exact if_pos hstep
    rw [hsettled] at hreading ⊢
    refine ⟨rfl, _, rfl, ⟨hhistory, _, rfl, rfl, hreading, ?_, ?_⟩, hrings⟩
    · exact congrArg Session.buffer hsession
    · exact congrArg Session.shown hsession

/-- What is told of a key that a search has the focus after. -/
theorem press_eq {d' : Desk} {rings : Nat} (hnext : e.next? = some (d, event))
    (h : e.handle d event = .settled (e.put d') none) (hrings : d'.trace.rings = d.trace.rings + rings) :
    e.press d event = ⟨event, d.keymap.lookup? event, rings⟩ := by
  obtain ⟨s, queue, -, -, -, rfl⟩ := next?_eq_some hnext
  have hcount : (e.put d').rings = e.rings + rings := hrings
  rw [press, h, Handled.engine, hcount, Nat.add_sub_cancel_left]

/-- A key after which a search has the focus that had none: the search begins on what is shown. -/
theorem begins_handle (hnext : e.next? = some (d, event))
    (haction : (d.actionFor event).any Action.isSearch = true) (hnone : e.search? = none)
    (hkeeps : (e.handle d event).engine.search? = some q) :
    ∃ (s : Session) (direction : Direction), e.session = some s ∧
      e.press d event = ⟨event, some direction.command, 0⟩ ∧
      (e.handle d event).engine.Seeks (.begin e.history s.buffer.text direction) := by
  obtain ⟨a, ha, hsearch⟩ := (Option.any_eq_true _ _).1 haction
  cases a with
  | acceptLine | complete c | operator o | basic k => cases hsearch
  | search q₁ =>
    obtain ⟨s, queue, hs, -, -, hd⟩ := next?_eq_some hnext
    rcases Desk.actionFor_search ha with ⟨q', hfocus, -⟩ | ⟨direction, -, hbound, rfl⟩
    · rw [hd] at hfocus
      rw [search?, hs, Option.bind_some, Session.search?_eq_some.2 hfocus] at hnone
      cases hnone
    · obtain ⟨-, d', hhandle, hseeks, hrings⟩ := handle_search ha hkeeps
      obtain ⟨hbegin, hsilent⟩ :=
        Desk.startSearch_begins (d.beginAction (.search { direction }) event) direction
      have hcount : d'.trace.rings = d.trace.rings + 0 :=
        hrings.trans (hsilent.trans (Desk.rings_beginAction ..))
      have hpress := press_eq hnext hhandle hcount
      rw [hbound] at hpress
      refine ⟨s, direction, hs, hpress, ?_⟩
      rw [hhandle]
      subst hd
      exact hbegin ▸ hseeks

/-- The action of a key while a search has the focus. -/
theorem Seeks.actionFor (hk : e.Seeks k) (hnext : e.next? = some (d, event)) :
    d.actionFor event = some (.search (k.search.input (d.keymap.lookup? event) event)) ∧
      d.session.outcome = .reading ∧ d.history = k.history := by
  obtain ⟨hhistory, s, hs, hfocus, hreading, -⟩ := hk
  obtain ⟨s', queue, hs', -, -, rfl⟩ := next?_eq_some hnext
  cases hs.symm.trans hs'
  refine ⟨?_, hreading, hhistory⟩
  rw [Desk.actionFor]
  dsimp only
  rw [hfocus]
  rfl

/-- What a key makes of a search that has the focus and keeps it. -/
theorem next_handle (hk : e.Seeks k) (hnext : e.next? = some (d, event))
    (hkeeps : (e.handle d event).engine.search? = some q) :
    ∃ k', k.Next (e.press d event) k' ∧ (e.handle d event).engine.Seeks k' := by
  obtain ⟨haction, -, hhistory⟩ := hk.actionFor hnext
  obtain ⟨hkept, d', hhandle, hseeks, hrings⟩ := handle_search haction hkeeps
  have hinput : (k.search.input (d.keymap.lookup? event) event).keepsFocus = true := by
    rw [Desk.keepsFocus_searchStep, Bool.or_eq_true, decide_eq_true_iff] at hkept
    exact hkept.resolve_left (Search.input_started _ _ _)
  obtain ⟨rings, hstep, hcount⟩ := Desk.next_searchStep hinput
  rw [Desk.rings_beginAction] at hcount
  rw [press_eq hnext hhandle (hrings.trans hcount), hhandle]
  refine ⟨_, ?_, hseeks⟩
  obtain ⟨history, search⟩ := k
  subst hhistory
  exact hstep

/-! ### Keys of a search -/

/-- A key of a search is handled by the search, which does not end the session. -/
theorem handle_of_search (haction : d.actionFor event = some (.search q))
    (hinterrupt : ¬ e.Interrupts event) (heof : ¬ e.AtEof d event)
    (hreading : d.session.outcome = .reading) :
    e.handle d event = .settled (e.put (((d.beginAction (.search q) event).search q).2.settleFocus
      (.search ((d.beginAction (.search q) event).search q).1))) none := by
  rw [handle_eq, if_neg hinterrupt, if_neg heof, Desk.dispatch_search haction]
  dsimp only
  rw [takeFinished_of_reading]
  rintro s ⟨⟩
  have hkept := (d.beginAction (.search q) event).kept_search q
  exact (congrArg (fun k : Kept => k.core.outcome) ((Desk.kept_settleFocus ..).trans hkept)).trans
    hreading

/-- A search that a key goes on with keeps the focus. -/
theorem search?_handle (hk : e.Seeks k) (hnext : e.next? = some (d, event))
    (hinterrupt : ¬ e.Interrupts event) (heof : ¬ e.AtEof d event)
    (hinput : (k.search.input (d.keymap.lookup? event) event).keepsFocus = true) :
    ∃ q, (e.handle d event).engine.search? = some q := by
  obtain ⟨haction, hreading, -⟩ := hk.actionFor hnext
  generalize k.search.input (d.keymap.lookup? event) event = q at haction hinput
  have hkept : ((d.beginAction (.search q) event).searchStep q).1.keepsFocus = true := by
    rw [Desk.keepsFocus_searchStep, hinput, Bool.or_true]
  have hsearch := (Desk.search_of_keeps hkept).1
  refine ⟨((d.beginAction (.search q) event).search q).1, ?_⟩
  rw [handle_of_search haction hinterrupt heof hreading, Desk.settleFocus,
    if_pos (by rw [hsearch]; exact hkept)]
  rfl

/-- A character of the query for which there is no match is dropped again. -/
theorem dropped_handle {c : Char} (hk : e.Seeks k) (hnext : e.next? = some (d, .char c))
    (hinterrupt : ¬ e.Interrupts (.char c)) (heof : ¬ e.AtEof d (.char c))
    (hprintable : (KeyEvent.char c).isPrintable = true) (hbound : d.keymap.lookup? (.char c) = none)
    (hnone : (k.history.search (k.search.query ++ [c])).2 = none) :
    e.press d (.char c) = ⟨.char c, none, 1⟩ ∧
      (e.handle d (.char c)).engine.Seeks ⟨k.history, { k.search with status := .input }⟩ := by
  obtain ⟨q, hq⟩ := search?_handle hk hnext hinterrupt heof (by
    rw [hbound, Search.input_of_printable hprintable]
    rfl)
  obtain ⟨k', hstep, hseeks⟩ := next_handle hk hnext hq
  generalize hp : e.press d (.char c) = p at hstep
  have hevent : p.event = .char c := by rw [← hp]; rfl
  have hnobound : p.bound = none := by rw [← hp]; exact hbound
  cases hstep with
  | typed hprintable' hfound =>
    cases hevent
    rw [hfound] at hnone
    cases hnone
  | dropped =>
    cases hevent
    exact ⟨rfl, hseeks⟩
  | aimed | moved | stopped | emptied | shortened => cases hnobound

/-- A key that leaves a search for the entry beside the result. -/
theorem neighbour_handle (hk : e.Seeks k) (hnext : e.next? = some (d, event))
    (hinterrupt : ¬ e.Interrupts event) (heof : ¬ e.AtEof d event) (hescape : event ≠ .key .escape)
    {fetched : History × Option Text}
    (hbound : d.keymap.lookup? event = some .previousHistory ∧ fetched = k.history.previous ∨
      d.keymap.lookup? event = some .nextHistory ∧ fetched = k.history.next) :
    ∃ s, (e.handle d event).engine.session = some s ∧ s.focus = none ∧ s.shown = s.current ∧
      s.buffer = .ofText (fetched.2.getD (k.search.result.getD [])) := by
  obtain ⟨haction, hreading, hhistory⟩ := hk.actionFor hnext
  have hleft : ∀ q : Search, q.result = k.search.result → q.keepsFocus = false →
      d.actionFor event = some (.search q) →
      (d.beginAction (.search q) event).searchStep q =
        (q, (d.beginAction (.search q) event).showNeighbour q fetched) →
      ∃ s, (e.handle d event).engine.session = some s ∧ s.focus = none ∧ s.shown = s.current ∧
        s.buffer = .ofText (fetched.2.getD (k.search.result.getD [])) := by
    intro q hresult hkeeps haction hstep
    obtain ⟨hsearch, hsession⟩ := Desk.session_search_of_neighbour hstep hkeeps
    rw [handle_of_search haction hinterrupt heof hreading, hsearch, Desk.settleFocus,
      if_neg (by rw [Action.keepsFocus, hkeeps]; exact Bool.false_ne_true), ← hresult]
    exact ⟨_, congrArg some hsession, rfl, rfl, rfl⟩
  rcases hbound with ⟨hbound, rfl⟩ | ⟨hbound, rfl⟩
  · rw [hbound] at haction
    refine hleft { k.search with status := .movePrevious } rfl rfl ?_ ?_
    · rw [haction]
      simp only [Search.input, Search.statusFor, if_neg hescape]
    · rw [← hhistory]
      rfl
  · rw [hbound] at haction
    refine hleft { k.search with status := .moveNext } rfl rfl ?_ ?_
    · rw [haction]
      simp only [Search.input, Search.statusFor, if_neg hescape]
    · rw [← hhistory]
      rfl

/-! ### Turns that are no keys -/

variable {s : Session}

theorem session_takeFinished (h : e.takeFinished.1.session = some s) : e.session = some s := by
  cases hs : e.session with
  | none =>
    rw [takeFinished, hs] at h
    exact hs.symm.trans h
  | some s' =>
    cases hline : s'.outcome.line? with
    | none =>
      rw [takeFinished, hs] at h
      dsimp only at h
      rw [hline] at h
      exact hs.symm.trans h
    | some line =>
      rw [takeFinished_of_line hs hline] at h
      cases h

theorem remains_resized {size : Size} (h : (e.resized size).session = some s) :
    ∃ s', e.session = some s' ∧ s'.Remains s := by
  rw [resized] at h
  cases hd : e.desk? with
  | none =>
    rw [hd] at h
    exact ⟨s, h, .refl s⟩
  | some d =>
    obtain ⟨s', hs', rfl⟩ := Option.map_eq_some_iff.1 hd
    rw [hd] at h
    dsimp only at h
    refine ⟨s', hs', ?_⟩
    split at h
    · cases h
      exact .refl s'
    · split at h
      · cases h
        exact Desk.remains_resize ⟨e.toEditor, s'⟩ _ _
      · exact Option.some.inj (hs'.symm.trans h) ▸ .refl s'

theorem remains_resume {width : Nat} {f : Option Finished} (h : e.resume width = .ok (t, f))
    (ht : t.session = some s) : ∃ s', e.session = some s' ∧ s'.Remains s := by
  obtain ⟨d, hd, hended⟩ := of_resume_eq_ok h
  obtain ⟨s', hs', rfl⟩ := Option.map_eq_some_iff.1 hd
  refine ⟨s', hs', ?_⟩
  obtain rfl : _ = t := congrArg Prod.fst hended
  obtain rfl := Option.some.inj (session_takeFinished ht)
  have hresumed : s'.Remains (Desk.resume ⟨e.toEditor, s'⟩).session := ⟨rfl, rfl, rfl, rfl⟩
  refine hresumed.trans ?_
  change (Desk.resume ⟨e.toEditor, s'⟩).session.Remains (e.catchUp width _).session
  obtain hsame | ⟨old, hresized⟩ := e.catchUp_eq width (.resume ⟨e.toEditor, s'⟩)
  · rw [hsame]
    exact .refl _
  · rw [hresized]
    exact Desk.remains_resize ..

theorem remains_afterScript {c : Completion} {h : ScriptedHandler}
    (hs : (e.afterScript d c h).session = some s) (hfocus : s.focus = some (.search q)) :
    d.session.Remains s := by
  rw [afterScript, Desk.endCompletion, Desk.settleFocus] at hs
  dsimp only at hs
  split at hs
  · split at hs
    · cases hs
      cases hfocus
    · cases hs
      cases hfocus
  · split at hs
    · cases hs
      exact ⟨rfl, rfl, rfl, rfl⟩
    · cases hs
      exact ⟨rfl, rfl, rfl, rfl⟩

/-- A search that has the focus had it before what is no key, and shows what it showed. -/
theorem remains_rests (h : e.Takes .rests (some t)) (ht : t.session = some s)
    (hfocus : s.focus = some (.search q)) : ∃ s', e.session = some s' ∧ s'.Remains s := by
  cases h with
  | rested h => exact ⟨s, h.session_eq.symm.trans ht, .refl s⟩
  | resized size =>
    change (e.resized size).session = some s at ht
    exact remains_resized ht
  | resumed h => exact remains_resume h ht
  | left hd c h =>
    obtain ⟨s', hs', rfl⟩ := Option.map_eq_some_iff.1 hd
    exact ⟨s', hs', remains_afterScript (session_takeFinished ht) hfocus⟩

/-- What is no key leaves the search alone if it leaves the history. -/
theorem seeks_rests (hk : e.Seeks k) (h : e.Takes .rests (some t)) (hhistory : t.history = e.history)
    (hq : t.search? = some q) : t.Seeks k := by
  obtain ⟨hsame, s, hs, hfocus, hreading, hbuffer, hshown⟩ := hk
  obtain ⟨s', ht, hfocus'⟩ := search?_eq_some hq
  obtain ⟨s'', hs'', hremains⟩ := remains_rests h ht hfocus'
  cases hs.symm.trans hs''
  exact ⟨hhistory.trans hsame, s', ht, hremains.focus_eq.trans hfocus,
    hremains.outcome_eq.trans hreading, hremains.buffer_eq.trans hbuffer,
    hremains.shown_eq.trans hshown⟩

end Engine

/-! ### Turns -/

namespace Turn

/-- A turn after which a search has the focus: a key of the search, or no key, with the history left
alone. -/
def Seeks (turn : Turn) (o o' : Option Engine) : Prop :=
  (o'.bind Engine.search?).isSome = true ∧
    match turn with
    | .handles d event => (d.actionFor event).any Action.isSearch = true
    | .rests => o'.map (fun e => e.history) = o.map fun e => e.history
    | _ => False

instance decidableSeeks (turn : Turn) (o o' : Option Engine) : Decidable (turn.Seeks o o') :=
  match turn with
  | .handles _ _ => inferInstanceAs (Decidable (_ = _ ∧ _ = _))
  | .rests => inferInstanceAs (Decidable (_ = _ ∧ _ = _))
  | .begins | .answers _ | .steps _ | .drops => inferInstanceAs (Decidable (_ = _ ∧ False))

/-- What is told of a turn: the key, if it is one. -/
def presses (turn : Turn) : Option Engine → List Press
  | none => []
  | some e =>
    match turn with
    | .handles d event => [e.press d event]
    | _ => []

variable {turn : Turn} {e : Engine} {o o' : Option Engine} {k : Seeking}

/-- The handling of an event is all that a turn is for which an event is handled. -/
theorem Takes.handled {d : Desk} {event : KeyEvent} (h : Turn.Takes (some e) (.handles d event) o') :
    e.next? = some (d, event) ∧ ∃ e', o' = some e' ∧
      e'.session = (e.handle d event).engine.session ∧
      e'.history = (e.handle d event).engine.history := by
  cases h with
  | takes h =>
    cases h with
    | handled hfree hnext h => exact ⟨hnext, _, rfl, by rw [h]; rfl, by rw [h]; rfl⟩
    | scripted hfree hnext h => exact ⟨hnext, _, rfl, by rw [h]; rfl, by rw [h]; rfl⟩

/-- A search goes on as its keys ask for. -/
theorem Takes.next (h : Turn.Takes (some e) turn o') (hk : e.Seeks k)
    (hseeks : turn.Seeks (some e) o') :
    ∃ e' k', o' = some e' ∧ e'.Seeks k' ∧
      (turn.presses (some e) = [] ∧ k' = k ∨ ∃ p, turn.presses (some e) = [p] ∧ k.Next p k') := by
  obtain ⟨hkeeps, hturn⟩ := hseeks
  obtain ⟨q, hq⟩ := Option.isSome_iff_exists.1 hkeeps
  obtain ⟨e', rfl, hq⟩ := Option.bind_eq_some_iff.1 hq
  cases h with
  | takes h =>
    cases turn with
    | rests =>
      exact ⟨e', k, rfl, Engine.seeks_rests hk h (Option.some.inj hturn) hq, .inl ⟨rfl, rfl⟩⟩
    | handles d event =>
      cases h with
      | handled hfree hnext h =>
        obtain ⟨k', hstep, hseeks⟩ := Engine.next_handle hk hnext (q := q) (by rw [h]; exact hq)
        rw [h] at hseeks
        exact ⟨_, k', rfl, hseeks, .inr ⟨_, rfl, hstep⟩⟩
      | scripted hfree hnext h =>
        obtain ⟨k', hstep, hseeks⟩ := Engine.next_handle hk hnext (q := q) (by rw [h]; exact hq)
        rw [h] at hseeks
        exact ⟨_, k', rfl, hseeks, .inr ⟨_, rfl, hstep⟩⟩
    | begins | answers calls | steps s | drops => exact absurd hturn id

/-- Without a search the key of a direction begins one. -/
theorem Takes.begins (h : Turn.Takes o turn o') (hnone : o.bind Engine.search? = none)
    (hseeks : turn.Seeks o o') :
    ∃ (e : Engine) (s : Session) (e' : Engine) (event : KeyEvent) (direction : Direction),
      o = some e ∧ e.session = some s ∧ o' = some e' ∧
      turn.presses o = [⟨event, some direction.command, 0⟩] ∧
      e'.Seeks (.begin e.history s.buffer.text direction) := by
  obtain ⟨hkeeps, hturn⟩ := hseeks
  obtain ⟨q, hq⟩ := Option.isSome_iff_exists.1 hkeeps
  obtain ⟨e', rfl, hq⟩ := Option.bind_eq_some_iff.1 hq
  cases h with
  | @takes e turn o h =>
    cases turn with
    | rests =>
      obtain ⟨s, hs, hfocus⟩ := Engine.search?_eq_some hq
      obtain ⟨s', hs', hremains⟩ := Engine.remains_rests h hs hfocus
      rw [Option.bind_some, Engine.search?, hs', Option.bind_some,
        Session.search?_eq_some.2 (hremains.focus_eq.symm.trans hfocus)] at hnone
      cases hnone
    | handles d event =>
      cases h with
      | handled hfree hnext h =>
        obtain ⟨s, direction, hs, hpress, hseeks⟩ :=
          Engine.begins_handle hnext hturn hnone (q := q) (by rw [h]; exact hq)
        rw [h] at hseeks
        exact ⟨e, s, _, event, direction, rfl, hs, rfl, congrArg (fun p => [p]) hpress, hseeks⟩
      | scripted hfree hnext h =>
        obtain ⟨s, direction, hs, hpress, hseeks⟩ :=
          Engine.begins_handle hnext hturn hnone (q := q) (by rw [h]; exact hq)
        rw [h] at hseeks
        exact ⟨e, s, _, event, direction, rfl, hs, rfl, congrArg (fun p => [p]) hpress, hseeks⟩
    | begins | answers calls | steps s | drops => exact absurd hturn id

end Turn

end LineEditor
