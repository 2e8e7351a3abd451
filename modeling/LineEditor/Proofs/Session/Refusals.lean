import LineEditor.Proofs.Session.Traces

/-!
What a refused edit leaves behind. Whatever rings the bell at a desk has done nothing else by then and
does nothing else after it: an edit is carried out as a whole or refused as a whole.

Main definitions: `Desk.Refuses`, where nothing but the bell and the log was at work, and `Desk.Whole`,
work that rings the bell only where it refuses. Main statements: `whole_apply` for actions and
`refuses_dispatch` for events.
-/
namespace LineEditor

/-- Whether an effect is the bell or an entry for the log. -/
def Effect.isQuiet : Effect → Bool
  | .ring | .log _ => true
  | _ => false

namespace Desk

variable {d d' d'' : Desk}

/-- A desk with effects behind the others. -/
def emits (d : Desk) (xs : List Effect) : Desk := { d with effects := d.effects ++ xs }

/-- Nothing was done but that the bell rang and the log was written. -/
def Refuses (d d' : Desk) : Prop := ∃ xs : List Effect, (∀ x ∈ xs, x.isQuiet = true) ∧ d' = d.emits xs

/-- Work that is done as a whole: where the bell rings nothing was done. -/
def Whole (d d' : Desk) : Prop := d.trace.rings < d'.trace.rings → d.Refuses d'

theorem Refuses.refl (d : Desk) : d.Refuses d :=
  ⟨[], List.forall_mem_nil _, by rw [emits, List.append_nil]⟩

theorem Refuses.trans (h : d.Refuses d') (h' : d'.Refuses d'') : d.Refuses d'' := by
  obtain ⟨xs, hxs, rfl⟩ := h
  obtain ⟨ys, hys, rfl⟩ := h'
  refine ⟨xs ++ ys, List.forall_mem_append.2 ⟨hxs, hys⟩, ?_⟩
  simp only [emits, List.append_assoc]

theorem refuses_log (d : Desk) (level : Log.Level) (site : Log.Site) (message : String)
    (fields : List (String × Log.Value)) : d.Refuses (d.log level site message fields) :=
  ⟨[.log ⟨level, site, message, fields⟩], List.forall_mem_singleton.2 rfl, rfl⟩

theorem refuses_bell (d : Desk) : d.Refuses d.bell :=
  (d.refuses_log ..).trans ⟨[.ring], List.forall_mem_singleton.2 rfl, rfl⟩

theorem Refuses.resume (h : d.Refuses d') : d.resume.Refuses d'.resume := by
  obtain ⟨xs, hxs, rfl⟩ := h
  exact ⟨xs, hxs, rfl⟩

theorem Refuses.whole (h : d.Refuses d') : d.Whole d' := fun _ => h

/-- Work in silence. -/
theorem Whole.of_rings_eq (h : d'.trace.rings = d.trace.rings) : d.Whole d' :=
  fun hrings => absurd hrings (by rw [h]; exact Nat.lt_irrefl _)

theorem Whole.of_trace_eq (h : d'.trace = d.trace) : d.Whole d' :=
  .of_rings_eq (congrArg Trace.rings h)

theorem Whole.resume (h : d.Whole d') : d.resume.Whole d'.resume := fun hrings => (h hrings).resume

/-- Work behind an entry for the log. -/
theorem Whole.of_log {level : Log.Level} {site : Log.Site} {message : String}
    {fields : List (String × Log.Value)} (h : (d.log level site message fields).Whole d') :
    d.Whole d' := by
  intro hrings
  rw [← d.trace_log level site message fields] at hrings
  exact (d.refuses_log ..).trans (h hrings)

/-! ### Editing -/

section Editing

variable (d : Desk)

theorem rings_applyEdit (b : Buffer) : (d.applyEdit b).trace.rings = d.trace.rings :=
  (congrArg Trace.rings (d.trace_applyEdit b) :)

theorem rings_killRange (first last : Nat) : (d.killRange first last).trace.rings = d.trace.rings := by
  rw [killRange]
  split
  · rfl
  · exact rings_applyEdit ..

theorem whole_yank (behind : Bool) : d.Whole (d.yank behind) := by
  rw [yank]
  split
  · exact d.refuses_bell.whole
  · dsimp only
    split
    · exact .of_rings_eq (d.rings_applyEdit _)
    · exact .of_log (refuses_bell _).whole

theorem whole_undoEdit : d.Whole d.undoEdit := by
  rw [undoEdit]
  split
  · rename_i s undo _
    exact .of_rings_eq (congrArg Trace.rings (trace_refresh { d with undo } s.restore) :)
  · exact d.refuses_bell.whole

theorem whole_selfInsert (e : KeyEvent) : d.Whole (d.selfInsert e) := by
  unfold selfInsert
  split
  · exact d.refuses_bell.whole
  · split
    · split
      · exact .of_log (refuses_bell _).whole
      · rename_i b _
        dsimp only
        refine .of_rings_eq ?_
        split
        · exact (congrArg Trace.rings (d.trace_refresh b) :)
        · exact (congrArg Trace.rings (d.snapshot.trace_refresh b) :)
    · exact d.refuses_bell.whole

theorem whole_basicStep (k : Command) : d.Whole (d.basicStep k) := by
  by_cases hmoves : k.moves = true
  · exact .of_trace_eq (d.moves_basicStep hmoves).2
  cases k
  case backwardDeleteChar =>
    rw [basicStep]
    split
    · exact d.refuses_bell.whole
    · exact .of_rings_eq (d.rings_killRange ..)
  case deleteChar =>
    rw [basicStep]
    split
    · exact d.refuses_bell.whole
    · exact .of_rings_eq (d.rings_applyEdit _)
  case transposeChars =>
    rw [basicStep]
    split
    · exact .of_rings_eq (d.rings_applyEdit _)
    · exact d.refuses_bell.whole
  case killLine | backwardKillLine | killWholeLine | killWord | backwardKillWord | unixWordRubout =>
    exact .of_rings_eq (d.rings_killRange ..)
  case viChangeToEnd =>
    exact .of_rings_eq ((congrArg Trace.rings (trace_setVi ..)).trans (d.rings_killRange ..))
  case yank | viPasteAfter => exact d.whole_yank _
  case undo => exact d.whole_undoEdit
  case previousHistory | nextHistory => exact .of_trace_eq (d.trace_showFetched _)
  case clearScreen => exact .of_trace_eq d.trace_clearScreen
  case interrupt => exact d.refuses_bell.whole
  case acceptLine | reverseSearchHistory | forwardSearchHistory | complete | viDeleteOperator |
      viChangeOperator =>
    exact .of_trace_eq (d.trace_log ..)
  all_goals exact absurd rfl hmoves

theorem whole_operate (o : ViOperator) : d.resume.Whole (d.operate o) := by
  rw [operate]
  split
  · exact (Refuses.refl _).whole
  · split
    · exact d.refuses_bell.whole.resume
    · dsimp only
      refine .of_rings_eq ?_
      rw [trace_resume]
      split
      · rw [trace_setVi, rings_killRange, trace_log]
        rfl
      · rw [rings_killRange, trace_log]
        rfl

end Editing

/-! ### Completing -/

section Completing

variable (d : Desk)

theorem whole_replaceWord (t : Text) : d.Whole (d.replaceWord t) := by
  rw [replaceWord]
  split
  · exact .of_rings_eq (d.rings_applyEdit _)
  · exact d.refuses_bell.whole

/-- Where the bell may ring the handler is kept. -/
theorem completeFrom_cases (h : CandidateHandler) : (d.completeFrom h).2.trace = d.trace ∨
    (d.completeFrom h).1 = h ∧ d.Whole (d.completeFrom h).2 := by
  rw [completeFrom]
  split
  · exact .inl (by rw [trace_listCandidates, trace_write])
  · dsimp only
    split
    · exact .inr ⟨rfl, .of_log (refuses_bell _).whole⟩
    · exact .inr ⟨rfl, .of_log (whole_replaceWord _ _)⟩
    · split
      · exact .inr ⟨rfl, .of_log (whole_replaceWord _ _)⟩
      · split
        · exact .inl (by rw [trace_askBeforeListing, trace_log])
        · exact .inl (by rw [trace_listCandidates, trace_newLine, trace_log])

/-- A handler that is put back where it was taken from. -/
theorem endCompletion_handler (xs : List Effect) (c : Completion) {h : Handler}
    (hhandler : d.session.handler = some h) :
    (endCompletion (emits { d with session.handler := none } xs) c h false).2 = d.resume.emits xs := by
  obtain ⟨editor, session⟩ := d
  cases session
  cases hhandler
  rfl

/-- A completion; one that runs a script is silent. -/
theorem whole_beginCompletion (c : Completion) :
    match d.beginCompletion c with
    | .finished _ d' => d.resume.Whole d'
    | .script _ _ d' => d'.trace = d.trace := by
  unfold beginCompletion
  cases hhandler : d.session.handler with
  | none => exact d.refuses_bell.whole.resume
  | some h =>
    dsimp only
    by_cases hdeclined : (h.asks && !isYes c.answer) = true
    · rw [if_pos hdeclined]
      dsimp only
      refine .of_rings_eq ?_
      rw [trace_endCompletion, trace_declineListing, trace_setAsk]
      rfl
    · rw [if_neg hdeclined]
      cases h with
      | candidates h =>
        dsimp only
        rcases completeFrom_cases { d with session.handler := none } h with hsilent | ⟨hsame, hwhole⟩
        · exact .of_trace_eq ((trace_endCompletion ..).trans hsilent)
        · intro hrings
          rw [trace_endCompletion] at hrings
          obtain ⟨xs, hxs, hleft⟩ := hwhole hrings
          rw [hsame, hleft]
          exact ⟨xs, hxs, d.endCompletion_handler xs c hhandler⟩
      | scripted h => rfl

end Completing

/-! ### Events -/

section Dispatching

variable (d : Desk)

/-- An action is carried out as a whole, unless a search goes on; one that runs a script is silent. -/
theorem whole_apply (a : Action) (hsearch : ∀ q, a = .search q → q.status = .notStarted) :
    match d.apply a with
    | .finished _ d' => d.resume.Whole d'
    | .script _ _ d' => d'.trace = d.trace := by
  cases a with
  | acceptLine => exact .of_rings_eq (congrArg Trace.rings d.trace_acceptLine :)
  | search q =>
    have hfirst : d.searchStep q = d.startSearch q := by
      rw [searchStep, hsearch q rfl]
    refine .of_trace_eq ?_
    exact (d.trace_search q).trans ((congrArg (fun r => r.2.trace) hfirst).trans (d.trace_startSearch q))
  | complete c =>
    have hstep := d.whole_beginCompletion c
    unfold Desk.apply
    dsimp only
    cases hc : d.beginCompletion c with
    | finished c' d' =>
      rw [hc] at hstep
      exact hstep
    | script c' h d' =>
      rw [hc] at hstep
      exact hstep
  | operator o => exact d.whole_operate o
  | basic k => exact (d.whole_basicStep k).resume

/-- A search is new unless it has the focus. -/
theorem notStarted_of_actionFor {e : KeyEvent} {q : Search}
    (hfocus : ∀ q, d.session.focus ≠ some (.search q)) (h : d.actionFor e = some (.search q)) :
    q.status = .notStarted := by
  rw [actionFor] at h
  cases hf : d.session.focus with
  | none =>
    rw [hf] at h
    obtain ⟨k, -, hk⟩ := Option.map_eq_some_iff.1 h
    cases k
    case reverseSearchHistory | forwardSearchHistory =>
      cases hk
      rfl
    all_goals cases hk
  | some a =>
    rw [hf] at h
    cases a with
    | search q => exact absurd hf (hfocus q)
    | acceptLine | complete | operator | basic => cases h

/-- An action begins, and is over. -/
theorem refuses_beginAction (hlisten : d.session.paused = false) (a : Action) (e : KeyEvent)
    (focus : Option Action) :
    Refuses { d with session := { d.session with focus, typing := false } }
      { (d.beginAction a e).resume with
        session := { (d.beginAction a e).resume.session with focus } } := by
  obtain ⟨editor, session⟩ := d
  cases session
  cases hlisten
  exact refuses_log _ _ _ _ _

/-- An event is handled as a whole, unless a search has the focus: where the bell rings nothing was done,
and only who has the focus and whether a typed run goes on may have changed. -/
theorem refuses_dispatch {e : KeyEvent} (hlisten : d.session.paused = false)
    (hfocus : ∀ q, d.session.focus ≠ some (.search q)) :
    match d.dispatch e with
    | .finished d' => d.trace.rings < d'.trace.rings → ∃ focus typing,
        Refuses { d with session := { d.session with focus, typing } } d'
    | .script _ _ d' => d'.trace.rings = d.trace.rings := by
  unfold dispatch
  cases haction : d.actionFor e with
  | none =>
    exact fun hrings => ⟨d.session.focus, d.session.typing, d.whole_selfInsert e hrings⟩
  | some a =>
    have happly := (d.beginAction a e).whole_apply a fun q hq =>
      d.notStarted_of_actionFor hfocus (hq ▸ haction)
    have hbegun : (d.beginAction a e).trace.rings = d.trace.rings := d.rings_beginAction a e
    dsimp only
    cases hr : (d.beginAction a e).apply a with
    | script c h d' =>
      rw [hr] at happly
      exact (congrArg Trace.rings happly).trans hbegun
    | finished a' d' =>
      rw [hr] at happly
      intro hrings
      rw [trace_settleFocus, ← hbegun] at hrings
      obtain ⟨xs, hxs, rfl⟩ := happly hrings
      refine ⟨if a'.keepsFocus then some a' else none, false, ?_⟩
      refine (d.refuses_beginAction hlisten a e _).trans ⟨xs, hxs, ?_⟩
      rw [settleFocus]
      split <;> rfl

end Dispatching

end Desk

end LineEditor
