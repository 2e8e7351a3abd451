import LineEditor.Proofs.Session.Dispatch
import LineEditor.Proofs.Session.Fresh

/-!
Events and the rows that whole frames are drawn on. Between two events the frame of the session is on the
screen, or the question before a long list stands below it. An event that is handled draws whole frames on
fresh rows only; behind it the session waits for the next event, or the line is over and the cursor is at
the start of a fresh row. An interrupt draws the empty line on a fresh row.

Main definitions: `Desk.Questions`, `Desk.Waits` and `Desk.Left`. Main statements: `Waits.dispatch` and
`Waits.startOver`.
-/
namespace LineEditor

/-- Whether a call on a session shows nothing, leaves the handler alone and does not end the line. -/
def SessionCall.isSilent : SessionCall → Bool
  | .setPrompt _ | .bell | .pause | .resume | .setLine _ | .setData .. | .getData _ | .info => true
  | _ => false

namespace Desk

variable {d d' : Desk} {style : BellStyle} {s : Screen} {q : Search}

/-! ### Searching -/

theorem idles_takeMatch (d : Desk) (q : Search) (r : History × Option Text) :
    d.Idles (d.takeMatch q r).2 := by
  have hfound : d.Idles { d with history := r.1 } := (Idles.refl d).congr rfl rfl
  rw [takeMatch]
  split
  · exact hfound
  · exact hfound.trans (refuses_bell _).idles

theorem idles_searchOn (d : Desk) (q : Search) (heading : Direction) :
    d.Idles (d.searchOn q heading).2 := by
  rw [searchOn]
  dsimp only
  split
  · exact .refl d
  · split
    · exact d.idles_takeMatch ..
    · exact d.idles_takeMatch ..

theorem idles_startSearch (d : Desk) (q : Search) : d.Idles (d.startSearch q).2 := by
  have hreset : d.Idles { d with history := d.history.resetSearch.aim q.direction } :=
    (Idles.refl d).congr rfl rfl
  rw [startSearch]
  dsimp only
  split
  · have hset := hreset.trans (idles_setVi _ .insert)
    split
    · exact hset
    · exact hset.congr rfl rfl
  · split
    · exact hreset
    · exact hreset.congr rfl rfl

theorem idles_extendSearch (d : Desk) (q : Search) : d.Idles (d.extendSearch q).2 := by
  have hfound : ∀ history, d.Idles { d with history } := fun _ => (Idles.refl d).congr rfl rfl
  rw [extendSearch]
  dsimp only
  split
  · exact hfound _
  · exact (hfound _).trans (refuses_bell _).idles

theorem idles_shortenSearch (d : Desk) (q : Search) : d.Idles (d.shortenSearch q).2 := by
  rw [shortenSearch]
  dsimp only
  split <;> exact (Idles.refl d).congr rfl rfl

theorem InPlace.showNeighbour (h : d.InPlace style s) (hd : d.session.Drawable) (q : Search)
    (r : History × Option Text) : (d.showNeighbour q r).InPlace style s :=
  refresh (d := { d with history := r.1 }) { h with } hd _

/-- A search that keeps the focus has not shown anything yet. -/
theorem idles_searchStep (hkeeps : (d.searchStep q).1.keepsFocus = true) :
    d.Idles (d.searchStep q).2 := by
  rw [keepsFocus_searchStep] at hkeeps
  obtain ⟨direction, status, query, result⟩ := q
  cases status
  case notStarted => exact d.idles_startSearch _
  case input => exact d.idles_extendSearch _
  case previous | next => exact d.idles_searchOn ..
  case delete => exact d.idles_shortenSearch _
  all_goals cases hkeeps

/-- A search that is over shows its result. -/
theorem InPlace.searchStep (h : d.InPlace style s) (hd : d.session.Drawable)
    (hleaves : (d.searchStep q).1.keepsFocus = false) : (d.searchStep q).2.InPlace style s := by
  rw [keepsFocus_searchStep] at hleaves
  obtain ⟨direction, status, query, result⟩ := q
  cases status
  case accept =>
    dsimp only [Desk.searchStep]
    split
    · exact { h.refresh hd _ with }
    · exact h.refresh hd _
  case exit | moveRight | interrupt => exact h.refresh hd _
  case movePrevious | moveNext => exact h.showNeighbour hd ..
  all_goals cases hleaves

theorem InPlace.search (h : d.InPlace style s) (hd : d.session.Drawable) (q : Search) :
    (d.search q).2.InPlace style s := by
  rw [Desk.search]
  dsimp only
  split
  · rename_i hkeeps
    have hidle := idles_searchStep hkeeps
    exact ((h.idle hidle).refreshWith (hidle.drawable_iff.2 hd) ..).resume
  · rename_i hleaves
    have hstep := h.searchStep hd (Bool.not_eq_true _ ▸ hleaves)
    exact { hstep.log .debug .searchHistory "search done" _ with }

/-! ### Completing -/

/-- The question of a handler stands behind the line, and the cursor of the line is at its end. -/
structure Questions (style : BellStyle) (s : Screen) (d : Desk) : Prop where
  past : { d with session.handler := none }.Past Screen.Loose style s
  handler : ∃ h : CandidateHandler, d.session.handler = some (.candidates h) ∧ h.Plain ∧ h.ask = true
  end_eq : d.session.buffer.cursor = d.session.buffer.length

theorem InPlace.setHandler {k : CandidateHandler} (h : d.InPlace style s) (hp : k.Plain)
    (hcalm : k.ask = false) :
    { d with session.handler := some (.candidates k) }.InPlace style s :=
  { h with calm := fun _ hh => Option.some.inj hh ▸ ⟨hp, hcalm⟩ }

theorem InPlace.replaceWord (h : d.InPlace style s) (hd : d.session.Drawable) (t : Text) :
    (d.replaceWord t).InPlace style s := by
  rw [Desk.replaceWord]
  split
  · exact h.applyEdit hd _
  · exact h.bell

theorem Past.listCandidates {candidates : List Text} (h : d.Past Screen.Loose style s)
    (hp : ∀ t ∈ candidates, t.Plain) : (d.listCandidates candidates).InPlace style s :=
  (h.writeLine (plain_intercalate (by decide) hp)).redraw

/-- The question is put behind the line, and the cursor of the line goes to its end. -/
theorem InPlace.askBeforeListing {h : CandidateHandler} (hd : d.InPlace style s)
    (hdraw : d.session.Drawable) (hh : h.Plain) (hask : h.ask = true) (count : Nat) :
    { d.askBeforeListing count with session.handler := some (.candidates h) }.Questions style s := by
  have hpast := (hd.newLine hdraw).loose.write (plain_question count)
  rw [Desk.askBeforeListing]
  rw [write_eq, newLine_eq, write_eq] at hpast ⊢
  exact ⟨{ hpast with calm := fun _ hnone => by cases hnone }, ⟨h, rfl, hh, hask⟩, rfl⟩

/-- The work of the usual handler leaves the line in its place, or the question behind it. -/
theorem InPlace.completeFrom {h : CandidateHandler} (hd : d.InPlace style s)
    (hdraw : d.session.Drawable) (hh : h.Plain) (hask : h.ask = false) :
    (d.completeFrom h).1.Plain ∧ (d.completeFrom h).1.ask = false ∧
        (d.completeFrom h).2.InPlace style s ∨
      { (d.completeFrom h).2 with
        session.handler := some (.candidates (d.completeFrom h).1) }.Questions style s := by
  have hcandidates : ∀ t ∈ h.completer.candidates d.session.buffer.word, t.Plain :=
    hh.completer _ (Buffer.plain_word (Frame.Plain.buffer hdraw.1))
  rw [Desk.completeFrom, if_neg (by rw [hask]; decide)]
  dsimp only
  generalize h.completer.candidates d.session.buffer.word = candidates at hcandidates ⊢
  have hlog := hd.log .debug .completion "complete"
    [("word", .quoted d.session.buffer.word), ("candidates", .number candidates.length)]
  generalize hd' : d.log .debug .completion "complete"
    [("word", .quoted d.session.buffer.word), ("candidates", .number candidates.length)] = d' at hlog ⊢
  have hdraw' : d'.session.Drawable := hd' ▸ hdraw
  rcases candidates with _ | ⟨first, _ | ⟨second, rest⟩⟩
  · exact .inl ⟨hh, hask, hlog.bell⟩
  · exact .inl ⟨hh, hask, hlog.replaceWord hdraw' _⟩
  · dsimp only
    split
    · exact .inl ⟨hh, hask, hlog.replaceWord hdraw' _⟩
    · split
      · exact .inr (hlog.askBeforeListing hdraw' (h := { h with ask := true, pending := _ })
          ⟨hh.completer, hcandidates⟩ rfl _)
      · exact .inl ⟨hh, hask, (hlog.newLine hdraw').loose.listCandidates hcandidates⟩

/-! ### Between events -/

/-- What a session is like between two events. -/
inductive Waits (style : BellStyle) (s : Screen) (d : Desk) : Prop where
  | line (h : d.InPlace style s)
  | question (c : Completion) (hfocus : d.session.focus = some (.complete c)) (h : d.Questions style s)

/-- What an event leaves: a session that waits for the next one, or a line that is over. -/
inductive Left (style : BellStyle) (s : Screen) (d : Desk) : Prop where
  | waits (h : d.Waits style s)
  | ended (houtcome : d.session.outcome ≠ .reading)
      (hdraws : s.DrawsFresh style d.effects)
      (hfresh : (d.seen style s).Fresh d.session.width)

theorem Questions.idle (h : d.Questions style s) (hidle : d.Idles d') : d'.Questions style s := by
  obtain ⟨bells, hseen⟩ := hidle.seen_eq h.past.screen.reading_eq
  have hloose := h.past.screen.setBells bells
  refine ⟨⟨hidle.outcome_eq.trans h.past.outcome_eq, nofun, ?_, hidle.drawsFresh h.past.drawsFresh, ?_⟩,
    hidle.handler_eq ▸ h.handler, ?_⟩
  · change max d'.session.width 1 ≤ Draw.maxCount
    rw [hidle.width_eq]
    exact h.past.width_le
  · change (d'.seen style s).Loose d'.session.width
    rw [hseen, hidle.width_eq]
    exact hloose
  · have hbuffer : d'.session.buffer = d.session.buffer := congrArg Frame.buffer hidle.frame_eq
    rw [hbuffer]
    exact h.end_eq

theorem Waits.idle (h : d.Waits style s) (hidle : d.Idles d')
    (hfocus : d'.session.focus = d.session.focus) : d'.Waits style s := by
  cases h with
  | line h => exact .line (h.idle hidle)
  | question c hasking h => exact .question c (hfocus.trans hasking) (h.idle hidle)

theorem Waits.setQueue (h : d.Waits style s) (queue : EventQueue) : { d with queue }.Waits style s :=
  h.idle ((Idles.refl d).congr rfl rfl) rfl

theorem Waits.outcome_eq (h : d.Waits style s) : d.session.outcome = .reading := by
  cases h with
  | line h => exact h.outcome_eq
  | question c hfocus h => exact h.past.outcome_eq

theorem Waits.drawsFresh (h : d.Waits style s) : s.DrawsFresh style d.effects := by
  cases h with
  | line h => exact h.drawsFresh
  | question c hfocus h => exact h.past.drawsFresh

theorem InPlace.left (h : d.InPlace style s) (a : Action) : (d.settleFocus a).Left style s :=
  .waits (.line (h.settleFocus a))

theorem idles_resume (d : Desk) : d.Idles d.resume := .of_effects_eq rfl rfl rfl rfl rfl

theorem Questions.left {c : Completion} (h : d.Questions style s) (hc : c.asking = true) :
    (d.settleFocus (.complete c)).Left style s := by
  have hkeeps : Action.keepsFocus (.complete c) = true := hc
  rw [Desk.settleFocus, if_pos hkeeps]
  exact .waits (.question c rfl { h with past := { h.past with } })

/-! ### Actions -/

/-- A completion on the line. -/
theorem InPlace.beginCompletion (hd : d.InPlace style s) (hdraw : d.session.Drawable) (c : Completion) :
    ∃ c' d', d.beginCompletion c = .finished c' d' ∧ (d'.settleFocus (.complete c')).Left style s := by
  rw [Desk.beginCompletion]
  cases hhandler : d.session.handler with
  | none => exact ⟨c, d.bell.resume, rfl, hd.bell.resume.left _⟩
  | some handler =>
    obtain ⟨hplain, hcalm⟩ := hd.calm handler hhandler
    cases handler with
    | scripted h => exact absurd hplain id
    | candidates h =>
      have hask : h.ask = false := hcalm
      have htaken : { d with session.handler := none }.InPlace style s := { hd with calm := nofun }
      simp only [Handler.asks, hask, Bool.false_and, Bool.false_eq_true, if_false]
      refine ⟨_, _, rfl, ?_⟩
      rcases htaken.completeFrom hdraw hplain hask with ⟨hp, hkept, hplace⟩ | hquestion
      · exact (hplace.setHandler hp hkept).resume.left _
      · obtain ⟨h', hsome, -, hask'⟩ := hquestion.handler
        cases hsome
        exact (hquestion.idle (idles_resume _)).left hask'

/-- The answer to the question: the list or an empty line. -/
theorem Questions.beginCompletion (hd : d.Questions style s) (c : Completion) :
    ∃ c' d', d.beginCompletion c = .finished c' d' ∧ d'.InPlace style s := by
  obtain ⟨h, hhandler, hplain, hask⟩ := hd.handler
  have hline : ∀ undo : UndoStack, (write { d with undo, session.handler := none } ['\n']).Past
      Screen.Fresh style s := by
    intro undo
    have hpast : { d with undo, session.handler := none }.Past Screen.Loose style s := { hd.past with }
    exact hpast.writeLine (t := []) Text.plain_nil
  rw [Desk.beginCompletion, hhandler]
  simp only [Handler.asks, hask, Bool.true_and]
  split
  · exact ⟨_, _, rfl, ((hline _).resetDisplay.setHandler (hplain.setAsk false) rfl).resume⟩
  · have hlist := (hline d.undo).loose.listCandidates hplain.pending
    rw [Desk.completeFrom, if_pos hask]
    exact ⟨_, _, rfl, (hlist.setHandler (k := { h with ask := false, pending := [] })
      ⟨hplain.completer, fun _ ht => absurd ht List.not_mem_nil⟩ rfl).resume⟩

/-- An action that is applied to the line. -/
theorem InPlace.apply (h : d.InPlace style s) (hd : d.session.Drawable) (a : Action) :
    ∃ a' d', d.apply a = .finished a' d' ∧ (d'.settleFocus a').Left style s := by
  cases a with
  | acceptLine =>
    refine ⟨.acceptLine, d.acceptLine, rfl, ?_⟩
    obtain hplace | ⟨houtcome, hdraws, hfresh⟩ := h.acceptLine hd
    · exact hplace.left _
    · exact .ended houtcome hdraws hfresh
  | search q => exact ⟨.search (d.search q).1, (d.search q).2, rfl, (h.search hd q).left _⟩
  | complete c =>
    obtain ⟨c', d', hstep, hleft⟩ := h.beginCompletion hd c
    rw [Desk.apply, hstep]
    exact ⟨_, _, rfl, hleft⟩
  | operator o => exact ⟨.operator o, d.operate o, rfl, (h.operate hd o).left _⟩
  | basic k => exact ⟨.basic k, d.basic k, rfl, (h.basicStep hd k).resume.left _⟩

/-! ### Events -/

theorem dispatch_of_action {e : KeyEvent} {a a' : Action} (ha : d.actionFor e = some a)
    (h : (d.beginAction a e).apply a = .finished a' d') : d.dispatch e = .finished (d'.settleFocus a') := by
  rw [dispatch, ha]
  dsimp only
  rw [h]

/-- An event that is handled. -/
theorem Waits.dispatch (h : d.Waits style s) (hd : d.session.Drawable) (e : KeyEvent) :
    ∃ d', d.dispatch e = .finished d' ∧ d'.Left style s := by
  cases h with
  | line h =>
    cases ha : d.actionFor e with
    | none =>
      rw [Desk.dispatch, ha]
      exact ⟨_, rfl, .waits (.line (h.selfInsert hd e))⟩
    | some a =>
      have hbegun : (d.beginAction a e).InPlace style s := { h.log .trace .engine "apply" _ with }
      obtain ⟨a', d', happly, hleft⟩ := hbegun.apply hd a
      exact ⟨_, dispatch_of_action ha happly, hleft⟩
  | question c hfocus h =>
    have ha : d.actionFor e = some (.complete { c with answer := some e }) := by
      rw [Desk.actionFor, hfocus]
      rfl
    have hbegun : (d.beginAction (.complete { c with answer := some e }) e).Questions style s :=
      { h with past := { h.past.log .trace .engine "apply" _ with } }
    obtain ⟨c', d', hstep, hplace⟩ := hbegun.beginCompletion { c with answer := some e }
    refine ⟨_, dispatch_of_action ha ?_, hplace.left (.complete c')⟩
    rw [Desk.apply, hstep]

/-! ### Interrupts -/

theorem Waits.plain_handler (h : d.Waits style s) : ∀ h, d.session.handler = some h → h.Plain := by
  cases h with
  | line h => exact fun handler hh => (h.calm handler hh).1
  | question c hfocus h =>
    obtain ⟨handler, hhandler, hplain, -⟩ := h.handler
    exact fun h' hh => Option.some.inj (hhandler.symm.trans hh) ▸ hplain

theorem Waits.width_le (h : d.Waits style s) : max d.session.width 1 ≤ Draw.maxCount := by
  cases h with
  | line h => exact h.width_le
  | question c hfocus h => exact h.past.width_le

/-- Behind the end of the frame nothing is on the screen but a question. -/
theorem Waits.moveToEnd (h : d.Waits style s) (hd : d.session.Drawable) :
    ((d.seen style s).write (Draw.renderAll
      (d.session.frame.moveToEnd d.session.width))).Loose d.session.width := by
  cases h with
  | line h => exact (h.holds hd).moveToEnd h.width_le hd.1 hd.2
  | question c hfocus h =>
    rw [Frame.moveToEnd_eq_nil h.end_eq]
    exact h.past.screen

/-- An interrupt draws an empty line on a fresh row. -/
theorem Waits.startOver (h : d.Waits style s) (hd : d.session.Drawable) :
    d.startOver.InPlace style s := by
  have hfresh : ((d.log .debug .engine "interrupt" []).newLine.seen style s).Fresh
      d.session.width := by
    refine fresh_newLine (d := d.log .debug .engine "interrupt" []) ?_
    rw [seen_log]
    exact h.moveToEnd hd
  have hdraws : s.DrawsFresh style (d.log .debug .engine "interrupt" []).effects :=
    h.drawsFresh.log _
  have hwritten := drawsFresh_write (d := d.log .debug .engine "interrupt" []) hdraws
    (Draw.renderAll (d.session.frame.moveToEnd d.session.width ++ [.newline]))
  obtain ⟨handler, hhandler, hdrop⟩ :=
    dropQuestion_eq (d := (d.log .debug .engine "interrupt" []).newLine) (by
      rw [newLine_eq, write_eq]
      exact h.plain_handler)
  rw [Desk.startOver]
  dsimp only
  rw [hdrop]
  rw [newLine_eq, write_eq] at hfresh ⊢
  rw [write_eq] at hwritten
  exact Past.redraw ⟨rfl, hhandler, h.width_le, hwritten, hfresh⟩

/-! ### Calls -/

theorem Waits.answer (h : d.Waits style s) {k : SessionCall} (hk : k.isSilent = true) (size : Size) :
    (d.answer size k).1.Waits style s := by
  cases k
  case bell => exact h.idle (refuses_bell d).idles rfl
  case setPrompt | pause | resume | setLine | setData | getData | info =>
    exact h.idle (.of_effects_eq rfl rfl rfl rfl rfl) rfl
  all_goals cases hk

theorem Waits.answers (h : d.Waits style s) {calls : List SessionCall}
    (hcalls : ∀ k ∈ calls, k.isSilent = true) (size : Size) :
    (d.answers size calls).1.Waits style s := by
  induction calls generalizing d with
  | nil => exact h
  | cons k calls ih =>
    rw [List.forall_mem_cons] at hcalls
    rw [answers_cons]
    exact ih (h.answer hcalls.1 size) hcalls.2

end Desk

end LineEditor
