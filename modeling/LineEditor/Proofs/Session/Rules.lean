import LineEditor.Proofs.Session.Only
import LineEditor.Proofs.Session.Core
import LineEditor.Engine.Basic
import LineEditor.Host.Script

/-!
Rules of a session. What may be shown, what continuation lines may hold, which completion handlers
may be at work and which styles of editing there are: whatever is typed, nothing else ever comes up,
as long as the lines that are accepted may be shown again.

Main definitions: `Rules` and `Desk.Obeys`. Main statements: one lemma for each kind of work at a
desk, up to `Obeys.dispatch` for events, `Obeys.startOver` for interrupts and `Obeys.scriptStep` for
the steps of a script.
-/
namespace LineEditor

/-- What may come up while lines are read. Typed text may be shown, insertable text may become part
of a continuation line, and a handler offers nothing else. -/
structure Rules where
  /-- The code points that may be shown. -/
  shows : Char → Prop
  /-- The code points that continuation lines may hold. -/
  holds : Char → Prop
  /-- The completion handlers that may be at work. -/
  employs : Handler → Prop
  /-- The styles of editing. -/
  edits : EditStyle → Prop
  shows_of_printable : ∀ c, Text.isControl c = false → shows c
  holds_of_insertable : ∀ c, Buffer.isInsertable c = true → holds c
  offers : ∀ h word t, employs (.candidates h) → word.Only shows →
    word.Only (Text.isSpace · = false) → t ∈ h.completer.candidates word →
    ∀ c ∈ t, Buffer.isInsertable c = true → shows c
  employs_candidates : ∀ h ask pending, employs (.candidates h) →
    employs (.candidates { h with ask, pending })
  employs_scripted : ∀ h ask calls, employs (.scripted h) →
    employs (.scripted { h with ask, calls })

variable {R : Rules}

/-- What outlives a line keeps to the rules. -/
structure Editor.Obeys (R : Rules) (d : Editor) : Prop where
  style : R.edits d.keymap.style
  history : d.history.Only R.shows
  kills : d.kills.Only R.shows
  undo : d.undo.Only R.shows

theorem Editor.Obeys.log {d : Editor} (h : d.Obeys R) (level : Log.Level) (site : Log.Site)
    (message : String) (fields : List (String × Log.Value)) :
    (d.log level site message fields).Obeys R :=
  { h with }

/-- The reading of a line keeps to the rules. -/
structure Session.Obeys (R : Rules) (s : Session) : Prop where
  buffer : s.buffer.text.Only R.shows
  line : s.line.text.Only R.holds
  focus : ∀ q, s.focus = some (.search q) → q.Only R.shows
  handler : ∀ h, s.handler = some h → R.employs h

namespace Desk

/-- Everything at a desk keeps to the rules. -/
structure Obeys (R : Rules) (d : Desk) : Prop where
  editor : d.toEditor.Obeys R
  session : d.session.Obeys R

variable {d : Desk} {b : Buffer} {p : Prompt} {t : Text} {q : Search}

/-! ### Showing -/

theorem Obeys.emit (h : d.Obeys R) (e : Effect) : (d.emit e).Obeys R :=
  { h with editor := { h.editor with } }

theorem Obeys.log (h : d.Obeys R) (level : Log.Level) (site : Log.Site) (message : String)
    (fields : List (String × Log.Value)) : (d.log level site message fields).Obeys R := h.emit _

theorem Obeys.bell (h : d.Obeys R) : d.bell.Obeys R := (h.log ..).emit _

theorem Obeys.write (h : d.Obeys R) (t : Text) : (d.write t).Obeys R := by
  rw [Desk.write]
  split
  · exact h
  · exact h.emit _

theorem Obeys.resume (h : d.Obeys R) : d.resume.Obeys R :=
  { h with session := { h.session with } }

theorem Obeys.setBuffer (h : d.Obeys R) (hb : b.text.Only R.shows) :
    { d with session.buffer := b }.Obeys R :=
  { h with session := { h.session with buffer := hb } }

theorem Obeys.refreshWith (h : d.Obeys R) (hb : b.text.Only R.shows) :
    (d.refreshWith p b).Obeys R := by
  have hwrite := h.write (Draw.renderAll (Frame.update d.session.frame ⟨p, b⟩ d.session.width))
  exact { hwrite with session := { hwrite.session with buffer := hb } }

theorem Obeys.refresh (h : d.Obeys R) (hb : b.text.Only R.shows) : (d.refresh b).Obeys R :=
  h.refreshWith hb

theorem Obeys.redraw (h : d.Obeys R) : d.redraw.Obeys R :=
  { h.emit _ with session := { h.session with } }

theorem Obeys.resetDisplay (h : d.Obeys R) : d.resetDisplay.Obeys R :=
  (h.setBuffer Text.only_nil).redraw

theorem Obeys.newLine (h : d.Obeys R) : d.newLine.Obeys R := by
  have hwrite := h.write (Draw.renderAll
    (d.session.frame.moveToEnd d.session.width ++ [.newline]))
  exact { hwrite with session := { hwrite.session with } }

theorem Obeys.clearScreen (h : d.Obeys R) : d.clearScreen.Obeys R := (h.write _).redraw

theorem Obeys.resize (h : d.Obeys R) (old new : Nat) : (d.resize old new).Obeys R := by
  have hwrite := (h.log .debug .session "resize" [("old_width", .number old),
    ("new_width", .number new)]).write (Draw.renderAll (d.session.frame.resize old new))
  exact { hwrite with session := { hwrite.session with } }

/-! ### Editing -/

theorem Obeys.setHistory {history : History} (h : d.Obeys R) (hhistory : history.Only R.shows) :
    { d with history }.Obeys R :=
  { h with editor := { h.editor with history := hhistory } }

theorem Obeys.setUndo {undo : UndoStack} (h : d.Obeys R) (hundo : undo.Only R.shows) :
    { d with undo }.Obeys R :=
  { h with editor := { h.editor with undo := hundo } }

theorem Obeys.setKills {kills : KillRing} (h : d.Obeys R) (hkills : kills.Only R.shows) :
    { d with kills }.Obeys R :=
  { h with editor := { h.editor with kills := hkills } }

theorem style_setVi (m : Keymap) (v : ViState) : (m.setVi v).style = m.style := by
  rw [Keymap.setVi]
  split
  · rfl
  · rfl

theorem Obeys.setVi (h : d.Obeys R) (v : ViState) : (d.setVi v).Obeys R := by
  rw [Desk.setVi]
  split
  · have hstyle : R.edits (d.keymap.setVi v).style := by
      rw [style_setVi]
      exact h.editor.style
    have hkeymap : { d with keymap := d.keymap.setVi v }.Obeys R :=
      { h with editor := { h.editor with style := hstyle } }
    exact hkeymap.log ..
  · exact h

theorem Obeys.snapshot (h : d.Obeys R) : d.snapshot.Obeys R :=
  h.setUndo (h.editor.undo.push h.session.buffer)

theorem Obeys.applyEdit (h : d.Obeys R) (hb : b.text.Only R.shows) : (d.applyEdit b).Obeys R :=
  h.snapshot.refresh hb

theorem Obeys.killRange (h : d.Obeys R) (first last : Nat) : (d.killRange first last).Obeys R := by
  have hcut := Buffer.only_deleteRange h.session.buffer first last
  rw [Desk.killRange]
  split
  · exact h
  · exact (h.setKills (h.editor.kills.add hcut.2)).applyEdit hcut.1

theorem Obeys.yank (h : d.Obeys R) (behind : Bool) : (d.yank behind).Obeys R := by
  rw [Desk.yank]
  split
  · exact h.bell
  · rename_i t ht
    have hplace : (if behind && !d.session.buffer.isEmpty then d.session.buffer.moveBy 1
        else d.session.buffer).text.Only R.shows := by
      split <;> exact h.session.buffer
    dsimp only
    split
    · rename_i b hb
      exact h.applyEdit (Buffer.only_insert hplace (h.editor.kills.newest ht) hb)
    · exact (h.log ..).bell

theorem Obeys.undoEdit (h : d.Obeys R) : d.undoEdit.Obeys R := by
  rw [Desk.undoEdit]
  split
  · rename_i snapshot undo hpop
    obtain ⟨htext, hundo⟩ := h.editor.undo.pop hpop
    exact (h.setUndo hundo).refresh htext
  · exact h.bell

theorem Obeys.selfInsert (h : d.Obeys R) (e : KeyEvent) : (d.selfInsert e).Obeys R := by
  cases e with
  | key k => exact h.bell
  | char c =>
    simp only [Desk.selfInsert]
    split
    · rename_i hprintable
      have hc : R.shows c := by
        simp only [KeyEvent.isPrintable, Bool.and_eq_true, Bool.not_eq_true'] at hprintable
        exact R.shows_of_printable c hprintable.1
      split
      · exact (h.log ..).bell
      · rename_i b hb
        have htext := Buffer.only_insert h.session.buffer (Text.only_singleton hc) hb
        have hready : (if d.session.typing = true then d else d.snapshot).Obeys R := by
          split
          · exact h
          · exact h.snapshot
        have hshown := hready.refresh htext
        exact { hshown with session := { hshown.session with } }
    · exact h.bell

/-! ### Commands -/

theorem Obeys.showFetched {r : History × Option Text} (h : d.Obeys R) (hr : d.history.Fetches r) :
    (d.showFetched r).Obeys R := by
  obtain ⟨hentries, hline⟩ := hr.only h.editor.history
  simp only [Desk.showFetched]
  split
  · rename_i line hr
    exact (h.setHistory hentries).refresh (hline line hr)
  · exact h.setHistory hentries

theorem Obeys.basicStep (h : d.Obeys R) (k : Command) : (d.basicStep k).Obeys R := by
  have hbuffer := h.session.buffer
  cases k
  case backwardChar | forwardChar | beginningOfLine | endOfLine | backwardWord | forwardWord |
      viForwardWord =>
    exact h.refresh (Buffer.only_move hbuffer _)
  case backwardDeleteChar =>
    simp only [Desk.basicStep]
    split
    · exact h.bell
    · exact h.killRange ..
  case deleteChar =>
    simp only [Desk.basicStep]
    split
    · exact h.bell
    · exact h.applyEdit (Buffer.only_delete hbuffer 1)
  case killLine | backwardKillLine | killWholeLine | killWord | backwardKillWord |
      unixWordRubout =>
    exact h.killRange ..
  case transposeChars =>
    simp only [Desk.basicStep]
    split
    · rename_i b hb
      exact h.applyEdit (Buffer.only_transpose hbuffer hb)
    · exact h.bell
  case yank => exact h.yank _
  case viPasteAfter => exact h.yank _
  case undo => exact h.undoEdit
  case previousHistory => exact h.showFetched (History.fetches_previous _)
  case nextHistory => exact h.showFetched (History.fetches_next _)
  case clearScreen => exact h.clearScreen
  case interrupt => exact h.bell
  case viCommandMode | viAppend | viInsertBol | viAppendEol => exact (h.setVi _).refresh hbuffer
  case viInsert => exact h.setVi _
  case viChangeToEnd => exact (h.killRange ..).setVi _
  case acceptLine | reverseSearchHistory | forwardSearchHistory | complete | viDeleteOperator |
      viChangeOperator =>
    exact h.log ..

theorem Obeys.basic (h : d.Obeys R) (k : Command) : (d.basic k).Obeys R := (h.basicStep k).resume

theorem Obeys.operate (h : d.Obeys R) (o : ViOperator) : (d.operate o).Obeys R := by
  simp only [Desk.operate]
  split
  · exact h.resume
  · split
    · exact h.bell.resume
    · rename_i span hspan
      have hcut := (h.log .debug .viOperator "vi operator" [("operation", .name o.operation.name),
        ("range", .plain (describeSpan span))]).killRange span.1 span.2
      split
      · exact (hcut.setVi _).resume
      · exact hcut.resume

/-! ### Lines -/

theorem Obeys.setLine {line : Buffer} (h : d.Obeys R) (hline : line.text.Only R.holds) :
    { d with session.line := line }.Obeys R :=
  { h with session := { h.session with line := hline } }

theorem Obeys.extendLine (h : d.Obeys R) (t : Text) (refusal : String) :
    (d.extendLine t refusal).Obeys R := by
  have hline := Buffer.only_extended h.session.line R.holds_of_insertable t
  simp only [Desk.extendLine]
  split
  · exact h.setLine hline
  · exact (h.log ..).setLine hline

/-- A line that is accepted is a continuation line. -/
theorem Obeys.acceptedLine {line : Text} (h : d.Obeys R) (hline : some line ∈ d.acceptedLine) :
    line.Only R.holds := by
  have hextended := Buffer.only_extended h.session.line R.holds_of_insertable d.session.buffer.text
  simp only [Desk.acceptedLine] at hline
  split at hline
  · cases List.mem_singleton.1 hline
    exact hextended
  · cases hline
  · cases hline

/-- A line that is accepted has to keep to the rules, since it may be shown again. -/
theorem Obeys.acceptLine (h : d.Obeys R)
    (hline : ∀ line, some line ∈ d.acceptedLine → line.Only R.shows) : d.acceptLine.Obeys R := by
  have hextended := h.newLine.extendLine d.session.buffer.text "buffer text rejected by line"
  have hsame := d.line_extendLine_newLine d.session.buffer.text "buffer text rejected by line"
  simp only [Desk.acceptedLine] at hline
  simp only [Desk.acceptLine]
  rw [← hsame] at hline
  generalize d.newLine.extendLine d.session.buffer.text "buffer text rejected by line" = d'
    at hline hextended ⊢
  have hnext := fun status : QuoteStatus => ((hextended.setLine (Buffer.only_continued
    hextended.session.line R.holds_of_insertable status)).log .debug .acceptLine
    "continuation line" [("status", .name status.name)])
  have hreset : ∀ {d : Desk}, d.Obeys R → (Desk.resume { d with undo := d.undo.clear }).Obeys R :=
    fun h => (h.setUndo (UndoStack.only_clear _)).resume
  cases hstatus : QuoteStatus.scan d'.session.line.text with
  | complete =>
    rw [hstatus] at hline
    have hstored := hextended.editor.history.push (hline _ (List.mem_singleton_self _))
    have hlogged := (hextended.log .debug .acceptLine "accept line"
      [("line", .quoted d'.session.line.text)]).setHistory hstored
    exact hreset { hlogged with session := { hlogged.session with } }
  | escaping =>
    exact hreset (Obeys.resetDisplay
      { hnext .escaping with session := { (hnext .escaping).session with } })
  | quoted =>
    exact hreset (Obeys.resetDisplay
      { hnext .quoted with session := { (hnext .quoted).session with } })

/-! ### Searches -/

theorem Obeys.takeMatch {r : History × Option Text} (h : d.Obeys R) (hq : q.Only R.shows)
    (hr : d.history.Fetches r) :
    (d.takeMatch q r).1.Only R.shows ∧ (d.takeMatch q r).2.Obeys R := by
  obtain ⟨hentries, hmatch⟩ := hr.only h.editor.history
  simp only [Desk.takeMatch]
  split
  · rename_i t ht
    exact ⟨fun u hu => hmatch u (ht.trans hu), h.setHistory hentries⟩
  · exact ⟨hq, (h.setHistory hentries).bell⟩

theorem Obeys.searchOn (h : d.Obeys R) (hq : q.Only R.shows) (heading : Direction) :
    (d.searchOn q heading).1.Only R.shows ∧ (d.searchOn q heading).2.Obeys R := by
  have haim : (d.history.aim heading).Fetches ((d.history.aim heading).search q.query) :=
    History.fetches_search ..
  simp only [Desk.searchOn]
  split
  · exact ⟨hq, h⟩
  · split
    · exact h.takeMatch hq (History.fetches_searchAgain ..)
    · exact h.takeMatch hq ⟨haim.entries_eq, haim.mem⟩

theorem Obeys.startSearch (h : d.Obeys R) (hq : q.Only R.shows) :
    (d.startSearch q).1.Only R.shows ∧ (d.startSearch q).2.Obeys R := by
  have haim : { d with history := d.history.resetSearch.aim q.direction }.Obeys R :=
    h.setHistory h.editor.history
  simp only [Desk.startSearch]
  generalize hd : (if d.keymap.isViCommand then
    { d with history := d.history.resetSearch.aim q.direction }.setVi .insert
    else { d with history := d.history.resetSearch.aim q.direction }) = d'
  have hstart : d'.Obeys R := by
    rw [← hd]
    split
    · exact haim.setVi _
    · exact haim
  split
  · exact ⟨hq, hstart⟩
  · obtain ⟨hentries, hmatch⟩ :=
      (History.fetches_search d'.history d'.session.buffer.text).only hstart.editor.history
    exact ⟨hmatch, hstart.setHistory hentries⟩

theorem Obeys.extendSearch (h : d.Obeys R) (hq : q.Only R.shows) :
    (d.extendSearch q).1.Only R.shows ∧ (d.extendSearch q).2.Obeys R := by
  obtain ⟨hentries, hmatch⟩ :=
    (History.fetches_search d.history q.query).only h.editor.history
  simp only [Desk.extendSearch]
  split
  · rename_i t ht
    exact ⟨fun u hu => hmatch u (ht.trans hu), h.setHistory hentries⟩
  · exact ⟨hq, (h.setHistory hentries).bell⟩

theorem Obeys.shortenSearch (h : d.Obeys R) (hq : q.Only R.shows) :
    (d.shortenSearch q).1.Only R.shows ∧ (d.shortenSearch q).2.Obeys R := by
  obtain ⟨hentries, hmatch⟩ :=
    (History.fetches_search d.history q.query.dropLast).only h.editor.history
  simp only [Desk.shortenSearch]
  split
  · exact ⟨fun t ht => absurd ht (by simp), h.setHistory h.editor.history⟩
  · refine ⟨fun t ht => ?_, h.setHistory hentries⟩
    rcases Option.or_eq_some_iff.1 ht with hfound | ⟨-, hkept⟩
    · exact hmatch t hfound
    · exact hq t hkept

theorem Obeys.showNeighbour {r : History × Option Text} (h : d.Obeys R) (hq : q.Only R.shows)
    (hr : d.history.Fetches r) : (d.showNeighbour q r).Obeys R := by
  obtain ⟨hentries, hline⟩ := hr.only h.editor.history
  refine (h.setHistory hentries).refresh ?_
  split
  · rename_i line hr
    exact hline line hr
  · exact hq.resultBuffer

theorem Obeys.setQueue (h : d.Obeys R) (queue : EventQueue) : { d with queue }.Obeys R :=
  { h with editor := { h.editor with } }

theorem Obeys.searchStep (h : d.Obeys R) (hq : q.Only R.shows) :
    (d.searchStep q).1.Only R.shows ∧ (d.searchStep q).2.Obeys R := by
  have hresult := h.refresh hq.resultBuffer
  simp only [Desk.searchStep]
  split
  · exact h.startSearch hq
  · exact h.extendSearch hq
  · exact h.searchOn hq _
  · exact h.searchOn hq _
  · exact h.shortenSearch hq
  · refine ⟨hq, ?_⟩
    split
    · exact hresult.setQueue _
    · exact hresult
  · exact ⟨hq, hresult⟩
  · exact ⟨hq, hresult⟩
  · exact ⟨hq, h.refresh Text.only_nil⟩
  · exact ⟨hq, h.showNeighbour hq (History.fetches_previous _)⟩
  · exact ⟨hq, h.showNeighbour hq (History.fetches_next _)⟩

theorem Obeys.search (h : d.Obeys R) (hq : q.Only R.shows) :
    (d.search q).1.Only R.shows ∧ (d.search q).2.Obeys R := by
  obtain ⟨hresult, hstep⟩ := h.searchStep hq
  simp only [Desk.search]
  refine ⟨hresult, Obeys.resume ?_⟩
  split
  · exact hstep.refreshWith hresult.shownBuffer
  · have hreset : (d.searchStep q).2.history.resetSearch.Only R.shows := hstep.editor.history
    exact (hstep.log ..).setHistory hreset

/-! ### Completion -/

theorem Obeys.setHandler (h : d.Obeys R) (handler : Option Handler)
    (hhandler : ∀ h, handler = some h → R.employs h) :
    { d with session.handler := handler }.Obeys R :=
  { h with session := { h.session with handler := hhandler } }

/-- A word is replaced by insertable code points only. -/
theorem Obeys.replaceWord (h : d.Obeys R)
    (ht : ∀ c ∈ t, Buffer.isInsertable c = true → R.shows c) : (d.replaceWord t).Obeys R := by
  have hcut := (Buffer.only_deleteRange h.session.buffer d.session.buffer.wordStart
    d.session.buffer.cursor).1
  simp only [Desk.replaceWord]
  split
  · rename_i b hb
    have hinsertable := Buffer.insertable_of_insert hb
    exact h.applyEdit (Buffer.only_insert hcut (fun c hc => ht c hc (hinsertable c hc)) hb)
  · exact h.bell

theorem Obeys.listCandidates (h : d.Obeys R) (candidates : List Text) :
    (d.listCandidates candidates).Obeys R := (h.write _).redraw

theorem Obeys.askBeforeListing (h : d.Obeys R) (count : Nat) : (d.askBeforeListing count).Obeys R :=
  h.newLine.write _

theorem Obeys.completeFrom {handler : CandidateHandler} (h : d.Obeys R)
    (hhandler : R.employs (.candidates handler)) :
    R.employs (.candidates (d.completeFrom handler).1) ∧ (d.completeFrom handler).2.Obeys R := by
  have hoffers := fun t => R.offers handler d.session.buffer.word t hhandler
    (Buffer.only_word h.session.buffer) (Buffer.word_spaceless d.session.buffer)
  have hlog := h.log .debug .completion "complete" [("word", .quoted d.session.buffer.word),
    ("candidates", .number (handler.completer.candidates d.session.buffer.word).length)]
  simp only [Desk.completeFrom]
  split
  · exact ⟨R.employs_candidates _ _ _ hhandler, (h.write _).listCandidates _⟩
  · split
    · exact ⟨hhandler, hlog.bell⟩
    · rename_i single hsingle
      refine ⟨hhandler, hlog.replaceWord fun c hc hinsertable => ?_⟩
      rcases List.mem_append.1 hc with hword | hspace
      · exact hoffers single (hsingle ▸ List.mem_singleton_self _) c hword hinsertable
      · rw [List.mem_singleton.1 hspace]
        exact R.shows_of_printable ' ' (by decide)
    · split
      · refine ⟨hhandler, hlog.replaceWord ?_⟩
        exact only_commonStart (P := fun c => Buffer.isInsertable c = true → R.shows c) hoffers
      · split
        · exact ⟨R.employs_candidates _ _ _ hhandler, hlog.askBeforeListing _⟩
        · exact ⟨hhandler, hlog.newLine.listCandidates _⟩

theorem Obeys.setAsk {handler : Handler} (h : d.Obeys R) (hhandler : R.employs handler)
    (ask : Bool) : R.employs (d.setAsk handler ask).1 ∧ (d.setAsk handler ask).2.Obeys R := by
  cases handler with
  | candidates handler => exact ⟨R.employs_candidates _ _ _ hhandler, h⟩
  | scripted handler => exact ⟨R.employs_scripted _ _ _ hhandler, h.emit _⟩

theorem Obeys.dropQuestion (h : d.Obeys R) : d.dropQuestion.Obeys R := by
  simp only [Desk.dropQuestion]
  split
  · exact h
  · rename_i handler hhandler
    obtain ⟨hkept, hasked⟩ := h.setAsk (h.session.handler handler hhandler) false
    exact hasked.setHandler _ fun _ hh => Option.some.inj hh ▸ hkept

theorem Obeys.declineListing (h : d.Obeys R) : d.declineListing.Obeys R :=
  ((h.setUndo (UndoStack.only_clear _)).write _).resetDisplay

theorem Obeys.endCompletion {handler : Handler} (h : d.Obeys R) (c : Completion)
    (hhandler : R.employs handler) (deferred : Bool) :
    (d.endCompletion c handler deferred).2.Obeys R := by
  have hback := h.setHandler (some handler) fun _ hh => Option.some.inj hh ▸ hhandler
  simp only [Desk.endCompletion]
  split
  · exact hback.log ..
  · exact hback.resume

/-- A completion keeps to the rules, up to where a script has to be run. -/
def CompletionStep.Obeys (R : Rules) : CompletionStep → Prop
  | .finished _ d => d.Obeys R
  | .script _ h d => R.employs (.scripted h) ∧ d.Obeys R

theorem Obeys.beginCompletion (h : d.Obeys R) (c : Completion) :
    (d.beginCompletion c).Obeys R := by
  simp only [Desk.beginCompletion]
  split
  · exact h.bell.resume
  · rename_i handler hhandler
    have hemployed := h.session.handler handler hhandler
    have htaken := h.setHandler none nofun
    split
    · obtain ⟨hkept, hasked⟩ := htaken.setAsk hemployed false
      exact hasked.declineListing.endCompletion _ hkept false
    · cases handler with
      | candidates handler =>
        obtain ⟨hkept, hdone⟩ := htaken.completeFrom hemployed
        exact hdone.endCompletion _ hkept false
      | scripted handler => exact ⟨hemployed, htaken⟩

end Desk

/-! ### Actions and events -/

/-- A search keeps to the rules by its result; other actions hold no text. -/
def Action.Obeys (R : Rules) : Action → Prop
  | .search q => q.Only R.shows
  | _ => True

theorem Action.Obeys.input {a : Action} (h : a.Obeys R) (bound : Option Command) (e : KeyEvent) :
    (a.input bound e).Obeys R := by
  cases a with
  | search q => exact Search.Only.input h bound e
  | acceptLine | complete | operator | basic => exact h

theorem Action.obeys_ofCommand (R : Rules) (k : Command) : (Action.ofCommand k).Obeys R := by
  cases k
  case reverseSearchHistory | forwardSearchHistory => exact nofun
  all_goals trivial

namespace Desk

variable {d : Desk}

/-- The application of an action keeps to the rules. -/
def Applied.Obeys (R : Rules) : Applied → Prop
  | .finished a d => a.Obeys R ∧ d.Obeys R
  | .script _ h d => R.employs (.scripted h) ∧ d.Obeys R

/-- The handling of an event keeps to the rules. -/
def Dispatched.Obeys (R : Rules) : Dispatched → Prop
  | .finished d => d.Obeys R
  | .script _ h d => R.employs (.scripted h) ∧ d.Obeys R

theorem Obeys.apply {a : Action} (h : d.Obeys R) (ha : a.Obeys R)
    (hline : ∀ line, some line ∈ d.ends a → line.Only R.shows) : (d.apply a).Obeys R := by
  cases a with
  | acceptLine => exact ⟨trivial, h.acceptLine hline⟩
  | search q => exact h.search ha
  | complete c =>
    have hstep := h.beginCompletion c
    simp only [Desk.apply]
    cases hc : d.beginCompletion c with
    | finished c' d' =>
      rw [hc] at hstep
      exact ⟨trivial, hstep⟩
    | script c' handler d' =>
      rw [hc] at hstep
      exact hstep
  | operator o => exact ⟨trivial, h.operate o⟩
  | basic k => exact ⟨trivial, h.basic k⟩

theorem Obeys.settleFocus {a : Action} (h : d.Obeys R) (ha : a.Obeys R) :
    (d.settleFocus a).Obeys R := by
  rw [Desk.settleFocus]
  split
  · have hfocus : ∀ q, some a = some (.search q) → q.Only R.shows := by
      rintro q hq
      cases hq
      exact ha
    exact { h with session := { h.session with focus := hfocus } }
  · exact h

theorem Obeys.beginAction (h : d.Obeys R) (a : Action) (e : KeyEvent) :
    (d.beginAction a e).Obeys R :=
  { h.log .. with session := { h.session with focus := nofun } }

/-- The action that an event is for. -/
theorem Obeys.actionFor {a : Action} {e : KeyEvent} (h : d.Obeys R) (ha : d.actionFor e = some a) :
    a.Obeys R := by
  rw [Desk.actionFor] at ha
  cases hfocus : d.session.focus with
  | none =>
    rw [hfocus] at ha
    obtain ⟨k, -, rfl⟩ := Option.map_eq_some_iff.1 ha
    exact Action.obeys_ofCommand R k
  | some b =>
    rw [hfocus] at ha
    cases ha
    have hb : b.Obeys R := by
      cases b with
      | search q => exact h.session.focus q hfocus
      | acceptLine | complete | operator | basic => trivial
    exact hb.input ..

theorem Obeys.ends {a : Action} {line : Text} (h : d.Obeys R) (hline : some line ∈ d.ends a) :
    line.Only R.holds := by
  cases a with
  | acceptLine => exact h.acceptedLine hline
  | search | complete | operator | basic => cases hline

theorem Obeys.endsBy {e : KeyEvent} {line : Text} (h : d.Obeys R) (hline : some line ∈ d.endsBy e) :
    line.Only R.holds := by
  simp only [Desk.endsBy] at hline
  cases ha : d.actionFor e with
  | none =>
    rw [ha] at hline
    cases hline
  | some a =>
    rw [ha] at hline
    exact h.ends hline

/-- An event keeps to the rules if the line that it accepts does. -/
theorem Obeys.dispatch (h : d.Obeys R) (e : KeyEvent)
    (hline : ∀ line, some line ∈ d.endsBy e → line.Only R.shows) : (d.dispatch e).Obeys R := by
  simp only [Desk.endsBy] at hline
  simp only [Desk.dispatch]
  cases ha : d.actionFor e with
  | none => exact h.selfInsert e
  | some a =>
    rw [ha, Option.map_some, Option.getD_some, ← d.ends_beginAction a a e] at hline
    have happly := (h.beginAction a e).apply (h.actionFor ha) hline
    dsimp only
    cases hr : (d.beginAction a e).apply a with
    | finished a' d' =>
      rw [hr] at happly
      exact happly.2.settleFocus happly.1
    | script c handler d' =>
      rw [hr] at happly
      exact happly

/-- An interrupt drops what was typed and keeps the rest. -/
theorem Obeys.startOver (h : d.Obeys R) : d.startOver.Obeys R := by
  have hdropped := (h.log .debug .engine "interrupt" []).newLine.dropQuestion
  simp only [Desk.startOver]
  generalize (d.log .debug .engine "interrupt" []).newLine.dropQuestion = d' at hdropped ⊢
  refine Obeys.redraw ⟨?_, ?_⟩
  · exact { hdropped.editor with undo := UndoStack.only_clear _ }
  · exact {
      buffer := Text.only_nil
      line := Text.only_nil
      focus := nofun
      handler := hdropped.session.handler }

end Desk

/-! ### Scripts -/

/-- A call on a session puts nothing else up. -/
def SessionCall.Obeys (R : Rules) : SessionCall → Prop
  | .refresh b | .refreshPrompt _ b => b.text.Only R.shows
  | .insert t => ∀ c ∈ t, Buffer.isInsertable c = true → R.shows c
  | .setLine t => t.Only R.holds
  | .setHandler words => R.employs (.candidates { completer := .ofWords words })
  | _ => True

/-- Where anything may come up, and completion by candidates is no exception, any call may be made. -/
theorem SessionCall.obeys_of_any (hshows : ∀ c, R.shows c) (hholds : ∀ c, R.holds c)
    (hemploys : ∀ c, R.employs (.candidates c)) (k : SessionCall) : k.Obeys R := by
  cases k
  case refresh b => exact fun c _ => hshows c
  case refreshPrompt p b => exact fun c _ => hshows c
  case insert t => exact fun c _ _ => hshows c
  case setLine t => exact fun c _ => hholds c
  case setHandler words => exact hemploys _
  all_goals exact trivial

/-- A call on a history adds nothing else. -/
def HistoryCall.Obeys (R : Rules) : HistoryCall → Prop
  | .push line => line.Only R.shows
  | _ => True

/-- A step of a script puts nothing else up; the line that it may accept is told apart. -/
def ScriptStep.Obeys (R : Rules) : ScriptStep → Prop
  | .kill t => t.Only R.shows
  | .history c => c.Obeys R
  | .applyEdit b => b.text.Only R.shows
  | .session calls | .schedule (some calls) _ => ∀ k ∈ calls, k.Obeys R
  | _ => True

/-- The line that a step of a script accepts. -/
def ScriptStep.accepts (d : Desk) : ScriptStep → List (Option Text)
  | .apply k => d.ends (.ofCommand k)
  | _ => []

/-- The scripts of the handlers that may be at work keep to the rules. -/
def Rules.Scripts (R : Rules) : Prop := ∀ h, R.employs (.scripted h) → ∀ s ∈ h.script, s.Obeys R

theorem History.Only.run {P : Char → Prop} {h : History} (hP : h.Only P) {c : HistoryCall}
    (hc : ∀ line, c = .push line → line.Only P) : (c.run h).1.Only P := by
  cases c
  case push line => exact hP.push (hc line rfl)
  case clear => exact List.forall_mem_nil _
  case previous => exact ((fetches_previous h).only hP).1
  case next => exact ((fetches_next h).only hP).1
  case search query => exact ((fetches_search h query).only hP).1
  case searchAgain query => exact ((fetches_searchAgain h query).only hP).1
  all_goals exact hP

namespace Desk

variable {d : Desk}

theorem Obeys.answer (h : d.Obeys R) (size : Size) {k : SessionCall} (hk : k.Obeys R) :
    (d.answer size k).1.Obeys R := by
  cases k
  case refresh b => exact h.refresh hk
  case refreshPrompt p b => exact h.refreshWith hk
  case insert t =>
    simp only [Desk.answer]
    split
    · rename_i b hb
      have hinsertable := Buffer.insertable_of_insert hb
      exact h.refresh (Buffer.only_insert h.session.buffer
        (fun c hc => hk c hc (hinsertable c hc)) hb)
    · exact h
  case redraw => exact h.redraw
  case resetDisplay => exact h.resetDisplay
  case newLine => exact h.newLine
  case clearScreen => exact h.clearScreen
  case resize old new => exact h.resize old new
  case write t => exact h.write t
  case bell => exact h.bell
  case resume => exact h.resume
  case setLine t => exact h.setLine hk
  case takeHandler => exact h.setHandler _ nofun
  case setHandler words => exact h.setHandler _ fun _ hh => Option.some.inj hh ▸ hk
  case getData | info => exact h
  case setPrompt | pause | finish | setData =>
    exact { h with session := { h.session with } }

theorem Obeys.answers (h : d.Obeys R) (size : Size) {calls : List SessionCall}
    (hcalls : ∀ k ∈ calls, k.Obeys R) : (d.answers size calls).1.Obeys R := by
  induction calls generalizing d with
  | nil => exact h
  | cons k calls ih =>
    obtain ⟨hk, hcalls⟩ := List.forall_mem_cons.1 hcalls
    rw [answers_cons]
    exact ih (h.answer size hk) hcalls

theorem Obeys.applyInside (h : d.Obeys R) (k : Command)
    (hline : ∀ line, some line ∈ d.ends (.ofCommand k) → line.Only R.shows) :
    (d.applyInside k).Obeys R := by
  have happly := h.apply (Action.obeys_ofCommand R k) hline
  simp only [Desk.applyInside]
  cases hr : d.apply (.ofCommand k) with
  | finished a d' =>
    rw [hr] at happly
    exact happly.2
  | script c handler d' =>
    rw [hr] at happly
    exact happly.2.endCompletion c happly.1 false

theorem style_bind (m : Keymap) (e : KeyEvent) (k : Command) : (m.bind e k).style = m.style := by
  rw [Keymap.bind]
  split
  · rfl
  · rfl

theorem Obeys.scriptStep (h : d.Obeys R) (size : Size) {s : ScriptStep} (hs : s.Obeys R)
    (hline : ∀ line, some line ∈ s.accepts d → line.Only R.shows) :
    (d.scriptStep size s).Obeys R := by
  cases s
  case queue t => exact h.setQueue _
  case kill t => exact h.setKills (h.editor.kills.add hs)
  case history c =>
    have hrun : (c.run d.history).1.Only R.shows :=
      h.editor.history.run fun line hc => by
        subst hc
        exact hs
    exact (h.setHistory hrun).emit _
  case apply k => exact h.applyInside k hline
  case basic k => exact h.basic k
  case killRange first last => exact (h.killRange first last).emit _
  case applyEdit b => exact h.applyEdit hs
  case setVi v => exact h.setVi v
  case bind e k =>
    have hstyle : R.edits (d.keymap.bind e k).style := by
      rw [style_bind]
      exact h.editor.style
    exact { h with editor := { h.editor with style := hstyle } }
  case session calls => exact (h.answers size hs).emit _
  case probe | newestKill | undoDepth | queryItems => exact h.emit _
  case setAsk | feed | runTasks | resize | schedule => exact h

end Desk

end LineEditor
