import LineEditor.Host.Script

/-!
What editing keeps. Showing, editing, searching and completing work on the text of a session. Which input
waits, who receives the line, whether it has ended and whether input is delivered are changed by few
operations only, and so are what the line is edited within and what was cut.

Main definitions: `Desk.core`, `Desk.setting` and both with the kill ring in `Desk.kept`; `Command.cuts`.
Main statements: the equations `kept_*`, one for each operation, which say what of it is not kept.
-/
namespace LineEditor

/-- What of a desk does not concern the text. -/
structure Core where
  queue : EventQueue
  conn : Nat
  callback : Nat
  previous : Handlers
  outcome : Outcome
  paused : Bool

/-- What the editing of a line works within. -/
structure Setting where
  config : Config
  prompt : Prompt
  current : Prompt
  continuation : Prompt
  line : Buffer
  width : Nat

/-- What few operations change. -/
structure Kept where
  core : Core
  setting : Setting
  kills : KillRing

/-- Input is delivered again. -/
def Kept.resumed (k : Kept) : Kept := { k with core := { k.core with paused := false } }

namespace Desk

/-- What of a desk does not concern the text. -/
def core (d : Desk) : Core where
  queue := d.queue
  conn := d.session.conn
  callback := d.session.callback
  previous := d.session.previous
  outcome := d.session.outcome
  paused := d.session.paused

/-- What the editing of a line works within. -/
def setting (d : Desk) : Setting where
  config := d.config
  prompt := d.session.prompt
  current := d.session.current
  continuation := d.session.continuation
  line := d.session.line
  width := d.session.width

/-- What few operations change. -/
def kept (d : Desk) : Kept := ⟨d.core, d.setting, d.kills⟩

/-! ### Showing -/

section Showing

variable (d : Desk) (b : Buffer) (p : Prompt) (t : Text)

@[simp] theorem kept_log (level : Log.Level) (site : Log.Site) (message : String)
    (fields : List (String × Log.Value)) : (d.log level site message fields).kept = d.kept := rfl

@[simp] theorem kept_note (n : Note) : (d.note n).kept = d.kept := rfl

@[simp] theorem kept_resume : d.resume.kept = d.kept.resumed := rfl

theorem session_write : (d.write t).session = d.session := by
  rw [write]
  split <;> rfl

theorem history_write : (d.write t).history = d.history := by
  rw [write]
  split <;> rfl

@[simp] theorem kept_write : (d.write t).kept = d.kept := by
  rw [write]
  split <;> rfl

@[simp] theorem kept_refreshWith : (d.refreshWith p b).kept = d.kept := d.kept_write _

@[simp] theorem kept_refresh : (d.refresh b).kept = d.kept := d.kept_refreshWith ..

@[simp] theorem kept_resetDisplay : d.resetDisplay.kept = d.kept := rfl

@[simp] theorem kept_newLine : d.newLine.kept = d.kept := d.kept_write _

@[simp] theorem kept_clearScreen : d.clearScreen.kept = d.kept := d.kept_write _

theorem kept_resize (old new : Nat) :
    (d.resize old new).kept = { d.kept with setting := { d.setting with width := new } } := by
  rw [resize, write]
  dsimp only
  split <;> rfl

@[simp] theorem kept_setVi (v : ViState) : (d.setVi v).kept = d.kept := by
  rw [setVi]
  split <;> rfl

@[simp] theorem kept_settleFocus (a : Action) : (d.settleFocus a).kept = d.kept := by
  rw [settleFocus]
  split <;> rfl

end Showing

/-! ### Editing -/

section Editing

variable (d : Desk)

@[simp] theorem kept_applyEdit (b : Buffer) : (d.applyEdit b).kept = d.kept := kept_refresh ..

@[simp] theorem kept_yank (behind : Bool) : (d.yank behind).kept = d.kept := by
  rw [yank]
  split
  · rfl
  · dsimp only
    split
    · exact kept_applyEdit ..
    · rfl

@[simp] theorem kept_undoEdit : d.undoEdit.kept = d.kept := by
  rw [undoEdit]
  split
  · exact kept_refresh ..
  · rfl

@[simp] theorem kept_selfInsert (e : KeyEvent) : (d.selfInsert e).kept = d.kept := by
  unfold selfInsert
  split
  · rfl
  · split
    · split
      · rfl
      · dsimp only
        split <;> exact kept_refresh ..
    · rfl

@[simp] theorem kept_showFetched (r : History × Option Text) : (d.showFetched r).kept = d.kept := by
  rw [showFetched]
  split
  · exact kept_refresh ..
  · rfl

/-- The continuation lines get longer. -/
theorem kept_extendLine (t : Text) (refusal : String) : (d.extendLine t refusal).kept =
    { d.kept with setting := { d.setting with line := d.setting.line.extended t } } := by
  rw [extendLine]
  split <;> rfl

end Editing

end Desk

/-! ### Cutting -/

/-- The commands that cut. -/
def Command.cuts : Command → Bool
  | .backwardDeleteChar | .killLine | .backwardKillLine | .killWholeLine | .killWord
  | .backwardKillWord | .unixWordRubout | .viChangeToEnd => true
  | _ => false

namespace Desk

section Cutting

variable {d : Desk} {k : Command}

/-- Where nothing is said of the kill ring, it is the one that the desk has. -/
theorem kept_kills {k : Kept} (h : d.kept = k) : d.kept = { k with kills := d.kills } := by
  rw [← h]
  rfl

/-- A cut changes the kill ring only. -/
theorem kept_killRange (d : Desk) (first last : Nat) : (d.killRange first last).kept =
    { d.kept with kills := (d.killRange first last).kills } := by
  rw [killRange]
  split
  · rfl
  · exact (kept_kills (kept_applyEdit ..) :)

theorem kept_of_not_cuts (d : Desk) (hk : k.cuts = false) : (d.basicStep k).kept = d.kept := by
  cases k
  case backwardChar | forwardChar | beginningOfLine | endOfLine | backwardWord | forwardWord |
      viForwardWord =>
    exact kept_refresh ..
  case viCommandMode | viAppend | viInsertBol | viAppendEol =>
    exact (kept_refresh ..).trans (kept_setVi ..)
  case viInsert => exact kept_setVi ..
  case deleteChar =>
    rw [basicStep]
    split
    · rfl
    · exact kept_applyEdit ..
  case transposeChars =>
    rw [basicStep]
    split
    · exact kept_applyEdit ..
    · rfl
  case yank | viPasteAfter => exact kept_yank ..
  case undo => exact d.kept_undoEdit
  case previousHistory | nextHistory => exact kept_showFetched ..
  case clearScreen => exact kept_write ..
  case interrupt | acceptLine | reverseSearchHistory | forwardSearchHistory | complete |
      viDeleteOperator | viChangeOperator =>
    rfl
  all_goals cases hk

/-- A cut that goes on with inserting. -/
theorem kept_setVi_killRange (d : Desk) (first last : Nat) (v : ViState) :
    ((d.killRange first last).setVi v).kept =
      { d.kept with kills := ((d.killRange first last).setVi v).kills } :=
  (kept_kills ((kept_setVi ..).trans (d.kept_killRange first last)) :)

/-- A command changes the kill ring at most. -/
theorem kept_basicStep (d : Desk) (k : Command) :
    (d.basicStep k).kept = { d.kept with kills := (d.basicStep k).kills } := by
  cases hk : k.cuts with
  | false => exact kept_kills (d.kept_of_not_cuts hk)
  | true =>
    cases k
    case killLine | backwardKillLine | killWholeLine | killWord | backwardKillWord | unixWordRubout =>
      exact d.kept_killRange ..
    case viChangeToEnd => exact d.kept_setVi_killRange ..
    case backwardDeleteChar =>
      rw [basicStep]
      split
      · rfl
      · exact d.kept_killRange ..
    all_goals cases hk

theorem kept_basic (d : Desk) (k : Command) :
    (d.basic k).kept = { d.kept.resumed with kills := (d.basic k).kills } :=
  congrArg Kept.resumed (d.kept_basicStep k)

theorem kept_operate (d : Desk) (o : ViOperator) :
    (d.operate o).kept = { d.kept.resumed with kills := (d.operate o).kills } := by
  rw [operate]
  split
  · rfl
  · split
    · rfl
    · dsimp only
      split
      · exact congrArg Kept.resumed (kept_setVi_killRange ..)
      · exact congrArg Kept.resumed (kept_killRange ..)

end Cutting

end Desk

/-! ### Searches -/

/-- What a search leaves in the queue when it is applied. -/
def Search.given (q : Search) : Text :=
  if q.status = .accept ∧ q.result.isSome then Key.enter.codePoints else []

@[simp] theorem EventQueue.append_nil (q : EventQueue) : q.append [] = q := by
  rw [append, List.append_nil]

namespace Desk

section Searching

variable (d : Desk) (q : Search)

@[simp] theorem kept_takeMatch (r : History × Option Text) : (d.takeMatch q r).2.kept = d.kept := by
  rw [takeMatch]
  split <;> rfl

@[simp] theorem kept_searchOn (heading : Direction) : (d.searchOn q heading).2.kept = d.kept := by
  rw [searchOn]
  dsimp only
  split
  · rfl
  · split <;> exact kept_takeMatch ..

@[simp] theorem kept_startSearch : (d.startSearch q).2.kept = d.kept := by
  rw [startSearch]
  dsimp only
  split
  · split <;> exact kept_setVi ..
  · split <;> rfl

@[simp] theorem kept_extendSearch : (d.extendSearch q).2.kept = d.kept := by
  rw [extendSearch]
  dsimp only
  split <;> rfl

@[simp] theorem kept_shortenSearch : (d.shortenSearch q).2.kept = d.kept := by
  rw [shortenSearch]
  dsimp only
  split <;> rfl

theorem kept_searchStep : (d.searchStep q).2.kept =
    { d.kept with core := { d.core with queue := d.core.queue.append q.given } } := by
  have hnone : q.given = [] → (d.searchStep q).2.kept = d.kept → (d.searchStep q).2.kept =
      { d.kept with core := { d.core with queue := d.core.queue.append q.given } } := by
    intro hgiven hkept
    rw [hkept, hgiven, EventQueue.append_nil]
    rfl
  obtain ⟨direction, status, query, result⟩ := q
  cases status
  case accept =>
    cases result with
    | none => exact hnone rfl (kept_refresh ..)
    | some t =>
      have hshown := d.kept_refresh (.ofText t)
      exact congrArg (fun k : Kept => { k with
        core := { k.core with queue := k.core.queue.append Key.enter.codePoints } }) hshown
  case notStarted => exact hnone rfl (kept_startSearch ..)
  case input => exact hnone rfl (kept_extendSearch ..)
  case previous | next => exact hnone rfl (kept_searchOn ..)
  case delete => exact hnone rfl (kept_shortenSearch ..)
  case exit | moveRight | interrupt => exact hnone rfl (kept_refresh ..)
  case movePrevious =>
    exact hnone rfl (kept_refresh { d with history := d.history.previous.1 } _)
  case moveNext => exact hnone rfl (kept_refresh { d with history := d.history.next.1 } _)

theorem kept_search : (d.search q).2.kept = Kept.resumed
    { d.kept with core := { d.core with queue := d.core.queue.append q.given } } := by
  rw [← kept_searchStep, search]
  dsimp only
  rw [kept_resume]
  split
  · rw [showSearch, kept_refreshWith]
  · rfl

end Searching

/-! ### Completion -/

section Completing

variable (d : Desk)

@[simp] theorem kept_replaceWord (t : Text) : (d.replaceWord t).kept = d.kept := by
  rw [replaceWord]
  split
  · exact kept_applyEdit ..
  · rfl

@[simp] theorem kept_listCandidates (candidates : List Text) :
    (d.listCandidates candidates).kept = d.kept := d.kept_write _

@[simp] theorem kept_askBeforeListing (count : Nat) : (d.askBeforeListing count).kept = d.kept :=
  (kept_write ..).trans d.kept_newLine

@[simp] theorem kept_completeFrom (h : CandidateHandler) : (d.completeFrom h).2.kept = d.kept := by
  rw [completeFrom]
  split
  · exact (kept_listCandidates ..).trans (d.kept_write _)
  · dsimp only
    split
    · rfl
    · exact kept_replaceWord ..
    · split
      · exact kept_replaceWord ..
      · split
        · exact kept_askBeforeListing ..
        · exact (kept_listCandidates ..).trans (kept_newLine _)

@[simp] theorem kept_setAsk (h : Handler) (ask : Bool) : (d.setAsk h ask).2.kept = d.kept := by
  unfold setAsk
  split <;> rfl

@[simp] theorem kept_declineListing : d.declineListing.kept = d.kept :=
  (kept_resetDisplay _).trans (kept_write { d with undo := d.undo.clear } ['\n'])

@[simp] theorem kept_dropQuestion : d.dropQuestion.kept = d.kept := by
  rw [dropQuestion]
  split
  · rfl
  · exact kept_setAsk ..

theorem kept_endCompletion (c : Completion) (h : Handler) (deferred : Bool) :
    (d.endCompletion c h deferred).2.kept =
      { d.kept with core := { d.core with paused := d.core.paused && deferred } } := by
  rw [endCompletion]
  cases deferred
  · rw [Bool.and_false]
    rfl
  · rw [Bool.and_true]
    rfl

/-- A completion without a script resumes the session; with a script it is not over yet. -/
theorem kept_beginCompletion (c : Completion) :
    match d.beginCompletion c with
    | .finished _ d' => d'.kept = d.kept.resumed
    | .script _ _ d' => d'.kept = d.kept := by
  have hended : ∀ {l : Desk} (c : Completion) (h : Handler), l.kept = d.kept →
      (l.endCompletion c h false).2.kept = d.kept.resumed := by
    intro l c h hl
    rw [kept_endCompletion, Bool.and_false]
    exact congrArg Kept.resumed hl
  unfold beginCompletion
  cases d.session.handler with
  | none => rfl
  | some h =>
    dsimp only
    by_cases hdeclined : (h.asks && !isYes c.answer) = true
    · rw [if_pos hdeclined]
      exact hended _ _ ((kept_declineListing _).trans (kept_setAsk ..))
    · rw [if_neg hdeclined]
      cases h with
      | candidates h => exact hended _ _ (kept_completeFrom ..)
      | scripted h => rfl

end Completing

end Desk

end LineEditor
