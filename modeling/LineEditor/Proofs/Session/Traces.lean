import LineEditor.Proofs.Session.Core

/-!
What work at a desk leaves behind for undo. It leaves the snapshots alone, or takes one of the shown
buffer, takes one back or drops them all; and whatever rings the bell leaves them alone. Whether a typed
run is going on is the concern of events only.

Main definitions: `Desk.trace`, and `Trace.Acts`, what work may do to it. Main statements: `acts_apply`
for actions, `keeps_answers` for calls, `acts_scriptStep` for the steps of a script and `trace_startOver`
for an interrupt; and `edits_apply` and `moves_apply`, for the actions that edit and for those that move.
-/
namespace LineEditor

/-! ### Traces -/

/-- Whether an effect is the bell. -/
def Effect.isRing : Effect → Bool
  | .ring => true
  | _ => false

/-- What work leaves behind for undo: the snapshots, whether a typed run is going on, and how often the
bell rang. -/
@[ext]
structure Trace where
  undo : UndoStack
  typing : Bool
  rings : Nat

/-- What work may do to a trace while `b` is shown. It leaves the snapshots, and may ring the bell; or it
changes them in silence. -/
inductive Trace.Acts (b : Buffer) (k : Trace) : Trace → Prop
  | keeps (rings : Nat) : Acts b k { k with rings }
  | pushes : Acts b k { k with undo := k.undo.push (.ofBuffer b) }
  | pops {s : Snapshot} {undo : UndoStack} (hpop : k.undo.pop = some (s, undo)) :
      Acts b k { k with undo }
  | clears : Acts b k { k with undo := k.undo.clear }

namespace UndoStack

variable {u u' : UndoStack} {s : Snapshot}

@[simp] theorem limit_push (u : UndoStack) (s : Snapshot) : (u.push s).limit = u.limit := by
  rw [push]
  split <;> rfl

theorem limit_of_pop (hpop : u.pop = some (s, u')) : u'.limit = u.limit := by
  rw [pop] at hpop
  split at hpop
  · cases hpop
  · cases hpop
    rfl

end UndoStack

namespace Trace

variable {b : Buffer} {k k' : Trace}

theorem Acts.refl (b : Buffer) (k : Trace) : k.Acts b k := .keeps k.rings

/-- The flag of a typed run is no work's concern. -/
theorem Acts.typing_eq (h : k.Acts b k') : k'.typing = k.typing := by
  cases h <;> rfl

/-- How many snapshots there may be is no work's concern. -/
theorem Acts.limit_eq (h : k.Acts b k') : k'.undo.limit = k.undo.limit := by
  cases h with
  | keeps rings => rfl
  | pushes => exact UndoStack.limit_push ..
  | pops hpop => exact UndoStack.limit_of_pop hpop
  | clears => rfl

/-- What rings the bell leaves the snapshots. -/
theorem Acts.undo_eq (h : k.Acts b k') (hrings : k.rings < k'.rings) : k'.undo = k.undo := by
  cases h with
  | keeps rings => rfl
  | pushes => exact absurd hrings (Nat.lt_irrefl _)
  | pops hpop => exact absurd hrings (Nat.lt_irrefl _)
  | clears => exact absurd hrings (Nat.lt_irrefl _)

end Trace

namespace Desk

/-- What work at a desk left behind for undo. -/
def trace (d : Desk) : Trace where
  undo := d.undo
  typing := d.session.typing
  rings := d.effects.countP Effect.isRing

section Showing

variable (d : Desk) (b : Buffer) (p : Prompt) (t : Text)

theorem trace_emit (x : Effect) :
    (d.emit x).trace = { d.trace with rings := d.trace.rings + if x.isRing then 1 else 0 } := by
  ext1
  · rfl
  · rfl
  · change (d.effects ++ [x]).countP Effect.isRing = _
    rw [List.countP_append, List.countP_singleton]
    rfl

@[simp] theorem trace_log (level : Log.Level) (site : Log.Site) (message : String)
    (fields : List (String × Log.Value)) :
    (d.log level site message fields).trace = d.trace := d.trace_emit _

@[simp] theorem trace_note (n : Note) : (d.note n).trace = d.trace := d.trace_emit _

@[simp] theorem trace_bell : d.bell.trace = { d.trace with rings := d.trace.rings + 1 } := by
  rw [bell, trace_emit, trace_log]
  rfl

@[simp] theorem trace_write : (d.write t).trace = d.trace := by
  rw [write]
  split
  · rfl
  · exact d.trace_emit _

@[simp] theorem trace_refreshWith : (d.refreshWith p b).trace = d.trace := d.trace_write _

@[simp] theorem trace_refresh : (d.refresh b).trace = d.trace := d.trace_write _

@[simp] theorem trace_redraw : d.redraw.trace = d.trace := d.trace_emit _

@[simp] theorem trace_resetDisplay : d.resetDisplay.trace = d.trace := trace_emit _ _

@[simp] theorem trace_newLine : d.newLine.trace = d.trace := d.trace_write _

@[simp] theorem trace_clearScreen : d.clearScreen.trace = d.trace := by
  rw [clearScreen, trace_redraw, trace_write]

@[simp] theorem trace_resize (old new : Nat) : (d.resize old new).trace = d.trace := by
  change (Desk.write ..).trace = _
  rw [trace_write, trace_log]

@[simp] theorem trace_resume : d.resume.trace = d.trace := rfl

@[simp] theorem trace_setVi (v : ViState) : (d.setVi v).trace = d.trace := by
  rw [setVi]
  split
  · exact trace_log ..
  · rfl

end Showing

/-! ### Editing -/

/-- Work that leaves the text, or takes a snapshot of what was shown before. -/
def Edits (d d' : Desk) : Prop :=
  (d'.session.buffer.text = d.session.buffer.text ∧ ∃ rings, d'.trace = { d.trace with rings }) ∨
    d'.trace = { d.trace with undo := d.undo.push (.ofBuffer d.session.buffer) }

section Editing

variable (d : Desk)

@[simp] theorem trace_applyEdit (b : Buffer) : (d.applyEdit b).trace =
    { d.trace with undo := d.undo.push (.ofBuffer d.session.buffer) } := trace_refresh ..

theorem edits_applyEdit (b : Buffer) : d.Edits (d.applyEdit b) := .inr (d.trace_applyEdit b)

theorem edits_self : d.Edits d := .inl ⟨rfl, _, rfl⟩

theorem edits_bell : d.Edits d.bell := .inl ⟨rfl, _, d.trace_bell⟩

theorem edits_killRange (first last : Nat) : d.Edits (d.killRange first last) := by
  rw [killRange]
  split
  · exact d.edits_self
  · exact .inr (trace_applyEdit ..)

theorem edits_yank (behind : Bool) : d.Edits (d.yank behind) := by
  rw [yank]
  split
  · exact d.edits_bell
  · dsimp only
    split
    · exact d.edits_applyEdit _
    · exact .inl ⟨rfl, _, (trace_bell _).trans (by rw [trace_log])⟩

variable {d} in
theorem Edits.acts {d' : Desk} (h : d.Edits d') : d.trace.Acts d.session.buffer d'.trace := by
  rcases h with ⟨-, rings, h⟩ | h
  · rw [h]
    exact .keeps rings
  · rw [h]
    exact .pushes

variable {d} in
/-- Work that is followed by what leaves no trace. -/
theorem Edits.congr {d' d'' : Desk} (h : d.Edits d')
    (htext : d''.session.buffer.text = d'.session.buffer.text) (htrace : d''.trace = d'.trace) :
    d.Edits d'' := by
  rcases h with ⟨hsame, rings, h⟩ | h
  · exact .inl ⟨htext.trans hsame, rings, htrace.trans h⟩
  · exact .inr (htrace.trans h)

theorem buffer_setVi (v : ViState) : (d.setVi v).session.buffer = d.session.buffer := by
  rw [setVi]
  split <;> rfl

theorem acts_undoEdit : d.trace.Acts d.session.buffer d.undoEdit.trace := by
  rw [undoEdit]
  split
  · rename_i s undo hpop
    rw [trace_refresh]
    exact .pops hpop
  · rw [trace_bell]
    exact .keeps _

@[simp] theorem trace_showFetched (r : History × Option Text) : (d.showFetched r).trace = d.trace := by
  rw [showFetched]
  split
  · exact trace_refresh ..
  · rfl

end Editing

end Desk

/-- The commands that edit: deletions, transposing, yanking and changing to the end. -/
def Command.edits : Command → Bool
  | .deleteChar | .backwardDeleteChar | .killLine | .backwardKillLine | .killWholeLine | .killWord
  | .backwardKillWord | .unixWordRubout | .transposeChars | .yank | .viPasteAfter
  | .viChangeToEnd => true
  | _ => false

/-- The commands that move the cursor or switch the Vi state. -/
def Command.moves : Command → Bool
  | .backwardChar | .forwardChar | .beginningOfLine | .endOfLine | .backwardWord | .forwardWord
  | .viForwardWord | .viCommandMode | .viInsert | .viAppend | .viInsertBol | .viAppendEol => true
  | _ => false

/-- The actions that edit; an operator does with its motion. -/
def Action.edits : Action → Bool
  | .basic k => k.edits
  | .operator o => o.motion.isSome
  | _ => false

/-- The actions that move the cursor, switch the Vi state or wait for a motion. -/
def Action.moves : Action → Bool
  | .basic k => k.moves
  | .operator o => o.motion.isNone
  | _ => false

namespace Desk

section Commands

variable (d : Desk) {k : Command} {o : ViOperator}

theorem edits_basicStep (hk : k.edits = true) : d.Edits (d.basicStep k) := by
  cases k
  case deleteChar =>
    rw [basicStep]
    split
    · exact d.edits_bell
    · exact d.edits_applyEdit _
  case backwardDeleteChar =>
    rw [basicStep]
    split
    · exact d.edits_bell
    · exact d.edits_killRange ..
  case killLine | backwardKillLine | killWholeLine | killWord | backwardKillWord | unixWordRubout =>
    exact d.edits_killRange ..
  case transposeChars =>
    rw [basicStep]
    split
    · exact d.edits_applyEdit _
    · exact d.edits_bell
  case yank | viPasteAfter => exact d.edits_yank _
  case viChangeToEnd =>
    have hkill := d.edits_killRange d.session.buffer.cursor d.session.buffer.length
    exact hkill.congr (congrArg Buffer.text (buffer_setVi ..)) (trace_setVi ..)
  all_goals cases hk

theorem moves_basicStep (hk : k.moves = true) :
    (d.basicStep k).session.buffer.text = d.session.buffer.text ∧ (d.basicStep k).trace = d.trace := by
  cases k
  case viInsert => exact ⟨congrArg Buffer.text (d.buffer_setVi _), d.trace_setVi _⟩
  case viCommandMode | viAppend | viInsertBol | viAppendEol =>
    exact ⟨rfl, (trace_refresh ..).trans (d.trace_setVi _)⟩
  case backwardChar | forwardChar | beginningOfLine | endOfLine | backwardWord | forwardWord |
      viForwardWord =>
    exact ⟨rfl, d.trace_refresh _⟩
  all_goals cases hk

theorem acts_basicStep (k : Command) : d.trace.Acts d.session.buffer (d.basicStep k).trace := by
  have hkeeps : ∀ {d' : Desk}, d'.trace = d.trace → d.trace.Acts d.session.buffer d'.trace := by
    intro d' h
    rw [h]
    exact .refl ..
  by_cases hedits : k.edits = true
  · exact (d.edits_basicStep hedits).acts
  by_cases hmoves : k.moves = true
  · exact hkeeps (d.moves_basicStep hmoves).2
  cases k
  case undo => exact d.acts_undoEdit
  case previousHistory | nextHistory => exact hkeeps (d.trace_showFetched _)
  case clearScreen => exact hkeeps d.trace_clearScreen
  case interrupt => exact d.edits_bell.acts
  case acceptLine | reverseSearchHistory | forwardSearchHistory | complete | viDeleteOperator |
      viChangeOperator =>
    exact hkeeps (d.trace_log ..)
  all_goals first
    | exact absurd rfl hedits
    | exact absurd rfl hmoves

theorem edits_operate : d.Edits (d.operate o) := by
  rw [operate]
  split
  · exact d.edits_self
  · split
    · exact d.edits_bell
    · rename_i span _
      dsimp only
      have hkill : d.Edits ((d.log .debug .viOperator "vi operator" [("operation",
          .name o.operation.name), ("range", .plain (describeSpan span))]).killRange
            span.1 span.2) := by
        rcases edits_killRange (d.log ..) span.1 span.2 with ⟨htext, rings, h⟩ | h
        · exact .inl ⟨htext, rings, h.trans (by rw [trace_log])⟩
        · exact .inr (h.trans (by rw [trace_log]; rfl))
      split
      · exact hkill.congr (congrArg Buffer.text (buffer_setVi ..)) (trace_setVi ..)
      · exact hkill

end Commands

/-! ### Searches -/

/-- Work that leaves the snapshots. -/
def Keeps (d d' : Desk) : Prop := ∃ rings, d'.trace = { d.trace with rings }

section Searching

variable {d d' d'' : Desk}

theorem Keeps.refl (d : Desk) : d.Keeps d := ⟨_, rfl⟩

theorem keeps_bell (d : Desk) : d.Keeps d.bell := ⟨_, d.trace_bell⟩

theorem Keeps.congr (h : d.Keeps d') (htrace : d''.trace = d'.trace) : d.Keeps d'' := by
  obtain ⟨rings, h⟩ := h
  exact ⟨rings, htrace.trans h⟩

theorem Keeps.of_eq (htrace : d'.trace = d.trace) : d.Keeps d' := (Keeps.refl d).congr htrace

theorem Keeps.acts (h : d.Keeps d') : d.trace.Acts d.session.buffer d'.trace := by
  obtain ⟨rings, h⟩ := h
  rw [h]
  exact .keeps rings

variable (d) (q : Search)

theorem keeps_takeMatch (r : History × Option Text) : d.Keeps (d.takeMatch q r).2 := by
  rw [takeMatch]
  split
  · exact .of_eq rfl
  · exact keeps_bell { d with history := r.1 }

theorem keeps_searchOn (heading : Direction) : d.Keeps (d.searchOn q heading).2 := by
  rw [searchOn]
  dsimp only
  split
  · exact .refl d
  · split <;> exact d.keeps_takeMatch ..

/-- The first step of a search leaves no trace. -/
theorem trace_startSearch : (d.startSearch q).2.trace = d.trace := by
  rw [startSearch]
  dsimp only
  split
  · split
    · exact trace_setVi ..
    · exact trace_setVi ..
  · split <;> rfl

theorem keeps_extendSearch : d.Keeps (d.extendSearch q).2 := by
  rw [extendSearch]
  dsimp only
  split
  · exact .of_eq rfl
  · exact keeps_bell { d with history := (d.history.search q.query).1 }

theorem keeps_shortenSearch : d.Keeps (d.shortenSearch q).2 := by
  refine .of_eq ?_
  rw [shortenSearch]
  dsimp only
  split <;> rfl

theorem keeps_searchStep : d.Keeps (d.searchStep q).2 := by
  rw [searchStep]
  cases q.status
  case notStarted => exact .of_eq (d.trace_startSearch q)
  case input => exact d.keeps_extendSearch q
  case previous => exact d.keeps_searchOn q _
  case next => exact d.keeps_searchOn q _
  case delete => exact d.keeps_shortenSearch q
  case accept =>
    refine .of_eq ?_
    dsimp only
    split
    · exact d.trace_refresh _
    · exact d.trace_refresh _
  case exit | moveRight | interrupt => exact .of_eq (d.trace_refresh _)
  case movePrevious => exact .of_eq (trace_refresh { d with history := d.history.previous.1 } _)
  case moveNext => exact .of_eq (trace_refresh { d with history := d.history.next.1 } _)

/-- What a step did is all the trace that a search leaves. -/
theorem trace_search : (d.search q).2.trace = (d.searchStep q).2.trace := by
  have hdone : ∀ (d' : Desk) (level : Log.Level) (site : Log.Site) (message : String)
      (fields : List (String × Log.Value)) (history : History),
      ({ d'.log level site message fields with history } : Desk).trace = d'.trace :=
    fun d' level site message fields _ => d'.trace_log level site message fields
  rw [search]
  refine (trace_resume _).trans ?_
  dsimp only
  split
  · exact trace_refreshWith ..
  · exact hdone ..

/-- A search leaves the snapshots. -/
theorem keeps_search : d.Keeps (d.search q).2 := (d.keeps_searchStep q).congr (d.trace_search q)

end Searching

/-! ### Completion and accepting -/

section Completing

variable (d : Desk)

theorem edits_replaceWord (t : Text) : d.Edits (d.replaceWord t) := by
  rw [replaceWord]
  split
  · exact d.edits_applyEdit _
  · exact d.edits_bell

@[simp] theorem trace_listCandidates (candidates : List Text) :
    (d.listCandidates candidates).trace = d.trace := by
  rw [listCandidates, trace_redraw, trace_write]

@[simp] theorem trace_askBeforeListing (count : Nat) :
    (d.askBeforeListing count).trace = d.trace := by
  rw [askBeforeListing, trace_write, trace_newLine]

theorem acts_completeFrom (h : CandidateHandler) :
    d.trace.Acts d.session.buffer (d.completeFrom h).2.trace := by
  have hkeeps : ∀ {d' : Desk}, d'.trace = d.trace → d.trace.Acts d.session.buffer d'.trace :=
    fun htrace => (Keeps.of_eq htrace).acts
  rw [completeFrom]
  split
  · refine hkeeps ?_
    rw [trace_listCandidates, trace_write]
  · let fields : List (String × Log.Value) := [("word", .quoted d.session.buffer.word),
      ("candidates", .number (h.completer.candidates d.session.buffer.word).length)]
    have hlog : (d.log .debug .completion "complete" fields).trace = d.trace := d.trace_log ..
    have hshown : (d.log .debug .completion "complete" fields).session.buffer = d.session.buffer := rfl
    dsimp only
    generalize d.log .debug .completion "complete" fields = l at hlog hshown ⊢
    have hreplace : ∀ t, d.trace.Acts d.session.buffer (l.replaceWord t).trace := by
      intro t
      have hedits := (l.edits_replaceWord t).acts
      rw [hlog, hshown] at hedits
      exact hedits
    split
    · rw [← hlog, ← hshown]
      exact l.keeps_bell.acts
    · exact hreplace _
    · split
      · exact hreplace _
      · split
        · exact hkeeps ((l.trace_askBeforeListing _).trans hlog)
        · exact hkeeps ((trace_listCandidates ..).trans (l.trace_newLine.trans hlog))

@[simp] theorem trace_setAsk (h : Handler) (ask : Bool) : (d.setAsk h ask).2.trace = d.trace := by
  unfold Desk.setAsk
  split
  · rfl
  · exact d.trace_emit _

@[simp] theorem trace_declineListing :
    d.declineListing.trace = { d.trace with undo := d.undo.clear } := by
  rw [declineListing, trace_resetDisplay, trace_write]
  rfl

@[simp] theorem trace_dropQuestion : d.dropQuestion.trace = d.trace := by
  rw [dropQuestion]
  split
  · rfl
  · exact d.trace_setAsk ..

@[simp] theorem trace_endCompletion (c : Completion) (h : Handler) (deferred : Bool) :
    (d.endCompletion c h deferred).2.trace = d.trace := by
  rw [endCompletion]
  dsimp only
  split
  · exact trace_log ..
  · rfl

/-- A completion that runs no script; one that runs a script has done nothing yet. -/
theorem acts_beginCompletion (c : Completion) :
    match d.beginCompletion c with
    | .finished _ d' => d.trace.Acts d.session.buffer d'.trace
    | .script _ _ d' => d'.trace = d.trace ∧ d'.session.buffer = d.session.buffer := by
  unfold Desk.beginCompletion
  cases d.session.handler with
  | none => exact (d.keeps_bell.congr (trace_resume _)).acts
  | some h =>
    dsimp only
    by_cases hdeclined : (h.asks && !isYes c.answer) = true
    · rw [if_pos hdeclined]
      dsimp only
      rw [trace_endCompletion, trace_declineListing, trace_setAsk]
      have hundo : (Desk.setAsk { d with session.handler := none } h false).2.undo = d.undo :=
        congrArg Trace.undo (trace_setAsk ..)
      rw [hundo]
      exact .clears
    · rw [if_neg hdeclined]
      cases h with
      | candidates h =>
        dsimp only
        rw [trace_endCompletion]
        exact acts_completeFrom { d with session.handler := none } h
      | scripted h => exact ⟨rfl, rfl⟩

@[simp] theorem trace_extendLine (t : Text) (refusal : String) :
    (d.extendLine t refusal).trace = d.trace := by
  rw [extendLine]
  split
  · rfl
  · exact d.trace_log ..

/-- Accepting what is shown drops the snapshots. -/
theorem trace_acceptLine : d.acceptLine.trace = { d.trace with undo := d.undo.clear } := by
  have hshown : (d.newLine.extendLine d.session.buffer.text
      "buffer text rejected by line").trace = d.trace := by rw [trace_extendLine, trace_newLine]
  have hclears : ∀ {d' : Desk}, d'.trace = d.trace →
      (resume { d' with undo := d'.undo.clear }).trace = { d.trace with undo := d.undo.clear } := by
    intro d' h
    have htrace : (resume { d' with undo := d'.undo.clear }).trace =
        { d'.trace with undo := d'.trace.undo.clear } := rfl
    rw [htrace, h]
    rfl
  rw [acceptLine]
  generalize d.newLine.extendLine d.session.buffer.text "buffer text rejected by line" = d' at hshown ⊢
  refine hclears ?_
  split
  · exact (trace_log ..).trans hshown
  · rw [← hshown]
    exact (trace_resetDisplay _).trans (trace_log ..)
  · rw [← hshown]
    exact (trace_resetDisplay _).trans (trace_log ..)

end Completing

/-! ### Actions -/

/-- An action is applied; one that runs a script has done nothing yet. -/
theorem acts_apply (d : Desk) (a : Action) :
    match d.apply a with
    | .finished _ d' => d.trace.Acts d.session.buffer d'.trace
    | .script _ _ d' => d'.trace = d.trace ∧ d'.session.buffer = d.session.buffer := by
  cases a with
  | acceptLine =>
    have htrace := d.trace_acceptLine
    change d.trace.Acts d.session.buffer d.acceptLine.trace
    rw [htrace]
    exact .clears
  | search q => exact (d.keeps_search q).acts
  | complete c =>
    have hstep := d.acts_beginCompletion c
    unfold Desk.apply
    dsimp only
    cases hc : d.beginCompletion c with
    | finished c' d' =>
      rw [hc] at hstep
      exact hstep
    | script c' h d' =>
      rw [hc] at hstep
      exact hstep
  | operator o => exact d.edits_operate.acts
  | basic k => exact d.acts_basicStep k

/-- An action that edits. -/
theorem edits_apply {d d' : Desk} {a a' : Action} (ha : a.edits = true)
    (h : d.apply a = .finished a' d') : d.Edits d' := by
  cases a with
  | basic k =>
    cases h
    exact (d.edits_basicStep ha).congr rfl rfl
  | operator o =>
    cases h
    exact d.edits_operate
  | _ => cases ha

/-- An action that moves the cursor, switches the Vi state or waits for a motion. -/
theorem moves_apply {d d' : Desk} {a a' : Action} (ha : a.moves = true)
    (h : d.apply a = .finished a' d') :
    d'.session.buffer.text = d.session.buffer.text ∧ d'.trace = d.trace := by
  cases a with
  | basic k =>
    cases h
    exact d.moves_basicStep ha
  | operator o =>
    cases h
    rw [operate, Option.isNone_iff_eq_none.1 ha]
    exact ⟨rfl, rfl⟩
  | _ => cases ha

@[simp] theorem trace_settleFocus (d : Desk) (a : Action) : (d.settleFocus a).trace = d.trace := by
  rw [settleFocus]
  split <;> rfl

@[simp] theorem buffer_settleFocus (d : Desk) (a : Action) :
    (d.settleFocus a).session.buffer = d.session.buffer := by
  rw [settleFocus]
  split <;> rfl

theorem trace_beginAction (d : Desk) (a : Action) (e : KeyEvent) :
    (d.beginAction a e).trace = { d.trace with typing := false } := by
  have hlog := d.trace_log .trace .engine "apply" [("action", .quoted a.command.name.toList),
    ("event", .plain e.describe)]
  change { (d.log _ _ _ _).trace with typing := false } = _
  rw [hlog]

theorem rings_beginAction (d : Desk) (a : Action) (event : KeyEvent) :
    (d.beginAction a event).trace.rings = d.trace.rings := by
  rw [trace_beginAction]

end Desk

/-! ### Calls and scripts -/

namespace Desk

section Calls

variable (d : Desk) (size : Size)

/-- Calls from outside leave the snapshots. -/
theorem keeps_answer (k : SessionCall) : d.Keeps (d.answer size k).1 := by
  cases k
  case insert t =>
    rw [answer]
    split
    · exact .of_eq (d.trace_refresh _)
    · exact .refl d
  case refresh b => exact .of_eq (d.trace_refresh b)
  case refreshPrompt p b => exact .of_eq (d.trace_refreshWith b p)
  case redraw => exact .of_eq d.trace_redraw
  case resetDisplay => exact .of_eq d.trace_resetDisplay
  case newLine => exact .of_eq d.trace_newLine
  case clearScreen => exact .of_eq d.trace_clearScreen
  case resize old new => exact .of_eq (d.trace_resize old new)
  case write t => exact .of_eq (d.trace_write t)
  case bell => exact d.keeps_bell
  all_goals exact .of_eq rfl

theorem keeps_answers (calls : List SessionCall) : d.Keeps (d.answers size calls).1 := by
  induction calls generalizing d with
  | nil => exact .refl d
  | cons k calls ih =>
    obtain ⟨rings, hone⟩ := d.keeps_answer size k
    obtain ⟨rings', hrest⟩ := ih (d.answer size k).1
    rw [answers_cons]
    exact ⟨rings', by rw [hrest, hone]⟩

theorem acts_applyInside (k : Command) : d.trace.Acts d.session.buffer (d.applyInside k).trace := by
  have happly := d.acts_apply (.ofCommand k)
  rw [applyInside]
  cases hr : d.apply (.ofCommand k) with
  | finished a d' =>
    rw [hr] at happly
    exact happly
  | script c h d' =>
    rw [hr] at happly
    refine Keeps.acts (.of_eq ?_)
    exact (trace_endCompletion ..).trans happly.1

/-- A step of a script is work like any other. -/
theorem acts_scriptStep (s : ScriptStep) :
    d.trace.Acts d.session.buffer (d.scriptStep size s).trace := by
  have hkeeps : ∀ {d' : Desk}, d'.trace = d.trace → d.trace.Acts d.session.buffer d'.trace :=
    fun htrace => (Keeps.of_eq htrace).acts
  cases s
  case apply k => exact d.acts_applyInside k
  case basic k => exact d.acts_basicStep k
  case killRange first last =>
    rw [scriptStep, trace_note]
    exact (d.edits_killRange first last).acts
  case applyEdit b => exact (d.edits_applyEdit b).acts
  case setVi v => exact hkeeps (d.trace_setVi v)
  case session calls => exact ((d.keeps_answers size calls).congr (trace_note ..)).acts
  case probe | newestKill | undoDepth | queryItems => exact hkeeps (d.trace_note _)
  case history c => exact hkeeps (trace_note { d with history := (c.run d.history).1 } _)
  all_goals exact hkeeps rfl

/-- An interrupt drops the snapshots, and no typed run is going on then. -/
theorem trace_startOver :
    d.startOver.trace = { d.trace with undo := d.undo.clear, typing := false } := by
  have hleft : ((d.log .debug .engine "interrupt" []).newLine.dropQuestion).trace = d.trace := by
    rw [trace_dropQuestion, trace_newLine, trace_log]
  have hover : ∀ l : Desk, (Desk.redraw { toEditor := l.toEditor.freshLine
                                          session := l.session.restart }).trace =
      { l.trace with undo := l.trace.undo.clear, typing := false } := fun _ => trace_redraw _
  rw [startOver, hover, hleft]
  rfl

end Calls

end Desk

end LineEditor
