import LineEditor.Proofs.Session.Core

/-!
What editing does not look at. The style, the key map and the input that waits are read when an event
is taken and bound, and by the commands that switch between inserting and giving commands; everything
else at a desk is done in the same way with others in their place.

Main definitions: `Refit`, others in their place, and `Refit.Hides`, that an action does not look at
them. Main statements: an equation `refit_*` for everything that a desk can do, up to `refit_dispatch`
for events and `refit_answers` for calls.
-/
namespace LineEditor

/-- What both branches come to is what the choice comes to. -/
theorem ite_eq_apply {α β : Type} (f : α → β) {c : Prop} [Decidable c] {x y : α} {x' y' : β}
    (hx : x' = f x) (hy : y' = f y) : (if c then x' else y') = f (if c then x else y) := by
  rw [hx, hy]
  exact (apply_ite f c x y).symm

/-- Others in the place of the style, the key map, the input that waits and the action that has the
focus. -/
structure Refit where
  style : EditStyle → EditStyle := id
  keymap : Keymap → Keymap := id
  queue : EventQueue → EventQueue := id
  focus : Option Action → Option Action := id

/-- An editor with others in their place. -/
def Editor.refit (r : Refit) (d : Editor) : Editor :=
  { d with
    config.style := r.style d.config.style
    keymap := r.keymap d.keymap
    queue := r.queue d.queue }

theorem Editor.refit_freshLine {r : Refit}
    (hreset : ∀ m : Keymap, r.keymap m.reset = (r.keymap m).reset) (d : Editor) :
    (d.refit r).freshLine = d.freshLine.refit r := by
  rw [freshLine, freshLine, refit, refit, hreset]

namespace Desk

/-- A desk with others in their place. -/
def refit (r : Refit) (d : Desk) : Desk :=
  { toEditor := d.toEditor.refit r
    session := { d.session with focus := r.focus d.session.focus } }

end Desk

/-! ### What actions look at -/

/-- The Vi state is set in the same way. -/
def Refit.SetsVi (r : Refit) : Prop :=
  ∀ (d : Desk) (v : ViState), (d.refit r).setVi v = (d.setVi v).refit r

/-- Whether a command switches between inserting and giving commands. -/
def Command.switches : Command → Bool
  | .viCommandMode | .viInsert | .viAppend | .viInsertBol | .viAppendEol | .viChangeToEnd => true
  | _ => false

/-- Whether an action may switch between inserting and giving commands. A search does so where
commands are given. -/
def Action.switches (viCommand : Bool) : Action → Bool
  | .search _ => viCommand
  | .operator _ => true
  | .basic k => k.switches
  | .acceptLine | .complete _ => false

/-- An action does not look at what is put in the place of something else. -/
structure Refit.Hides (r : Refit) (m : Keymap) (a : Action) : Prop where
  /-- Commands are given with both key maps or with neither. -/
  mode : (r.keymap m).isViCommand = m.isViCommand
  setsVi : a.switches m.isViCommand = true → r.SetsVi
  given : ∀ q : EventQueue, r.queue (q.append a.given) = (r.queue q).append a.given

namespace Desk

variable (r : Refit) (d : Desk)

/-! ### Showing -/

section Showing

variable (b : Buffer) (p : Prompt) (t : Text)

@[simp] theorem history_refit : (d.refit r).history = d.history := rfl

@[simp] theorem kills_refit : (d.refit r).kills = d.kills := rfl

@[simp] theorem undo_refit : (d.refit r).undo = d.undo := rfl

@[simp] theorem buffer_refit : (d.refit r).session.buffer = d.session.buffer := rfl

@[simp] theorem line_refit : (d.refit r).session.line = d.session.line := rfl

@[simp] theorem handler_refit : (d.refit r).session.handler = d.session.handler := rfl

theorem refit_log (level : Log.Level) (site : Log.Site) (message : String)
    (fields : List (String × Log.Value)) : (d.refit r).log level site message fields =
      (d.log level site message fields).refit r := rfl

theorem refit_bell : (d.refit r).bell = d.bell.refit r := rfl

theorem refit_write : (d.refit r).write t = (d.write t).refit r := ite_eq_apply (refit r) rfl rfl

theorem refit_refreshWith : (d.refit r).refreshWith p b = (d.refreshWith p b).refit r :=
  congrArg (fun d : Desk => { d with session := { d.session with shown := p, buffer := b } })
    (refit_write r d _)

theorem refit_refresh : (d.refit r).refresh b = (d.refresh b).refit r := refit_refreshWith r d b _

theorem refit_newLine : (d.refit r).newLine = d.newLine.refit r :=
  congrArg (fun d : Desk => { d with session.buffer := d.session.buffer.moveToEnd })
    (refit_write r d _)

theorem refit_clearScreen : (d.refit r).clearScreen = d.clearScreen.refit r :=
  congrArg redraw (refit_write r d _)

theorem refit_resize (old new : Nat) :
    (d.refit r).resize old new = (d.resize old new).refit r :=
  congrArg (fun d : Desk => { d with session.width := new }) (refit_write r (d.log ..) _)

end Showing

/-! ### Editing -/

section Editing

theorem refit_applyEdit (b : Buffer) : (d.refit r).applyEdit b = (d.applyEdit b).refit r :=
  refit_refresh r d.snapshot b

theorem refit_killRange (first last : Nat) :
    (d.refit r).killRange first last = (d.killRange first last).refit r := by
  let cut := d.session.buffer.deleteRange first last
  exact ite_eq_apply (refit r) rfl
    (refit_applyEdit r { d with kills := d.kills.add cut.2 } cut.1)

theorem refit_yank (behind : Bool) : (d.refit r).yank behind = (d.yank behind).refit r := by
  simp only [Desk.yank, kills_refit, buffer_refit]
  cases d.kills.newest? with
  | none => rfl
  | some t =>
    by_cases hbehind : (behind && !d.session.buffer.isEmpty) = true
    all_goals
      simp only [hbehind, ↓reduceIte]
      split
      · exact refit_applyEdit r d _
      · rfl

theorem refit_undoEdit : (d.refit r).undoEdit = d.undoEdit.refit r := by
  simp only [Desk.undoEdit, undo_refit]
  split
  · rename_i undo _
    exact refit_refresh r { d with undo } _
  · rfl

theorem refit_showFetched (x : History × Option Text) :
    (d.refit r).showFetched x = (d.showFetched x).refit r := by
  simp only [Desk.showFetched]
  split
  · exact refit_refresh r { d with history := x.1 } _
  · rfl

theorem refit_resume : (d.refit r).resume = d.resume.refit r := rfl

theorem refit_extendLine (t : Text) (refusal : String) :
    (d.refit r).extendLine t refusal = (d.extendLine t refusal).refit r := by
  simp only [Desk.extendLine, line_refit]
  split
  · rfl
  · rfl

theorem refit_acceptLine : (d.refit r).acceptLine = d.acceptLine.refit r := by
  simp only [Desk.acceptLine, buffer_refit, refit_newLine, refit_extendLine, line_refit]
  generalize d.newLine.extendLine d.session.buffer.text "buffer text rejected by line" = d'
  cases QuoteStatus.scan d'.session.line.text with
  | complete => rfl
  | escaping => rfl
  | quoted => rfl

end Editing

/-! ### Inserting and giving commands -/

section Modes

variable {r d}

theorem refit_selfInsert (hmode : (r.keymap d.keymap).isViCommand = d.keymap.isViCommand)
    (e : KeyEvent) : (d.refit r).selfInsert e = (d.selfInsert e).refit r := by
  cases e with
  | key k => rfl
  | char c =>
    have haccepts : (d.refit r).keymap.acceptsInsertion = d.keymap.acceptsInsertion :=
      congrArg not hmode
    simp only [Desk.selfInsert, haccepts]
    refine ite_eq_apply (refit r) ?_ rfl
    rw [buffer_refit]
    generalize d.session.buffer.insert [c] = x
    cases x with
    | error err => rfl
    | ok b =>
      have hshown : (if d.session.typing = true then d.refit r
          else (d.refit r).snapshot).refresh b =
            ((if d.session.typing = true then d else d.snapshot).refresh b).refit r := by
        rw [← refit_refresh]
        exact congrArg (refresh · b) (ite_eq_apply (refit r) rfl rfl)
      exact congrArg (fun d : Desk => { d with session.typing := true }) hshown

theorem refit_basicStep {k : Command} (hvi : k.switches = true → r.SetsVi) :
    (d.refit r).basicStep k = (d.basicStep k).refit r := by
  cases k
  case viCommandMode | viInsert | viAppend | viInsertBol | viAppendEol | viChangeToEnd =>
    simp only [Desk.basicStep, buffer_refit, refit_refresh, refit_killRange, hvi rfl d,
      hvi rfl (d.killRange ..)]
  all_goals
    simp only [Desk.basicStep, buffer_refit, history_refit, refit_refresh, refit_killRange,
      refit_applyEdit, refit_yank, refit_undoEdit, refit_showFetched, refit_clearScreen,
      refit_bell, refit_log]
  case backwardDeleteChar => exact ite_eq_apply (refit r) rfl rfl
  case deleteChar => exact ite_eq_apply (refit r) rfl rfl
  case transposeChars => cases d.session.buffer.transpose <;> rfl

theorem refit_basic {k : Command} (hvi : k.switches = true → r.SetsVi) :
    (d.refit r).basic k = (d.basic k).refit r := congrArg Desk.resume (refit_basicStep hvi)

theorem refit_operate (hvi : r.SetsVi) (o : ViOperator) :
    (d.refit r).operate o = (d.operate o).refit r := by
  simp only [Desk.operate, buffer_refit, refit_log, refit_killRange]
  split
  · rfl
  · split
    · rfl
    · split
      · exact congrArg resume (hvi _ _)
      · rfl

end Modes

/-! ### Searches -/

/-- A result with a desk at which others are in their place. -/
def refitted {α : Type} (r : Refit) (x : α × Desk) : α × Desk := (x.1, x.2.refit r)

section Searching

variable (s : Search)

theorem refit_takeMatch (x : History × Option Text) :
    (d.refit r).takeMatch s x = refitted r (d.takeMatch s x) := by
  simp only [Desk.takeMatch]
  split
  · rfl
  · rfl

theorem refit_searchOn (heading : Direction) :
    (d.refit r).searchOn s heading = refitted r (d.searchOn s heading) := by
  simp only [Desk.searchOn, history_refit, refit_takeMatch]
  split
  · rfl
  · split
    · rfl
    · rfl

theorem refit_extendSearch : (d.refit r).extendSearch s = refitted r (d.extendSearch s) := by
  simp only [Desk.extendSearch, history_refit]
  split
  · rfl
  · rfl

theorem refit_shortenSearch : (d.refit r).shortenSearch s = refitted r (d.shortenSearch s) := by
  simp only [Desk.shortenSearch, history_refit]
  split
  · rfl
  · rfl

theorem refit_showNeighbour (x : History × Option Text) :
    (d.refit r).showNeighbour s x = (d.showNeighbour s x).refit r :=
  refit_refresh r { d with history := x.1 } _

variable {r d s}

theorem refit_startSearch (hmode : (r.keymap d.keymap).isViCommand = d.keymap.isViCommand)
    (hvi : d.keymap.isViCommand = true → r.SetsVi) :
    (d.refit r).startSearch s = refitted r (d.startSearch s) := by
  -- the first search of the text of the line, once commands are not taken any more
  let searched : Desk → Search × Desk := fun d =>
    if d.session.buffer.text.isEmpty then ({ s with status := .input }, d)
    else
      let x := d.history.search d.session.buffer.text
      ({ s with status := .input, result := x.2, query := d.session.buffer.text },
        { d with history := x.1 })
  have hsearched : ∀ d : Desk, searched (d.refit r) = refitted r (searched d) := by
    intro d
    exact ite_eq_apply (refitted r) rfl rfl
  let aimed : Desk := { d with history := d.history.resetSearch.aim s.direction }
  have haimed : (if (d.refit r).keymap.isViCommand then (aimed.refit r).setVi .insert
      else aimed.refit r) =
      refit r (if d.keymap.isViCommand then aimed.setVi .insert else aimed) := by
    rw [show (d.refit r).keymap.isViCommand = d.keymap.isViCommand from hmode]
    cases hcommand : d.keymap.isViCommand with
    | true => exact hvi hcommand aimed .insert
    | false => rfl
  exact (congrArg searched haimed).trans (hsearched _)

theorem refit_searchStep (hmode : (r.keymap d.keymap).isViCommand = d.keymap.isViCommand)
    (hvi : d.keymap.isViCommand = true → r.SetsVi)
    (hgiven : ∀ q, r.queue (q.append s.given) = (r.queue q).append s.given) :
    (d.refit r).searchStep s = refitted r (d.searchStep s) := by
  obtain ⟨direction, status, query, result⟩ := s
  cases status
  case notStarted => exact refit_startSearch hmode hvi
  case input => exact refit_extendSearch r d _
  case previous => exact refit_searchOn r d _ _
  case next => exact refit_searchOn r d _ _
  case delete => exact refit_shortenSearch r d _
  case accept =>
    cases result with
    | none => exact congrArg (Prod.mk _) (refit_refresh r d _)
    | some t =>
      simp only [Desk.searchStep, refit_refresh, Option.isSome_some, if_true]
      generalize d.refresh _ = d'
      refine congrArg (Prod.mk _) ?_
      change { d'.refit r with queue := (r.queue d'.queue).append Key.enter.codePoints } = _
      rw [show (r.queue d'.queue).append Key.enter.codePoints =
        r.queue (d'.queue.append Key.enter.codePoints) from (hgiven _).symm]
      rfl
  case exit => exact congrArg (Prod.mk _) (refit_refresh r d _)
  case moveRight => exact congrArg (Prod.mk _) (refit_refresh r d _)
  case interrupt => exact congrArg (Prod.mk _) (refit_refresh r d _)
  case movePrevious => exact congrArg (Prod.mk _) (refit_showNeighbour r d _ _)
  case moveNext => exact congrArg (Prod.mk _) (refit_showNeighbour r d _ _)

theorem refit_search (hmode : (r.keymap d.keymap).isViCommand = d.keymap.isViCommand)
    (hvi : d.keymap.isViCommand = true → r.SetsVi)
    (hgiven : ∀ q, r.queue (q.append s.given) = (r.queue q).append s.given) :
    (d.refit r).search s = refitted r (d.search s) := by
  simp only [Desk.search, refit_searchStep hmode hvi hgiven, refitted]
  generalize d.searchStep s = x
  refine Prod.ext rfl (.trans (congrArg resume ?_) (refit_resume r _))
  exact ite_eq_apply (refit r) (refit_refreshWith r x.2 _ _) rfl

end Searching

/-! ### Completion -/

section Completing

theorem refit_replaceWord (t : Text) :
    (d.refit r).replaceWord t = (d.replaceWord t).refit r := by
  simp only [Desk.replaceWord, buffer_refit]
  split
  · exact refit_applyEdit r d _
  · rfl

theorem refit_listCandidates (candidates : List Text) :
    (d.refit r).listCandidates candidates = (d.listCandidates candidates).refit r :=
  congrArg Desk.redraw (refit_write r d _)

theorem refit_askBeforeListing (count : Nat) :
    (d.refit r).askBeforeListing count = (d.askBeforeListing count).refit r := by
  rw [Desk.askBeforeListing, refit_newLine, refit_write]
  rfl

theorem refit_completeFrom (h : CandidateHandler) :
    (d.refit r).completeFrom h = refitted r (d.completeFrom h) := by
  have hitems : ∀ d : Desk, (d.refit r).config.queryItems = d.config.queryItems := fun _ => rfl
  simp only [Desk.completeFrom, refit_write, refit_listCandidates, buffer_refit, refit_log,
    refit_bell, refit_replaceWord, hitems, refit_askBeforeListing, refit_newLine]
  split
  · rfl
  · split
    · rfl
    · rfl
    · split
      · rfl
      · split
        · rfl
        · rfl

theorem refit_setAsk (h : Handler) (ask : Bool) :
    (d.refit r).setAsk h ask = refitted r (d.setAsk h ask) := by
  cases h with
  | candidates h => rfl
  | scripted h => rfl

theorem refit_declineListing : (d.refit r).declineListing = d.declineListing.refit r :=
  congrArg Desk.resetDisplay (refit_write r { d with undo := d.undo.clear } _)

theorem refit_dropQuestion : (d.refit r).dropQuestion = d.dropQuestion.refit r := by
  simp only [Desk.dropQuestion, handler_refit, refit_setAsk]
  split
  · rfl
  · rfl

theorem refit_endCompletion (c : Completion) (h : Handler) (deferred : Bool) :
    (d.refit r).endCompletion c h deferred = refitted r (d.endCompletion c h deferred) :=
  congrArg (Prod.mk _) (ite_eq_apply (refit r) rfl rfl)

end Completing

/-- A completion with others in their place. -/
def CompletionStep.refit (r : Refit) : CompletionStep → CompletionStep
  | .finished c d => .finished c (d.refit r)
  | .script c h d => .script c h (d.refit r)

theorem refit_beginCompletion (c : Completion) :
    (d.refit r).beginCompletion c = (d.beginCompletion c).refit r := by
  have hdeclined : ∀ (d : Desk) (c : Completion) (h : Handler),
      ((d.refit r).setAsk h false).2.declineListing.endCompletion c
        ((d.refit r).setAsk h false).1 false =
      refitted r
        ((d.setAsk h false).2.declineListing.endCompletion c (d.setAsk h false).1 false) := by
    intro d c h
    rw [refit_setAsk]
    simp only [refitted]
    rw [refit_declineListing, refit_endCompletion]
    rfl
  have hcompleted : ∀ (d : Desk) (c : Completion) (h : CandidateHandler),
      ((d.refit r).completeFrom h).2.endCompletion c
        (.candidates ((d.refit r).completeFrom h).1) false =
      refitted r
        ((d.completeFrom h).2.endCompletion c (.candidates (d.completeFrom h).1) false) := by
    intro d c h
    rw [refit_completeFrom]
    simp only [refitted]
    rw [refit_endCompletion]
    rfl
  simp only [Desk.beginCompletion, handler_refit]
  cases d.session.handler with
  | none => rfl
  | some h =>
    refine ite_eq_apply (CompletionStep.refit r) ?_ ?_
    · exact congrArg (fun x => CompletionStep.finished x.1 x.2)
        (hdeclined { d with session.handler := none } _ h)
    · cases h with
      | candidates h =>
        exact congrArg (fun x => CompletionStep.finished x.1 x.2)
          (hcompleted { d with session.handler := none } _ h)
      | scripted h => rfl

/-! ### Events -/

/-- An application with others in their place. -/
def Applied.refit (r : Refit) : Applied → Applied
  | .finished a d => .finished a (d.refit r)
  | .script c h d => .script c h (d.refit r)

/-- An event's handling with others in their place. -/
def Dispatched.refit (r : Refit) : Dispatched → Dispatched
  | .finished d => .finished (d.refit r)
  | .script c h d => .script c h (d.refit r)

section Events

variable {r d}

theorem refit_apply {a : Action} (h : r.Hides d.keymap a) :
    (d.refit r).apply a = (d.apply a).refit r := by
  cases a with
  | acceptLine => exact congrArg (Applied.finished _) (refit_acceptLine r d)
  | search s =>
    simp only [Desk.apply, refit_search h.mode h.setsVi h.given]
    rfl
  | complete c =>
    simp only [Desk.apply, refit_beginCompletion]
    cases d.beginCompletion c with
    | finished c d => rfl
    | script c h d => rfl
  | operator o => exact congrArg (Applied.finished _) (refit_operate (h.setsVi rfl) o)
  | basic k => exact congrArg (Applied.finished _) (refit_basic h.setsVi)

theorem refit_settleFocus (hfocus : r.focus = id) (a : Action) :
    (d.refit r).settleFocus a = (d.settleFocus a).refit r := by
  refine ite_eq_apply (refit r) ?_ rfl
  rw [refit, refit, hfocus]
  rfl

/-- An event is handled in the same way if it is bound in the same way and its action does not look at
what changed. -/
theorem refit_dispatch {e : KeyEvent}
    (hmode : (r.keymap d.keymap).isViCommand = d.keymap.isViCommand)
    (hbound : (r.keymap d.keymap).lookup? e = d.keymap.lookup? e) (hfocus : r.focus = id)
    (haction : ∀ a, d.actionFor e = some a → r.Hides d.keymap a) :
    (d.refit r).dispatch e = (d.dispatch e).refit r := by
  have hsame : (d.refit r).actionFor e = d.actionFor e := by
    have hsame : (d.refit r).session.focus = d.session.focus := congrFun hfocus _
    rw [Desk.actionFor, Desk.actionFor, show (d.refit r).keymap.lookup? e = _ from hbound, hsame]
  simp only [Desk.dispatch, hsame]
  cases ha : d.actionFor e with
  | none => exact congrArg Dispatched.finished (refit_selfInsert hmode e)
  | some a =>
    have hbegun : (d.refit r).beginAction a e = (d.beginAction a e).refit r := by
      rw [refit, refit, hfocus]
      rfl
    have hhides : r.Hides (d.beginAction a e).keymap a := haction a ha
    dsimp only
    rw [hbegun, refit_apply hhides]
    cases (d.beginAction a e).apply a with
    | finished a d => exact congrArg Dispatched.finished (refit_settleFocus hfocus a)
    | script c h d => rfl

theorem refit_startOver (hreset : ∀ m : Keymap, r.keymap m.reset = (r.keymap m).reset)
    (hfocus : r.focus none = none) :
    (d.refit r).startOver = d.startOver.refit r := by
  have hdropped : (((d.refit r).log .debug .engine "interrupt" []).newLine).dropQuestion =
      ((d.log .debug .engine "interrupt" []).newLine.dropQuestion).refit r := by
    rw [refit_log, refit_newLine, refit_dropQuestion]
  rw [Desk.startOver, Desk.startOver, hdropped]
  generalize (d.log .debug .engine "interrupt" []).newLine.dropQuestion = d'
  have hrestarted : Desk.mk (d'.refit r).toEditor.freshLine (d'.refit r).session.restart =
      (Desk.mk d'.toEditor.freshLine d'.session.restart).refit r := by
    rw [refit, refit, ← Editor.refit_freshLine hreset, show d'.session.restart.focus = none from rfl,
      hfocus]
    rfl
  exact congrArg redraw hrestarted

end Events

/-! ### Calls -/

section Calls

variable (size : Size)

/-- An answer with the desk at which others are in their place. -/
def refitAnswer {α : Type} (r : Refit) (x : Desk × α) : Desk × α := (x.1.refit r, x.2)

theorem refit_answer (hfocus : (r.focus d.session.focus).isSome = d.session.focus.isSome)
    (k : SessionCall) : (d.refit r).answer size k = refitAnswer r (d.answer size k) := by
  cases k
  case refresh b => exact congrArg (Prod.mk · _) (refit_refresh r d b)
  case refreshPrompt p b => exact congrArg (Prod.mk · _) (refit_refreshWith r d b p)
  case insert t =>
    simp only [Desk.answer, buffer_refit]
    split
    · exact congrArg (Prod.mk · _) (refit_refresh r d _)
    · rfl
  case newLine => exact congrArg (Prod.mk · _) (refit_newLine r d)
  case clearScreen => exact congrArg (Prod.mk · _) (refit_clearScreen r d)
  case resize old new => exact congrArg (Prod.mk · _) (refit_resize r d old new)
  case write t => exact congrArg (Prod.mk · _) (refit_write r d t)
  case info =>
    have hinfo : (d.refit r).session.info size = d.session.info size := by
      rw [Session.info, Session.info,
        show (d.refit r).session.focus.isSome = d.session.focus.isSome from hfocus]
      rfl
    exact congrArg (fun i => (d.refit r, Reply.info i)) hinfo
  all_goals rfl

/-- A call leaves the focus. -/
theorem focus_answer (k : SessionCall) : (d.answer size k).1.session.focus = d.session.focus :=
  congrArg (fun x : Desk × Reply => x.1.session.focus)
    (refit_answer { focus := fun _ => d.session.focus } d size rfl k)

theorem refit_answers (hfocus : (r.focus d.session.focus).isSome = d.session.focus.isSome)
    (calls : List SessionCall) :
    (d.refit r).answers size calls = refitAnswer r (d.answers size calls) := by
  induction calls generalizing d with
  | nil => rfl
  | cons k calls ih =>
    have hnext : (r.focus (d.answer size k).1.session.focus).isSome =
        (d.answer size k).1.session.focus.isSome := by
      rw [focus_answer]
      exact hfocus
    have hcons : ∀ d : Desk, d.answers size (k :: calls) =
        ((((d.answer size k).1).answers size calls).1,
          (d.answer size k).2 :: (((d.answer size k).1).answers size calls).2) := by
      intro d
      simp [Desk.answers, collectEach, collect_cons]
    rw [hcons, hcons, refit_answer r d size hfocus]
    simp only [refitAnswer]
    rw [ih _ hnext]
    rfl

end Calls

end Desk

end LineEditor
