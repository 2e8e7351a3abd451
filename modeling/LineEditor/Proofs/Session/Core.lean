import LineEditor.Proofs.Session.Kept

/-!
What lines, events, calls and scripts change. Accepting extends the continuation lines and ends the session
where they are complete; an event does what its action does, an interrupt drops what was typed, and calls
and the steps of scripts each have their own share.

Main definitions: `Desk.givenBy`, `Desk.endsBy` and `Desk.entersBy`, what an event leaves in the queue, what
it ends the session with and what it accepts; `SessionCall.ends`, `SessionCall.holding` and
`SessionCall.sets`, the same for calls. Main statements: `Desk.kept_dispatch` for events,
`Desk.kept_startOver` for an interrupt, `Desk.kept_answers` for calls and `Desk.kept_scriptStep` for the
steps of a script.
-/
namespace LineEditor

/-! ### Lines -/

/-- The outcome of a session that is ended with some lines, or at the end of file: the last one
counts. -/
def Outcome.after (outcome : Outcome) (ends : List (Option Text)) : Outcome :=
  ends.foldl (fun _ line => .ofLine line) outcome

/-- Continuation lines that are not complete go on behind the continuation prompt. -/
def Setting.continued (k : Setting) : Setting :=
  match QuoteStatus.scan k.line.text with
  | .complete => k
  | status => { k with line := k.line.continued status, current := k.continuation }

/-- What accepting a text does: it extends the continuation lines, which are complete or go on. -/
def Setting.entered (k : Setting) (t : Text) : Setting :=
  Setting.continued { k with line := k.line.extended t }

/-- Input is left in the queue, the session is ended and texts are accepted. -/
def Kept.after (k : Kept) (given : Text) (ends : List (Option Text)) (enters : List Text) : Kept where
  core := { k.core with
    queue := k.core.queue.append given
    outcome := k.core.outcome.after ends }
  setting := enters.foldl Setting.entered k.setting
  kills := k.kills

@[simp] theorem Kept.after_nil (k : Kept) : k.after [] [] [] = k := by
  rw [after, EventQueue.append_nil]
  rfl

namespace Desk

/-- What accepting ends the session with; nothing if reading goes on. -/
def acceptedLine (d : Desk) : List (Option Text) :=
  let line := d.session.line.extended d.session.buffer.text
  match QuoteStatus.scan line.text with
  | .complete => [some line.text]
  | .escaping | .quoted => []

/-- A text goes to the continuation lines, below what is shown. -/
theorem kept_extendLine_newLine (d : Desk) (t : Text) (refusal : String) :
    (d.newLine.extendLine t refusal).kept =
      { d.kept with setting := { d.setting with line := d.setting.line.extended t } } :=
  (kept_extendLine ..).trans (congrArg (fun k : Kept => { k with
    setting := { k.setting with line := k.setting.line.extended t } }) d.kept_newLine)

theorem line_extendLine_newLine (d : Desk) (t : Text) (refusal : String) :
    (d.newLine.extendLine t refusal).session.line = d.session.line.extended t :=
  congrArg (fun k : Kept => k.setting.line) (d.kept_extendLine_newLine t refusal)

theorem kept_acceptLine (d : Desk) : d.acceptLine.kept =
    (d.kept.after [] d.acceptedLine [d.session.buffer.text]).resumed := by
  have hkept := d.kept_extendLine_newLine d.session.buffer.text "buffer text rejected by line"
  rw [acceptLine]
  dsimp only
  generalize d.newLine.extendLine d.session.buffer.text "buffer text rejected by line" = d' at hkept ⊢
  have hline : d'.session.line = d.session.line.extended d.session.buffer.text :=
    congrArg (fun k : Kept => k.setting.line) hkept
  have hafter : d.kept.after [] d.acceptedLine [d.session.buffer.text] = { d'.kept with
      core := { d'.kept.core with outcome := d'.kept.core.outcome.after d.acceptedLine }
      setting := d'.kept.setting.continued } := by
    rw [hkept, Kept.after, EventQueue.append_nil]
    rfl
  have hsame : d'.kept.setting.line = d'.session.line := rfl
  rw [hafter, acceptedLine, ← hline, Setting.continued, hsame]
  generalize QuoteStatus.scan d'.session.line.text = status
  cases status <;> rfl

/-! ### Actions and events -/

/-- What an action ends the session with when it is applied. -/
def ends (d : Desk) : Action → List (Option Text)
  | .acceptLine => d.acceptedLine
  | _ => []

/-- The texts that an action accepts when it is applied. -/
def enters (d : Desk) : Action → List Text
  | .acceptLine => [d.session.buffer.text]
  | _ => []

end Desk

/-- What an action leaves in the queue when it is applied. -/
def Action.given : Action → Text
  | .search q => q.given
  | _ => []

namespace Desk

/-- What an event leaves in the queue when it is handled. -/
def givenBy (d : Desk) (e : KeyEvent) : Text := ((d.actionFor e).map Action.given).getD []

/-- What an event ends the session with when it is handled. -/
def endsBy (d : Desk) (e : KeyEvent) : List (Option Text) := ((d.actionFor e).map d.ends).getD []

/-- The texts that an event accepts when it is handled. -/
def entersBy (d : Desk) (e : KeyEvent) : List Text := ((d.actionFor e).map d.enters).getD []

section Events

variable (d : Desk)

/-- Only a completion runs a script, and it neither accepts a line nor leaves input then. -/
theorem kept_apply (a : Action) :
    match d.apply a with
    | .finished _ d' => d'.kept =
      { (d.kept.after a.given (d.ends a) (d.enters a)).resumed with kills := d'.kills }
    | .script _ _ d' => d'.kept = d.kept ∧ a.given = [] ∧ d.ends a = [] ∧ d.enters a = [] := by
  cases a with
  | acceptLine => exact kept_kills d.kept_acceptLine
  | search q => exact kept_kills (d.kept_search q)
  | complete c =>
    have hstep := d.kept_beginCompletion c
    unfold Desk.apply
    dsimp only
    cases hc : d.beginCompletion c with
    | finished c' d' =>
      rw [hc] at hstep
      change d'.kept = { (d.kept.after [] [] []).resumed with kills := d'.kills }
      rw [Kept.after_nil]
      exact kept_kills hstep
    | script c' h d' =>
      rw [hc] at hstep
      exact ⟨hstep, rfl, rfl, rfl⟩
  | operator o =>
    change (d.operate o).kept = { (d.kept.after [] [] []).resumed with kills := (d.operate o).kills }
    rw [Kept.after_nil]
    exact d.kept_operate o
  | basic k =>
    change (d.basic k).kept = { (d.kept.after [] [] []).resumed with kills := (d.basic k).kills }
    rw [Kept.after_nil]
    exact d.kept_basic k

theorem ends_beginAction (a b : Action) (e : KeyEvent) : (d.beginAction a e).ends b = d.ends b := by
  cases b <;> rfl

theorem enters_beginAction (a b : Action) (e : KeyEvent) :
    (d.beginAction a e).enters b = d.enters b := by
  cases b <;> rfl

/-- An event may accept what is shown, end the line and leave input in the queue; if a script has to be run
the session waits for it. -/
theorem kept_dispatch (e : KeyEvent) (hlisten : d.session.paused = false) :
    match d.dispatch e with
    | .finished d' => d'.kept =
      { d.kept.after (d.givenBy e) (d.endsBy e) (d.entersBy e) with kills := d'.kills }
    | .script _ _ d' => d'.kept = { d.kept with core := { d.core with paused := true } } ∧
      d.givenBy e = [] ∧ d.endsBy e = [] ∧ d.entersBy e = [] := by
  have hresumed : d.kept.resumed = d.kept := by
    rw [Kept.resumed, ← hlisten]
    rfl
  unfold Desk.dispatch Desk.givenBy Desk.endsBy Desk.entersBy
  cases d.actionFor e with
  | none =>
    dsimp only
    rw [Option.map_none, Option.map_none, Option.map_none, Option.getD_none, Option.getD_none,
      Option.getD_none, Kept.after_nil]
    exact kept_kills (d.kept_selfInsert e)
  | some a =>
    have happly := (d.beginAction a e).kept_apply a
    rw [ends_beginAction, enters_beginAction] at happly
    dsimp only
    cases hr : (d.beginAction a e).apply a with
    | finished a' d' =>
      rw [hr] at happly
      have hkept : (d'.settleFocus a').kept =
          { d.kept.resumed.after a.given (d.ends a) (d.enters a) with kills := d'.kills } :=
        (kept_settleFocus ..).trans happly
      rw [hresumed] at hkept
      exact (kept_kills hkept :)
    | script c h d' =>
      rw [hr] at happly
      exact happly

theorem core_dispatch (e : KeyEvent) (hlisten : d.session.paused = false) :
    match d.dispatch e with
    | .finished d' => d'.core =
      { d.core with
        queue := d.core.queue.append (d.givenBy e)
        outcome := d.core.outcome.after (d.endsBy e) }
    | .script _ _ d' =>
      d'.core = { d.core with paused := true } ∧ d.givenBy e = [] ∧ d.endsBy e = [] := by
  have hkept := d.kept_dispatch e hlisten
  cases hd : d.dispatch e with
  | finished d' =>
    rw [hd] at hkept
    exact congrArg Kept.core hkept
  | script c h d' =>
    rw [hd] at hkept
    obtain ⟨hkept, hgiven, hends, -⟩ := hkept
    exact ⟨congrArg Kept.core hkept, hgiven, hends⟩

/-- An interrupt drops what was typed. -/
theorem kept_startOver : d.startOver.kept = { d.kept with
    core := { d.core with outcome := .reading, paused := false }
    setting := { d.setting with current := d.setting.prompt, line := .empty } } := by
  have hdrop : ((d.log .debug .engine "interrupt" []).newLine.dropQuestion).kept = d.kept := by
    rw [kept_dropQuestion, kept_newLine, kept_log]
  exact congrArg (fun k : Kept => { k with
    core := { k.core with outcome := .reading, paused := false }
    setting := { k.setting with current := k.setting.prompt, line := .empty } }) hdrop

theorem core_startOver : d.startOver.core = { d.core with outcome := .reading, paused := false } :=
  congrArg Kept.core d.kept_startOver

end Events

end Desk

/-! ### Calls from outside -/

namespace SessionCall

/-- What some calls end the session with. -/
def ends (calls : List SessionCall) : List (Option Text) :=
  calls.filterMap fun
    | .finish line => some line
    | _ => none

/-- Whether input is held back after a call. -/
def holding (paused : Bool) : SessionCall → Bool
  | .pause => true
  | .resume => false
  | _ => paused

/-- What a call does to the setting. -/
def sets (k : Setting) : SessionCall → Setting
  | .setPrompt current => { k with current }
  | .setLine t => { k with line := .ofText t }
  | .resize _ width => { k with width }
  | _ => k

end SessionCall

namespace Desk

variable (d : Desk) (size : Size)

theorem kept_answer (k : SessionCall) : (d.answer size k).1.kept = { d.kept with
    core := { d.core with
      outcome := d.core.outcome.after (SessionCall.ends [k])
      paused := k.holding d.core.paused }
    setting := k.sets d.setting } := by
  cases k
  case insert t =>
    unfold Desk.answer
    dsimp only
    split
    · exact kept_refresh ..
    · rfl
  case refresh b => exact d.kept_refresh b
  case refreshPrompt p b => exact d.kept_refreshWith b p
  case newLine => exact d.kept_newLine
  case clearScreen => exact d.kept_clearScreen
  case resize old new => exact d.kept_resize old new
  case write t => exact d.kept_write t
  all_goals rfl

theorem answers_cons (k : SessionCall) (calls : List SessionCall) :
    (d.answers size (k :: calls)).1 = ((d.answer size k).1.answers size calls).1 := by
  simp [Desk.answers, collectEach, collect_cons]

/-- Calls may end the line, hold input back and change the setting. -/
theorem kept_answers (calls : List SessionCall) : (d.answers size calls).1.kept = { d.kept with
    core := { d.core with
      outcome := d.core.outcome.after (SessionCall.ends calls)
      paused := calls.foldl SessionCall.holding d.core.paused }
    setting := calls.foldl SessionCall.sets d.setting } := by
  induction calls generalizing d with
  | nil => rfl
  | cons k calls ih =>
    have hends : ∀ outcome : Outcome, (outcome.after (SessionCall.ends [k])).after
        (SessionCall.ends calls) = outcome.after (SessionCall.ends (k :: calls)) := by
      intro outcome
      cases k <;> rfl
    rw [answers_cons, ih, ← hends]
    exact congrArg (fun l : Kept => { l with
      core := { l.core with
        outcome := l.core.outcome.after (SessionCall.ends calls)
        paused := calls.foldl SessionCall.holding l.core.paused }
      setting := calls.foldl SessionCall.sets l.setting }) (d.kept_answer size k)

theorem core_answers (calls : List SessionCall) : (d.answers size calls).1.core =
    { d.core with
      outcome := d.core.outcome.after (SessionCall.ends calls)
      paused := calls.foldl SessionCall.holding d.core.paused } :=
  congrArg Kept.core (d.kept_answers size calls)

/-- Calls that neither pause nor resume leave the pause as it is. -/
theorem foldl_holding {calls : List SessionCall} (h : ∀ k ∈ calls, k ≠ .pause ∧ k ≠ .resume)
    (paused : Bool) : calls.foldl SessionCall.holding paused = paused := by
  induction calls with
  | nil => rfl
  | cons k calls ih =>
    rw [List.forall_mem_cons] at h
    obtain ⟨⟨hpause, hresume⟩, hcalls⟩ := h
    have hk : k.holding paused = paused := by
      cases k
      case pause => exact absurd rfl hpause
      case resume => exact absurd rfl hresume
      all_goals rfl
    rw [List.foldl_cons, hk]
    exact ih hcalls

end Desk

/-! ### Scripts -/

namespace ScriptStep

/-- What a step of a script leaves in the queue. -/
def given : ScriptStep → Text
  | .queue t => t
  | _ => []

/-- What a step of a script ends the session with. -/
def ends (d : Desk) : ScriptStep → List (Option Text)
  | .session calls => SessionCall.ends calls
  | .apply k => d.ends (.ofCommand k)
  | _ => []

/-- The calls of a step of a script. -/
def calls : ScriptStep → List SessionCall
  | .session calls => calls
  | _ => []

/-- The texts that a step of a script accepts. -/
def enters (d : Desk) : ScriptStep → List Text
  | .apply k => d.enters (.ofCommand k)
  | _ => []

end ScriptStep

namespace Desk

variable (d : Desk)

theorem given_ofCommand (k : Command) : (Action.ofCommand k).given = [] := by
  cases k <;> rfl

theorem kept_applyInside (k : Command) : (d.applyInside k).kept =
    { (d.kept.after [] (d.ends (.ofCommand k)) (d.enters (.ofCommand k))).resumed with
      kills := (d.applyInside k).kills } := by
  have happly := d.kept_apply (.ofCommand k)
  unfold Desk.applyInside
  cases hr : d.apply (.ofCommand k) with
  | finished a d' =>
    rw [hr, given_ofCommand] at happly
    exact happly
  | script c h d' =>
    rw [hr] at happly
    obtain ⟨hkept, -, hends, henters⟩ := happly
    rw [hends, henters, Kept.after_nil]
    refine kept_kills ((kept_endCompletion ..).trans ?_)
    rw [Bool.and_false]
    exact congrArg Kept.resumed hkept

/-- A step at the desk may accept what is shown, end the line, leave input in the queue, or call. -/
theorem kept_scriptStep (size : Size) (s : ScriptStep) : ∃ paused, (d.scriptStep size s).kept =
    { core := { d.core with
        queue := d.core.queue.append s.given
        outcome := d.core.outcome.after (s.ends d)
        paused }
      setting := s.calls.foldl SessionCall.sets ((s.enters d).foldl Setting.entered d.setting)
      kills := (d.scriptStep size s).kills } := by
  have hsame : ∀ d' : Desk, d'.kept = { d.kept with kills := d'.kills } → ∃ paused, d'.kept =
      { core := { d.core with queue := d.core.queue.append [], outcome := d.core.outcome, paused }
        setting := d.setting
        kills := d'.kills } := by
    intro d' hkept
    rw [EventQueue.append_nil]
    exact ⟨_, hkept⟩
  cases s
  case queue t => exact ⟨_, rfl⟩
  case apply k => exact ⟨false, d.kept_applyInside k⟩
  case basic k =>
    refine ⟨false, ?_⟩
    change (d.basic k).kept = { (d.kept.after [] [] []).resumed with kills := (d.basic k).kills }
    rw [Kept.after_nil]
    exact d.kept_basic k
  case session calls =>
    refine ⟨calls.foldl SessionCall.holding d.core.paused, ?_⟩
    have hqueue : d.core.queue.append (ScriptStep.session calls).given = d.core.queue :=
      EventQueue.append_nil _
    rw [hqueue]
    exact kept_kills (d.kept_answers size calls)
  case killRange first last => exact hsame _ ((kept_note ..).trans (d.kept_killRange first last))
  case applyEdit b => exact hsame _ (kept_kills (d.kept_applyEdit b))
  case setVi v => exact hsame _ (kept_kills (d.kept_setVi v))
  all_goals exact hsame _ rfl

theorem core_scriptStep (size : Size) (s : ScriptStep) : ∃ paused, (d.scriptStep size s).core =
    { d.core with
      queue := d.core.queue.append s.given
      outcome := d.core.outcome.after (s.ends d)
      paused } := by
  obtain ⟨paused, hkept⟩ := d.kept_scriptStep size s
  exact ⟨paused, congrArg Kept.core hkept⟩

end Desk

end LineEditor
