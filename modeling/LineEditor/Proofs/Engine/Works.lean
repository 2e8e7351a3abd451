import LineEditor.Proofs.Engine.Core

/-!
All that work on a session does to its line. Whatever is done, the session keeps its connection, its
callback, its prompts and the handlers to put back until it is over; and the continuation lines change
by what is accepted, by an interrupt and by calls that replace them only.

Main definitions: `Entry`, `Session.line?`, the continuation lines of a session that has not ended, and
`Session.Works` and `Engine.Works`. Main statements: `works_handle`, `works_resume`, `works_answers`,
`works_scriptStep`, `works_afterScript` and `works_resized`, one for each kind of work.
-/
namespace LineEditor

/-- What is done to the line that is read. -/
inductive Entry where
  /-- Reading begins, with nothing typed. -/
  | begun
  /-- What is shown is accepted. -/
  | entered (t : Text)
  /-- The continuation lines are replaced. -/
  | replaced (t : Text)
  deriving DecidableEq, Repr

/-- Continuation lines behind which a text is accepted; none if they are complete then. -/
def Buffer.entered? (line : Buffer) (t : Text) : Option Buffer :=
  match QuoteStatus.scan (line.extended t).text with
  | .complete => none
  | status => some ((line.extended t).continued status)

/-- What an entry does to the continuation lines. -/
def Entry.line? (line : Option Buffer) : Entry → Option Buffer
  | .begun => some .empty
  | .entered t => line.bind (Buffer.entered? · t)
  | .replaced t => line.map fun _ => .ofText t

/-- The continuation lines of a session that has not ended. -/
def Session.line? (s : Session) : Option Buffer :=
  match s.outcome with
  | .reading => some s.line
  | _ => none

/-- What a session keeps until it is over. -/
structure Terms where
  conn : Nat
  callback : Nat
  previous : Handlers
  prompt : Prompt
  continuation : Prompt

/-- What a session keeps until it is over. -/
def Session.terms (s : Session) : Terms :=
  ⟨s.conn, s.callback, s.previous, s.prompt, s.continuation⟩

/-- Work on a session: it keeps its terms, and it is ended or its continuation lines change as told. -/
structure Session.Works (s s' : Session) (es : List Entry) : Prop where
  terms_eq : s'.terms = s.terms
  line_eq : s'.line? = none ∨ s'.line? = es.foldl Entry.line? s.line?

/-- What no work on a session changes of its setting. -/
def Setting.fixed (k : Setting) : Config × Prompt × Prompt := (k.config, k.prompt, k.continuation)

/-- Work at a desk, which keeps the settings of the engine too. -/
structure Desk.Works (d d' : Desk) (es : List Entry) : Prop where
  session : d.session.Works d'.session es
  config_eq : d'.config = d.config

/-- Work of an engine on its session, which goes on or is over. -/
inductive Engine.Works (e e' : Engine) (es : List Entry) : Option Finished → Prop where
  | goesOn {s s' : Session} (hs : e.session = some s) (hs' : e'.session = some s')
      (hconfig : e'.config = e.config) (h : s.Works s' es) : Works e e' es none
  | ends {s s' : Session} {line : Option Text} (hs : e.session = some s) (hs' : e'.session = none)
      (hconfig : e'.config = e.config) (h : s.Works s' es) (houtcome : s'.outcome = .ofLine line) :
      Works e e' es (some ⟨s.callback, line, s.conn, s.previous⟩)

/-! ### Sessions -/

theorem Outcome.after_cons_ne_reading (outcome : Outcome) (line : Option Text)
    (ends : List (Option Text)) : outcome.after (line :: ends) ≠ .reading := by
  induction ends generalizing outcome line with
  | nil => cases line <;> exact nofun
  | cons next ends ih => exact ih (.ofLine line) next

/-- The line that a settled outcome stands for is what the session was ended with. -/
theorem Outcome.eq_ofLine {outcome : Outcome} {line : Option Text}
    (h : outcome.line? = some line) : outcome = .ofLine line := by
  cases outcome <;> cases h <;> rfl

theorem Session.line?_eq_none {s : Session} (h : s.outcome ≠ .reading) : s.line? = none := by
  unfold Session.line?
  split
  · rename_i hreading
    exact absurd hreading h
  · rfl

/-- What calls from outside do to the line. -/
def SessionCall.entries (calls : List SessionCall) : List Entry :=
  calls.filterMap fun
    | .setLine t => some (.replaced t)
    | _ => none

/-- What the handling of an event does to the line. -/
def Engine.entriesBy (e : Engine) (d : Desk) (event : KeyEvent) : List Entry :=
  if e.Interrupts event then [.begun]
  else if e.AtEof d event then [] else (d.entersBy event).map .entered

/-- What a step of a script does to the line. -/
def ScriptStep.entries (d : Desk) (s : ScriptStep) : List Entry :=
  (s.enters d).map .entered ++ SessionCall.entries s.calls

namespace Desk

variable {d d' : Desk} {e : KeyEvent}

/-- What an action ends the session with, and what it enters: nothing, or what accepting does. -/
theorem ends_enters (d : Desk) (a : Action) :
    (d.ends a = [] ∧ d.enters a = []) ∨
      (d.ends a = d.acceptedLine ∧ d.enters a = [d.session.buffer.text]) := by
  cases a
  case acceptLine => exact .inr ⟨rfl, rfl⟩
  all_goals exact .inl ⟨rfl, rfl⟩

theorem endsBy_entersBy (d : Desk) (e : KeyEvent) :
    (d.endsBy e = [] ∧ d.entersBy e = []) ∨
      (d.endsBy e = d.acceptedLine ∧ d.entersBy e = [d.session.buffer.text]) := by
  unfold Desk.endsBy Desk.entersBy
  cases d.actionFor e with
  | none => exact .inl ⟨rfl, rfl⟩
  | some a => exact d.ends_enters a

/-- Accepting what is shown enters it. -/
theorem line?_entered (houtcome : d'.core.outcome = d.core.outcome.after d.acceptedLine)
    (hline : d'.setting.line = (d.setting.entered d.session.buffer.text).line) :
    d'.session.line? = Entry.line? d.session.line? (.entered d.session.buffer.text) := by
  have houtcome' : d'.session.outcome = d.session.outcome.after d.acceptedLine := houtcome
  have hline' : d'.session.line = (d.setting.entered d.session.buffer.text).line := hline
  have hso : d.setting.line = d.session.line := rfl
  unfold Session.line? Entry.line?
  rw [houtcome', hline']
  cases hscan : QuoteStatus.scan (d.session.line.extended d.session.buffer.text).text
  all_goals
    simp only [acceptedLine, Setting.entered, Setting.continued, Buffer.entered?, hso, hscan]
    cases d.session.outcome <;> simp [Outcome.after, Outcome.ofLine, hscan]

/-- What is not ended keeps its line. -/
theorem line?_congr (houtcome : d'.core.outcome = d.core.outcome)
    (hline : d'.setting.line = d.setting.line) : d'.session.line? = d.session.line? := by
  have houtcome' : d'.session.outcome = d.session.outcome := houtcome
  have hline' : d'.session.line = d.session.line := hline
  unfold Session.line?
  rw [houtcome', hline']

/-- Work that accepts what is shown, or nothing. -/
theorem line?_enters {ends : List (Option Text)} {enters : List Text}
    (h : (ends = [] ∧ enters = []) ∨
      (ends = d.acceptedLine ∧ enters = [d.session.buffer.text]))
    (houtcome : d'.core.outcome = d.core.outcome.after ends)
    (hline : d'.setting.line = (enters.foldl Setting.entered d.setting).line) :
    d'.session.line? = (enters.map Entry.entered).foldl Entry.line? d.session.line? := by
  rcases h with ⟨rfl, rfl⟩ | ⟨rfl, rfl⟩
  · exact line?_congr houtcome hline
  · exact line?_entered houtcome hline

/-- The line behind some calls, unless they end the session. -/
theorem line?_calls {calls : List SessionCall}
    (houtcome : d'.core.outcome = d.core.outcome.after (SessionCall.ends calls))
    (hline : d'.setting.line = (calls.foldl SessionCall.sets d.setting).line) :
    d'.session.line? = none ∨
      d'.session.line? = (SessionCall.entries calls).foldl Entry.line? d.session.line? := by
  have houtcome' : d'.session.outcome = d.session.outcome.after (SessionCall.ends calls) := houtcome
  have hline' : d'.session.line = (calls.foldl SessionCall.sets d.setting).line := hline
  cases hends : SessionCall.ends calls with
  | cons line ends =>
    rw [hends] at houtcome'
    refine .inl (Session.line?_eq_none ?_)
    rw [houtcome']
    exact Outcome.after_cons_ne_reading _ line ends
  | nil =>
    rw [hends] at houtcome'
    have hopen : ∀ (calls : List SessionCall) (k : Setting),
        some (calls.foldl SessionCall.sets k).line =
          (SessionCall.entries calls).foldl Entry.line? (some k.line) := by
      intro calls
      induction calls with
      | nil => exact fun _ => rfl
      | cons call calls ih =>
        intro k
        refine (ih (call.sets k)).trans ?_
        cases call <;> rfl
    have hover : ∀ calls : List SessionCall,
        (SessionCall.entries calls).foldl Entry.line? none = none := by
      intro calls
      induction calls with
      | nil => rfl
      | cons call calls ih => cases call <;> exact ih
    refine .inr ?_
    unfold Session.line?
    rw [houtcome', hline']
    cases houtcome₀ : d.session.outcome with
    | reading => exact hopen calls d.setting
    | accepted line => exact (hover calls).symm
    | eof => exact (hover calls).symm

/-! ### Desks -/

@[simp] theorem fixed_entered (k : Setting) (t : Text) : (k.entered t).fixed = k.fixed := by
  unfold Setting.entered Setting.continued
  split <;> rfl

@[simp] theorem fixed_sets (k : Setting) (call : SessionCall) : (call.sets k).fixed = k.fixed := by
  cases call <;> rfl

theorem fixed_foldl {α : Type} {f : Setting → α → Setting} (hf : ∀ k a, (f k a).fixed = k.fixed)
    (as : List α) (k : Setting) : (as.foldl f k).fixed = k.fixed := by
  induction as generalizing k with
  | nil => rfl
  | cons a as ih => exact (ih (f k a)).trans (hf k a)

/-- Work that changes no more of the core than the queue, the outcome and the pause. -/
theorem works_of {es : List Entry} {queue : EventQueue} {outcome : Outcome} {paused : Bool}
    (hcore : d'.core = { d.core with queue, outcome, paused })
    (hfixed : d'.setting.fixed = d.setting.fixed)
    (hline : d'.session.line? = none ∨ d'.session.line? = es.foldl Entry.line? d.session.line?) :
    d.Works d' es := by
  have hconfig : d'.config = d.config := congrArg Prod.fst hfixed
  have hprompt : d'.session.prompt = d.session.prompt := congrArg (fun k => k.2.1) hfixed
  have hcontinuation : d'.session.continuation = d.session.continuation :=
    congrArg (fun k => k.2.2) hfixed
  have hconn : d'.session.conn = d.session.conn := congrArg Core.conn hcore
  have hcallback : d'.session.callback = d.session.callback := congrArg Core.callback hcore
  have hprevious : d'.session.previous = d.session.previous := congrArg Core.previous hcore
  exact ⟨⟨Terms.mk.injEq .. ▸ ⟨hconn, hcallback, hprevious, hprompt, hcontinuation⟩, hline⟩, hconfig⟩

theorem Works.log {es : List Entry} (h : d.Works d' es) (level : Log.Level) (site : Log.Site)
    (message : String) (fields : List (String × Log.Value)) :
    d.Works (d'.log level site message fields) es :=
  ⟨⟨h.session.terms_eq, h.session.line_eq⟩, h.config_eq⟩

/-- An interrupt begins the line again. -/
theorem works_startOver (d : Desk) : d.Works d.startOver [.begun] := by
  have hfixed := congrArg (fun k : Kept => k.setting.fixed) d.kept_startOver
  exact works_of d.core_startOver hfixed (.inr rfl)

/-- A change of the width. -/
theorem works_resize (d : Desk) (old new : Nat) : d.Works (d.resize old new) [] := by
  have hkept := d.kept_resize old new
  have hcore : (d.resize old new).core = d.core := congrArg Kept.core hkept
  have hfixed := congrArg (fun k : Kept => k.setting.fixed) hkept
  have hline := congrArg (fun k : Kept => k.setting.line) hkept
  exact works_of hcore hfixed (.inr (line?_congr (congrArg Core.outcome hcore) hline))

/-- An event enters what is shown if it accepts it. -/
theorem works_dispatch (hlisten : d.session.paused = false) (e : KeyEvent) :
    match d.dispatch e with
    | .finished d' => d.Works d' ((d.entersBy e).map .entered)
    | .script _ _ d' => d.Works d' ((d.entersBy e).map .entered) := by
  have hkept := d.kept_dispatch e hlisten
  cases hr : d.dispatch e with
  | finished d' =>
    rw [hr] at hkept
    have hcore := congrArg Kept.core hkept
    have hsetting : d'.setting = (d.entersBy e).foldl Setting.entered d.setting :=
      congrArg Kept.setting hkept
    have hfixed := (congrArg Setting.fixed hsetting).trans
      (fixed_foldl fixed_entered (d.entersBy e) d.setting)
    exact works_of hcore hfixed (.inr (line?_enters (d.endsBy_entersBy e)
      (congrArg Core.outcome hcore) (congrArg Setting.line hsetting)))
  | script c h d' =>
    rw [hr] at hkept
    obtain ⟨hkept, -, -, henters⟩ := hkept
    have hsetting : d'.setting = d.setting := congrArg Kept.setting hkept
    have houtcome : d'.core.outcome = d.core.outcome :=
      congrArg (fun k : Kept => k.core.outcome) hkept
    dsimp only
    rw [henters]
    exact works_of (congrArg Kept.core hkept) (congrArg Setting.fixed hsetting)
      (.inr (line?_congr houtcome (congrArg Setting.line hsetting)))

/-- Calls may replace the continuation lines. -/
theorem works_answers (d : Desk) (size : Size) (calls : List SessionCall) :
    d.Works (d.answers size calls).1 (SessionCall.entries calls) := by
  have hkept := d.kept_answers size calls
  have hcore := congrArg Kept.core hkept
  have hsetting : (d.answers size calls).1.setting = calls.foldl SessionCall.sets d.setting :=
    congrArg Kept.setting hkept
  have hfixed := (congrArg Setting.fixed hsetting).trans (fixed_foldl fixed_sets calls d.setting)
  exact works_of hcore hfixed
    (line?_calls (congrArg Core.outcome hcore) (congrArg Setting.line hsetting))

/-- A step of a script may accept what is shown, or call. -/
theorem works_scriptStep (d : Desk) (size : Size) (s : ScriptStep) :
    d.Works (d.scriptStep size s) (s.entries d) := by
  obtain ⟨paused, hkept⟩ := d.kept_scriptStep size s
  have hcore := congrArg Kept.core hkept
  have hsetting : (d.scriptStep size s).setting =
      s.calls.foldl SessionCall.sets ((s.enters d).foldl Setting.entered d.setting) :=
    congrArg Kept.setting hkept
  have hfixed := (congrArg Setting.fixed hsetting).trans ((fixed_foldl fixed_sets s.calls _).trans
    (fixed_foldl fixed_entered (s.enters d) d.setting))
  refine works_of hcore hfixed ?_
  have houtcome := congrArg Core.outcome hcore
  have hline := congrArg Setting.line hsetting
  unfold ScriptStep.entries
  cases s with
  | session calls => exact line?_calls houtcome hline
  | apply k =>
    refine .inr ((line?_enters (d.ends_enters (.ofCommand k)) houtcome hline).trans ?_)
    rw [List.foldl_append]
    rfl
  | _ => exact .inr (line?_congr houtcome hline)

/-- The end of a script. -/
theorem works_endCompletion (d : Desk) (c : Completion) (h : Handler) (deferred : Bool) (a : Action) :
    d.Works ((d.endCompletion c h deferred).2.settleFocus a) [] := by
  have hkept := (Desk.kept_settleFocus (d.endCompletion c h deferred).2 a).trans
    (d.kept_endCompletion c h deferred)
  have hsetting : ((d.endCompletion c h deferred).2.settleFocus a).setting = d.setting :=
    congrArg Kept.setting hkept
  have houtcome : ((d.endCompletion c h deferred).2.settleFocus a).core.outcome = d.core.outcome :=
    congrArg (fun k : Kept => k.core.outcome) hkept
  exact works_of (congrArg Kept.core hkept) (congrArg Setting.fixed hsetting)
    (.inr (line?_congr houtcome (congrArg Setting.line hsetting)))

end Desk

/-! ### Engines -/

namespace Engine

variable {e t : Engine} {d d' : Desk} {s : Session} {event : KeyEvent} {es : List Entry}

@[simp] theorem desk?_put (e : Engine) (d : Desk) : (e.put d).desk? = some d := rfl

theorem desk?_eq_some (hd : e.desk? = some d) :
    e.session = some d.session ∧ d.config = e.config := by
  obtain ⟨s, hs, rfl⟩ := Option.map_eq_some_iff.1 hd
  exact ⟨hs, rfl⟩

/-- Changes of the engine that leave the session and the settings alone. -/
theorem Works.congr {f : Option Finished} (h : e.Works t es f) {t' : Engine}
    (hsession : t'.session = t.session) (hconfig : t'.config = t.config) : e.Works t' es f := by
  cases h with
  | goesOn hs hs' hconfig' h =>
    exact .goesOn hs (hsession.trans hs') (hconfig.trans hconfig') h
  | ends hs hs' hconfig' h houtcome =>
    exact .ends hs (hsession.trans hs') (hconfig.trans hconfig') h houtcome

/-- Work on a session that is not taken out, even if it was ended. -/
theorem works_put (hs : e.session = some d.session) (hconfig : d.config = e.config)
    (h : d.Works d' es) (ht : t.desk? = some d') : e.Works t es none := by
  obtain ⟨hs', hconfig'⟩ := desk?_eq_some ht
  exact .goesOn hs hs' (hconfig'.symm.trans (h.config_eq.trans hconfig)) h.session

/-- Work on a session that is over if it was ended. -/
theorem works_takeFinished (hs : e.session = some d.session) (hconfig : d.config = e.config)
    (h : d.Works d' es) (ht : t.desk? = some d') {t' : Engine} {f : Option Finished}
    (htaken : t.takeFinished = (t', f)) : e.Works t' es f := by
  obtain ⟨hs', hconfig'⟩ := desk?_eq_some ht
  cases hline : d'.session.outcome.line? with
  | none =>
    have hgoes : t.takeFinished = (t, none) := by
      unfold takeFinished
      rw [hs']
      dsimp only
      rw [hline]
    cases hgoes.symm.trans htaken
    exact works_put hs hconfig h ht
  | some line =>
    have houtcome := Outcome.eq_ofLine hline
    have hconn : d'.session.conn = d.session.conn := congrArg Terms.conn h.session.terms_eq
    have hcallback : d'.session.callback = d.session.callback :=
      congrArg Terms.callback h.session.terms_eq
    have hprevious : d'.session.previous = d.session.previous :=
      congrArg Terms.previous h.session.terms_eq
    have hover := takeFinished_of_line hs' hline
    rw [hconn, hcallback, hprevious] at hover
    cases hover.symm.trans htaken
    exact .ends hs rfl (hconfig'.symm.trans (h.config_eq.trans hconfig)) h.session houtcome

/-- An event: an interrupt begins the line again, and accepting what is shown enters it. -/
theorem works_handle (hnext : e.next? = some (d, event)) :
    match e.handle d event with
    | .settled t f => e.Works t (e.entriesBy d event) f
    | .script t _ _ => e.Works t (e.entriesBy d event) none := by
  obtain ⟨s, queue, hs, hpaused, -, hd⟩ := next?_eq_some hnext
  have hs' : e.session = some d.session := by
    rw [hd]
    exact hs
  have hconfig : d.config = e.config := by rw [hd]
  have hlisten : d.session.paused = false := by
    rw [hd]
    exact hpaused
  clear hd
  rw [handle_eq]
  unfold entriesBy
  by_cases hinterrupt : e.Interrupts event
  · rw [if_pos hinterrupt, if_pos hinterrupt]
    exact works_put hs' hconfig d.works_startOver rfl
  · rw [if_neg hinterrupt, if_neg hinterrupt]
    by_cases heof : e.AtEof d event
    · rw [if_pos heof, if_pos heof]
      have hends : d.Works { d.log .debug .engine "end of file" [] with session.outcome := .eof } [] :=
        ⟨⟨rfl, .inl rfl⟩, rfl⟩
      exact works_takeFinished hs' hconfig hends (e.desk?_put _) rfl
    · rw [if_neg heof, if_neg heof]
      have hdispatch := d.works_dispatch hlisten event
      cases hr : d.dispatch event with
      | finished d' =>
        rw [hr] at hdispatch
        exact works_takeFinished hs' hconfig hdispatch (e.desk?_put d') rfl
      | script c h d' =>
        rw [hr] at hdispatch
        exact works_put hs' hconfig hdispatch rfl

/-- The end of a pause may draw the line again, and the session is over if it was ended. -/
theorem works_resume {width : Nat} {t : Engine} {f : Option Finished}
    (h : e.resume width = .ok (t, f)) : e.Works t [] f := by
  obtain ⟨d, hd, ht⟩ := of_resume_eq_ok h
  obtain ⟨hs, hconfig⟩ := desk?_eq_some hd
  refine works_takeFinished hs hconfig (Desk.Works.log ?_ .debug .engine "resume" []) rfl ht
  obtain hsame | ⟨old, hresized⟩ := e.catchUp_eq width d.resume
  · rw [hsame]
    exact ⟨⟨rfl, .inr rfl⟩, rfl⟩
  · rw [hresized]
    obtain ⟨⟨hterms, hline⟩, hsettings⟩ := d.resume.works_resize old width
    exact ⟨⟨hterms, hline⟩, hsettings⟩

/-- Calls on the session may replace the line, and end the session unless it is paused. -/
theorem works_answers {size : Size} {calls : List SessionCall} {t : Engine} {replies : List Reply}
    {f : Option Finished} (h : e.answers size calls = .ok (t, replies, f)) :
    e.Works t (SessionCall.entries calls) f := by
  unfold answers at h
  split at h
  · cases h
  · rename_i d hd
    obtain ⟨hs, hconfig⟩ := desk?_eq_some hd
    dsimp only at h
    split at h
    · cases h
      exact works_put hs hconfig (d.works_answers size calls) rfl
    · obtain ⟨ht, hfinished⟩ := Prod.mk.inj (Except.ok.inj h)
      obtain ⟨-, hf⟩ := Prod.mk.inj hfinished
      exact works_takeFinished hs hconfig (d.works_answers size calls) (e.desk?_put _) (Prod.ext ht hf)

/-- A step of a script at the desk. -/
theorem works_scriptStep (hd : e.desk? = some d) (size : Size) (s : ScriptStep) :
    e.Works (e.put (d.scriptStep size s)) (s.entries d) none := by
  obtain ⟨hs, hconfig⟩ := desk?_eq_some hd
  exact works_put hs hconfig (d.works_scriptStep size s) rfl

/-- The end of a script. -/
theorem works_afterScript (hd : e.desk? = some d) (c : Completion) (h : ScriptedHandler) :
    e.Works (e.afterScript d c h).takeFinished.1 [] (e.afterScript d c h).takeFinished.2 := by
  obtain ⟨hs, hconfig⟩ := desk?_eq_some hd
  exact works_takeFinished hs hconfig (d.works_endCompletion c (.scripted h) h.deferred _)
    (desk?_put _ _) rfl

/-- A new size. -/
theorem works_resized (hs : e.session = some s) (size : Size) : e.Works (e.resized size) [] none := by
  have hd := desk?_of_session hs
  have hsame : e.Works e [] none := works_put hs rfl ⟨⟨rfl, .inr rfl⟩, rfl⟩ hd
  unfold resized
  rw [hd]
  dsimp only
  split
  · exact works_put hs rfl ⟨⟨rfl, .inr rfl⟩, rfl⟩ rfl
  · split
    · exact works_put hs rfl (Desk.works_resize ..) rfl
    · exact hsame

end Engine

end LineEditor
