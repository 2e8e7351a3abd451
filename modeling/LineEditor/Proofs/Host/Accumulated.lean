import LineEditor.Proofs.Host.Accepted
import LineEditor.Proofs.Host.Standing
import LineEditor.Proofs.Input.Lexer

/-!
Continuation lines accumulate to what one pass over the raw input gives. The line is scanned again at
every enter, and its end is edited where it goes on; still the session is accepted at the enter whose
newline ends the input, with what the lexer keeps, and it goes on at every earlier one.

Main definitions: `typed`, the texts that were entered for the line that is read, and `Gathered`, the
invariant. Main statements: `Gathered.entered`, `Machine.tracks_play` and `Machine.lexed_of_play`.
-/
namespace LineEditor

/-! ### What was entered -/

/-- What was entered for a line behind another entry; none if the host replaced the continuation
lines. -/
def Entry.typed (ts : Option (List Text)) : Entry → Option (List Text)
  | .begun => some []
  | .entered t => ts.map (· ++ [t])
  | .replaced _ => none

/-- What was entered for a line behind another deed. -/
def Deed.typed (ts : Option (List Text)) : Deed → Option (List Text)
  | .entry x => x.typed ts
  | .installed .. => ts

/-- The texts that were entered for the line that was begun last. -/
def typed (ds : List Deed) : Option (List Text) := ds.foldl Deed.typed none

/-- The raw input so far leads to a lexer that waits for more. -/
structure Lexer.Reads (l : Lexer) (ts : List Text) : Prop where
  agrees : l.Agrees
  unescaped : l.escaped = false
  read_eq : ∀ rest, Lexer.read {} (rawInput ts ++ rest) = l.read rest

/-- The continuation lines hold what the lexer keeps of the raw input so far. -/
def Gathered (ts : List Text) (line : Buffer) : Prop := ∃ l : Lexer, l.Reads ts ∧ line = .ofText l.kept

/-- The continuation lines of a session that has not ended, if they were not replaced and all texts
are without control characters. -/
def Tracks (ts : Option (List Text)) (line : Option Buffer) : Prop :=
  ∀ us b, ts = some us → line = some b → (∀ t ∈ us, t.Plain) → Gathered us b

variable {ts : List Text} {line : Buffer} {t : Text}

theorem typed_append (ds ds' : List Deed) : typed (ds ++ ds') = ds'.foldl Deed.typed (typed ds) :=
  List.foldl_append ..

theorem gathered_nil : Gathered [] .empty := ⟨{}, ⟨Lexer.agrees_start, rfl, fun _ => rfl⟩, rfl⟩

/-- While reading goes on the input has not ended. -/
theorem Lexer.Reads.read {l : Lexer} (h : l.Reads ts) : Lexer.read {} (rawInput ts) = .more l := by
  rw [← List.append_nil (rawInput ts)]
  exact h.read_eq []

theorem rawInput_concat (ts : List Text) (t : Text) (rest : Text) :
    rawInput (ts ++ [t]) ++ rest = rawInput ts ++ (t ++ '\n' :: rest) := by
  simp [rawInput]

/-- The line is complete behind a text exactly if the newline behind it ends the input, and holds what
the lexer keeps either way. -/
theorem Gathered.entered (h : Gathered ts line) (ht : t.Plain) :
    match line.entered? t with
    | none => Lexer.read {} (rawInput (ts ++ [t])) = .ended (line.extended t).text []
    | some line' => Gathered (ts ++ [t]) line' := by
  obtain ⟨l, hreads, rfl⟩ := h
  have hread : ∀ rest, Lexer.read {} (rawInput (ts ++ [t]) ++ rest) = l.read (t ++ '\n' :: rest) := by
    intro rest
    rw [rawInput_concat]
    exact hreads.read_eq _
  have hentered := Lexer.read_entered hreads.agrees hreads.unescaped ht
  have hgoesOn : ∀ status, (∃ l' : Lexer, (∀ rest, l.read (t ++ '\n' :: rest) = l'.read rest) ∧
      l'.Agrees ∧ l'.escaped = false ∧
      (Buffer.ofText (l.kept ++ t)).continued status = .ofText l'.kept) →
      Gathered (ts ++ [t]) ((Buffer.ofText (l.kept ++ t)).continued status) := by
    rintro status ⟨l', hread', hagrees, hunescaped, hline⟩
    exact ⟨l', ⟨hagrees, hunescaped, fun rest => (hread rest).trans (hread' rest)⟩, hline⟩
  have hextended : (Buffer.ofText l.kept).extended t = .ofText (l.kept ++ t) :=
    Buffer.extended_ofText l.kept (.inl ht)
  have htext : (Buffer.ofText (l.kept ++ t)).text = l.kept ++ t := rfl
  simp only [Buffer.entered?, hextended, htext]
  cases hscan : QuoteStatus.scan (l.kept ++ t) with
  | complete =>
    rw [hscan] at hentered
    rw [← List.append_nil (rawInput _), hread]
    exact hentered []
  | escaping =>
    rw [hscan] at hentered
    exact hgoesOn _ hentered
  | quoted =>
    rw [hscan] at hentered
    exact hgoesOn _ hentered

/-! ### Entries and deeds -/

variable {us : Option (List Text)} {b : Option Buffer}

/-- An entry keeps the lines in order. -/
theorem Tracks.entry (h : Tracks us b) (x : Entry) : Tracks (x.typed us) (x.line? b) := by
  rintro ts' line' hts' hline' hplain
  cases x with
  | begun =>
    cases hts'
    cases hline'
    exact gathered_nil
  | entered t =>
    obtain ⟨ts, hts, rfl⟩ := Option.map_eq_some_iff.1 hts'
    obtain ⟨line, hline, hentered⟩ := Option.bind_eq_some_iff.1 hline'
    obtain ⟨hplain, ht⟩ := List.forall_mem_append.1 hplain
    have hnext := (h ts line hts hline hplain).entered (ht t (List.mem_singleton_self t))
    rw [hentered] at hnext
    exact hnext
  | replaced t => cases hts'

theorem Tracks.entries (h : Tracks us b) (es : List Entry) :
    Tracks (es.foldl Entry.typed us) (es.foldl Entry.line? b) := by
  induction es generalizing us b with
  | nil => exact h
  | cons x es ih => exact ih (h.entry x)

theorem foldl_typed_entries (es : List Entry) (us : Option (List Text)) :
    (es.map Deed.entry).foldl Deed.typed us = es.foldl Entry.typed us := List.foldl_map ..

/-- The continuation lines of the session that is read, if one is. -/
def Standing.Tracks (us : Option (List Text)) (k : Standing) : Prop :=
  ∀ s, k.session = some s → LineEditor.Tracks us s.line?

theorem Standing.tracks_of_idle {k : Standing} (h : k.session = none) : k.Tracks us := by
  rintro s hs
  rw [h] at hs
  cases hs

/-- Every step keeps the lines in order. -/
theorem Standing.Tracks.next {k k' : Standing} {ds : List Deed} {f : Option Finished}
    (h : k.Tracks us) (hnext : k.Next ds f k') : k'.Tracks (ds.foldl Deed.typed us) := by
  cases hnext with
  | rests => exact h
  | @works s s' es hs hworks =>
    rintro s₁ hs₁
    cases hs₁
    rw [foldl_typed_entries]
    rcases hworks.line_eq with hnone | hline
    · rw [hnone]
      rintro ts line - hline
      cases hline
    · rw [hline]
      exact (h s hs).entries es
  | ends => rintro s hs; cases hs
  | begins r callback width =>
    rintro s hs
    cases hs
    rintro ts line hts hline -
    cases hts
    cases hline
    exact gathered_nil
  | installs => exact h

/-! ### Accepting -/

namespace Desk

variable {d : Desk}

/-- Continuation lines that are not complete go on behind the continuation prompt, with nothing
shown. -/
theorem acceptLine_of_incomplete
    (h : QuoteStatus.scan (d.session.line.extended d.session.buffer.text).text ≠ .complete) :
    d.acceptLine.session.buffer = .empty ∧
      d.acceptLine.session.shown = d.session.continuation ∧
      d.acceptLine.session.current = d.session.continuation := by
  have hline := d.line_extendLine_newLine d.session.buffer.text "buffer text rejected by line"
  have hcontinuation : (d.newLine.extendLine d.session.buffer.text
      "buffer text rejected by line").setting.continuation = d.session.continuation :=
    congrArg (fun k : Kept => k.setting.continuation) (d.kept_extendLine_newLine ..)
  rw [← hline] at h
  unfold acceptLine
  dsimp only
  rw [← hcontinuation]
  generalize d.newLine.extendLine d.session.buffer.text "buffer text rejected by line" = d' at h ⊢
  generalize QuoteStatus.scan d'.session.line.text = status at h ⊢
  cases status with
  | complete => exact absurd rfl h
  | escaping => exact ⟨rfl, rfl, rfl⟩
  | quoted => exact ⟨rfl, rfl, rfl⟩

/-- What accepting what is shown behind the texts that were entered leads to: the session is over where
the newline ends the input, and it goes on where it does not. -/
theorem acceptLine_gathered (h : Gathered ts d.session.line) (ht : d.session.buffer.text.Plain) :
    match Lexer.read {} (rawInput (ts ++ [d.session.buffer.text])) with
    | .ended kept rest => rest = [] ∧ d.acceptedLine = [some kept]
    | .more l => d.acceptedLine = [] ∧ d.acceptLine.session.line = .ofText l.kept ∧
        d.acceptLine.session.buffer = .empty ∧
        d.acceptLine.session.shown = d.session.continuation ∧
        d.acceptLine.session.current = d.session.continuation := by
  have hentered := h.entered ht
  have hline : d.acceptLine.session.line = (d.setting.entered d.session.buffer.text).line :=
    congrArg (fun k : Kept => k.setting.line) d.kept_acceptLine
  have hincomplete := d.acceptLine_of_incomplete
  have hthis : d.setting.line = d.session.line := rfl
  simp only [Setting.entered, Setting.continued, hthis] at hline
  unfold acceptedLine
  unfold Buffer.entered? at hentered
  dsimp only
  cases hscan : QuoteStatus.scan (d.session.line.extended d.session.buffer.text).text
  all_goals rw [hscan] at hentered hline hincomplete
  case complete =>
    dsimp only at hentered
    rw [hentered]
    exact ⟨rfl, rfl⟩
  all_goals
    obtain ⟨l, hreads, hkept⟩ := hentered
    rw [hreads.read]
    exact ⟨rfl, hline.trans hkept, hincomplete (by decide)⟩

end Desk

/-! ### Runs -/

/-- A session that waits for the next line, with the continuation lines so far. -/
structure Session.Continues (s : Session) (continuation : Prompt) (kept : Text) : Prop where
  outcome_eq : s.outcome = .reading
  paused_eq : s.paused = false
  current_eq : s.current = continuation
  shown_eq : s.shown = continuation
  buffer_eq : s.buffer = .empty
  line_eq : s.line = .ofText kept

namespace Engine

variable {e : Engine} {d : Desk}

/-- The session is taken out where the newline ends the input, and it goes on where it does not. -/
theorem takeFinished_acceptLine (hreading : d.session.outcome = .reading)
    (h : Gathered ts d.session.line) (ht : d.session.buffer.text.Plain) :
    match Lexer.read {} (rawInput (ts ++ [d.session.buffer.text])) with
    | .ended kept rest => rest = [] ∧ (e.put d.acceptLine).takeFinished.1.session = none ∧
        (e.put d.acceptLine).takeFinished.2 = some
          { callback := d.session.callback, line := some kept, conn := d.session.conn,
            previous := d.session.previous }
    | .more l => (e.put d.acceptLine).takeFinished.2 = none ∧
        ∃ s, (e.put d.acceptLine).takeFinished.1.session = some s ∧
          s.Continues d.session.continuation l.kept := by
  have hgathered := d.acceptLine_gathered h ht
  have hcore := congrArg Kept.core d.kept_acceptLine
  have hcallback : d.acceptLine.session.callback = d.session.callback := congrArg Core.callback hcore
  have hconn : d.acceptLine.session.conn = d.session.conn := congrArg Core.conn hcore
  have hprevious : d.acceptLine.session.previous = d.session.previous := congrArg Core.previous hcore
  have hpaused : d.acceptLine.session.paused = false := congrArg Core.paused hcore
  have houtcome : d.acceptLine.session.outcome = d.session.outcome.after d.acceptedLine :=
    congrArg Core.outcome hcore
  rw [hreading] at houtcome
  cases hread : Lexer.read {} (rawInput (ts ++ [d.session.buffer.text])) with
  | ended kept rest =>
    rw [hread] at hgathered
    obtain ⟨rfl, haccepted⟩ := hgathered
    rw [haccepted] at houtcome
    have hline : d.acceptLine.session.outcome.line? = some (some kept) :=
      congrArg Outcome.line? houtcome
    have hover := takeFinished_of_line (e := e.put d.acceptLine) rfl hline
    rw [hcallback, hconn, hprevious] at hover
    rw [hover]
    exact ⟨rfl, rfl, rfl⟩
  | more l =>
    rw [hread] at hgathered
    obtain ⟨haccepted, hline, hbuffer, hshown, hcurrent⟩ := hgathered
    rw [haccepted] at houtcome
    rw [takeFinished_of_reading (by rintro s ⟨⟩; exact houtcome)]
    exact ⟨rfl, _, rfl, houtcome, hpaused, hcurrent, hshown, hbuffer, hline⟩

/-- An event that accepts what is shown behind the texts that were entered. -/
theorem step?_of_gathered (haccept : e.Accepting d) (hreading : d.session.outcome = .reading)
    (h : Gathered ts d.session.line) (ht : d.session.buffer.text.Plain) :
    ∃ t f, e.step? = some (.settled t f) ∧
      match Lexer.read {} (rawInput (ts ++ [d.session.buffer.text])) with
      | .ended kept rest => rest = [] ∧ t.session = none ∧ f = some
          { callback := d.session.callback, line := some kept, conn := d.session.conn,
            previous := d.session.previous }
      | .more l => f = none ∧ ∃ s, t.session = some s ∧ s.Continues d.session.continuation l.kept := by
  obtain ⟨event, hnext, haction, hinterrupt, heof⟩ := haccept
  refine ⟨_, _, ?_, takeFinished_acceptLine (e := e)
    (d := d.beginAction .acceptLine event) hreading h ht⟩
  rw [step?_eq, hnext, Option.map_some, handle_eq, if_neg hinterrupt, if_neg heof,
    Desk.dispatch_acceptLine haction]

end Engine

namespace Machine

variable {host : Host}

/-- Continuation lines accumulate to what one pass over the raw input gives. Along a run, when a text
without control characters is shown and accepted, behind others that were entered for the same line:
if its newline ends the input, the session is over and its callback is called with what the lexer keeps;
if it does not, the session goes on behind the continuation prompt with nothing shown. -/
theorem lexed_of_play {w : World} {e : Engine} (hw : w.engines = [some e]) (hnone : e.session = none)
    (hfree : e.busy = false) (moves : List Move)
    (hadmits : (⟨w, []⟩ : Machine).Admits Keeps host moves) {ts : List Text}
    (htyped : typed (record (fun m x => x.deeds m) host ⟨w, []⟩ moves) = some ts)
    (hplain : ∀ t ∈ ts, t.Plain) {w' : World} {jobs : List Job} {t : Engine} {d : Desk}
    (hm : (⟨w, []⟩ : Machine).play host moves = ⟨w', .deliver 0 :: jobs⟩)
    (ht : w'.engine? 0 = some t) (hidle : t.busy = false) (haccept : t.Accepting d)
    (hshown : d.session.buffer.text.Plain) :
    match Lexer.read {} (rawInput (ts ++ [d.session.buffer.text])) with
    | .ended kept rest => rest = [] ∧ ∃ w₁ t₁,
        (⟨w, []⟩ : Machine).play host (moves ++ [.step]) =
          ⟨w₁, .callback d.session.callback (some kept) :: .deliver 0 :: jobs⟩ ∧
        w₁.engine? 0 = some t₁ ∧ t₁.session = none
    | .more l => ∃ w₁ t₁ s,
        (⟨w, []⟩ : Machine).play host (moves ++ [.step]) = ⟨w₁, .deliver 0 :: jobs⟩ ∧
        w₁.engine? 0 = some t₁ ∧ t₁.session = some s ∧
        s.Continues ⟨e.config.continuation⟩ l.kept := by
  have howes := owes_play moves (owes_of_idle hw hnone hfree) hadmits
  obtain ⟨k, hk, htracks, hconfigured⟩ := standing_play
    (P := fun ds k => k.Tracks (typed ds) ∧ k.Configured e.config)
    (fun ds k ds' f k' h hnext => ⟨typed_append ds ds' ▸ h.1.next hnext, h.2.next hnext⟩) []
    (World.standing?_eq hw) ⟨Standing.tracks_of_idle hnone, Standing.configured_of_idle rfl hnone⟩
    moves hadmits
  rw [List.nil_append, htyped] at htracks
  rw [play_append]
  generalize (⟨w, []⟩ : Machine).play host moves = m at hm hk howes ⊢
  subst hm
  obtain ⟨event, hnext, -⟩ := id haccept
  have hreading := howes.reading ht hidle hnext
  obtain ⟨s, queue, hs, -, -, hd⟩ := Engine.next?_eq_some hnext
  obtain ⟨-, -, rfl⟩ := World.engine?_of_standing? hk ht
  have hs' : t.session = some d.session := by rw [hs, hd]
  have hgathered : Gathered ts d.session.line := by
    have hline : d.session.line? = some d.session.line := by rw [Session.line?, hreading]
    exact htracks d.session hs' ts d.session.line rfl hline hplain
  have hcontinuation := hconfigured.continuation_eq d.session hs'
  obtain ⟨t', f, hstep, htaken⟩ := Engine.step?_of_gathered haccept hreading hgathered hshown
  have hmove : move host ⟨w', .deliver 0 :: jobs⟩ .step =
      ⟨(w'.put 0 t.conn t').close f, Job.ofFinished f ++ .deliver 0 :: jobs⟩ :=
    move_handled ht hidle hstep
  rw [play_cons, play_nil, hmove]
  cases hread : Lexer.read {} (rawInput (ts ++ [d.session.buffer.text])) with
  | ended kept rest =>
    rw [hread] at htaken
    obtain ⟨rfl, hover, rfl⟩ := htaken
    exact ⟨rfl, _, _, rfl, World.engine?_put_eq ht t.conn t' _, hover⟩
  | more l =>
    rw [hread] at htaken
    obtain ⟨rfl, s', hs', hcontinues⟩ := htaken
    rw [hcontinuation] at hcontinues
    exact ⟨_, _, s', rfl, World.engine?_put_eq ht t.conn t' none, hs', hcontinues⟩

/-- A backslash in single quotes, one that is escaped in double quotes, one that escapes the newline and
one that is escaped itself: the input ends behind the fourth line. -/
theorem lexed_of_play_quoted :
    let r : Request := { engine := 0, conn := 0, prompt := ⟨['>', ' ']⟩, handler := none }
    let host : Host := ⟨fun _ _ => []⟩
    let w : World := { engines := [some (.new {} [])], conns := [.new {} {}] }
    let input : Text := ['\'', '\\', '\r', '\'', '"', '\\', '\\', '\r', '"', '\\', '\r', 'a', '\\',
      '\\', '\r']
    let moves : List Move := [.call (.readline r 7),
      .call (.feed 0 (input.map (·.toNat.toUInt8))), .call (.runTasks 0)] ++ List.replicate 15 .step
    ∃ w₁ t₁, (⟨w, []⟩ : Machine).play host (moves ++ [.step]) =
        ⟨w₁, [.callback 7 (some ['\'', '\\', '\n', '\'', '"', '\\', '\\', '\n', '"', 'a', '\\', '\\']),
          .deliver 0, .tasks 0]⟩ ∧
      w₁.engine? 0 = some t₁ ∧ t₁.session = none := by
  intro r host w input moves
  let m := (⟨w, []⟩ : Machine).play host moves
  have hadmits : (⟨w, []⟩ : Machine).Admits Keeps host moves := by decide +kernel
  have htyped : typed (record (fun m x => x.deeds m) host ⟨w, []⟩ moves) =
      some [['\'', '\\'], ['\'', '"', '\\', '\\'], ['"', '\\']] := by decide +kernel
  have hread : (m.world.engine? 0).bind (fun e =>
      e.next?.map fun x => (x.1.actionFor x.2,
        e.busy || decide (e.Interrupts x.2) || decide (e.AtEof x.1 x.2),
        x.1.session.buffer.text, x.1.session.callback)) =
      some (some .acceptLine, false, ['a', '\\', '\\'], 7) := by decide +kernel
  have hends : Lexer.read {} (rawInput
      ([['\'', '\\'], ['\'', '"', '\\', '\\'], ['"', '\\']] ++ [['a', '\\', '\\']])) =
      .ended ['\'', '\\', '\n', '\'', '"', '\\', '\\', '\n', '"', 'a', '\\', '\\'] [] := by
    decide +kernel
  have hm : m = ⟨m.world, [.deliver 0, .tasks 0]⟩ := eq_of_isDraining (by decide +kernel)
  obtain ⟨t, ht, hread⟩ := Option.bind_eq_some_iff.1 hread
  obtain ⟨⟨d, event⟩, hnext, hread⟩ := Option.map_eq_some_iff.1 hread
  simp only [Prod.mk.injEq, Bool.or_eq_false_iff, decide_eq_false_iff_not] at hread
  obtain ⟨haction, ⟨⟨hidle, hinterrupt⟩, heof⟩, hshown, hcallback⟩ := hread
  have hlexed := lexed_of_play rfl rfl rfl moves hadmits htyped (by decide) hm ht hidle
    ⟨event, hnext, haction, hinterrupt, heof⟩ (by rw [hshown]; decide)
  rw [hshown, hcallback, hends] at hlexed
  exact hlexed.2

end Machine

end LineEditor
