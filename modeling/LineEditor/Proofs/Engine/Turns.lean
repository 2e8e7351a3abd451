import LineEditor.Proofs.Engine.Core
import LineEditor.Proofs.Session.Groups

/-!
All that can happen to an engine. A line begins, an event is handled, the session is called or a script
works on it, or the engine is dropped; everything else leaves the session alone, but for its width, its
pause and its end.

Main definitions: `Turn` and `Engine.Takes`, what a turn makes of an engine; `Engine.memory?`, what undo
goes by, and `Engine.strokes`, what a turn is for it. Main statements: `goes_takes` and `limit_takes`.
-/
namespace LineEditor

/-- What happens to an engine. -/
inductive Turn where
  /-- The session goes on resting, gets another width, is resumed, or is left by a script. -/
  | rests
  | begins
  | handles (d : Desk) (event : KeyEvent)
  | answers (calls : List SessionCall)
  | steps (s : ScriptStep)
  | drops

/-- An engine whose session, snapshots, cut texts and state of work are as they were. -/
structure Engine.Rests (e t : Engine) : Prop where
  session_eq : t.session = e.session
  undo_eq : t.undo = e.undo
  kills_eq : t.kills = e.kills
  busy_eq : t.busy = e.busy

/-- What a turn makes of an engine that is there; none if it is dropped. -/
inductive Engine.Takes (e : Engine) : Turn → Option Engine → Prop
  | rested {t : Engine} (h : e.Rests t) : Takes e .rests (some t)
  | resized (size : Size) : Takes e .rests (some { e.resized size with effects := [] })
  | resumed {width : Nat} {t : Engine} {f : Option Finished} (h : e.resume width = .ok (t, f)) :
      Takes e .rests (some { t with effects := [] })
  | left {d : Desk} (hd : e.desk? = some d) (c : Completion) (h : ScriptedHandler) :
      Takes e .rests (some { (e.afterScript d c h).takeFinished.1 with effects := [] })
  | begun (hnone : e.session = none) (r : Request) (callback width : Nat) (previous : Handlers)
      (scheduled : Bool) :
      Takes e .begins (some { e.start r callback width previous with effects := [], scheduled })
  | handled {d : Desk} {event : KeyEvent} {t : Engine} {f : Option Finished} (hfree : e.busy = false)
      (hnext : e.next? = some (d, event)) (h : e.handle d event = .settled t f) :
      Takes e (.handles d event) (some { t with effects := [] })
  | scripted {d : Desk} {event : KeyEvent} {t : Engine} {c : Completion} {h : ScriptedHandler}
      (hfree : e.busy = false) (hnext : e.next? = some (d, event))
      (h : e.handle d event = .script t c h) :
      Takes e (.handles d event) (some { t with busy := true, effects := [] })
  | answered {size : Size} {calls : List SessionCall} {t : Engine} {replies : List Reply}
      {f : Option Finished} (h : e.answers size calls = .ok (t, replies, f)) :
      Takes e (.answers calls) (some { t with effects := [] })
  | stepped {d : Desk} (hd : e.desk? = some d) (size : Size) (s : ScriptStep) :
      Takes e (.steps s) (some { e.put (d.scriptStep size s) with effects := [] })
  | dropped : Takes e .drops none

/-- What a turn makes of an engine; one that is dropped stays away. -/
inductive Turn.Takes : Option Engine → Turn → Option Engine → Prop
  | gone (turn : Turn) : Takes none turn none
  | takes {e : Engine} {turn : Turn} {o : Option Engine} (h : e.Takes turn o) : Takes (some e) turn o

namespace Engine

variable {e t u : Engine}

theorem Rests.refl (e : Engine) : e.Rests e := ⟨rfl, rfl, rfl, rfl⟩

theorem Rests.trans (h : e.Rests t) (h' : t.Rests u) : e.Rests u :=
  ⟨h'.session_eq.trans h.session_eq, h'.undo_eq.trans h.undo_eq, h'.kills_eq.trans h.kills_eq,
    h'.busy_eq.trans h.busy_eq⟩

end Engine

/-! ### What undo goes by -/

namespace Engine

/-- What undo goes by in the session. -/
def memory? (e : Engine) : Option Memory :=
  e.session.map fun s => ⟨s.buffer, e.undo, s.typing, s.outcome⟩

/-- What a turn does to what undo goes by. -/
def strokes (e : Engine) : Turn → List Stroke
  | .rests => []
  | .begins | .drops => [.called]
  | .handles d event =>
    [if e.Interrupts event ∨ e.AtEof d event then .other false else d.stroke event]
  | .answers calls => if calls.any SessionCall.touches then [.called] else []
  | .steps s => if s.touches then [.called] else []

variable {e t : Engine} {d : Desk} {k : Memory} {turn : Turn} {o : Option Engine}

theorem memory?_of_desk (hd : e.desk? = some d) : e.memory? = some d.memory := by
  obtain ⟨s, hs, rfl⟩ := Option.map_eq_some_iff.1 hd
  rw [memory?, hs]
  rfl

theorem undo_of_desk (hd : e.desk? = some d) : d.undo = e.undo := by
  obtain ⟨s, -, rfl⟩ := Option.map_eq_some_iff.1 hd
  rfl

theorem Rests.memory?_eq (h : e.Rests t) : t.memory? = e.memory? := by
  rw [memory?, h.session_eq, h.undo_eq]
  rfl

/-- A session that goes on, or ends. -/
theorem memory?_takeFinished (he : e.memory? = some k) : e.takeFinished.1.memory? = k.unended := by
  obtain ⟨s, hs, rfl⟩ := Option.map_eq_some_iff.1 he
  cases houtcome : s.outcome with
  | reading =>
    rw [Memory.unended_of_reading rfl, takeFinished_of_reading, he, houtcome]
    intro s' hs'
    cases hs.symm.trans hs'
    exact houtcome
  | accepted | eof =>
    have hline : s.outcome.line? = some _ := congrArg Outcome.line? houtcome
    rw [takeFinished_of_line hs hline]
    rfl

theorem undo_takeFinished (e : Engine) : e.takeFinished.1.undo = e.undo := by
  rw [takeFinished]
  split
  · rfl
  · split <;> rfl

/-- A change of size is nothing to undo. -/
theorem memory_resized (e : Engine) (size : Size) :
    (e.resized size).memory? = e.memory? ∧ (e.resized size).undo = e.undo := by
  rw [resized]
  cases hd : e.desk? with
  | none => exact ⟨rfl, rfl⟩
  | some d =>
    have hput : ∀ {d' : Desk}, d'.memory = d.memory →
        (e.put d').memory? = e.memory? ∧ (e.put d').undo = e.undo := by
      intro d' hmemory
      rw [memory?_of_desk hd, ← undo_of_desk hd, ← hmemory]
      exact ⟨rfl, congrArg Memory.undo hmemory⟩
    dsimp only
    split
    · exact hput rfl
    · split
      · exact hput (d.memory_resize ..)
      · exact ⟨rfl, rfl⟩

/-- The end of a pause is nothing to undo, unless the session ends. -/
theorem memory_resume {width : Nat} {f : Option Finished} (h : e.resume width = .ok (t, f)) :
    ∃ d d' : Desk, e.desk? = some d ∧ d'.memory = d.memory ∧
      t = { e.put d' with pendingResize := none }.takeFinished.1 := by
  obtain ⟨d, hd, ht⟩ := of_resume_eq_ok h
  refine ⟨d, _, hd, ?_, (congrArg Prod.fst ht).symm⟩
  change (e.catchUp width d.resume).memory = _
  obtain hsame | ⟨old, hresized⟩ := e.catchUp_eq width d.resume
  · rw [hsame]
    rfl
  · rw [hresized, Desk.memory_resize]
    rfl

theorem memory_afterScript (d : Desk) (c : Completion) (h : ScriptedHandler) :
    (e.afterScript d c h).memory? = some d.memory := by
  have hsettled : ∀ (d : Desk) (a : Action), (d.settleFocus a).memory = d.memory := by
    intro d a
    rw [Desk.settleFocus]
    split <;> rfl
  have hended : (d.endCompletion c (.scripted h) h.deferred).2.memory = d.memory := by
    rw [Desk.endCompletion]
    dsimp only
    split <;> rfl
  exact congrArg some ((hsettled ..).trans hended)

/-- Calls leave the snapshots, and a session that they settle ends. -/
theorem memory_answers {size : Size} {calls : List SessionCall} {replies : List Reply}
    {f : Option Finished} (h : e.answers size calls = .ok (t, replies, f)) :
    ∃ d, e.desk? = some d ∧
      (t = e.put (d.answers size calls).1 ∨ t = (e.put (d.answers size calls).1).takeFinished.1) := by
  rw [answers] at h
  cases hd : e.desk? with
  | none =>
    rw [hd] at h
    cases h
  | some d =>
    rw [hd] at h
    dsimp only at h
    split at h
    · cases h
      exact ⟨d, rfl, .inl rfl⟩
    · cases h
      exact ⟨d, rfl, .inr rfl⟩

/-! ### Turns -/

/-- How often the bell rings in what was not taken yet. -/
def rings (e : Engine) : Nat := e.effects.countP Effect.isRing

/-- The engine after the handling of an event. -/
def Handled.engine : Handled → Engine
  | .settled e _ => e
  | .script e _ _ => e

theorem goes_handle {event : KeyEvent} (hnext : e.next? = some (d, event)) :
    Memory.Goes e.memory? (e.strokes (.handles d event)) (e.handle d event).engine.memory? := by
  obtain ⟨s, queue, hs, hlisten, -, hd⟩ := next?_eq_some hnext
  have hmemory : e.memory? = some d.memory := by
    rw [memory?, hs, hd]
    rfl
  have hlisten : d.session.paused = false := by rwa [hd]
  have huntold : ∀ {x : Stroke} {o : Option Memory}, x.isTold = false →
      (∀ k ∈ o, k.typing = false) → Memory.Goes e.memory? [x] o := by
    intro x o hx ho
    refine .untold hx fun k hk htyping => ?_
    rw [ho k hk] at htyping
    cases htyping
  rw [handle_eq, strokes]
  by_cases hinterrupt : e.Interrupts event
  · rw [if_pos hinterrupt, if_pos (.inl hinterrupt)]
    refine huntold rfl ?_
    rintro k ⟨⟩
    exact congrArg Trace.typing d.trace_startOver
  by_cases heof : e.AtEof d event
  · rw [if_neg hinterrupt, if_pos heof, if_pos (.inr heof)]
    refine huntold rfl fun k hk => ?_
    rw [Handled.engine, memory?_takeFinished rfl] at hk
    cases hk
  rw [if_neg hinterrupt, if_neg heof, if_neg (not_or.2 ⟨hinterrupt, heof⟩)]
  cases htold : (d.stroke event).isTold with
  | true =>
    obtain ⟨d', hd', hstroke⟩ := Desk.next_dispatch hlisten htold
    rw [hd', hmemory]
    dsimp only
    rw [Handled.engine, memory?_takeFinished rfl]
    exact .told hstroke
  | false =>
    have htyping := Desk.typing_dispatch htold
    refine huntold htold ?_
    cases hd' : d.dispatch event with
    | finished d' =>
      rw [hd'] at htyping
      dsimp only
      rw [Handled.engine, memory?_takeFinished rfl]
      intro k hk
      obtain ⟨rfl, -⟩ := Memory.mem_unended hk
      exact htyping
    | script c h d' =>
      rw [hd'] at htyping
      rintro k ⟨⟩
      exact htyping

theorem limit_handle {event : KeyEvent} (hnext : e.next? = some (d, event)) :
    (e.handle d event).engine.undo.limit = e.undo.limit := by
  obtain ⟨s, queue, -, -, -, hd⟩ := next?_eq_some hnext
  have hundo : e.undo = d.undo := by rw [hd]
  rw [hundo, handle_eq]
  split
  · exact congrArg (fun x : Trace => x.undo.limit) d.trace_startOver
  · split
    · rw [Handled.engine, undo_takeFinished]
      rfl
    · have hlimit := d.limit_dispatch event
      cases hd' : d.dispatch event with
      | finished d' =>
        rw [hd'] at hlimit
        dsimp only
        rw [Handled.engine, undo_takeFinished]
        exact hlimit
      | script c h d' =>
        rw [hd'] at hlimit
        exact hlimit

/-- What a turn does to what undo goes by. -/
theorem goes_takes (h : e.Takes turn o) :
    Memory.Goes e.memory? (e.strokes turn) (o.bind memory?) := by
  have hsettles : ∀ {d d' : Desk} {x : Engine}, e.desk? = some d → x.memory? = some d'.memory →
      d'.memory = d.memory → Memory.Goes e.memory? [] x.takeFinished.1.memory? := by
    intro d d' x hd hx hmemory
    rw [memory?_takeFinished hx, hmemory, memory?_of_desk hd]
    exact .settles d.memory
  have huntold : ∀ {s : Stroke} {d d' : Desk} {o' : Option Memory}, s.isTold = false →
      s.isAction = false → e.desk? = some d → d'.session.typing = d.session.typing →
      (∀ k ∈ o', k = d'.memory) → Memory.Goes e.memory? [s] o' := by
    intro s d d' o' hs haction hd hsame ho
    refine .untold hs fun k hk htyping => ⟨haction, d.memory, memory?_of_desk hd, ?_⟩
    rw [ho k hk] at htyping
    exact hsame.symm.trans htyping
  cases h with
  | rested h =>
    rw [Option.bind_some, h.memory?_eq]
    exact .rests _
  | resized size =>
    have hmemory := (e.memory_resized size).1
    change Memory.Goes _ _ (e.resized size).memory?
    rw [hmemory]
    exact .rests _
  | resumed h =>
    obtain ⟨d, d', hd, hmemory, rfl⟩ := memory_resume h
    exact hsettles hd (x := { e.put d' with pendingResize := none }) rfl hmemory
  | left hd c h => exact hsettles hd (e.memory_afterScript _ c h) rfl
  | begun hnone r callback width previous scheduled =>
    refine .untold rfl ?_
    rintro k ⟨⟩ htyping
    cases htyping
  | handled hfree hnext h =>
    have hgoes := goes_handle hnext
    rw [h] at hgoes
    exact hgoes
  | scripted hfree hnext h =>
    have hgoes := goes_handle hnext
    rw [h] at hgoes
    exact hgoes
  | @answered size calls t replies f h =>
    obtain ⟨d, hd, hput⟩ := memory_answers h
    rw [strokes]
    cases htouches : calls.any SessionCall.touches with
    | true =>
      obtain ⟨rings, hkeeps⟩ := d.keeps_answers size calls
      refine huntold rfl rfl hd (congrArg Trace.typing hkeeps) fun k hk => ?_
      rcases hput with rfl | rfl
      · cases hk
        rfl
      · change k ∈ (takeFinished _).1.memory? at hk
        rw [memory?_takeFinished rfl] at hk
        exact (Memory.mem_unended hk).1
    | false =>
      have hmemory := d.memory_answers size htouches
      rcases hput with rfl | rfl
      · change Memory.Goes _ [] (some (d.answers size calls).1.memory)
        rw [hmemory, ← memory?_of_desk hd]
        exact .rests _
      · exact hsettles hd rfl hmemory
  | @stepped d hd size s =>
    rw [strokes]
    cases htouches : s.touches with
    | true =>
      have htyping := (d.acts_scriptStep size s).typing_eq
      refine huntold rfl rfl hd htyping ?_
      rintro k ⟨⟩
      rfl
    | false =>
      have hmemory := d.memory_scriptStep size htouches
      change Memory.Goes _ [] (some (d.scriptStep size s).memory)
      rw [hmemory, ← memory?_of_desk hd]
      exact .rests _
  | dropped => exact .untold rfl nofun

/-- How many snapshots there may be is no turn's concern. -/
theorem limit_takes (h : e.Takes turn (some t)) : t.undo.limit = e.undo.limit := by
  cases h with
  | rested h => rw [h.undo_eq]
  | resized size => exact congrArg UndoStack.limit (e.memory_resized size).2
  | resumed h =>
    obtain ⟨d, d', hd, hmemory, rfl⟩ := memory_resume h
    have hundo : d'.undo = d.undo := congrArg Memory.undo hmemory
    change (takeFinished _).1.undo.limit = _
    rw [undo_takeFinished, ← undo_of_desk hd, ← hundo]
    rfl
  | @left d hd c h =>
    have hmemory := e.memory_afterScript d c h
    have hundo : (e.afterScript d c h).undo = d.undo :=
      congrArg Memory.undo (Option.some.inj hmemory)
    change (takeFinished _).1.undo.limit = _
    rw [undo_takeFinished, hundo, undo_of_desk hd]
  | begun => rfl
  | handled hfree hnext h =>
    have hlimit := limit_handle hnext
    rw [h] at hlimit
    exact hlimit
  | scripted hfree hnext h =>
    have hlimit := limit_handle hnext
    rw [h] at hlimit
    exact hlimit
  | @answered size calls t replies f h =>
    obtain ⟨d, hd, hput⟩ := memory_answers h
    obtain ⟨rings, hkeeps⟩ := d.keeps_answers size calls
    have hundo : (d.answers size calls).1.undo = d.undo := congrArg Trace.undo hkeeps
    rw [← undo_of_desk hd, ← hundo]
    rcases hput with rfl | rfl
    · rfl
    · exact congrArg UndoStack.limit (undo_takeFinished _)
  | @stepped d hd size s =>
    rw [← undo_of_desk hd]
    exact (d.acts_scriptStep size s).limit_eq

end Engine

namespace Turn

variable {turn : Turn} {o o' : Option Engine}

/-- What a turn is for undo. -/
def strokes (turn : Turn) : Option Engine → List Stroke
  | none => []
  | some e => e.strokes turn

theorem Takes.goes (h : Turn.Takes o turn o') :
    Memory.Goes (o.bind Engine.memory?) (turn.strokes o) (o'.bind Engine.memory?) := by
  cases h with
  | gone => exact .rests none
  | takes h => exact Engine.goes_takes h

theorem Takes.limit {limit : Nat} (h : Turn.Takes o turn o') (ho : ∀ e ∈ o, e.undo.limit = limit) :
    ∀ e ∈ o', e.undo.limit = limit := by
  cases h with
  | gone => exact fun e he => absurd he (Option.not_mem_none e)
  | takes h =>
    intro e he
    rw [he] at h
    exact (Engine.limit_takes h).trans (ho _ rfl)

end Turn

end LineEditor
