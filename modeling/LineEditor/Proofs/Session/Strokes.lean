import LineEditor.Proofs.Session.Traces

/-!
Events as undo sees them: a code point is typed, an editing action changes the text, the cursor moves or
nothing happens, or an edit is taken back.

Main definitions: `Stroke` and `Desk.stroke`; `Memory`, what undo goes by, and `Memory.Next`, what a
stroke does to it. Main statements: `Desk.next_dispatch` for events, and `Desk.memory_answers` and
`Desk.memory_scriptStep` for calls and scripts that leave it alone.
-/
namespace LineEditor

/-! ### Strokes -/

/-- What is done to what undo goes by. -/
inductive Stroke where
  /-- A code point is typed, into what was shown. -/
  | typed (b : Buffer)
  /-- An editing action changes the text of what was shown. -/
  | edited (b : Buffer)
  /-- The cursor moves, the Vi state switches or the event is rejected; by an action, or not. -/
  | idle (action : Bool)
  | undone
  /-- Any other event, which is an action or not. -/
  | other (action : Bool)
  /-- Work on the session that is no event. -/
  | called
  deriving DecidableEq, Repr

namespace Stroke

/-- Whether an event is handled. -/
def isEvent : Stroke → Bool
  | .called => false
  | _ => true

/-- Whether an action is applied. -/
def isAction : Stroke → Bool
  | .edited _ | .undone => true
  | .idle action | .other action => action
  | .typed _ | .called => false

/-- Whether it is known what a stroke does. -/
def isTold : Stroke → Bool
  | .other _ | .called => false
  | _ => true

end Stroke

/-- Whether the bell rang for what leaves a buffer and the cursor in it. -/
def Desk.rejects (d d' : Desk) : Bool :=
  d.trace.rings < d'.trace.rings && d'.session.buffer = d.session.buffer

/-- What the handling of an event does to what undo goes by. -/
def Desk.stroke (d : Desk) (e : KeyEvent) : Stroke :=
  match d.actionFor e, d.dispatch e with
  | none, .finished d' =>
    if d'.session.buffer.text = d.session.buffer.text then .idle false else .typed d.session.buffer
  | some a, .finished d' =>
    if a = .basic .undo then .undone
    else if a.edits && d'.session.buffer.text ≠ d.session.buffer.text then .edited d.session.buffer
    else if a.moves || d.rejects d' then .idle true
    else .other true
  | _, .script .. => .other true

/-- What undo goes by, and whether the session has ended. -/
structure Memory where
  buffer : Buffer
  undo : UndoStack
  typing : Bool
  outcome : Outcome

/-- What undo goes by at a desk. -/
def Desk.memory (d : Desk) : Memory := ⟨d.session.buffer, d.undo, d.session.typing, d.session.outcome⟩

/-- What a stroke does to what undo goes by. -/
inductive Memory.Next (k : Memory) : Stroke → Memory → Prop
  | typed {b : Buffer} (hlonger : k.buffer.text.length < b.text.length) :
      Next k (.typed k.buffer) { k with
        buffer := b
        undo := if k.typing then k.undo else k.undo.push (.ofBuffer k.buffer)
        typing := true }
  | edited {b : Buffer} (htext : b.text ≠ k.buffer.text) :
      Next k (.edited k.buffer) { k with
        buffer := b
        undo := k.undo.push (.ofBuffer k.buffer)
        typing := false }
  | idle {b : Buffer} (action : Bool) (htext : b.text = k.buffer.text) :
      Next k (.idle action) { k with buffer := b, typing := k.typing && !action }
  | undone {s : Snapshot} {undo : UndoStack} (hpop : k.undo.pop = some (s, undo)) :
      Next k .undone { k with buffer := s.restore, undo, typing := false }
  | rested (hpop : k.undo.pop = none) : Next k .undone { k with typing := false }

/-- How many snapshots there may be stays as it is. -/
theorem Memory.Next.limit_eq {k k' : Memory} {s : Stroke} (h : k.Next s k') :
    k'.undo.limit = k.undo.limit := by
  cases h with
  | typed hlonger =>
    dsimp only
    split
    · rfl
    · exact UndoStack.limit_push ..
  | edited htext => exact UndoStack.limit_push ..
  | undone hpop => exact UndoStack.limit_of_pop hpop
  | idle | rested => rfl

theorem Buffer.length_lt_of_insert {b b' : Buffer} {c : Char} (h : b.insert [c] = .ok b') :
    b.text.length < b'.text.length := by
  rw [Buffer.insert] at h
  split at h
  · cases h
  · cases h
    have hlength : (b.before ++ [c] ++ b.after).length = b.text.length + 1 := by
      rw [← b.before_append_after]
      simp only [List.length_append, List.length_singleton]
      omega
    exact lt_of_lt_of_eq (Nat.lt_succ_self _) hlength.symm

namespace Desk

variable {d : Desk} {e : KeyEvent}

theorem memory_refresh (d : Desk) (b : Buffer) :
    (d.refresh b).memory = { d.memory with buffer := b } := by
  have htrace := d.trace_refresh b
  have hundo : (d.refresh b).undo = d.undo := congrArg Trace.undo htrace
  have htyping : (d.refresh b).session.typing = d.session.typing := congrArg Trace.typing htrace
  have houtcome : (d.refresh b).session.outcome = d.session.outcome :=
    congrArg (fun k : Kept => k.core.outcome) (d.kept_refresh b)
  rw [memory, hundo, htyping, houtcome]
  rfl

/-- An event that nothing is bound to is inserted, or rejected. -/
theorem next_selfInsert (d : Desk) (e : KeyEvent) :
    ((d.selfInsert e).session.buffer.text = d.session.buffer.text ∧
      d.memory.Next (.idle false) (d.selfInsert e).memory) ∨
    ((d.selfInsert e).session.buffer.text ≠ d.session.buffer.text ∧
      d.memory.Next (.typed d.session.buffer) (d.selfInsert e).memory) := by
  have hrejected : d.memory.Next (.idle false) d.memory := by
    have hsame := Memory.Next.idle (k := d.memory) false (rfl : d.session.buffer.text = _)
    rwa [Bool.not_false, Bool.and_true] at hsame
  unfold Desk.selfInsert
  split
  · exact .inl ⟨rfl, hrejected⟩
  · rename_i c
    split
    · split
      · exact .inl ⟨rfl, hrejected⟩
      · rename_i b hb
        have hlonger := Buffer.length_lt_of_insert hb
        refine .inr ⟨fun h => Nat.ne_of_lt hlonger (congrArg List.length h).symm, ?_⟩
        have hnext := Memory.Next.typed (k := d.memory) hlonger
        have hmemory : { (if d.session.typing then d else d.snapshot).memory with
            buffer := b, typing := true } = { d.memory with
            buffer := b
            undo := if d.session.typing then d.undo else d.undo.push (.ofBuffer d.session.buffer)
            typing := true } := by
          cases d.session.typing <;> rfl
        have hshown := memory_refresh (if d.session.typing then d else d.snapshot) b
        change d.memory.Next _ { Desk.memory (Desk.refresh _ b) with typing := true }
        rw [hshown, hmemory]
        exact hnext
    · exact .inl ⟨rfl, hrejected⟩

theorem memory_undoEdit (d : Desk) : d.undoEdit.memory =
    match d.undo.pop with
    | some (s, undo) => { d.memory with buffer := s.restore, undo }
    | none => d.memory := by
  rw [undoEdit]
  cases d.undo.pop with
  | none => rfl
  | some x => exact memory_refresh { d with undo := x.2 } x.1.restore

/-- An action that does not accept what is shown leaves it to others to end the session. -/
theorem outcome_dispatch {a : Action} {d' : Desk} (hlisten : d.session.paused = false)
    (ha : d.actionFor e = some a) (haccept : a ≠ .acceptLine) (hd : d.dispatch e = .finished d') :
    d'.session.outcome = d.session.outcome := by
  have hends : d.endsBy e = [] := by
    rw [endsBy, ha]
    cases a with
    | acceptLine => exact absurd rfl haccept
    | _ => rfl
  have hcore := d.core_dispatch e hlisten
  rw [hd] at hcore
  dsimp only at hcore
  have houtcome : d'.session.outcome = d.session.outcome.after (d.endsBy e) :=
    congrArg Core.outcome hcore
  rw [houtcome, hends]
  rfl

/-- An action is applied with no typed run going on; one that runs a script has done nothing yet. -/
theorem acts_dispatch {a : Action} (ha : d.actionFor e = some a) :
    match d.dispatch e with
    | .finished d' => Trace.Acts d.session.buffer { d.trace with typing := false } d'.trace
    | .script _ _ d' => Trace.Acts d.session.buffer { d.trace with typing := false } d'.trace := by
  have hacts := (d.beginAction a e).acts_apply a
  rw [trace_beginAction] at hacts
  rw [dispatch, ha]
  dsimp only
  cases happly : (d.beginAction a e).apply a with
  | finished a' d' =>
    rw [happly] at hacts
    dsimp only
    rw [trace_settleFocus]
    exact hacts
  | script c h d' =>
    rw [happly] at hacts
    dsimp only at hacts ⊢
    rw [hacts.1]
    exact .refl ..

/-- An event that an action is applied for. -/
theorem next_action {a a' : Action} {d' : Desk} (hlisten : d.session.paused = false)
    (ha : d.actionFor e = some a) (happly : (d.beginAction a e).apply a = .finished a' d')
    (htold : (d.stroke e).isTold = true) :
    d.memory.Next (d.stroke e) (d'.settleFocus a').memory := by
  have hdispatch : d.dispatch e = .finished (d'.settleFocus a') := by
    rw [dispatch, ha]
    dsimp only
    rw [happly]
  have hacts := d.acts_dispatch ha
  rw [hdispatch] at hacts
  dsimp only at hacts
  rw [trace_settleFocus] at hacts
  have hmemory : a ≠ .acceptLine → (d'.settleFocus a').memory =
      ⟨d'.session.buffer, d'.undo, false, d.session.outcome⟩ := by
    intro haccept
    have hsettled := trace_settleFocus d' a'
    have hundo : (d'.settleFocus a').undo = d'.undo := congrArg Trace.undo hsettled
    have htyping : (d'.settleFocus a').session.typing = false :=
      (congrArg Trace.typing hsettled).trans hacts.typing_eq
    rw [memory, buffer_settleFocus, hundo, htyping, outcome_dispatch hlisten ha haccept hdispatch]
  rw [stroke, ha, hdispatch] at htold ⊢
  dsimp only at htold ⊢
  rw [buffer_settleFocus] at htold ⊢
  by_cases hundo : a = .basic .undo
  · rw [if_pos hundo]
    subst hundo
    cases happly
    have hundone := (d.beginAction (.basic .undo) e).memory_undoEdit
    have hsame : (d.beginAction (.basic .undo) e).undo = d.undo :=
      congrArg Trace.undo (d.trace_beginAction (.basic .undo) e)
    change d.memory.Next .undone (d.beginAction (.basic .undo) e).undoEdit.memory
    rw [hundone, hsame]
    cases hpop : d.undo.pop with
    | none => exact .rested hpop
    | some x => exact .undone hpop
  rw [if_neg hundo] at htold ⊢
  by_cases hedits : (a.edits && d'.session.buffer.text ≠ d.session.buffer.text) = true
  · rw [if_pos hedits]
    obtain ⟨ha', htext⟩ := Bool.and_eq_true_iff.1 hedits
    have haccept : a ≠ .acceptLine := by
      rintro rfl
      cases ha'
    have htext := of_decide_eq_true htext
    rcases edits_apply ha' happly with ⟨hsame, -⟩ | hpushed
    · exact absurd hsame htext
    · rw [trace_beginAction] at hpushed
      have hundo' : d'.undo = d.undo.push (.ofBuffer d.session.buffer) := congrArg Trace.undo hpushed
      rw [hmemory haccept, hundo']
      exact .edited htext
  rw [if_neg hedits] at htold ⊢
  by_cases hidle : (a.moves || d.rejects (d'.settleFocus a')) = true
  · rw [if_pos hidle]
    have hkept : a ≠ .acceptLine ∧ d'.session.buffer.text = d.session.buffer.text ∧
        d'.undo = d.undo := by
      rcases Bool.or_eq_true_iff.1 hidle with hmoves | hrejects
      · obtain ⟨htext, hsame⟩ := moves_apply hmoves happly
        rw [trace_beginAction] at hsame
        refine ⟨?_, htext, congrArg Trace.undo hsame⟩
        rintro rfl
        cases hmoves
      · rw [rejects, trace_settleFocus, buffer_settleFocus] at hrejects
        obtain ⟨hrings, hshown⟩ := Bool.and_eq_true_iff.1 hrejects
        have hrings := of_decide_eq_true hrings
        refine ⟨?_, congrArg Buffer.text (of_decide_eq_true hshown), hacts.undo_eq hrings⟩
        -- accepting is silent
        rintro rfl
        cases happly
        rw [trace_acceptLine, trace_beginAction] at hrings
        exact absurd hrings (Nat.lt_irrefl _)
    obtain ⟨haccept, htext, hsame⟩ := hkept
    have hnext := Memory.Next.idle (k := d.memory) true htext
    rw [hmemory haccept, hsame]
    rw [Bool.not_true, Bool.and_false] at hnext
    exact hnext
  · rw [if_neg hidle] at htold
    cases htold

/-- What a stroke that is told does. -/
theorem next_dispatch (hlisten : d.session.paused = false) (htold : (d.stroke e).isTold = true) :
    ∃ d', d.dispatch e = .finished d' ∧ d.memory.Next (d.stroke e) d'.memory := by
  cases ha : d.actionFor e with
  | none =>
    have hdispatch : d.dispatch e = .finished (d.selfInsert e) := by rw [dispatch, ha]
    refine ⟨_, hdispatch, ?_⟩
    rw [stroke, ha, hdispatch]
    dsimp only
    rcases d.next_selfInsert e with ⟨htext, hnext⟩ | ⟨htext, hnext⟩
    · rw [if_pos htext]
      exact hnext
    · rw [if_neg htext]
      exact hnext
  | some a =>
    cases happly : (d.beginAction a e).apply a with
    | finished a' d' =>
      refine ⟨d'.settleFocus a', ?_, next_action hlisten ha happly htold⟩
      rw [dispatch, ha]
      dsimp only
      rw [happly]
    | script c h d' =>
      have hdispatch : d.dispatch e = .script c h d' := by
        rw [dispatch, ha]
        dsimp only
        rw [happly]
      rw [stroke, ha, hdispatch] at htold
      cases htold

/-- No typed run goes on behind what is not told. -/
theorem typing_dispatch (htold : (d.stroke e).isTold = false) :
    match d.dispatch e with
    | .finished d' => d'.session.typing = false
    | .script _ _ d' => d'.session.typing = false := by
  cases ha : d.actionFor e with
  | none =>
    have hdispatch : d.dispatch e = .finished (d.selfInsert e) := by rw [dispatch, ha]
    rw [stroke, ha, hdispatch] at htold
    dsimp only at htold
    split at htold <;> cases htold
  | some a =>
    have hacts := d.acts_dispatch ha
    cases hdispatch : d.dispatch e with
    | finished d' =>
      rw [hdispatch] at hacts
      exact hacts.typing_eq
    | script c h d' =>
      rw [hdispatch] at hacts
      exact hacts.typing_eq

/-- How many snapshots there may be stays as it is. -/
theorem limit_dispatch (d : Desk) (e : KeyEvent) :
    match d.dispatch e with
    | .finished d' => d'.undo.limit = d.undo.limit
    | .script _ _ d' => d'.undo.limit = d.undo.limit := by
  cases ha : d.actionFor e with
  | none =>
    rw [dispatch, ha]
    rcases d.next_selfInsert e with ⟨-, hnext⟩ | ⟨-, hnext⟩
    · exact hnext.limit_eq
    · exact hnext.limit_eq
  | some a =>
    have hacts := d.acts_dispatch ha
    cases hdispatch : d.dispatch e with
    | finished d' =>
      rw [hdispatch] at hacts
      exact hacts.limit_eq
    | script c h d' =>
      rw [hdispatch] at hacts
      exact hacts.limit_eq

end Desk

/-! ### Calls and scripts -/

/-- Whether a call changes what undo goes by, or ends the session. -/
def SessionCall.touches : SessionCall → Bool
  | .refresh _ | .refreshPrompt .. | .insert _ | .resetDisplay | .newLine | .finish _ => true
  | _ => false

/-- Whether a step of a script changes what undo goes by, or ends the session. -/
def ScriptStep.touches : ScriptStep → Bool
  | .apply _ | .basic _ | .killRange .. | .applyEdit _ => true
  | .session calls => calls.any SessionCall.touches
  | _ => false

namespace Desk

section Calls

variable (d : Desk) (size : Size)

theorem memory_write (t : Text) : (d.write t).memory = d.memory := by
  rw [write]
  split <;> rfl

theorem memory_resize (old new : Nat) : (d.resize old new).memory = d.memory := memory_write _ _

theorem memory_answer {k : SessionCall} (hk : k.touches = false) :
    (d.answer size k).1.memory = d.memory := by
  cases k
  case refresh | refreshPrompt | insert | resetDisplay | newLine | finish => cases hk
  case clearScreen => exact d.memory_write (Draw.renderAll LineEditor.clearScreen)
  case resize old new => exact d.memory_resize old new
  case write t => exact d.memory_write t
  all_goals rfl

theorem memory_answers {calls : List SessionCall} (h : calls.any SessionCall.touches = false) :
    (d.answers size calls).1.memory = d.memory := by
  induction calls generalizing d with
  | nil => rfl
  | cons k calls ih =>
    rw [List.any_cons, Bool.or_eq_false_iff] at h
    rw [answers_cons, ih _ h.2, memory_answer d size h.1]

theorem memory_scriptStep {s : ScriptStep} (hs : s.touches = false) :
    (d.scriptStep size s).memory = d.memory := by
  cases s
  case apply | basic | killRange | applyEdit => cases hs
  case session calls => exact d.memory_answers size hs
  case setVi v =>
    rw [scriptStep, setVi]
    split <;> rfl
  all_goals rfl

end Calls

end Desk

end LineEditor
