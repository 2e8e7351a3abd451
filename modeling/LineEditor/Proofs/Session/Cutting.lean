import LineEditor.Proofs.Buffer.Spans
import LineEditor.Proofs.Session.Traces

/-!
Cutting text. What a command or an operator cuts is a span around the cursor: it goes from the text to the
front of the kill ring, the cursor is where it was, and one snapshot is pushed; an empty span is nothing
to cut. An operator cuts what lies between the cursor and where its motion leads, and so do the commands
that go with a motion.

Main definitions: `Stock`, what cutting works on, and `Stock.CutsOut`; `Command.motion?`, the motion that a
command goes with. Main statement: `Desk.cuts_agree`.
-/
namespace LineEditor

/-! ### Cutting out a span -/

/-- What cutting works on: what is shown, what was cut and what can be undone. -/
structure Stock where
  buffer : Buffer
  kills : KillRing
  undo : UndoStack

/-- The text from `first` up to `last` is cut out: it goes to the front of the kill ring, the cursor is
where it was, and a snapshot goes on top of the others, unless it is there already. -/
structure Stock.Cuts (k k' : Stock) (first last : Nat) : Prop where
  text_eq : k'.buffer.text = k.buffer.text.take first ++ k.buffer.text.drop last
  cursor_eq : k'.buffer.cursor = first
  kills_eq : k'.kills = { k.kills with
    entries := ((k.buffer.text.take last).drop first :: k.kills.entries).take k.kills.limit }
  undo_eq : k'.undo = { k.undo with
    snapshots :=
      if k.undo.snapshots.head? = some ⟨k.buffer.text, k.buffer.cursor⟩ then k.undo.snapshots
      else (⟨k.buffer.text, k.buffer.cursor⟩ :: k.undo.snapshots).take k.undo.limit }

/-- Cutting out what lies between two places; where nothing does, nothing happens. -/
def Stock.CutsOut (k k' : Stock) (first last : Nat) : Prop :=
  if first < last then k.Cuts k' first last else k' = k

theorem Stock.cutsOut_empty (k : Stock) (place : Nat) : k.CutsOut k place place := by
  rw [CutsOut, if_neg (Nat.lt_irrefl place)]

/-- Text that is not empty goes to the front. -/
theorem KillRing.add_eq {r : KillRing} {t : Text} (ht : t ≠ []) :
    r.add t = { r with entries := (t :: r.entries).take r.limit } := by
  rw [add, if_neg (by simpa using ht)]

/-- A push changes the snapshots only. -/
theorem UndoStack.push_eq (u : UndoStack) (s : Snapshot) : u.push s = { u with
    snapshots := if u.snapshots.head? = some s then u.snapshots
      else (s :: u.snapshots).take u.limit } := by
  rw [push]
  split <;> rfl

namespace Desk

/-- What cutting works on at a desk. -/
def stock (d : Desk) : Stock := ⟨d.session.buffer, d.kills, d.undo⟩

section Frame

variable (d : Desk)

@[simp] theorem stock_bell : d.bell.stock = d.stock := rfl

@[simp] theorem stock_resume : d.resume.stock = d.stock := rfl

@[simp] theorem stock_setVi (v : ViState) : (d.setVi v).stock = d.stock := by
  rw [setVi]
  split <;> rfl

@[simp] theorem stock_settleFocus (a : Action) : (d.settleFocus a).stock = d.stock := by
  rw [settleFocus]
  split <;> rfl

theorem stock_refresh (b : Buffer) : (d.refresh b).stock = { d.stock with buffer := b } := by
  rw [refresh, refreshWith, write]
  dsimp only
  split <;> rfl

theorem stock_applyEdit (b : Buffer) : (d.applyEdit b).stock =
    ⟨b, d.kills, d.undo.push (.ofBuffer d.session.buffer)⟩ := stock_refresh ..

end Frame

variable {d : Desk} {first last : Nat}

/-- A span around the cursor is cut out. -/
theorem cutsOut_killRange (hfirst : first ≤ d.session.buffer.cursor)
    (hlast : d.session.buffer.cursor ≤ last) (hend : last ≤ d.session.buffer.length) :
    d.stock.CutsOut (d.killRange first last).stock first last := by
  rw [Stock.CutsOut, killRange]
  split
  · rename_i hlt
    rw [if_neg (Nat.not_le.2 hlt), Buffer.deleteRange_eq hfirst hlast hend]
    have hremoved : (d.session.buffer.text.take last).drop first ≠ [] := by
      rw [Buffer.length] at hend
      refine List.ne_nil_of_length_pos ?_
      rw [List.length_drop, List.length_take_of_le hend]
      omega
    dsimp only
    rw [stock_applyEdit, KillRing.add_eq hremoved]
    exact ⟨rfl, List.length_take_of_le (Nat.le_trans hfirst (Nat.le_trans hlast hend)), rfl,
      d.undo.push_eq _⟩
  · rename_i hempty
    rw [if_pos (Nat.not_lt.1 hempty)]

end Desk

/-! ### Spans -/

/-- The motions. -/
def Command.isMotion : Command → Bool
  | .forwardChar | .backwardChar | .beginningOfLine | .endOfLine | .forwardWord | .backwardWord
  | .viForwardWord => true
  | _ => false

/-- The motion that a command goes with that cuts. -/
def Command.motion? : Command → Option Command
  | .killLine | .viChangeToEnd => some .endOfLine
  | .backwardKillLine => some .beginningOfLine
  | .killWord => some .forwardWord
  | .backwardKillWord => some .backwardWord
  | .backwardDeleteChar => some .backwardChar
  | _ => none

namespace Buffer

variable {b : Buffer} {k m own : Command} {span : Nat × Nat}

/-- A span of the text that the cursor is in or at. -/
structure Around (b : Buffer) (span : Nat × Nat) : Prop where
  first_le : span.1 ≤ b.cursor
  le_last : b.cursor ≤ span.2
  last_le : span.2 ≤ b.length

/-- Where a motion leads. -/
def goal (b : Buffer) (m : Command) : Nat := ((b.move? m).getD b).cursor

theorem goal_le (b : Buffer) (m : Command) : b.goal m ≤ b.length := by
  have htext : ((b.move? m).getD b).text = b.text := by cases m <;> rfl
  rw [goal, length, ← htext]
  exact Buffer.cursor_le _

theorem goal_forwardChar (b : Buffer) : b.goal .forwardChar = min (b.cursor + 1) b.length := rfl

theorem goal_backwardChar (b : Buffer) : b.goal .backwardChar = b.cursor - 1 := by
  have hcursor := b.cursor_le
  change min (b.cursor + (-1 : Int)).toNat b.text.length = _
  omega

theorem goal_beginningOfLine (b : Buffer) : b.goal .beginningOfLine = 0 := Nat.zero_min _

theorem goal_endOfLine (b : Buffer) : b.goal .endOfLine = b.length := rfl

theorem goal_forwardWord (b : Buffer) : b.goal .forwardWord = b.nextWordEnd b.cursor :=
  Nat.min_eq_left b.nextWordEnd_le

theorem goal_backwardWord (b : Buffer) : b.goal .backwardWord = b.previousWordStart b.cursor :=
  Nat.min_eq_left (Nat.le_trans (b.previousStart_le _) b.cursor_le)

theorem goal_viForwardWord (b : Buffer) : b.goal .viForwardWord = b.nextWordStart b.cursor :=
  Nat.min_eq_left b.nextWordStart_le

/-- What lies between the cursor and where a motion leads. -/
def between (b : Buffer) (m : Command) : Nat × Nat := (min b.cursor (b.goal m), max b.cursor (b.goal m))

theorem around_between (b : Buffer) (m : Command) : b.Around (b.between m) :=
  ⟨Nat.min_le_left .., Nat.le_max_left .., Nat.max_le.2 ⟨b.cursor_le, b.goal_le m⟩⟩

theorem between_of_le (h : b.cursor ≤ b.goal m) : b.between m = (b.cursor, b.goal m) := by
  rw [between, Nat.min_eq_left h, Nat.max_eq_right h]

theorem between_of_ge (h : b.goal m ≤ b.cursor) : b.between m = (b.goal m, b.cursor) := by
  rw [between, Nat.min_eq_right h, Nat.max_eq_left h]

/-- An operator cuts what lies between the cursor and where its motion leads. -/
theorem operatorSpan?_motion (hm : m.isMotion = true) (hown : own.isMotion = false) :
    b.operatorSpan? own (some m) = some (b.between m) := by
  have hne : some m ≠ some own := by
    rintro ⟨⟩
    rw [hm] at hown
    cases hown
  unfold operatorSpan?
  rw [if_neg hne]
  cases m
  case forwardChar =>
    rw [between_of_le, goal_forwardChar]
    rw [goal_forwardChar]
    exact Nat.le_min.2 ⟨Nat.le_succ _, b.cursor_le⟩
  case backwardChar =>
    rw [between_of_ge, goal_backwardChar]
    rw [goal_backwardChar]
    exact Nat.sub_le ..
  case beginningOfLine =>
    rw [between_of_ge, goal_beginningOfLine]
    rw [goal_beginningOfLine]
    exact Nat.zero_le _
  case endOfLine =>
    rw [between_of_le, goal_endOfLine]
    exact b.cursor_le
  case forwardWord =>
    rw [between_of_le, goal_forwardWord]
    rw [goal_forwardWord]
    exact b.le_nextWordEnd
  case backwardWord =>
    rw [between_of_ge, goal_backwardWord]
    rw [goal_backwardWord]
    exact b.previousStart_le _
  case viForwardWord =>
    rw [between_of_le, goal_viForwardWord]
    rw [goal_viForwardWord]
    exact b.le_nextWordStart
  all_goals cases hm

/-- What a command cuts. -/
def cut? (b : Buffer) : Command → Option (Nat × Nat)
  | .backwardDeleteChar => some (b.cursor - 1, b.cursor)
  | k => b.killSpan? k

/-- A command cuts what an operator cuts by the motion that it goes with. -/
theorem cut?_motion (hm : k.motion? = some m) : b.cut? k = some (b.between m) := by
  have hspan : ∀ {m : Command}, m.isMotion = true →
      b.operatorSpan? .viDeleteOperator (some m) = some (b.between m) :=
    fun hmotion => operatorSpan?_motion hmotion rfl
  cases k
  case killLine | viChangeToEnd =>
    cases hm
    exact hspan (m := .endOfLine) rfl
  case backwardKillLine =>
    cases hm
    exact hspan (m := .beginningOfLine) rfl
  case killWord =>
    cases hm
    exact hspan (m := .forwardWord) rfl
  case backwardKillWord =>
    cases hm
    exact hspan (m := .backwardWord) rfl
  case backwardDeleteChar =>
    cases hm
    exact hspan (m := .backwardChar) rfl
  all_goals cases hm

/-- A command that cuts goes with a motion. -/
theorem isMotion_of_motion? (hm : k.motion? = some m) : m.isMotion = true := by
  cases k
  case killLine | viChangeToEnd | backwardKillLine | killWord | backwardKillWord | backwardDeleteChar =>
    cases hm
    rfl
  all_goals cases hm

/-- A command cuts around the cursor. -/
theorem around_cut? (h : b.cut? k = some span) : b.Around span := by
  cases hm : k.motion? with
  | some m =>
    rw [cut?_motion hm] at h
    cases h
    exact b.around_between m
  | none =>
    cases k
    case killWholeLine =>
      cases h
      exact ⟨Nat.zero_le _, b.cursor_le, Nat.le_refl _⟩
    case unixWordRubout =>
      cases h
      exact ⟨b.previousStart_le _, Nat.le_refl _, b.cursor_le⟩
    case killLine | viChangeToEnd | backwardKillLine | killWord | backwardKillWord |
        backwardDeleteChar =>
      cases hm
    all_goals cases h

/-- An operator's own key stands for the line, and a key that is no motion for nothing. -/
theorem operatorSpan?_own (b : Buffer) (own : Command) :
    b.operatorSpan? own (some own) = some (0, b.length) := if_pos rfl

theorem operatorSpan?_other {motion : Option Command} (hown : motion ≠ some own)
    (hmotion : ∀ m, motion = some m → m.isMotion = false) : b.operatorSpan? own motion = none := by
  unfold operatorSpan?
  rw [if_neg hown]
  cases motion with
  | none => rfl
  | some m =>
    have hm := hmotion m rfl
    cases m
    case forwardChar | backwardChar | beginningOfLine | endOfLine | forwardWord | backwardWord |
        viForwardWord =>
      cases hm
    all_goals rfl

/-- An operator cuts around the cursor. -/
theorem around_operatorSpan? {motion : Option Command} (hown : own.isMotion = false)
    (h : b.operatorSpan? own motion = some span) : b.Around span := by
  by_cases hsame : motion = some own
  · subst hsame
    rw [operatorSpan?_own] at h
    cases h
    exact ⟨Nat.zero_le _, b.cursor_le, Nat.le_refl _⟩
  by_cases hmotion : ∃ m, motion = some m ∧ m.isMotion = true
  · obtain ⟨m, rfl, hm⟩ := hmotion
    rw [operatorSpan?_motion hm hown] at h
    cases h
    exact b.around_between m
  · have hother : ∀ m, motion = some m → m.isMotion = false := fun m hm =>
      Bool.eq_false_iff.2 fun htrue => hmotion ⟨m, hm, htrue⟩
    rw [operatorSpan?_other hsame hother] at h
    cases h

end Buffer

/-! ### Commands and operators -/

namespace Desk

variable {d : Desk} {e : KeyEvent} {k m : Command} {o : ViOperation} {motion : Option Command}
  {span : Nat × Nat}

theorem keymap_setVi (d : Desk) (v : ViState) : (d.setVi v).keymap = d.keymap.setVi v := by
  rw [setVi, Keymap.setVi]
  split <;> rfl

theorem keymap_refresh (d : Desk) (b : Buffer) : (d.refresh b).keymap = d.keymap := by
  rw [refresh, refreshWith, write]
  dsimp only
  split <;> rfl

theorem keymap_killRange (d : Desk) (first last : Nat) : (d.killRange first last).keymap = d.keymap := by
  rw [killRange]
  split
  · rfl
  · exact keymap_refresh ..

theorem keymap_settleFocus (d : Desk) (a : Action) : (d.settleFocus a).keymap = d.keymap := by
  rw [settleFocus]
  split <;> rfl

theorem cutsOut_of_around (h : d.session.buffer.Around span) :
    d.stock.CutsOut (d.killRange span.1 span.2).stock span.1 span.2 :=
  cutsOut_killRange h.first_le h.le_last h.last_le

/-- A command cuts out its span. -/
theorem cutsOut_basicStep (h : d.session.buffer.cut? k = some span) :
    d.stock.CutsOut (d.basicStep k).stock span.1 span.2 := by
  have hcuts := cutsOut_of_around (Buffer.around_cut? h)
  cases k
  case killLine | backwardKillLine | killWholeLine | killWord | backwardKillWord | unixWordRubout =>
    cases h
    exact hcuts
  case viChangeToEnd =>
    cases h
    rw [basicStep, stock_setVi]
    exact hcuts
  case backwardDeleteChar =>
    cases h
    rw [basicStep]
    split
    · rename_i hstart
      rw [stock_bell, hstart]
      exact d.stock.cutsOut_empty 0
    · exact hcuts
  all_goals cases h

/-- What an operator makes of a desk by the span that its motion covers: the span is cut out, and a change
goes on with inserting. -/
structure Operates (d d' : Desk) (o : ViOperation) (first last : Nat) : Prop where
  cuts : d.stock.CutsOut d'.stock first last
  keymap_eq : d'.keymap =
    if o = .change ∧ d.keymap.style = .vi then { d.keymap with vi := .insert } else d.keymap

theorem isMotion_command (o : ViOperation) : o.command.isMotion = false := by cases o <;> rfl

theorem operates_of_span (h : d.session.buffer.operatorSpan? o.command motion = some span) :
    d.Operates (d.operate ⟨o, some motion⟩) o span.1 span.2 := by
  let l : Desk := d.log .debug .viOperator "vi operator"
    [("operation", .name o.name), ("range", .plain (describeSpan span))]
  have hcuts : d.stock.CutsOut (l.killRange span.1 span.2).stock span.1 span.2 :=
    cutsOut_of_around (d := l) (Buffer.around_operatorSpan? (isMotion_command o) h)
  have hkeymap : (l.killRange span.1 span.2).keymap = d.keymap := l.keymap_killRange ..
  have hoperate : d.operate ⟨o, some motion⟩ = resume (if o = .change then
      (l.killRange span.1 span.2).setVi .insert else l.killRange span.1 span.2) := by
    rw [operate]
    dsimp only
    rw [h]
  rw [hoperate]
  split
  · rename_i hchange
    refine ⟨by rwa [stock_resume, stock_setVi], ?_⟩
    have hset : (if o = .change ∧ d.keymap.style = .vi then { d.keymap with vi := .insert }
        else d.keymap) = d.keymap.setVi .insert := by
      simp only [hchange, true_and, Keymap.setVi]
    rw [hset, ← hkeymap]
    exact keymap_setVi ..
  · rename_i hdelete
    exact ⟨hcuts, by rwa [if_neg fun hchange => hdelete hchange.1]⟩

theorem cursor_basic_motion (hm : m.isMotion = true) :
    (d.basic m).session.buffer.cursor = d.session.buffer.goal m := by
  cases m
  case forwardChar | backwardChar | beginningOfLine | endOfLine | forwardWord | backwardWord |
      viForwardWord =>
    rfl
  all_goals cases hm

/-! ### Keys -/

theorem dispatch_basic (h : d.actionFor e = some (.basic k)) : d.dispatch e =
    .finished (((d.beginAction (.basic k) e).basic k).settleFocus (.basic k)) := by
  rw [dispatch, h]
  rfl

theorem dispatch_operator {o : ViOperator} (h : d.actionFor e = some (.operator o)) : d.dispatch e =
    .finished (((d.beginAction (.operator o) e).operate o).settleFocus (.operator o)) := by
  rw [dispatch, h]
  rfl

/-- A command that cuts. -/
theorem dispatch_cut (h : d.actionFor e = some (.basic k)) (hcut : d.session.buffer.cut? k = some span) :
    ∃ d', d.dispatch e = .finished d' ∧ d.stock.CutsOut d'.stock span.1 span.2 := by
  refine ⟨_, dispatch_basic h, ?_⟩
  rw [stock_settleFocus]
  exact cutsOut_basicStep (d := d.beginAction (.basic k) e) hcut

/-- An operator waits for its motion. -/
theorem dispatch_operation (h : d.actionFor e = some (.operator { operation := o })) :
    ∃ d', d.dispatch e = .finished d' ∧ d'.stock = d.stock ∧ d'.keymap = d.keymap ∧
      d'.trace.rings = d.trace.rings ∧ ∀ y, d'.actionFor y =
        some (.operator ⟨o, some (d.keymap.lookup? y)⟩) := by
  refine ⟨_, dispatch_operator h, rfl, rfl, ?_, fun y => rfl⟩
  change (d.beginAction (.operator { operation := o }) e).trace.rings = _
  rw [trace_beginAction]

/-- An operator that gets its motion. -/
theorem operates_dispatch (h : d.actionFor e = some (.operator ⟨o, some motion⟩))
    (hspan : d.session.buffer.operatorSpan? o.command motion = some span) :
    ∃ d', d.dispatch e = .finished d' ∧ d.Operates d' o span.1 span.2 := by
  obtain ⟨hcuts, hkeymap⟩ :=
    operates_of_span (d := d.beginAction (.operator ⟨o, some motion⟩) e) hspan
  refine ⟨_, dispatch_operator h, ?_, ?_⟩
  · rw [stock_settleFocus]
    exact hcuts
  · rw [keymap_settleFocus]
    exact hkeymap

/-- An operator that gets a key that is no motion. -/
theorem rejects_dispatch (h : d.actionFor e = some (.operator ⟨o, some motion⟩))
    (hspan : d.session.buffer.operatorSpan? o.command motion = none) :
    ∃ d', d.dispatch e = .finished d' ∧ d'.stock = d.stock ∧ d'.keymap = d.keymap ∧
      d'.trace.rings = d.trace.rings + 1 := by
  let l : Desk := d.beginAction (.operator ⟨o, some motion⟩) e
  have hoperate : l.operate ⟨o, some motion⟩ = l.bell.resume := by
    have hnone : l.session.buffer.operatorSpan? o.command motion = none := hspan
    rw [operate]
    dsimp only
    rw [hnone]
  have hdispatch : d.dispatch e =
      .finished (l.bell.resume.settleFocus (.operator ⟨o, some motion⟩)) := by
    rw [dispatch_operator h, hoperate]
  refine ⟨_, hdispatch, stock_settleFocus .., keymap_settleFocus .., ?_⟩
  rw [trace_settleFocus, trace_resume, trace_bell, trace_beginAction]

/-- What an operator makes of a desk by what its key is bound to: a motion covers what lies between the
cursor and where it leads, the operator itself covers the line, and anything else is rejected. -/
structure OperatesBy (d d' : Desk) (o : ViOperation) (bound : Option Command) : Prop where
  motion : ∀ m, bound = some m → m.isMotion = true → d.Operates d' o
    (min d.session.buffer.cursor (d.basic m).session.buffer.cursor)
    (max d.session.buffer.cursor (d.basic m).session.buffer.cursor)
  own : bound = some o.command → d.Operates d' o 0 d.session.buffer.length
  other : bound ≠ some o.command → (∀ m, bound = some m → m.isMotion = false) →
    d'.stock = d.stock ∧ d'.keymap = d.keymap ∧ d'.trace.rings = d.trace.rings + 1

/-- The key behind an operator. -/
theorem operatesBy_dispatch (h : d.actionFor e = some (.operator ⟨o, some motion⟩)) :
    ∃ d', d.dispatch e = .finished d' ∧ d.OperatesBy d' o motion := by
  by_cases hown : motion = some o.command
  · subst hown
    obtain ⟨d', hd', hdone⟩ := operates_dispatch h (Buffer.operatorSpan?_own ..)
    refine ⟨d', hd', fun m hm hmotion => ?_, fun _ => hdone, fun hne => absurd rfl hne⟩
    cases hm
    rw [isMotion_command] at hmotion
    cases hmotion
  by_cases hmotion : ∃ m, motion = some m ∧ m.isMotion = true
  · obtain ⟨m, rfl, hm⟩ := hmotion
    obtain ⟨d', hd', hdone⟩ := operates_dispatch h
      (Buffer.operatorSpan?_motion hm (isMotion_command o))
    refine ⟨d', hd', fun m' hm' _ => ?_, fun hsome => absurd hsome hown, fun _ hother => ?_⟩
    · cases hm'
      rw [cursor_basic_motion hm]
      exact hdone
    · rw [hother m rfl] at hm
      cases hm
  · have hother : ∀ m, motion = some m → m.isMotion = false := fun m hm =>
      Bool.eq_false_iff.2 fun htrue => hmotion ⟨m, hm, htrue⟩
    obtain ⟨d', hd', hrejected⟩ := rejects_dispatch h (Buffer.operatorSpan?_other hown hother)
    exact ⟨d', hd', fun m hm htrue => absurd ⟨m, hm, htrue⟩ hmotion, fun hsome => absurd hsome hown,
      fun _ _ => hrejected⟩

/-- An operator that waits has left all that it works on. -/
theorem OperatesBy.of_waiting {d' d'' : Desk} (h : d'.OperatesBy d'' o motion)
    (hstock : d'.stock = d.stock) (hkeymap : d'.keymap = d.keymap)
    (hrings : d'.trace.rings = d.trace.rings) : d.OperatesBy d'' o motion := by
  have hbuffer : d'.session.buffer = d.session.buffer := congrArg Stock.buffer hstock
  have hoperates : ∀ {first last}, d'.Operates d'' o first last → d.Operates d'' o first last := by
    rintro first last ⟨hcuts, hchanged⟩
    rw [hstock] at hcuts
    rw [hkeymap] at hchanged
    exact ⟨hcuts, hchanged⟩
  refine ⟨fun m hm hmotion => ?_, fun hown => ?_, fun hown hother => ?_⟩
  · have hdone := h.motion m hm hmotion
    rw [cursor_basic_motion hmotion, hbuffer] at hdone
    rw [cursor_basic_motion hmotion]
    exact hoperates hdone
  · have hdone := h.own hown
    rw [hbuffer] at hdone
    exact hoperates hdone
  · rw [← hstock, ← hkeymap, ← hrings]
    exact h.other hown hother

/-- Commands that cut and operators agree with motions: all cut what lies between the cursor and where the
motion leads. -/
theorem cuts_agree (d : Desk) (e : KeyEvent) :
    (∀ k m, d.actionFor e = some (.basic k) → k.motion? = some m →
      ∃ d', d.dispatch e = .finished d' ∧ d.stock.CutsOut d'.stock
        (min d.session.buffer.cursor (d.basic m).session.buffer.cursor)
        (max d.session.buffer.cursor (d.basic m).session.buffer.cursor)) ∧
    ∀ o, d.actionFor e = some (.operator { operation := o }) →
      ∃ d', d.dispatch e = .finished d' ∧ d'.stock = d.stock ∧ d'.keymap = d.keymap ∧
        ∀ y, ∃ d'', d'.dispatch y = .finished d'' ∧ d.OperatesBy d'' o (d.keymap.lookup? y) := by
  refine ⟨fun k m haction hm => ?_, fun o haction => ?_⟩
  · rw [cursor_basic_motion (Buffer.isMotion_of_motion? hm)]
    exact dispatch_cut haction (Buffer.cut?_motion hm)
  · obtain ⟨d', hd', hstock, hkeymap, hrings, hnext⟩ := dispatch_operation haction
    refine ⟨d', hd', hstock, hkeymap, fun y => ?_⟩
    obtain ⟨d'', hd'', hby⟩ := operatesBy_dispatch (hnext y)
    exact ⟨d'', hd'', hby.of_waiting hstock hkeymap hrings⟩

/-- The keys `c` and `e` in front of a word cut it, with the line as it was on top of the undo stack, and
go on with inserting. -/
theorem cuts_agree_change :
    let session : Session := { conn := 0, prompt := ⟨['>', ' ']⟩, current := ⟨['>', ' ']⟩,
                               shown := ⟨['>', ' ']⟩, continuation := ⟨['>', ' ']⟩, width := 80,
                               buffer := .ofSides ['a', ' '] ['b', 'b', ' ', 'c'], callback := 0 }
    let d : Desk := { config := { style := .vi }, keymap := (Keymap.new .vi).setVi .command,
                      history := .ofEntries 10 [], session }
    ∃ d' d'', d.dispatch (.char 'c') = .finished d' ∧ d'.dispatch (.char 'e') = .finished d'' ∧
      d''.session.buffer.text = ['a', ' ', ' ', 'c'] ∧ d''.session.buffer.cursor = 2 ∧
      d''.kills.entries = [['b', 'b']] ∧
      d''.undo.snapshots = [⟨['a', ' ', 'b', 'b', ' ', 'c'], 2⟩] ∧ d''.keymap.vi = .insert := by
  intro session d
  have haction : d.actionFor (.char 'c') = some (.operator { operation := .change }) := by
    decide +kernel
  have hmotion : d.keymap.lookup? (.char 'e') = some .forwardWord := by decide +kernel
  obtain ⟨d', hd', -, -, hkeys⟩ := (cuts_agree d (.char 'c')).2 .change haction
  obtain ⟨d'', hd'', hby⟩ := hkeys (.char 'e')
  obtain ⟨hcuts, hkeymap⟩ := hby.motion .forwardWord hmotion rfl
  have hgoal : (d.basic .forwardWord).session.buffer.cursor = 4 := by decide +kernel
  have hcursor : d.session.buffer.cursor = 2 := rfl
  rw [hgoal, hcursor] at hcuts
  have hcut : d.stock.Cuts d''.stock 2 4 := hcuts
  refine ⟨d', d'', hd', hd'', hcut.text_eq, hcut.cursor_eq, congrArg KillRing.entries hcut.kills_eq,
    congrArg UndoStack.snapshots hcut.undo_eq, ?_⟩
  rw [hkeymap]
  rfl

end Desk

end LineEditor
