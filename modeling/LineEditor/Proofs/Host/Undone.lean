import LineEditor.Proofs.Host.Turns

/-!
Undo walks back exactly, in the session of an engine among any others, whatever else is done between the
events that it handles.

Main definition: `Machine.strokes`, what a move is for undo. Main statement: `undone_of_play`, as many
undos as there were edit groups show what was shown before them, and fewer show what the last ones
started from.
-/
namespace LineEditor.Machine

/-- What a move is for undo in the session of an engine. -/
def strokes (n : Nat) (m : Machine) (x : Move) : List Stroke := (x.turn n m).strokes (m.world.engine? n)

/-- What undo goes by in the session of an engine. -/
def memory? (m : Machine) (n : Nat) : Option Memory := (m.world.engine? n).bind Engine.memory?

variable {host : Host} {m : Machine} {n : Nat} {e : Engine} {s : Session}

theorem memory?_of_session (he : m.world.engine? n = some e) (hs : e.session = some s) :
    m.memory? n = some ⟨s.buffer, e.undo, s.typing, s.outcome⟩ := by
  rw [memory?, he, Option.bind_some, Engine.memory?, hs]
  rfl

theorem session_of_memory? {k : Memory} (hk : k ∈ m.memory? n) :
    ∃ e s, m.world.engine? n = some e ∧ e.session = some s ∧
      k = ⟨s.buffer, e.undo, s.typing, s.outcome⟩ := by
  obtain ⟨e, he, hk⟩ := Option.bind_eq_some_iff.1 hk
  obtain ⟨s, hs, rfl⟩ := Option.map_eq_some_iff.1 hk
  exact ⟨e, s, he, hs, rfl⟩

/-- What the strokes of a run make of what undo goes by. -/
theorem run_play (host : Host) (n : Nat) (m : Machine) (moves : List Move) :
    Memory.Run (m.memory? n) (record (strokes n) host m moves) ((m.play host moves).memory? n) := by
  let start := m.memory? n
  exact turns_play Turn.strokes (fun strokes o => Memory.Run start strokes (o.bind Engine.memory?))
    (fun hturn hrun => hrun.snoc hturn.goes) host n moves .nil

/-- How many snapshots there may be stays as it is. -/
theorem limit_play {limit : Nat} (moves : List Move)
    (hm : ∀ e ∈ m.world.engine? n, e.undo.limit = limit) :
    ∀ e ∈ (m.play host moves).world.engine? n, e.undo.limit = limit :=
  turns_play Turn.strokes (fun _ o => ∀ e ∈ o, e.undo.limit = limit) (fun hturn ho => hturn.limit ho)
    host n moves hm

section Groups

variable {config : Config} {lines : List Text} {a : Stroke} {moves edits : List Move}

theorem memory?_new (hm : m.world.engine? n = some (.new config lines)) : m.memory? n = none := by
  rw [memory?, hm]
  rfl

/-- No typed run goes on right after an action. -/
theorem typing_play (hm : m.world.engine? n = some (.new config lines))
    (ha : Stroke.lastEvent? (record (strokes n) host m moves) = some a) (haction : a.isAction = true) :
    ∀ k ∈ (m.play host moves).memory? n, k.typing = false := by
  have hrun := run_play host n m moves
  rw [memory?_new hm] at hrun
  intro k hk
  refine Bool.eq_false_iff.2 fun htyping => ?_
  cases (hrun.typing hk htyping a ha).symm.trans haction

/-- Groups that begin right after an action leave what undo needs. -/
theorem holds_play (hm : m.world.engine? n = some (.new config lines))
    (ha : Stroke.lastEvent? (record (strokes n) host m moves) = some a) (haction : a.isAction = true)
    (hedits : ∀ x ∈ record (strokes n) host (m.play host moves) edits, x.isEditing = true)
    {starts : List Buffer}
    (hstarts : (Groups.ofStrokes (record (strokes n) host (m.play host moves) edits)).starts = starts)
    (hne : starts ≠ []) : ∀ k ∈ (m.play host (moves ++ edits)).memory? n,
      k.Holds (starts.take UndoStack.defaultLimit) := by
  have hgrouped := (run_play host n (m.play host moves) edits).follows (typing_play hm ha haction) hedits
  rw [← play_append] at hgrouped
  intro k hk
  have hheld := (hgrouped k hk).holds (by rwa [hstarts])
  obtain ⟨e, s, he, -, rfl⟩ := session_of_memory? hk
  have hlimit : e.undo.limit = UndoStack.defaultLimit := by
    refine limit_play (moves ++ edits) ?_ e he
    intro e he
    cases he.symm.trans hm
    rfl
  rwa [hstarts, hlimit] at hheld

end Groups

/-- Edit groups are begun right after an action, with the cursor moved and events rejected between them
and nothing else done to the session. Then undo walks back, through as many groups as it keeps
snapshots: after each undo the buffer is the one that the last group left started from, and after all of
them it is the one that was there before the groups. -/
theorem undone_of_play {config : Config} {lines : List Text}
    (hm : m.world.engine? n = some (.new config lines)) (moves edits undos : List Move)
    (he : (m.play host moves).world.engine? n = some e) (hs : e.session = some s)
    {a : Stroke} (ha : Stroke.lastEvent? (record (strokes n) host m moves) = some a)
    (haction : a.isAction = true)
    (hedits : ∀ x ∈ record (strokes n) host (m.play host moves) edits, x.isEditing = true)
    (hfirst : ∀ x ∈ (record (strokes n) host (m.play host moves) edits).head?, x.isOfGroup = true)
    {starts : List Buffer}
    (hstarts : (Groups.ofStrokes (record (strokes n) host (m.play host moves) edits)).starts = starts)
    {k : Nat} (hpos : 0 < k) (hgroups : k ≤ starts.length) (hroom : k ≤ UndoStack.defaultLimit)
    (hundos : record (strokes n) host (m.play host (moves ++ edits)) undos = List.replicate k .undone) :
    ∃ e' s', (m.play host (moves ++ edits ++ undos)).world.engine? n = some e' ∧
      e'.session = some s' ∧ starts[k - 1]? = some s'.buffer ∧
      (k = starts.length → s'.buffer = s.buffer) := by
  have hne : starts ≠ [] := List.ne_nil_of_length_pos (Nat.lt_of_lt_of_le hpos hgroups)
  have holdest : starts.getLast? = some s.buffer := by
    have hedited := run_play host n (m.play host moves) edits
    rw [memory?_of_session he hs] at hedited
    rw [← hstarts]
    refine (hedited.first hedits hfirst).2 fun hnone => hne ?_
    rw [← hstarts, hnone]
    rfl
  have hundone := run_play host n (m.play host (moves ++ edits)) undos
  rw [hundos, ← play_append] at hundone
  have hlength : (List.replicate k Stroke.undone).length ≤
      (starts.take UndoStack.defaultLimit).length := by
    rw [List.length_replicate, List.length_take]
    exact Nat.le_min.2 ⟨hroom, hgroups⟩
  obtain ⟨-, hshown⟩ := hundone.holds (fun _ h => List.eq_of_mem_replicate h) hlength
    (holds_play hm ha haction hedits hstarts hne)
  rw [List.length_replicate] at hshown
  obtain ⟨last, hlast, hbuffer⟩ := hshown hpos
  obtain ⟨e', s', he', hs', rfl⟩ := session_of_memory? hlast
  rw [List.getElem?_take_of_lt (Nat.lt_of_lt_of_le (Nat.sub_one_lt_of_lt hpos) hroom)] at hbuffer
  refine ⟨e', s', he', hs', hbuffer, ?_⟩
  rintro rfl
  rw [List.getLast?_eq_getElem?, hbuffer] at holdest
  exact Option.some.inj holdest

/-- Two code points are typed before an `x`, the cursor goes to the end, the line is killed, a deletion
is rejected and another code point is typed. Three undos show the `x` again, the cursor before it. -/
theorem undone_of_play_three :
    let r : Request := { engine := 0, conn := 0, prompt := ⟨['>', ' ']⟩, handler := none }
    let host : Host := ⟨fun _ _ => []⟩
    let keys : Text := ['x', '\x01', 'a', 'b', '\x05', '\x15', '\x7f', 'c', '\x1f', '\x1f', '\x1f']
    let start : Machine := ⟨.solo (.new {} []) (.new { cols := 80 } {}) {}, []⟩
    let moves : List Move := [.call (.readline r 0), .call (.queue 0 keys), .call (.runTasks 0)] ++
      List.replicate 3 .step
    let edits : List Move := List.replicate 6 .step
    let undos : List Move := List.replicate 3 .step
    ∃ e s, (start.play host (moves ++ edits ++ undos)).world.engine? 0 = some e ∧
      e.session = some s ∧ s.buffer.text = ['x'] ∧ s.buffer.cursor = 0 := by
  intro r host keys start moves edits undos
  have hread : ((start.play host moves).world.engine? 0).any (·.session.isSome) = true := by
    decide +kernel
  have hshown : ∀ e ∈ (start.play host moves).world.engine? 0, ∀ s ∈ e.session,
      s.buffer.text = ['x'] ∧ s.buffer.cursor = 0 := by
    decide +kernel
  have hlast : Stroke.lastEvent? (record (strokes 0) host start moves) = some (.idle true) := by
    decide +kernel
  have hedits : ∀ x ∈ record (strokes 0) host (start.play host moves) edits, x.isEditing = true := by
    decide +kernel
  have hfirst : ∀ x ∈ (record (strokes 0) host (start.play host moves) edits).head?,
      x.isOfGroup = true := by
    decide +kernel
  have hgroups : (Groups.ofStrokes (record (strokes 0) host (start.play host moves)
      edits)).starts.length = 3 := by
    decide +kernel
  have hundos : record (strokes 0) host (start.play host (moves ++ edits)) undos =
      List.replicate 3 .undone := by
    decide +kernel
  obtain ⟨e, he, hsome⟩ := (Option.any_eq_true _ _).1 hread
  obtain ⟨s, hs⟩ := Option.isSome_iff_exists.1 hsome
  obtain ⟨e', s', he', hs', -, hsame⟩ := undone_of_play rfl moves edits undos he hs hlast rfl hedits
    hfirst rfl (by decide) hgroups.ge (by decide) hundos
  refine ⟨e', s', he', hs', ?_⟩
  rw [hsame hgroups.symm]
  exact hshown e he s hs

end LineEditor.Machine
