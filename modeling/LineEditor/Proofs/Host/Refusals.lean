import LineEditor.Proofs.Engine.Refusals
import LineEditor.Proofs.Host.Kills

/-!
Refused events, along any run. With the usual completion or none, an event that rings the bell changes
nothing, wherever a run has led and whatever entries and candidates the host has given; and bells are all
that its effects write.

Main statements: `World.conns_perform_quiet`, what the bell and the log write, and
`Machine.refused_of_play`.
-/
namespace LineEditor

/-! ### Bells -/

theorem Connection.write_nil (c : Connection) : c.write [] = c := by
  obtain ⟨size, controls, decoder, handlers, tasks, delayed, screen, output⟩ := c
  simp [write, NewlineMode.apply]

theorem Connection.write_append (c : Connection) (t u : Text) :
    (c.write t).write u = c.write (t ++ u) := by
  simp [write, NewlineMode.apply, ← Array.toList_inj]

/-- Bells are all that is written of the bell and the log. -/
theorem World.conns_perform_quiet {xs : List Effect} (hxs : ∀ x ∈ xs, x.isQuiet = true) (w : World)
    (conn : Nat) (bell : BellStyle) : ∃ k, (xs.foldl (perform conn bell) w).conns =
      w.conns.modify conn (·.write (List.replicate k '\x07')) := by
  induction xs generalizing w with
  | nil =>
    have hsame : (fun c : Connection => c.write []) = id := funext Connection.write_nil
    refine ⟨0, ?_⟩
    rw [List.replicate_zero, hsame, List.modify_id]
    rfl
  | cons x xs ih =>
    obtain ⟨hx, hxs⟩ := List.forall_mem_cons.1 hxs
    obtain ⟨k, hk⟩ := ih hxs (w.perform conn bell x)
    rw [List.foldl_cons, hk]
    cases x with
    | write | draw | note => cases hx
    | log => exact ⟨k, rfl⟩
    | ring =>
      rw [perform]
      split
      · refine ⟨k + 1, ?_⟩
        rw [modifyConn, List.modify_modify_eq]
        exact congrArg (w.conns.modify conn) (funext fun c => c.write_append ..)
      · exact ⟨k, rfl⟩

/-! ### Runs -/

namespace Machine

variable {host : Host} {m : Machine} {n : Nat}

/-- Along a run no session listens that was ended. -/
theorem open_play (hhost : host.Obeys .usual) (moves : List Move) (hmoves : ∀ x ∈ moves, x.Obeys .usual)
    (hm : m.Obeys .usual) (hopen : ∀ e ∈ m.world.engine? n, e.Open) :
    ∀ e ∈ (m.play host moves).world.engine? n, e.Open := by
  induction moves generalizing m with
  | nil => exact hopen
  | cons x moves ih =>
    obtain ⟨hx, hmoves⟩ := List.forall_mem_cons.1 hmoves
    have hmoved : (m.move host x).Obeys .usual :=
      hm.move Rules.scripts_usual hhost hx fun _ _ _ _ => trivial
    rw [play_cons]
    exact ih hmoves hmoved ((takes_move host m x n).open (move_ne_steps hm x n) hopen)

/-- A refused event changes nothing. Along any run of an engine from its beginning, with the usual
completion handlers or none and whatever entries and candidates the host gives, let an event be next that
is not for a search and not the interrupt character. If the bell rings while it is handled, then the
session goes on with all that it had, but for who has the focus and whether a typed run goes on, and so
does the engine, with the rest of the queue; and bells are all that is written. -/
theorem refused_of_play {config : Config} {lines : List Text}
    (hnew : m.world.engine? n = some (.new config lines)) (hm : m.Obeys .usual)
    (hhost : host.Obeys .usual) {moves : List Move} (hmoves : ∀ x ∈ moves, x.Obeys .usual)
    {e : Engine} {event : KeyEvent} {queue : EventQueue} {h : Engine.Handled}
    (he : (m.play host moves).world.engine? n = some e)
    (hevent : e.queue.next e.keymap.recognizes = some (event, queue)) (hstep : e.step? = some h)
    (hfocus : ∀ s ∈ e.session, ∀ q, s.focus ≠ some (.search q))
    (hinterrupt : event.singleCodePoint? ≠ some e.config.controls.interrupt)
    (hrings : e.rings < h.engine.rings) :
    ∃ xs focus typing,
      h = .settled
        { e with
          queue
          effects := e.effects ++ xs
          session := e.session.map fun s => { s with focus, typing } } none ∧
      ∀ (w : World) (conn : Nat), ∃ k,
        (xs.foldl (World.perform conn e.config.bell) w).conns =
          w.conns.modify conn (·.write (List.replicate k '\x07')) := by
  have hstart : ∀ e ∈ m.world.engine? n, e.Open := by
    intro e he
    cases he.symm.trans hnew
    exact fun s hs => absurd hs (Option.not_mem_none s)
  have hopen := open_play hhost moves hmoves hm hstart e he
  rw [Engine.step?_eq] at hstep
  obtain ⟨⟨d, event'⟩, hnext, rfl⟩ := Option.map_eq_some_iff.1 hstep
  obtain ⟨s, queue', hs, hlisten, hqueue, hd⟩ := Engine.next?_eq_some hnext
  cases hevent.symm.trans hqueue
  obtain ⟨xs, focus, typing, hxs, hh⟩ := Engine.refused_handle hopen hnext hfocus hinterrupt hrings
  refine ⟨xs, focus, typing, ?_, fun w conn => World.conns_perform_quiet hxs w conn _⟩
  rw [hh, hd]

/-- The only candidate has a tab in it and cannot be put in. -/
theorem refused_of_play_candidate :
    let h : Handler := .candidates { completer := .always [['g', '\t', 'o']] }
    let r : Request := { engine := 0, conn := 0, prompt := ⟨['>', ' ']⟩, handler := some h }
    let start : Machine := ⟨.solo (.new {} []) (.new { cols := 80 } {}) {}, []⟩
    let moves : List Move := [.call (.readline r 0), .call (.queue 0 ['g', '\t', 'x']),
      .call (.runTasks 0), .step, .step]
    ∃ e t xs focus typing, (start.play ⟨fun _ _ => []⟩ moves).world.engine? 0 = some e ∧
      e.step? = some (.settled t none) ∧ e.rings < t.rings ∧
      t = { e with
        queue := ⟨['x']⟩
        effects := e.effects ++ xs
        session := e.session.map fun s => { s with focus, typing } } := by
  intro h r start moves
  have hstart : start.Obeys .usual := by
    refine ⟨World.obeys_usual fun n e s h hn hs => ?_, List.forall_mem_nil _⟩
    rcases n with _ | n
    · cases hn
      cases hs
    · cases hn
  have hmoves : ∀ x ∈ moves, x.Obeys .usual := by
    refine List.forall_mem_cons.2 ⟨?_, ?_⟩
    · rintro _ ⟨⟩
      exact ⟨_, rfl⟩
    · simp [Move.Obeys, Call.Obeys]
  have hstate : (((start.play ⟨fun _ _ => []⟩ moves).world.engine? 0).map fun e =>
      (e.queue.next e.keymap.recognizes, e.session.bind Session.focus, e.config.controls.interrupt,
        e.rings, e.step?.map fun h => h.engine.rings)) =
      some (some (.ofChar '\t', ⟨['x']⟩), none, '\x03', 0, some 1) := by
    decide +kernel
  obtain ⟨e, he, hstate⟩ := Option.map_eq_some_iff.1 hstate
  simp only [Prod.mk.injEq] at hstate
  obtain ⟨hevent, hfocus, hinterrupt, hbefore, hstep⟩ := hstate
  obtain ⟨handled, hstep, hafter⟩ := Option.map_eq_some_iff.1 hstep
  have hrings : e.rings < handled.engine.rings := by
    rw [hbefore, hafter]
    exact Nat.one_pos
  have hnosearch : ∀ s ∈ e.session, ∀ q, s.focus ≠ some (.search q) := by
    intro s hs q hq
    rw [Option.mem_def.1 hs, Option.bind_some, hq] at hfocus
    cases hfocus
  have hother : (KeyEvent.ofChar '\t').singleCodePoint? ≠ some e.config.controls.interrupt := by
    rw [hinterrupt]
    decide +kernel
  obtain ⟨xs, focus, typing, rfl, -⟩ := refused_of_play rfl hstart (fun _ _ => List.forall_mem_nil _)
    hmoves he hevent hstep hnosearch hother hrings
  exact ⟨e, _, xs, focus, typing, he, hstep, hrings, rfl⟩

end Machine

end LineEditor
