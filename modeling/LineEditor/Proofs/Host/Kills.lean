import LineEditor.Proofs.Engine.Kills
import LineEditor.Proofs.Host.Returns
import LineEditor.Proofs.Host.Turns

/-!
What was cut is kept, along any run. With the usual completion or none, the kill ring of an engine holds
the newest of what commands and operators have cut, through as many lines as are read.

Main definition: `Machine.cuts`, what a move cuts. Main statement: `Machine.kills_of_play`, what was cut
is put back by yank, and the ring holds the ten newest cuts.
-/
namespace LineEditor

/-! ### Without scripts -/

/-- The handling of an event is no step of a script. -/
theorem Engine.turn_ne_steps (e : Engine) (s : ScriptStep) : e.turn ≠ .steps s := by
  rw [turn]
  split
  · nofun
  · cases e.next? <;> nofun

/-- Nor is a call. -/
theorem Call.turn_ne_steps (n : Nat) (w : World) (c : Call) (s : ScriptStep) :
    c.turn n w ≠ .steps s := by
  unfold Call.turn
  split
  · split
    · split <;> nofun
    · nofun
  · split <;> nofun
  · split <;> nofun
  · nofun

namespace Machine

/-- What a move cuts in the session of an engine. -/
def cuts (n : Nat) (m : Machine) (x : Move) : List Text := (x.turn n m).cuts (m.world.engine? n)

variable {host : Host} {m : Machine} {n : Nat} {t : Text}

/-- The usual handlers run no scripts. -/
theorem move_ne_steps (hm : m.Obeys .usual) (x : Move) (n : Nat) (s : ScriptStep) :
    x.turn n m ≠ .steps s := by
  cases x with
  | call c => exact c.turn_ne_steps n m.world s
  | step =>
    obtain ⟨w, jobs⟩ := m
    cases jobs with
    | nil => nofun
    | cons j jobs =>
      have hj := hm.jobs j List.mem_cons_self
      change j.turn n w ≠ _
      cases j with
      | call c => exact c.turn_ne_steps n w s
      | background k calls => exact Call.turn_ne_steps n w (.session k calls) s
      | script k c h rest => exact (Rules.not_usual_scripted h hj.1).elim
      | deliver k =>
        change (if k = n then ((w.engine? k).map Engine.turn).getD .rests else .rests) ≠ _
        split
        · cases w.engine? k with
          | none => nofun
          | some e => exact e.turn_ne_steps s
        · nofun
      | tasks | schedule | callback | resume | note => nofun

/-- What the moves of a run cut goes into the ring, and nothing else. -/
theorem kills_play (hhost : host.Obeys .usual) (moves : List Move) (hmoves : ∀ x ∈ moves, x.Obeys .usual)
    {kills : KillRing} (hm : m.Obeys .usual) (hkills : ∀ e ∈ m.world.engine? n, e.kills = kills) :
    ∀ e ∈ (m.play host moves).world.engine? n,
      e.kills = (record (cuts n) host m moves).foldl KillRing.add kills := by
  induction moves generalizing m kills with
  | nil => exact hkills
  | cons x moves ih =>
    obtain ⟨hx, hmoves⟩ := List.forall_mem_cons.1 hmoves
    have hmoved : (m.move host x).Obeys .usual :=
      hm.move Rules.scripts_usual hhost hx fun _ _ _ _ => trivial
    rw [play_cons, record_cons, List.foldl_append]
    exact ih hmoves hmoved ((takes_move host m x n).kills (move_ne_steps hm x n) hkills)

theorem ne_nil_of_mem_record {moves : List Move} (ht : t ∈ record (cuts n) host m moves) :
    t ≠ [] := by
  induction moves generalizing m with
  | nil => cases ht
  | cons x moves ih =>
    rw [record_cons] at ht
    rcases List.mem_append.1 ht with hx | hmoves
    · exact Turn.ne_nil_of_mem_cuts hx
    · exact ih hmoves

/-- What was cut is not lost. Yank gives back what a command or an operator cut. Along any run of an
engine from its beginning, with the usual completion handlers or none, the kill ring holds the ten newest
cuts, newest first, and nothing else is ever in it. -/
theorem kills_of_play :
    (∀ (d : Desk) (e : KeyEvent) (a : Action), 0 < d.kills.limit →
      (∀ c ∈ d.session.buffer.text, Text.isControl c = true → c = '\n') →
      d.actionFor e = some a → a.cuts = true →
      ∃ d', d.dispatch e = .finished d' ∧ (d'.session.buffer.text ≠ d.session.buffer.text →
        ∃ t, d.cuts e = [t] ∧ d.GivesBack d' t)) ∧
    ∀ (host : Host) (m : Machine) (n : Nat) (config : Config) (lines : List Text),
      m.world.engine? n = some (.new config lines) → m.Obeys .usual → host.Obeys .usual →
      ∀ moves : List Move, (∀ x ∈ moves, x.Obeys .usual) →
      ∀ e, (m.play host moves).world.engine? n = some e →
        e.kills = ⟨10, (record (cuts n) host m moves).reverse.take 10⟩ := by
  refine ⟨fun d e a hlimit htext haction ha => ?_,
    fun host m n config lines hnew hm hhost moves hmoves e he => ?_⟩
  · refine Desk.givesBack_dispatch hlimit (fun c hc => ?_) haction ha
    cases hcontrol : Text.isControl c with
    | false =>
      rw [Buffer.isInsertable, hcontrol]
      rfl
    | true =>
      rw [htext c hc hcontrol]
      rfl
  · have hstart : ∀ e ∈ m.world.engine? n, e.kills = .new KillRing.defaultLimit := by
      intro e he
      cases he.symm.trans hnew
      rfl
    have hne : ∀ t ∈ record (cuts n) host m moves, t ≠ [] := fun t ht => ne_nil_of_mem_record ht
    rw [kills_play hhost moves hmoves hm hstart e he, KillRing.foldl_add hne (Nat.zero_le _)]
    exact congrArg (fun ts : List Text => (⟨10, ts.take 10⟩ : KillRing)) (List.append_nil _)

/-- A word is cut and put back; and of two words that are typed behind each other both are cut, the last
one first. -/
theorem kills_of_play_words :
    let session : Session := { conn := 0, prompt := ⟨['>', ' ']⟩, current := ⟨['>', ' ']⟩,
                               shown := ⟨['>', ' ']⟩, continuation := ⟨['>', ' ']⟩, width := 80,
                               buffer := .ofText ['a', ' ', 'b', 'c'], callback := 0 }
    let d : Desk := { config := {}, keymap := .new .emacs, history := .ofEntries 10 [], session }
    let r : Request := { engine := 0, conn := 0, prompt := ⟨['>', ' ']⟩, handler := none }
    let start : Machine := ⟨.solo (.new {} []) (.new { cols := 80 } {}) {}, []⟩
    let moves : List Move := [.call (.readline r 0), .call (.queue 0 ['a', ' ', 'b', '\x17', '\x17']),
      .call (.runTasks 0), .step, .step, .step, .step, .step, .step]
    (∃ d' d'', d.dispatch (.ofChar '\x17') = .finished d' ∧
      d'.session.buffer.text = ['a', ' '] ∧ d'.dispatch (.ofChar '\x19') = .finished d'' ∧
      d''.session.buffer.text = ['a', ' ', 'b', 'c'] ∧ d''.session.buffer.cursor = 4) ∧
    ∃ e, (start.play ⟨fun _ _ => []⟩ moves).world.engine? 0 = some e ∧
      e.kills.entries = [['a', ' '], ['b']] := by
  intro session d r start moves
  obtain ⟨hback, hring⟩ := kills_of_play
  constructor
  · have haction : d.actionFor (.ofChar '\x17') = some (.basic .unixWordRubout) := by decide +kernel
    have htext : ∀ c ∈ d.session.buffer.text, Text.isControl c = true → c = '\n' := by
      have hall : (d.session.buffer.text.all fun c => !Text.isControl c) = true := by decide +kernel
      intro c hc hcontrol
      have hplain := List.all_eq_true.1 hall c hc
      rw [hcontrol] at hplain
      cases hplain
    obtain ⟨d', hd', hgives⟩ := hback d _ _ (by decide) htext haction rfl
    have hleft : d'.session.buffer.text = ['a', ' '] ∧ d'.session.buffer.cursor = 2 ∧
        d'.actionFor (.ofChar '\x19') = some (.basic .yank) := by
      rw [Desk.Dispatched.finished.inj (hd'.symm.trans (Desk.dispatch_basic haction))]
      decide +kernel
    have hcut : d.cuts (.ofChar '\x17') = [['b', 'c']] := by decide +kernel
    obtain ⟨t, hcuts, hgives⟩ := hgives (by rw [hleft.1]; decide)
    obtain ⟨d'', hd'', hshown, hcursor⟩ := hgives.yank d' (.ofChar '\x19') rfl rfl hleft.2.2
    refine ⟨d', d'', hd', hleft.1, hd'', hshown, ?_⟩
    cases hcut.symm.trans hcuts
    rw [hcursor, hleft.2.1]
    rfl
  · have hstart : start.Obeys .usual := by
      refine ⟨World.obeys_usual fun n e s h hn hs => ?_, List.forall_mem_nil _⟩
      rcases n with _ | n
      · cases hn
        cases hs
      · cases hn
    have hmoves : ∀ x ∈ moves, x.Obeys .usual := by
      refine List.forall_mem_cons.2 ⟨nofun, ?_⟩
      simp [Move.Obeys, Call.Obeys]
    have hthere : ((start.play ⟨fun _ _ => []⟩ moves).world.engine? 0).isSome = true := by
      decide +kernel
    have hcuts : record (cuts 0) ⟨fun _ _ => []⟩ start moves = [['b'], ['a', ' ']] := by
      decide +kernel
    obtain ⟨e, he⟩ := Option.isSome_iff_exists.1 hthere
    have hkills := hring ⟨fun _ _ => []⟩ start 0 {} [] rfl hstart (fun _ _ => List.forall_mem_nil _)
      moves hmoves e he
    rw [hcuts] at hkills
    exact ⟨e, he, congrArg KillRing.entries hkills⟩

end Machine

end LineEditor
