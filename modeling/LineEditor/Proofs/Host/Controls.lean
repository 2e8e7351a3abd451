import LineEditor.Proofs.Host.Rules
import LineEditor.Proofs.Session.Plain

/-!
Which control characters are shown. A host whose history and completion words hold none types into
fresh engines: the only control character that is ever shown is a newline, and only after a line was
accepted that holds one, since such a line comes back from the history.

Main definitions: `Rules.typed`, `World.Fresh` and `Call.Types`. Main statement:
`Machine.controls_of_play`.
-/
namespace LineEditor

/-! ### Rules -/

/-- No control characters are shown but newlines, and those only if there may be any. Continuation
lines are insertable, and what is offered for completion holds no control characters. -/
def Rules.typed (newlines : Prop) : Rules where
  shows c := Text.isControl c = false ∨ newlines ∧ c = '\n'
  holds c := Buffer.isInsertable c = true
  employs
    | .candidates h => h.completer.Plain
    | .scripted _ => False
  edits _ := True
  shows_of_printable _ hc := .inl hc
  holds_of_insertable _ hc := hc
  offers h word t hemployed hword hspaceless ht c hc _ := by
    have hplain : word.Plain := by
      intro c hc
      rcases hword c hc with hprintable | ⟨-, rfl⟩
      · exact hprintable
      · exact absurd (hspaceless '\n' hc) (by decide)
    exact .inl (hemployed word hplain t ht c hc)
  employs_candidates _ _ _ hemployed := hemployed
  employs_scripted _ _ _ hemployed := hemployed

/-- Plain text may always be shown. -/
theorem Text.Plain.only_typed {t : Text} (h : t.Plain) (newlines : Prop) :
    t.Only (Rules.typed newlines).shows := fun c hc => .inl (h c hc)

/-- An insertable text is shown if newlines may be, or if it has none. -/
theorem Text.Only.shows_typed {t : Text} {newlines : Prop}
    (h : t.Only (Rules.typed newlines).holds) (hnewlines : '\n' ∈ t → newlines) :
    t.Only (Rules.typed newlines).shows := by
  intro c hc
  have hinsertable : Buffer.isInsertable c = true := h c hc
  simp only [Buffer.isInsertable, Bool.or_eq_true, Bool.not_eq_true', beq_iff_eq] at hinsertable
  rcases hinsertable with hprintable | rfl
  · exact .inl hprintable
  · exact .inr ⟨hnewlines hc, rfl⟩

/-! ### Hosts that type -/

/-- Engines that have not read anything, with plain histories, and connections where nothing waits.
-/
structure World.Fresh (w : World) : Prop where
  engines : ∀ n e, w.engine? n = some e →
    ∃ config lines, e = .new config lines ∧ ∀ line ∈ lines, line.Plain
  conns : ∀ (n : Nat) (c : Connection), w.conns[n]? = some c → c.tasks = [] ∧ c.delayed = []

/-- Whether a call begins a line with the usual completion of plain words or without any, or is no
work on the text of a session or on a history. -/
def Call.Types : Call → Prop
  | .readline r _ => ∀ h, r.handler = some h → ∃ c, h = .candidates c ∧ c.completer.Plain
  | .session .. | .history .. => False
  | _ => True

theorem World.Fresh.obeys {w : World} (h : w.Fresh) (newlines : Prop) :
    w.Obeys (.typed newlines) := by
  refine ⟨?_, ?_⟩
  · intro n e hn
    obtain ⟨config, lines, rfl, hlines⟩ := h.engines n e hn
    exact Engine.obeys_new trivial fun line hline => (hlines line hline).only_typed newlines
  · intro n c hc
    obtain ⟨htasks, hdelayed⟩ := h.conns n c hc
    rw [Connection.Obeys, htasks, hdelayed]
    exact List.forall_mem_nil _

theorem Call.Types.obeys {c : Call} (h : c.Types) (newlines : Prop) :
    c.Obeys (.typed newlines) := by
  cases c
  case readline r callback =>
    intro handler hhandler
    obtain ⟨c, rfl, hplain⟩ := h handler hhandler
    exact hplain
  case session | history => exact h.elim
  all_goals trivial

/-! ### Runs -/

namespace Machine

variable {w : World} {host : Host} {moves : List Move}

/-- A control character that is shown is a newline, and a line was accepted that holds one. -/
theorem controls_of_play (hw : w.Fresh)
    (hhost : ∀ n line, ∀ c ∈ host.onLine n line, c.Types)
    (hmoves : ∀ c, .call c ∈ moves → c.Types) {n : Nat} {e : Engine} {s : Session}
    (hn : ((⟨w, []⟩ : Machine).play host moves).world.engine? n = some e)
    (hs : e.session = some s) : ∀ c ∈ s.buffer.text, Text.isControl c = true →
      c = '\n' ∧ ∃ line, '\n' ∈ line ∧
        some line ∈ record (fun m x => x.accepts m) host ⟨w, []⟩ moves := by
  -- newlines may be shown exactly if a line was accepted that holds one
  have hobeys : ((⟨w, []⟩ : Machine).play host moves).Obeys (.typed (∃ line, '\n' ∈ line ∧
      some line ∈ record (fun m x => x.accepts m) host ⟨w, []⟩ moves)) := by
    refine obeys_play ?_ ?_ ?_ ⟨hw.obeys _, List.forall_mem_nil _⟩ ?_
    · exact fun _ hemployed => hemployed.elim
    · exact fun n line c hc => (hhost n line c hc).obeys _
    · rintro (c | _) hx
      · exact (hmoves c hx).obeys _
      · trivial
    · exact fun line hline hheld => hheld.shows_typed fun hnewline => ⟨line, hnewline, hline⟩
  intro c hc hcontrol
  have hshown := ((hobeys.world.engines n e hn).session s hs).buffer c hc
  rcases hshown with hprintable | ⟨hnewlines, rfl⟩
  · rw [hprintable] at hcontrol
    cases hcontrol
  · exact ⟨rfl, hnewlines⟩

/-- A line that goes on inside an open quote is accepted and recalled: its newline is shown. -/
theorem shown_of_recalled_newline :
    let r : Request := { engine := 0, conn := 0, prompt := ⟨['>', ' ']⟩, handler := none }
    let host : Host := ⟨fun _ _ => [.readline r 0]⟩
    let start : Machine := ⟨.solo (.new {} []) (.new {} {}) {}, []⟩
    let moves : List Move := [.call (.readline r 0),
      .call (.feed 0 [34, 13, 34, 13, 27, 91, 65]), .call (.runTasks 0)] ++ List.replicate 8 .step
    (((start.play host moves).world.engine? 0).bind Engine.session).map (fun s => s.buffer.text) =
      some ['"', '\n', '"'] := by
  decide +kernel

/-- The newline that is shown there was accepted before. -/
theorem controls_of_play_recalled :
    let r : Request := { engine := 0, conn := 0, prompt := ⟨['>', ' ']⟩, handler := none }
    let host : Host := ⟨fun _ _ => [.readline r 0]⟩
    let start : Machine := ⟨.solo (.new {} []) (.new {} {}) {}, []⟩
    let moves : List Move := [.call (.readline r 0),
      .call (.feed 0 [34, 13, 34, 13, 27, 91, 65]), .call (.runTasks 0)] ++ List.replicate 8 .step
    ∃ line, '\n' ∈ line ∧ some line ∈ record (fun m x => x.accepts m) host start moves := by
  intro r host start moves
  have hfresh : (World.solo (.new {} []) (.new {} {}) {}).Fresh := by
    refine ⟨?_, ?_⟩
    · rintro (_ | n) e hn
      · cases hn
        exact ⟨{}, [], rfl, List.forall_mem_nil _⟩
      · cases hn
    · rintro (_ | n) c hc
      · cases hc
        exact ⟨rfl, rfl⟩
      · cases hc
  have htypes : (Call.readline r 0).Types := fun _ hh => by cases hh
  have hhost : ∀ n line, ∀ c ∈ host.onLine n line, c.Types :=
    fun _ _ => List.forall_mem_singleton.2 htypes
  have hmoves : ∀ c, .call c ∈ moves → c.Types := by
    intro c hc
    simp only [moves, List.mem_append, List.mem_cons, List.mem_replicate, List.not_mem_nil,
      reduceCtorEq, Move.call.injEq, and_false, or_false] at hc
    rcases hc with rfl | rfl | rfl
    · exact htypes
    · trivial
    · trivial
  have hread : (((start.play host moves).world.engine? 0).bind Engine.session).map
      (fun s => s.buffer.text) = some ['"', '\n', '"'] := by decide +kernel
  obtain ⟨s, hs, hshown⟩ := Option.map_eq_some_iff.1 hread
  obtain ⟨e, hn, hs⟩ := Option.bind_eq_some_iff.1 hs
  have hcontrols := controls_of_play hfresh hhost hmoves hn hs
  rw [hshown] at hcontrols
  exact (hcontrols '\n' (by decide) (by decide)).2

end Machine

end LineEditor
