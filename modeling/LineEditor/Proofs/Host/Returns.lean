import Mathlib.Algebra.GroupWithZero.Nat
import LineEditor.Proofs.Engine.Workload
import LineEditor.Proofs.Host.Rules

/-!
Whatever is queued and whatever the keys are bound to, input is handled in finitely many steps.
Every event leaves less to do, and the callbacks that lines are given to add none of it: they may
begin lines, and ask for deliveries by that, but they queue no input. So a delivery returns, and the
tasks of a connection come to an end.

Main definitions: `World.workload` and `World.Subsides`, `Machine.Returns`, that some jobs are done
after finitely many steps, and `Call.Starts`, what a callback may do. Main statements:
`returns_deliver` and `returns_tasks`, and from them `Machine.deliver_and_tasks_return`.
-/
namespace LineEditor

/-! ### What is left to do -/

namespace World

/-- What is left to handle for all engines. -/
def workload (w : World) : Nat := (w.engines.map fun e => (e.map Engine.workload).getD 0).sum

/-- The tasks that wait on a connection. -/
def tasks (w : World) (conn : Nat) : List Task := ((w.conns[conn]?).map Connection.tasks).getD []

end World

/-- Whether a task works on a session. -/
def Task.isBackground : Task → Bool
  | .background .. => true
  | _ => false

/-- The work on sessions that waits on a connection. -/
def World.backlog (w : World) (conn : Nat) : Nat := (w.tasks conn).countP Task.isBackground

/-- A later world in which no more is left to do, but for deliveries that are asked for. -/
structure World.Subsides (w w' : World) : Prop where
  workload : w'.workload ≤ w.workload
  backlog : ∀ conn, w'.backlog conn ≤ w.backlog conn

namespace World

variable {w w' w'' : World} {n conn : Nat} {e t : Engine} {f : Option Finished}

theorem Subsides.refl (w : World) : w.Subsides w := ⟨Nat.le_refl _, fun _ => Nat.le_refl _⟩

theorem Subsides.trans (h : w.Subsides w') (h' : w'.Subsides w'') : w.Subsides w'' :=
  ⟨Nat.le_trans h'.workload h.workload, fun conn => Nat.le_trans (h'.backlog conn) (h.backlog conn)⟩

/-! ### Engines -/

theorem sum_map_set {α : Type} (g : α → Nat) (a : α) (l : List α) (n : Nat) (h : n < l.length) :
    ((l.set n a).map g).sum + g l[n] = (l.map g).sum + g a := by
  induction l generalizing n with
  | nil => cases h
  | cons b l ih =>
    cases n with
    | zero =>
      simp only [List.set_cons_zero, List.map_cons, List.sum_cons, List.getElem_cons_zero]
      omega
    | succ n =>
      have hrest := ih n (Nat.lt_of_succ_lt_succ h)
      simp only [List.set_cons_succ, List.map_cons, List.sum_cons, List.getElem_cons_succ]
      omega

/-- The workload changes by that of the engine. -/
theorem workload_setEngine (hn : w.engine? n = some e) (t : Engine) :
    (w.setEngine n t).workload + e.workload = w.workload + t.workload := by
  have hget : w.engines[n]? = some (some e) := Option.join_eq_some_iff.1 hn
  obtain ⟨hlt, hat⟩ := List.getElem?_eq_some_iff.1 hget
  have hsum := sum_map_set (fun e : Option Engine => (e.map Engine.workload).getD 0) (some t) w.engines
    n hlt
  rw [hat] at hsum
  exact hsum

theorem workload_drop (w : World) (n : Nat) :
    World.workload { w with engines := w.engines.set n none } ≤ w.workload := by
  by_cases hn : n < w.engines.length
  · have hsum := sum_map_set (fun e : Option Engine => (e.map Engine.workload).getD 0) none w.engines
      n hn
    exact Nat.le.intro hsum
  · rw [List.set_eq_of_length_le (Nat.not_lt.1 hn)]

theorem Subsides.setEngine (hn : w.engine? n = some e) (ht : t.workload ≤ e.workload) :
    w.Subsides (w.setEngine n t) := by
  have hsum := workload_setEngine hn t
  exact ⟨by omega, fun _ => Nat.le_refl _⟩

/-! ### Connections -/

theorem tasks_modifyConn (w : World) (n conn : Nat) (g : Connection → Connection) :
    (w.modifyConn n g).tasks conn =
      if n = conn then ((w.conns[conn]?).map fun c => (g c).tasks).getD [] else w.tasks conn := by
  rw [tasks, tasks, modifyConn, List.getElem?_modify]
  split
  · cases w.conns[conn]? <;> rfl
  · cases w.conns[conn]? <;> rfl

theorem tasks_modifyConn_same {g : Connection → Connection} (hg : ∀ c, (g c).tasks = c.tasks)
    (w : World) (n conn : Nat) : (w.modifyConn n g).tasks conn = w.tasks conn := by
  rw [tasks_modifyConn]
  simp only [hg]
  exact ite_self _

theorem Subsides.modifyConn {g : Connection → Connection} (n : Nat)
    (hg : ∀ c, w.conns[n]? = some c →
      (g c).tasks.countP Task.isBackground ≤ c.tasks.countP Task.isBackground) :
    w.Subsides (w.modifyConn n g) := by
  refine ⟨Nat.le_refl _, fun conn => ?_⟩
  rw [World.backlog, World.backlog, tasks_modifyConn]
  split
  · rename_i hconn
    subst hconn
    rw [tasks]
    cases hc : w.conns[n]? with
    | none => exact Nat.le_refl _
    | some c => exact hg c hc
  · exact Nat.le_refl _

/-- Tasks that deliver are no work on a session. -/
theorem subsides_execute (w : World) (conn n : Nat) :
    w.Subsides (w.modifyConn conn (·.execute (.deliver n))) := by
  refine Subsides.modifyConn conn fun c _ => ?_
  rw [Connection.execute, List.countP_append]
  exact Nat.le_refl _

/-- No task waits, or there is none to take. -/
theorem bind_popTask_of_nil (h : w.tasks conn = []) :
    w.conns[conn]?.bind Connection.popTask = none := by
  cases hc : w.conns[conn]? with
  | none => rfl
  | some c =>
    rw [tasks, hc] at h
    change c.tasks = [] at h
    rw [Option.bind_some, Connection.popTask, h]

theorem bind_popTask_of_cons {t : Task} {others : List Task} (h : w.tasks conn = t :: others) :
    ∃ c, w.conns[conn]? = some c ∧ c.tasks = t :: others ∧
      w.conns[conn]?.bind Connection.popTask = some (t, { c with tasks := others }) := by
  cases hc : w.conns[conn]? with
  | none =>
    rw [tasks, hc] at h
    cases h
  | some c =>
    rw [tasks, hc] at h
    change c.tasks = t :: others at h
    refine ⟨c, rfl, h, ?_⟩
    rw [Option.bind_some, Connection.popTask, h]

theorem tasks_put (w : World) (n k conn : Nat) (t : Engine) :
    (w.put n k t).tasks conn = w.tasks conn := by
  have hwrite : ∀ (w : World) (x : Text), (w.modifyConn k (·.write x)).tasks conn = w.tasks conn :=
    fun w x => tasks_modifyConn_same (g := (·.write x)) (fun _ => rfl) w k conn
  have hperform : ∀ (w : World) (style : BellStyle) (x : Effect),
      (w.perform k style x).tasks conn = w.tasks conn := by
    intro w style x
    cases x with
    | write t => exact hwrite w t
    | draw t => exact hwrite w t
    | ring =>
      rw [perform]
      split
      · exact hwrite w _
      · rfl
    | log l => rfl
    | note n => rfl
  have hfold : ∀ (xs : List Effect) (w : World),
      (xs.foldl (World.perform k t.config.bell) w).tasks conn = w.tasks conn := by
    intro xs
    induction xs with
    | nil => exact fun _ => rfl
    | cons x xs ih =>
      intro w
      rw [List.foldl_cons, ih, hperform]
  exact hfold t.effects _

theorem tasks_close (w : World) (f : Option Finished) (conn : Nat) :
    (w.close f).tasks conn = w.tasks conn := by
  cases f with
  | none => rfl
  | some f =>
    exact tasks_modifyConn_same (g := fun c => { c with handlers := f.previous }) (fun _ => rfl) w _ _

/-- Work that an engine leaves, with the handlers put back of a session that is over. -/
theorem workload_put_close (hn : w.engine? n = some e) (t : Engine) (k : Nat) (f : Option Finished) :
    ((w.put n k t).close f).workload + e.workload = w.workload + t.workload := by
  rw [workload, engines_close, engines_put]
  exact workload_setEngine hn { t with effects := [] }

theorem subsides_put_close (hn : w.engine? n = some e) (ht : t.workload ≤ e.workload) (k : Nat)
    (f : Option Finished) : w.Subsides ((w.put n k t).close f) := by
  have hsum := workload_put_close hn t k f
  refine ⟨by omega, fun conn => ?_⟩
  rw [backlog, backlog, tasks_close, tasks_put]

theorem subsides_scheduleDelivery (w : World) (n : Nat) : w.Subsides (w.scheduleDelivery n) := by
  rw [scheduleDelivery]
  split
  · exact .refl w
  · rename_i e hn
    split
    · exact .refl w
    · split
      · exact .refl w
      · rename_i s hs
        have hasked : w.Subsides (w.setEngine n { e with scheduled := true }) :=
          .setEngine hn (Nat.le_refl _)
        exact hasked.trans (subsides_execute _ s.conn n)

/-- A new size leaves the tasks that wait. -/
theorem receiveSize_subsides (w : World) (n : Nat) (z : Size) :
    (w.receiveSize n z).workload ≤ w.workload ∧
      ∀ conn, (w.receiveSize n z).tasks conn = w.tasks conn := by
  have hsame : w.workload ≤ w.workload ∧ ∀ conn, w.tasks conn = w.tasks conn :=
    ⟨Nat.le_refl _, fun _ => rfl⟩
  rw [receiveSize]
  split
  · exact hsame
  · rename_i e hn
    split
    · exact hsame
    · split
      · exact hsame
      · rename_i s hs
        have hsum := workload_put_close hn (e.resized z) s.conn none
        rw [Engine.workload_resized] at hsum
        exact ⟨Nat.le_of_add_le_add_right (Nat.le_of_eq hsum), fun conn => tasks_put ..⟩

/-! ### Calls -/

/-- A line begins without input of its own. -/
theorem subsides_readline {r : Request} {callback : Nat} (h : w.readline r callback = .ok w') :
    w.Subsides w' := by
  rw [readline] at h
  split at h
  · rename_i e c hn hc
    split at h
    · cases h
    · split at h
      · cases h
      · have hinstalled : w.Subsides (w.modifyConn r.conn fun _ =>
            { c with handlers := sessionHandlers r.engine }) := by
          refine .modifyConn r.conn fun c' hc' => ?_
          cases hc.symm.trans hc'
          exact Nat.le_refl _
        have hn' : (w.modifyConn r.conn fun _ =>
            { c with handlers := sessionHandlers r.engine }).engine? r.engine = some e := hn
        have hbegun := hinstalled.trans (subsides_put_close hn'
          (e.workload_start r callback c.size.cols c.handlers) r.conn none)
        cases h
        split
        · exact hbegun.trans (subsides_scheduleDelivery _ _)
        · exact hbegun
  · cases h
    exact .refl w

end World

/-- What a callback may ask for: that a line begins, with the usual completion or without any, or what
leaves input and sessions alone. -/
def Call.Starts : Call → Prop
  | .readline r _ => ∀ h, r.handler = some h → ∃ c, h = .candidates c
  | .history .. | .bind .. | .style _ | .drop _ | .setHandlers .. => True
  | _ => False

namespace World

variable {w : World}

/-- What a callback asks for is done at once. -/
theorem subsides_call {x : Call} (hx : x.Starts) :
    (w.call x).jobs = [] ∧ w.Subsides (w.call x).world := by
  have hengine : ∀ (n : Nat) (f : Engine → Called),
      (∀ e, w.engine? n = some e → (f e).jobs = [] ∧ w.Subsides (f e).world) →
      (w.callEngine n f).jobs = [] ∧ w.Subsides (w.callEngine n f).world := by
    intro n f hf
    rw [callEngine]
    split
    · exact ⟨rfl, .refl w⟩
    · rename_i e hn
      split
      · exact ⟨rfl, .refl w⟩
      · exact hf e hn
  cases x
  case readline r callback =>
    refine hengine _ _ fun e _ => ?_
    split
    · rename_i w' hw
      exact ⟨rfl, subsides_readline hw⟩
    · exact ⟨rfl, .refl w⟩
  case history n calls =>
    exact hengine _ _ fun e hn => ⟨rfl, .setEngine hn (Nat.le_refl _)⟩
  case bind n event k => exact hengine _ _ fun e hn => ⟨rfl, .setEngine hn (Nat.le_refl _)⟩
  case style n => exact hengine _ _ fun e _ => ⟨rfl, .refl w⟩
  case drop n =>
    refine ⟨rfl, ?_⟩
    change w.Subsides (w.drop n)
    rw [drop]
    split
    · exact .refl w
    · have hdropped : w.Subsides { w with engines := w.engines.set n none } :=
        ⟨w.workload_drop n, fun _ => Nat.le_refl _⟩
      dsimp only
      split
      · exact hdropped
      · exact hdropped.trans (.modifyConn _ fun _ _ => Nat.le_refl _)
  case setHandlers conn f => exact ⟨rfl, .modifyConn conn fun _ _ => Nat.le_refl _⟩
  all_goals exact hx.elim

end World

/-! ### Jobs that are done -/

/-- The usual completion handlers, or none. -/
def Rules.usual : Rules where
  shows _ := True
  holds _ := True
  employs h := ∃ c, h = .candidates c
  edits _ := True
  shows_of_printable _ _ := trivial
  holds_of_insertable _ _ := trivial
  offers _ _ _ _ _ _ _ _ _ _ := trivial
  employs_candidates _ _ _ _ := ⟨_, rfl⟩
  employs_scripted := by
    rintro h ask calls ⟨c, hc⟩
    cases hc

theorem Rules.not_usual_scripted (h : ScriptedHandler) : ¬ Rules.usual.employs (.scripted h) := by
  rintro ⟨c, hc⟩
  cases hc

theorem Rules.scripts_usual : Rules.usual.Scripts :=
  fun h hh => (Rules.not_usual_scripted h hh).elim

theorem SessionCall.obeys_usual (k : SessionCall) : k.Obeys .usual :=
  have hemploys : ∀ c, Rules.usual.employs (.candidates c) := fun c => ⟨c, rfl⟩
  k.obeys_of_any (fun _ => trivial) (fun _ => trivial) hemploys

theorem Task.obeys_usual (t : Task) : t.Obeys .usual := by
  cases t with
  | deliver n => trivial
  | resize n z => trivial
  | background n calls resume =>
    cases calls with
    | none => trivial
    | some calls => exact fun k _ => k.obeys_usual

/-- The handlers are all that is asked of a world. -/
theorem World.obeys_usual {w : World} (hhandlers : ∀ n e s h, w.engine? n = some e →
    e.session = some s → s.handler = some h → ∃ c, h = .candidates c) : w.Obeys .usual where
  engines n e hn :=
    { editor := ⟨trivial, fun _ _ _ _ => trivial, fun _ _ _ _ => trivial, fun _ _ _ _ => trivial⟩
      session := fun s hs => ⟨fun _ _ => trivial, fun _ _ => trivial, fun _ _ _ _ _ _ => trivial,
        fun h hh => hhandlers n e s h hn hs hh⟩ }
  conns _ _ _ := fun t _ => t.obeys_usual

namespace Machine

/-- Some jobs are done after finitely many steps, whatever is left to do below them. -/
def Returns (host : Host) (w : World) (jobs : List Job) (w' : World) : Prop :=
  ∀ rest, ∃ k, (⟨w, jobs ++ rest⟩ : Machine).steps host k = ⟨w', rest⟩

variable {host : Host} {w w' w'' : World} {jobs jobs' : List Job} {j : Job}

namespace Returns

theorem nil : Returns host w [] w := fun _ => ⟨0, rfl⟩

/-- What a job leads to is done before what was left to do. -/
theorem step (new : List Job) (hrun : ∀ rest, run host ⟨w, rest⟩ j = ⟨w', new ++ rest⟩)
    (h : Returns host w' (new ++ jobs) w'') : Returns host w (j :: jobs) w'' := by
  intro rest
  obtain ⟨k, hk⟩ := h rest
  refine ⟨k + 1, ?_⟩
  rw [List.append_assoc] at hk
  rw [steps_succ, ← hk, ← hrun]
  rfl

/-- A job that leads to no other. -/
theorem single (hrun : ∀ rest, run host ⟨w, rest⟩ j = ⟨w', rest⟩) : Returns host w [j] w' :=
  step [] hrun nil

theorem append (h : Returns host w jobs w') (h' : Returns host w' jobs' w'') :
    Returns host w (jobs ++ jobs') w'' := by
  intro rest
  obtain ⟨k, hk⟩ := h (jobs' ++ rest)
  obtain ⟨k', hk'⟩ := h' rest
  refine ⟨k + k', ?_⟩
  rw [List.append_assoc, steps_add, hk, hk']

/-- What keeps to the rules does so when the jobs are done. -/
theorem obeys (h : Returns host w jobs w') (hhost : host.Obeys .usual) (hw : w.Obeys .usual)
    (hjobs : ∀ j ∈ jobs, j.Obeys .usual) : w'.Obeys .usual := by
  have hsteps : ∀ (k : Nat) (m : Machine), m.Obeys .usual → (m.steps host k).Obeys .usual := by
    intro k
    induction k with
    | zero => exact fun _ hm => hm
    | succ k ih =>
      intro m hm
      have hmoved : (m.move host .step).Obeys .usual :=
        hm.move Rules.scripts_usual hhost trivial fun _ _ _ _ => trivial
      rw [steps_succ]
      cases hstep : m.step? host with
      | none => exact hm
      | some m' =>
        have hm' : m.move host .step = m' := by rw [move, hstep]; rfl
        exact ih m' (hm' ▸ hmoved)
  obtain ⟨k, hk⟩ := h []
  have hlast := hsteps k ⟨w, jobs ++ []⟩ ⟨hw, by rw [List.append_nil]; exact hjobs⟩
  rw [hk] at hlast
  exact hlast.world

/-- A call of an engine, with what it leads to. -/
theorem callEngine {n : Nat} {f : Engine → Called}
    (hf : ∀ e, w.engine? n = some e →
      ∃ w', Returns host (f e).world (f e).jobs w' ∧ w.Subsides w') :
    ∃ w', Returns host (w.callEngine n f).world (w.callEngine n f).jobs w' ∧ w.Subsides w' := by
  rw [World.callEngine]
  split
  · exact ⟨w, .nil, .refl w⟩
  · rename_i e hn
    split
    · exact ⟨w, .nil, .refl w⟩
    · exact hf e hn

/-- A call that nobody waits for, with what it leads to. -/
theorem callLater {c : Call} {note : Reply → Note}
    (hrun : ∀ rest, run host ⟨w, rest⟩ j = (⟨w, rest⟩ : Machine).callLater c note)
    (h : ∃ w', Returns host (w.call c).world (w.call c).jobs w' ∧ w.Subsides w') :
    ∃ w', Returns host w [j] w' ∧ w.Subsides w' := by
  obtain ⟨w', hdone, hafter⟩ := h
  have hnote : Returns host w' [.note (note (w.call c).reply)] (w'.note (note (w.call c).reply)) :=
    single fun _ => rfl
  have hcall : ∀ rest, run host ⟨w, rest⟩ j =
      ⟨(w.call c).world, ((w.call c).jobs ++ [.note (note (w.call c).reply)]) ++ rest⟩ := hrun
  have hall := hdone.append hnote
  rw [← List.append_nil ((w.call c).jobs ++ _)] at hall
  exact ⟨_, step _ hcall hall, hafter.workload, hafter.backlog⟩

end Returns

/-! ### Callbacks -/

section Callbacks

variable (hhost : ∀ n line, ∀ x ∈ host.onLine n line, x.Starts)
include hhost

/-- A callback is done at once, and leaves no more to do. -/
theorem returns_callback (w : World) (n : Nat) (line : Option Text) :
    ∃ w', Returns host w [.callback n line] w' ∧ w.Subsides w' := by
  have hcalls : ∀ (xs : List Call) (w : World), (∀ x ∈ xs, x.Starts) →
      ∃ w', Returns host w (xs.map .call) w' ∧ w.Subsides w' := by
    intro xs
    induction xs with
    | nil => exact fun w _ => ⟨w, .nil, .refl w⟩
    | cons x xs ih =>
      intro w hxs
      obtain ⟨hx, hxs⟩ := List.forall_mem_cons.1 hxs
      obtain ⟨hjobs, hsubsides⟩ := w.subsides_call hx
      obtain ⟨w₁, hrun, hafter⟩ : ∃ w₁, (∀ rest, run host ⟨w, rest⟩ (.call x) = ⟨w₁, rest⟩) ∧
          w.Subsides w₁ := by
        cases hreply : (w.call x).reply
        case engineError err =>
          refine ⟨(w.call x).world.note (.restarted err), fun rest => ?_, hsubsides.workload,
            hsubsides.backlog⟩
          rw [run, callBack]
          dsimp only
          rw [hreply, hjobs]
          rfl
        all_goals
          refine ⟨(w.call x).world, fun rest => ?_, hsubsides⟩
          rw [run, callBack]
          dsimp only
          rw [hreply, hjobs]
          rfl
      obtain ⟨w', hreturns, hlast⟩ := ih w₁ hxs
      exact ⟨w', .step [] hrun hreturns, hafter.trans hlast⟩
  have hrun : ∀ rest, run host ⟨w, rest⟩ (.callback n line) =
      ⟨{ w with journal := { w.journal with lines := w.journal.lines.push line } },
        (host.onLine n line).map .call ++ rest⟩ := fun _ => rfl
  obtain ⟨w', hreturns, hlast⟩ := hcalls (host.onLine n line) _ (hhost n line)
  rw [← List.append_nil (List.map ..)] at hreturns
  exact ⟨w', .step _ hrun hreturns, hlast.workload, hlast.backlog⟩

/-- The callback of a session that is over. -/
theorem returns_ofFinished (w : World) (f : Option Finished) :
    ∃ w', Returns host w (Job.ofFinished f) w' ∧ w.Subsides w' := by
  cases f with
  | none => exact ⟨w, .nil, .refl w⟩
  | some f => exact returns_callback hhost w f.callback f.line

/-! ### Deliveries -/

theorem obeys_usual_of_starts : host.Obeys .usual := by
  intro n line x hx
  have hstarts := hhost n line x hx
  cases x
  case readline r callback => exact hstarts
  case history n calls =>
    intro c _
    cases c
    case push line => exact fun _ _ => trivial
    all_goals exact trivial
  case session => exact hstarts.elim
  all_goals exact trivial

/-- A delivery is done after finitely many steps. It leaves everything as it is, or less to do. -/
theorem returns_deliver (hw : w.Obeys .usual) (n : Nat) :
    ∃ w', Returns host w [.deliver n] w' ∧ (w' = w ∨ w'.workload < w.workload) := by
  induction hm : w.workload using Nat.strong_induction_on generalizing w with
  | _ m ih =>
    subst hm
    have hidle : (∀ rest, (⟨w, rest⟩ : Machine).deliver n = ⟨w, rest⟩) →
        ∃ w', Returns host w [.deliver n] w' ∧ (w' = w ∨ w'.workload < w.workload) :=
      fun hrun => ⟨w, .single hrun, .inl rfl⟩
    cases hn : w.engine? n with
    | none => exact hidle fun rest => by rw [deliver, hn]
    | some e =>
      by_cases hbusy : e.busy = true
      · exact hidle fun rest => by simp only [deliver, hn, if_pos hbusy]
      · cases hstep : e.step? with
        | none => exact hidle fun rest => by simp only [deliver, hn, if_neg hbusy, hstep]
        | some r =>
          have hobeys := (hw.engines n e hn).step hstep fun _ _ _ _ _ _ => trivial
          rw [Engine.step?_eq, Option.map_eq_some_iff] at hstep
          obtain ⟨⟨d, event⟩, hnext, hhandle⟩ := hstep
          cases r with
          | script t c h => exact (Rules.not_usual_scripted h hobeys.1).elim
          | settled t f =>
            have hless := Engine.workload_handle hnext hhandle
            have hsum := World.workload_put_close hn t e.conn f
            obtain ⟨w₁, hdone, hafter⟩ := returns_ofFinished hhost ((w.put n e.conn t).close f) f
            have hw₁ := hdone.obeys (obeys_usual_of_starts hhost)
              ((hw.put n e.conn hobeys).close f) (Job.obeys_ofFinished _ f)
            have hsubsides := hafter.workload
            have hrun : ∀ rest, run host ⟨w, rest⟩ (.deliver n) =
                ⟨(w.put n e.conn t).close f, (Job.ofFinished f ++ [.deliver n]) ++ rest⟩ := by
              intro rest
              rw [run, deliver]
              dsimp only
              rw [hn]
              dsimp only
              rw [if_neg hbusy, Engine.step?_eq, hnext, Option.map_some, hhandle]
              rfl
            obtain ⟨w', hrest, hlast⟩ := ih w₁.workload (by omega) hw₁ rfl
            have hall := hdone.append hrest
            rw [← List.append_nil (Job.ofFinished f ++ _)] at hall
            refine ⟨w', .step _ hrun hall, .inr ?_⟩
            rcases hlast with rfl | hlast <;> omega

/-! ### Tasks -/

/-- Calls on a session that nobody waits for. -/
theorem returns_background (w : World) (n : Nat) (calls : List SessionCall) :
    ∃ w', Returns host w [.background n calls] w' ∧ w.Subsides w' := by
  refine Returns.callLater (fun _ => rfl) (Returns.callEngine fun e hn => ?_)
  rw [World.callSession]
  split
  · exact ⟨w, .nil, .refl w⟩
  · rename_i t replies f hok
    have hput := World.subsides_put_close hn (Engine.workload_answers hok) e.conn f
    obtain ⟨w', hdone, hafter⟩ := returns_ofFinished hhost ((w.put n e.conn t).close f) f
    exact ⟨w', hdone, hput.trans hafter⟩

/-- The end of a pause that nobody waits for. -/
theorem returns_resume (w : World) (n : Nat) :
    ∃ w', Returns host w [.resume n] w' ∧ w.Subsides w' := by
  refine Returns.callLater (fun _ => rfl) (Returns.callEngine fun e hn => ?_)
  rw [World.callResume]
  split
  · exact ⟨w, .nil, .refl w⟩
  · rename_i t f hok
    have hput := World.subsides_put_close hn (Engine.workload_resume hok) e.conn f
    obtain ⟨w', hdone, hafter⟩ := returns_ofFinished hhost ((w.put n e.conn t).close f) f
    have hschedule : Returns host w' [.schedule n] (w'.scheduleDelivery n) := .single fun _ => rfl
    exact ⟨_, hdone.append hschedule, (hput.trans hafter).trans (w'.subsides_scheduleDelivery n)⟩

/-- A task is done after finitely many steps. It leaves less to do, or it is no work on a session and
leaves the other tasks, or it leaves no more work on sessions than there was. -/
theorem returns_runTask (hw : w.Obeys .usual) (t : Task) :
    ∃ w₁ jobs w', (∀ rest, (⟨w, rest⟩ : Machine).runTask t = ⟨w₁, jobs ++ rest⟩) ∧
      Returns host w₁ jobs w' ∧ (w'.workload < w.workload ∨
        (w'.workload ≤ w.workload ∧ ∀ conn, w'.tasks conn = w.tasks conn) ∨
        t.isBackground = true ∧ w.Subsides w') := by
  have hidle : (∀ rest, (⟨w, rest⟩ : Machine).runTask t = ⟨w, rest⟩) →
      ∃ w₁ jobs w', (∀ rest, (⟨w, rest⟩ : Machine).runTask t = ⟨w₁, jobs ++ rest⟩) ∧
        Returns host w₁ jobs w' ∧ (w'.workload < w.workload ∨
          (w'.workload ≤ w.workload ∧ ∀ conn, w'.tasks conn = w.tasks conn) ∨
          t.isBackground = true ∧ w.Subsides w') :=
    fun hrun => ⟨w, [], w, hrun, .nil, .inr (.inl ⟨Nat.le_refl _, fun _ => rfl⟩)⟩
  cases t with
  | deliver n =>
    cases hn : w.engine? n with
    | none => exact hidle fun rest => by rw [runTask, hn]
    | some e =>
      by_cases hbusy : e.busy = true
      · exact hidle fun rest => by simp only [runTask, hn, if_pos hbusy]
      · have hbegun : ({ e with scheduled := false } : Engine).Obeys .usual :=
          { hw.engines n e hn with }
        have hsum := World.workload_setEngine hn { e with scheduled := false }
        have hsame : ({ e with scheduled := false } : Engine).workload = e.workload := rfl
        obtain ⟨w', hdone, hless⟩ := returns_deliver hhost (hw.setEngine n hbegun) n
        refine ⟨_, [.deliver n], w', fun rest => ?_, hdone, ?_⟩
        · simp only [runTask, hn, if_neg hbusy]
          rfl
        · rcases hless with rfl | hless
          · exact .inr (.inl ⟨by omega, fun _ => rfl⟩)
          · exact .inl (by omega)
  | resize n z =>
    exact ⟨_, [], _, fun _ => rfl, .nil, .inr (.inl (w.receiveSize_subsides n z))⟩
  | background n calls resume =>
    obtain ⟨w₁, hcalls, hcalled⟩ : ∃ w₁, Returns host w (calls.map (Job.background n)).toList w₁ ∧
        w.Subsides w₁ := by
      cases calls with
      | none => exact ⟨w, .nil, .refl w⟩
      | some calls => exact returns_background hhost w n calls
    obtain ⟨w', hresume, hresumed⟩ : ∃ w', Returns host w₁ (if resume then [.resume n] else []) w' ∧
        w₁.Subsides w' := by
      cases resume with
      | false => exact ⟨w₁, .nil, .refl w₁⟩
      | true => exact returns_resume hhost w₁ n
    exact ⟨w, _, w', fun _ => rfl, hcalls.append hresume, .inr (.inr ⟨rfl, hcalled.trans hresumed⟩)⟩

/-- The tasks of a connection come to an end. -/
theorem returns_tasks (w : World) (hw : w.Obeys .usual) (conn : Nat) :
    ∃ w', Returns host w [.tasks conn] w' ∧ w'.tasks conn = [] := by
  cases htasks : w.tasks conn with
  | nil =>
    exact ⟨w, .single fun rest => by rw [run, runTasks, World.bind_popTask_of_nil htasks], htasks⟩
  | cons t others =>
    obtain ⟨c, hc, hwaiting, hpop⟩ := World.bind_popTask_of_cons htasks
    have hleft : (w.modifyConn conn fun _ => { c with tasks := others }).tasks conn = others := by
      rw [World.tasks_modifyConn, if_pos rfl, hc]
      rfl
    have hconn := hw.conns conn c hc
    simp only [Connection.Obeys, hwaiting, List.cons_append, List.forall_mem_cons] at hconn
    have hpopped : (w.modifyConn conn fun _ => { c with tasks := others }).Obeys .usual :=
      hw.modifyConn conn fun _ _ => hconn.2
    obtain ⟨w₁, jobs, w₂, hrun, hdone, hless⟩ := returns_runTask hhost hpopped t
    have hw₂ : w₂.Obeys .usual := by
      have hidle : Machine.Obeys .usual ⟨w.modifyConn conn fun _ => { c with tasks := others }, []⟩ :=
        ⟨hpopped, List.forall_mem_nil _⟩
      have hbegun := hidle.runTask hconn.1
      rw [hrun, List.append_nil] at hbegun
      exact hdone.obeys (obeys_usual_of_starts hhost) hbegun.world hbegun.jobs
    have hdecreases : Prod.Lex (· < ·) (Prod.Lex (· < ·) (· < ·))
        (w₂.workload, w₂.backlog conn, (w₂.tasks conn).length)
        (w.workload, w.backlog conn, (w.tasks conn).length) := by
      have hbacklog : w.backlog conn =
          others.countP Task.isBackground + if t.isBackground then 1 else 0 := by
        rw [World.backlog, htasks, List.countP_cons]
      have hlength : (w.tasks conn).length = others.length + 1 := by rw [htasks]; rfl
      rw [Prod.lex_def, Prod.lex_def]
      dsimp only
      rcases hless with hless | ⟨hle, hsame⟩ | ⟨hworks, hsubsides⟩
      · exact .inl hless
      · -- the task is gone, and the others are those that waited behind it
        change w₂.workload ≤ w.workload at hle
        rw [World.backlog, hsame, hleft]
        omega
      · -- one task less that works on a session, however many deliveries it asked for
        have hle : w₂.workload ≤ w.workload := hsubsides.workload
        have hfewer := hsubsides.backlog conn
        have hothers : (w.modifyConn conn fun _ => { c with tasks := others }).backlog conn =
            others.countP Task.isBackground := by rw [World.backlog, hleft]
        rw [if_pos hworks] at hbacklog
        omega
    obtain ⟨w', hrest, hempty⟩ := returns_tasks w₂ hw₂ conn
    have hall := hdone.append hrest
    rw [← List.append_nil (jobs ++ _)] at hall
    refine ⟨w', .step _ (fun rest => ?_) hall, hempty⟩
    rw [run, runTasks, hpop, List.append_assoc]
    exact hrun (.tasks conn :: rest)
termination_by (w.workload, w.backlog conn, (w.tasks conn).length)
decreasing_by exact hdecreases

end Callbacks

/-- Whatever state the engines are in, whatever is queued for them and whatever their keys are bound
to, as long as their sessions complete by candidates or not at all and the callbacks queue no input: a
delivery is done after finitely many steps, and when the tasks of a connection are run none is left in
the end. -/
theorem deliver_and_tasks_return (host : Host) (w : World)
    (hhost : ∀ n line, ∀ x ∈ host.onLine n line, x.Starts)
    (hhandlers : ∀ n e s h, w.engine? n = some e → e.session = some s → s.handler = some h →
      ∃ c, h = .candidates c) :
    (∀ n, ∃ w', Returns host w [.deliver n] w') ∧
      ∀ conn, ∃ w', Returns host w [.tasks conn] w' ∧ w'.tasks conn = [] := by
  have hw : w.Obeys .usual := World.obeys_usual hhandlers
  refine ⟨fun n => ?_, returns_tasks hhost w hw⟩
  obtain ⟨w', hreturns, -⟩ := returns_deliver hhost hw n
  exact ⟨w', hreturns⟩

/-- A key is bound to accepting lines and typed while a search shows a match, with more behind it. The
callback reads on. -/
theorem deliver_and_tasks_return_searching :
    let r : Request := { engine := 0, conn := 0, prompt := ⟨['>', ' ']⟩, handler := none }
    let host : Host := ⟨fun n _ => [.readline r n]⟩
    let start : Machine := ⟨.solo (.new {} [['a', 'b']]) (.new {} {}) {}, []⟩
    let m := start.play host [.call (.readline r 0), .call (.bind 0 (.char 'x') .acceptLine),
      .call (.feed 0 [18, 97, 120, 121]), .call (.runTasks 0), .step, .step, .step]
    ((m.world.engine? 0).map Engine.workload = some 5 ∧ ∃ w', Returns host m.world [.deliver 0] w') ∧
      ∃ w', Returns host m.world [.tasks 0] w' ∧ w'.tasks 0 = [] := by
  intro r host start m
  have hstarts : ∀ n line, ∀ x ∈ host.onLine n line, x.Starts :=
    fun _ _ => List.forall_mem_singleton.2 fun _ h => nomatch h
  have hnone : ∀ e ∈ m.world.engines, ∀ e' ∈ e, ∀ s ∈ e'.session, s.handler.isNone = true := by
    decide +kernel
  have hhandlers : ∀ n e s h, m.world.engine? n = some e → e.session = some s →
      s.handler = some h → ∃ c, h = .candidates c := by
    intro n e s h hn hs hh
    have hmem := List.mem_of_getElem? (Option.join_eq_some_iff.1 hn)
    cases (Option.isNone_iff_eq_none.1 (hnone _ hmem e rfl s hs)).symm.trans hh
  obtain ⟨hdeliver, htasks⟩ := deliver_and_tasks_return host m.world hstarts hhandlers
  refine ⟨⟨?_, hdeliver 0⟩, htasks 0⟩
  decide +kernel

end Machine

end LineEditor
