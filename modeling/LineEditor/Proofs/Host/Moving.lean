import LineEditor.Proofs.Host.Wakeups

/-!
Lines on different connections. An engine asks for one delivery at a time, and the delivery waits on the
connection of the line that was read when it was asked for. A line that is begun on another connection
while it waits there asks for none of its own; if no line is begun so, the delivery that a session needs
waits on its own connection.

Main definitions: `Machine.Minds`, what a host may do when, `Machine.Wakes`, the invariant, and
`World.Posts`, what can be said of the delivery at any time. Main statements: `Machine.Wakes.move`,
`Machine.wakes_play` and `Machine.wakeup_of_play`.
-/
namespace LineEditor

/-! ### What a host may do -/

/-- Whether a job ends no pause behind the engine's back, and begins no delivery while the script of a
completion handler runs. -/
def Job.minds (w : World) : Job → Bool
  | .call c => c.keeps w && c.holdsPause w
  | .background n calls => (Call.session n calls).holdsPause w
  | .tasks conn => !(w.engine? 0).any Engine.busy ||
      (w.conns[conn]?.bind Connection.popTask).map Prod.fst ≠ some (.deliver 0)
  | _ => true

/-- Whether a job begins no line while a delivery waits on another connection. -/
def Job.clear (w : World) : Job → Bool
  | .call c => c.clear w
  | _ => true

namespace Machine

/-- Calls are made between tasks or by callbacks, and jobs are done at any time. -/
def Minds (m : Machine) : Move → Prop
  | .call c => m.BetweenTasks ∧ c.keeps m.world = true ∧ c.holdsPause m.world = true
  | .step => ∀ j ∈ m.jobs.head?, j.minds m.world = true

instance (m : Machine) : (x : Move) → Decidable (m.Minds x)
  | .call c => inferInstanceAs
      (Decidable (m.BetweenTasks ∧ c.keeps m.world = true ∧ c.holdsPause m.world = true))
  | .step => inferInstanceAs (Decidable (∀ j ∈ m.jobs.head?, j.minds m.world = true))

/-- No line is begun while a delivery waits on another connection. -/
def Clear (m : Machine) : Move → Prop
  | .call c => c.clear m.world = true
  | .step => ∀ j ∈ m.jobs.head?, j.clear m.world = true

instance (m : Machine) : (x : Move) → Decidable (m.Clear x)
  | .call c => inferInstanceAs (Decidable (c.clear m.world = true))
  | .step => inferInstanceAs (Decidable (∀ j ∈ m.jobs.head?, j.clear m.world = true))

end Machine

/-! ### Jobs -/

/-- What is left to do. The script that keeps the engine busy has the rest of its delivery behind it,
and nothing that delivers comes before it. -/
inductive Job.Left : Bool → List Job → Prop where
  | free {jobs : List Job} (hjobs : ∀ j ∈ jobs, ¬ j.isScript) : Left false jobs
  | busy {above below : List Job} (k : Completion) (s : ScriptedHandler) (rest : List ScriptStep)
      (habove : ∀ j ∈ above, ¬ j.isScript ∧ ¬ j.delivers) (hbelow : ∀ j ∈ below, ¬ j.isScript) :
      Left true (above ++ .script 0 k s rest :: .deliver 0 :: below)

namespace Job.Left

variable {busy : Bool} {j : Job} {jobs new : List Job} {k : Completion} {s : ScriptedHandler}
  {rest : List ScriptStep} {n : Nat}

/-- A busy engine goes on with its delivery. -/
theorem delivers (h : Left true jobs) : ∃ j ∈ jobs, j.delivers := by
  cases h with
  | busy k s rest habove hbelow => exact ⟨.deliver 0, by simp, trivial⟩

/-- Other jobs may be done before all others. -/
theorem append (h : Left busy jobs) (hnew : ∀ j ∈ new, ¬ j.isScript)
    (hidle : busy = true → ∀ j ∈ new, ¬ j.delivers) : Left busy (new ++ jobs) := by
  cases h with
  | free hjobs => exact .free (List.forall_mem_append.2 ⟨hnew, hjobs⟩)
  | busy k s rest habove hbelow =>
    rw [← List.append_assoc]
    refine .busy k s rest (List.forall_mem_append.2 ⟨fun j hj => ?_, habove⟩) hbelow
    exact ⟨hnew j hj, hidle rfl j hj⟩

/-- A job that is taken off and is no script leaves the others as they are. -/
theorem tail (h : Left busy (j :: jobs)) (hj : ¬ j.isScript) :
    Left busy jobs ∧ (busy = true → ¬ j.delivers) := by
  generalize hall : j :: jobs = all at h
  cases h with
  | free hjobs =>
    subst hall
    exact ⟨.free (List.forall_mem_cons.1 hjobs).2, nofun⟩
  | @busy above below k s rest habove hbelow =>
    -- the job taken off is the script itself or one above it
    cases above with
    | nil =>
      cases hall
      exact absurd trivial hj
    | cons j' above =>
      cases hall
      rw [List.forall_mem_cons] at habove
      exact ⟨.busy k s rest habove.2 hbelow, fun _ => habove.1.2⟩

/-- The script is put on: the engine is busy with it. -/
theorem script (h : Left false jobs) (k : Completion) (s : ScriptedHandler) (rest : List ScriptStep) :
    Left true (.script 0 k s rest :: .deliver 0 :: jobs) := by
  cases h with
  | free hjobs =>
    have hnone : ∀ j ∈ ([] : List Job), ¬ j.isScript ∧ ¬ j.delivers := List.forall_mem_nil _
    exact .busy k s rest hnone hjobs

/-- The script is taken off: the engine was busy with it. -/
theorem tail_script (h : Left busy (.script n k s rest :: jobs)) :
    n = 0 ∧ busy = true ∧ ∃ below, jobs = .deliver 0 :: below ∧ Left false below := by
  generalize hall : Job.script n k s rest :: jobs = all at h
  cases h with
  | free hjobs =>
    subst hall
    exact absurd trivial (hjobs _ (List.mem_cons_self ..))
  | @busy above below k' s' rest' habove hbelow =>
    cases above with
    | nil =>
      cases hall
      exact ⟨rfl, rfl, below, rfl, .free hbelow⟩
    | cons j' above =>
      cases hall
      exact absurd trivial (habove _ (List.mem_cons_self ..)).1

end Job.Left

/-- The delivery of a machine: what is left to do delivers what could be taken, if no delivery waits. -/
inductive Machine.Wakes (total : Nat) (strict : Prop) : Machine → Prop where
  | intro {w : World} {busy : Bool} {jobs : List Job}
      (h : w.Wakes total busy (∃ j ∈ jobs, j.delivers) strict) (hjobs : Job.Left busy jobs) :
      Wakes total strict ⟨w, jobs⟩

namespace Machine

variable {w : World} {total : Nat} {busy : Bool} {strict : Prop} {jobs new : List Job} {host : Host}

theorem wakes_append
    (h : w.Wakes total busy ((∃ j ∈ jobs, j.delivers) ∨ ∃ j ∈ new, j.delivers) strict)
    (hjobs : Job.Left busy jobs) (hnew : ∀ j ∈ new, ¬ j.isScript)
    (hidle : busy = true → ∀ j ∈ new, ¬ j.delivers) : Wakes total strict ⟨w, new ++ jobs⟩ := by
  refine .intro (h.mono ?_) (hjobs.append hnew hidle)
  rintro (⟨j, hj, hdelivers⟩ | ⟨j, hj, hdelivers⟩)
  · exact ⟨j, List.mem_append_right _ hj, hdelivers⟩
  · exact ⟨j, List.mem_append_left _ hj, hdelivers⟩

/-- What a call leads to is done before what was left to do. -/
theorem wakes_called {r : Called} (h : r.Wakes total busy (∃ j ∈ jobs, j.delivers) strict)
    (hjobs : Job.Left busy jobs) : Wakes total strict ⟨r.world, r.jobs ++ jobs⟩ :=
  wakes_append h.world hjobs h.jobs h.idle

theorem wakes_callBack (h : w.Wakes total busy (∃ j ∈ jobs, j.delivers) strict)
    (hjobs : Job.Left busy jobs) {c : Call} (hkeeps : c.keeps w = true)
    (hholds : c.holdsPause w = true) (hclear : strict → c.clear w = true) :
    Wakes total strict (callBack ⟨w, jobs⟩ c) := by
  have hcalled := h.call hkeeps hholds hclear
  unfold callBack
  dsimp only
  split
  · exact wakes_append (hcalled.world.congr rfl rfl) hjobs hcalled.jobs hcalled.idle
  · exact wakes_called hcalled hjobs

theorem wakes_callLater (h : w.Wakes total busy (∃ j ∈ jobs, j.delivers) strict)
    (hjobs : Job.Left busy jobs) {c : Call} (hkeeps : c.keeps w = true)
    (hholds : c.holdsPause w = true) (hclear : c.clear w = true) (tell : Reply → Note) :
    Wakes total strict (callLater ⟨w, jobs⟩ c tell) := by
  have hcalled := h.call hkeeps hholds fun _ => hclear
  refine wakes_append (hcalled.world.mono (Or.imp_right ?_)) hjobs
    (List.forall_mem_append.2 ⟨hcalled.jobs, List.forall_mem_singleton.2 id⟩)
    fun hbusy => List.forall_mem_append.2 ⟨hcalled.idle hbusy, List.forall_mem_singleton.2 id⟩
  rintro ⟨j, hj, hdelivers⟩
  exact ⟨j, List.mem_append_left _ hj, hdelivers⟩

/-- A delivery that waited is begun, and is asked for no longer. -/
theorem wakes_begin {c : Connection} {others : List Task} {conn : Nat}
    (h : w.Wakes total false (∃ j ∈ jobs, j.delivers) strict) (hjobs : Job.Left false jobs)
    (hc : w.conns[conn]? = some c) (htasks : c.tasks = .deliver 0 :: others) :
    Wakes total strict
      (runTask ⟨w.modifyConn conn fun _ => { c with tasks := others }, jobs⟩ (.deliver 0)) := by
  obtain ⟨e, home, hw, hwakeups, he⟩ := h
  obtain ⟨-, hbegun⟩ := World.wakeups_begin hwakeups hc htasks
  have hnone : ({ e with scheduled := false } : Engine).Wakes total false True strict none :=
    { he with
      home_lt := nofun
      scheduled_eq := rfl
      waits := fun _ => .inr trivial
      own := fun _ _ _ _ => nofun }
  have hset := World.Wakes.setEngine
    (w := w.modifyConn conn fun _ => { c with tasks := others }) hw hbegun hnone
  have hn : (w.modifyConn conn fun _ => { c with tasks := others }).engine? 0 = some e :=
    World.engine?_of_engines hw
  unfold runTask
  dsimp only
  rw [hn]
  dsimp only
  rw [if_neg (by rw [he.busy_eq]; decide)]
  refine wakes_append (hset.mono fun _ => ?_) hjobs (List.forall_mem_singleton.2 id) nofun
  exact .inr ⟨_, List.mem_singleton_self _, trivial⟩

/-- Any other task that is begun asks for no delivery. -/
theorem wakes_runTask (h : w.Wakes total busy (∃ j ∈ jobs, j.delivers) strict)
    (hjobs : Job.Left busy jobs) {t : Task} (ht : t ≠ .deliver 0) :
    Wakes total strict (runTask ⟨w, jobs⟩ t) := by
  unfold runTask
  cases t with
  | deliver n =>
    dsimp only
    split
    · exact .intro h hjobs
    · rename_i e hn
      exact absurd (congrArg Task.deliver (h.engine? hn).1) ht
  | resize n s => exact .intro (h.receiveSize n s) hjobs
  | background n calls resume =>
    refine wakes_append (h.mono .inl) hjobs ?_ fun _ => ?_
    · cases calls <;> cases resume <;> simp [Job.isScript]
    · cases calls <;> cases resume <;> simp [Job.delivers]

theorem wakes_runTasks (h : w.Wakes total busy (∃ j ∈ jobs, j.delivers) strict)
    (hjobs : Job.Left busy jobs) {conn : Nat} (hconn : (Job.tasks conn).minds w = true) :
    Wakes total strict (runTasks ⟨w, jobs⟩ conn) := by
  have hothers : ∀ j ∈ [Job.tasks conn], ¬ j.isScript ∧ ¬ j.delivers :=
    List.forall_mem_singleton.2 ⟨id, id⟩
  have hleft := hjobs.append (fun j hj => (hothers j hj).1) fun _ j hj => (hothers j hj).2
  have hlater : (∃ j ∈ jobs, j.delivers) → ∃ j ∈ [.tasks conn] ++ jobs, j.delivers := by
    rintro ⟨j, hj, hdelivers⟩
    exact ⟨j, List.mem_append_right _ hj, hdelivers⟩
  unfold runTasks
  dsimp only
  cases hc : w.conns[conn]? with
  | none => exact .intro h hjobs
  | some c =>
    cases htasks : c.tasks with
    | nil =>
      rw [Option.bind_some, Connection.popTask, htasks]
      exact .intro h hjobs
    | cons t others =>
      rw [Option.bind_some, Connection.popTask, htasks]
      dsimp only
      by_cases ht : t = .deliver 0
      · subst ht
        obtain ⟨e, home, hw, hwakeups, he⟩ := h
        -- a delivery is begun only while the engine is free
        have hidle : busy = false := by
          unfold Job.minds at hconn
          simp [hc, Connection.popTask, htasks, World.engine?_of_engines hw, he.busy_eq] at hconn
          exact hconn
        subst hidle
        have hw' : w.Wakes total false (∃ j ∈ [.tasks conn] ++ jobs, j.delivers) strict :=
          World.Wakes.mono ⟨e, home, hw, hwakeups, he⟩ hlater
        exact wakes_begin hw' hleft hc htasks
      · have hbegun : (w.modifyConn conn fun _ => { c with tasks := others }).Wakes total busy
            (∃ j ∈ [.tasks conn] ++ jobs, j.delivers) strict :=
          (h.mono hlater).congr rfl (World.wakeups_begin_other hc htasks ht)
        exact wakes_runTask hbegun hleft ht

/-- An event is handled, and the rest of the queue after it; nothing is left to handle if there is no
event. -/
theorem wakes_deliver (h : w.Wakes total false True strict) (hjobs : Job.Left false jobs) :
    Wakes total strict (deliver ⟨w, jobs⟩ 0) := by
  obtain ⟨e, home, hw, hwakeups, he⟩ := h
  unfold deliver
  dsimp only
  rw [World.engine?_of_engines hw]
  dsimp only
  rw [if_neg (by rw [he.busy_eq]; decide), Engine.step?_eq]
  cases hnext : e.next? with
  | none =>
    refine .intro ⟨e, home, hw, hwakeups, { he with waits := fun hcan => ?_ }⟩ hjobs
    rw [Engine.next?_eq_none hnext] at hcan
    cases hcan
  | some x =>
    rw [Option.map_some]
    rcases he.handle hnext with ⟨t, f, hhandle, ht⟩ | ⟨t, k, s, hhandle, ht⟩
    · rw [hhandle]
      refine wakes_append ((World.Wakes.put hw hwakeups ht e.conn f).mono fun _ => ?_) hjobs ?_ nofun
      · exact .inr ⟨.deliver 0, by simp, trivial⟩
      · exact List.forall_mem_append.2
          ⟨Job.not_isScript_ofFinished f, List.forall_mem_singleton.2 id⟩
    · rw [hhandle]
      have hleft := hjobs.script k { s with calls := s.calls + 1 } s.script
      have hput := World.Wakes.put hw hwakeups ht e.conn none
      exact .intro ((hput.congr rfl rfl).mono fun _ => hleft.delivers) hleft

/-- The end of a script: its delivery goes on. -/
theorem wakes_endScript {later : Prop} (h : w.Wakes total true later strict)
    (hjobs : Job.Left false jobs) (k : Completion) (s : ScriptedHandler) :
    Wakes total strict (endScript ⟨w, .deliver 0 :: jobs⟩ 0 k s) := by
  obtain ⟨e, home, hw, hwakeups, he⟩ := h
  obtain ⟨d, hd, hk⟩ := he.desk
  have hwork := (he.mono fun _ => trivial).work hk (e.core?_afterScript d k s) rfl rfl rfl
    fun _ _ => .inr trivial
  have hfinish := World.Wakes.put hw hwakeups (hwork.takeFinished (e.core?_afterScript d k s)) e.conn
    (e.afterScript d k s).takeFinished.2
  have hdeliver : ∀ j ∈ [Job.deliver 0], ¬ j.isScript := List.forall_mem_singleton.2 id
  have hleft : Job.Left false (.deliver 0 :: jobs) := hjobs.append hdeliver nofun
  have hends := wakes_append (hfinish.mono fun _ => .inl ⟨.deliver 0, List.mem_cons_self .., trivial⟩)
    hleft (Job.not_isScript_ofFinished (e.afterScript d k s).takeFinished.2) nofun
  unfold endScript
  dsimp only
  rw [World.engine?_of_engines hw]
  dsimp only
  rw [hd]
  exact hends

/-- A step of a script asks for no delivery: input that arrives meanwhile is dropped. -/
theorem wakes_scriptStep {later : Prop} (h : w.Wakes total true later strict)
    (hjobs : Job.Left false jobs) (k : Completion) (s : ScriptedHandler) (step : ScriptStep)
    (rest : List ScriptStep) :
    Wakes total strict (scriptStep ⟨w, .deliver 0 :: jobs⟩ 0 k s step rest) := by
  have hothers := hjobs.script k s rest
  have hworld : ∀ {w' : World} {later' : Prop} {new : List Job}, w'.Wakes total true later' strict →
      (∀ j ∈ new, ¬ j.isScript ∧ ¬ j.delivers) →
      Wakes total strict ⟨w', new ++ .script 0 k s rest :: .deliver 0 :: jobs⟩ := by
    intro w' later' new h' hnew
    exact wakes_append (h'.mono fun _ => .inl hothers.delivers) hothers (fun j hj => (hnew j hj).1)
      fun _ j hj => (hnew j hj).2
  have hnone : ∀ j ∈ ([] : List Job), ¬ j.isScript ∧ ¬ j.delivers := List.forall_mem_nil _
  have htasks : ∀ conn, ∀ j ∈ [Job.tasks conn], ¬ j.isScript ∧ ¬ j.delivers :=
    fun conn => List.forall_mem_singleton.2 ⟨id, id⟩
  have hsame := h
  obtain ⟨e, home, hw, hwakeups, he⟩ := h
  obtain ⟨d, hd, hk⟩ := he.desk
  have hdesk : Wakes total strict
      ⟨w.put 0 e.conn (e.put (d.scriptStep (w.size e.conn) step)),
        .script 0 k s rest :: .deliver 0 :: jobs⟩ := by
    obtain ⟨paused, hcore⟩ := d.core_scriptStep (w.size e.conn) step
    have hk' := (e.core?_put (d.scriptStep (w.size e.conn) step)).trans (congrArg some hcore)
    have hwork := (he.mono fun _ => trivial).work hk hk' rfl rfl he.busy_eq fun _ _ => .inr trivial
    exact hworld (World.Wakes.put hw hwakeups hwork e.conn none) hnone
  unfold scriptStep
  dsimp only
  rw [World.engine?_of_engines hw]
  dsimp only
  cases step
  case setAsk ask =>
    have hasking := hjobs.script k { s with ask } rest
    exact .intro (hsame.mono fun _ => hasking.delivers) hasking
  case feed t => exact hworld (hsame.feed e.conn (Utf8.encodeText t)) hnone
  case runTasks => exact hworld hsame (htasks e.conn)
  case resize size =>
    exact hworld (hsame.congr (World.engines_resize e.conn size) (World.wakeups_resize e.conn size))
      (htasks e.conn)
  case schedule calls resume =>
    refine hworld (hsame.modifyConn fun c _ => ?_) hnone
    split
    · exact congrArg (Prod.mk _) (List.count_append ..)
    · exact congrArg (Prod.mk · _) (List.count_append ..)
  all_goals
    dsimp only
    rw [hd]
    exact hdesk

/-- Any job keeps the delivery. -/
theorem wakes_run {j : Job} (h : w.Wakes total busy (∃ j' ∈ j :: jobs, j'.delivers) strict)
    (hjobs : Job.Left busy (j :: jobs)) (hminds : j.minds w = true)
    (hclear : strict → j.clear w = true) : Wakes total strict (run host ⟨w, jobs⟩ j) := by
  have hother : ¬ j.delivers → w.Wakes total busy (∃ j' ∈ jobs, j'.delivers) strict := by
    intro hj
    refine h.mono ?_
    rintro ⟨j', hj', hdelivers⟩
    rcases List.mem_cons.1 hj' with rfl | hj'
    · exact absurd hdelivers hj
    · exact ⟨j', hj', hdelivers⟩
  cases j with
  | tasks conn => exact wakes_runTasks (hother id) (hjobs.tail id).1 hminds
  | deliver n =>
    obtain ⟨hleft, hidle⟩ := hjobs.tail id
    cases n with
    | zero =>
      have hfree : busy = false := Bool.eq_false_iff.2 fun hbusy => hidle hbusy trivial
      subst hfree
      exact wakes_deliver (h.mono fun _ => trivial) hleft
    | succ n =>
      unfold run deliver
      dsimp only
      rw [h.engine?_of_ne (Nat.succ_ne_zero n)]
      exact .intro (hother id) hleft
  | schedule n =>
    obtain ⟨hleft, hidle⟩ := hjobs.tail id
    cases n with
    | zero =>
      have hfree : busy = false := Bool.eq_false_iff.2 fun hbusy => hidle hbusy trivial
      subst hfree
      exact .intro (h.scheduleDelivery.mono fun hbusy => nomatch hbusy.1) hleft
    | succ n =>
      have hsame : w.scheduleDelivery (n + 1) = w := by
        unfold World.scheduleDelivery
        rw [h.engine?_of_ne (Nat.succ_ne_zero n)]
      have hnone := (hother id).congr (congrArg World.engines hsame) (congrArg World.wakeups hsame)
      exact .intro hnone hleft
  | callback n line =>
    refine wakes_append (((hother id).congr rfl rfl).mono .inl) (hjobs.tail id).1 ?_ fun _ => ?_
    · rw [List.forall_mem_map]
      exact fun _ _ => id
    · rw [List.forall_mem_map]
      exact fun _ _ => id
  | call c =>
    obtain ⟨hkeeps, hholds⟩ := Bool.and_eq_true_iff.1 hminds
    exact wakes_callBack (hother id) (hjobs.tail id).1 hkeeps hholds hclear
  | script n k s rest =>
    obtain ⟨rfl, rfl, below, rfl, hleft⟩ := hjobs.tail_script
    cases rest with
    | nil => exact wakes_endScript h hleft k s
    | cons step rest => exact wakes_scriptStep h hleft k s step rest
  | background n calls =>
    have hkeeps : (Call.session n calls).keeps w = true := rfl
    exact wakes_callLater (hother id) (hjobs.tail id).1 hkeeps hminds rfl _
  | resume n =>
    have hkeeps : (Call.resume n).keeps w = true := rfl
    exact wakes_callLater (hother id) (hjobs.tail id).1 hkeeps rfl rfl _
  | note n => exact .intro ((hother id).congr rfl rfl) (hjobs.tail id).1

variable {m : Machine}

/-- A move keeps the delivery. -/
theorem Wakes.move (host : Host) (h : m.Wakes total strict) {x : Move} (hminds : m.Minds x)
    (hclear : strict → m.Clear x) : (m.move host x).Wakes total strict := by
  obtain ⟨h, hjobs⟩ := h
  cases x with
  | call c => exact wakes_called (h.call hminds.2.1 hminds.2.2 hclear) hjobs
  | step =>
    rename_i jobs
    cases jobs with
    | nil => exact .intro h hjobs
    | cons j jobs => exact wakes_run h hjobs (hminds j rfl) fun hstrict => hclear hstrict j rfl

/-- Along a run the delivery is kept. -/
theorem wakes_play (moves : List Move) (h : m.Wakes total strict)
    (hadmits : m.Admits Minds host moves) (hclear : strict → m.Admits Clear host moves) :
    (m.play host moves).Wakes total strict := by
  induction moves generalizing m with
  | nil => exact h
  | cons x moves ih =>
    have hmove := h.move host hadmits.1 fun hstrict => (hclear hstrict).1
    exact ih hmove hadmits.2 fun hstrict => (hclear hstrict).2

end Machine

/-! ### Between tasks -/

/-- An engine between two lines that asked for nothing, in a world where nothing is delivered. -/
structure World.AtRest (w : World) (e : Engine) : Prop where
  engines_eq : w.engines = [some e]
  session_eq : e.session = none
  free : e.busy = false
  scheduled_eq : e.scheduled = false
  wakeups_eq : ∀ c ∈ w.conns, c.wakeups = (0, 0)

theorem World.AtRest.wakes {w : World} {e : Engine} (h : w.AtRest e) (strict : Prop) :
    Machine.Wakes w.conns.length strict ⟨w, []⟩ := by
  have hwakeups : w.wakeups = wakeupsAt w.conns.length none := by
    refine List.ext_getElem? fun i => ?_
    rw [World.wakeups, List.getElem?_map, getElem?_wakeupsAt]
    split
    · rename_i hi
      rw [List.getElem?_eq_getElem hi]
      exact congrArg some (h.wakeups_eq _ (List.getElem_mem hi))
    · rw [List.getElem?_eq_none (by omega)]
      rfl
  refine .intro ⟨e, none, h.engines_eq, hwakeups, ?_⟩ (.free (List.forall_mem_nil _))
  refine ⟨h.free, ?_, ?_, ?_, h.scheduled_eq, ?_, ?_⟩
  · intro hbusy
    cases hbusy
  · intro s hs
    cases h.session_eq.symm.trans hs
  · intro conn hhome
    cases hhome
  · intro hcan
    unfold Engine.canDeliver Engine.isListening at hcan
    rw [h.session_eq] at hcan
    simp at hcan
  · intro _ s _ hs
    cases h.session_eq.symm.trans hs

/-- One delivery waits, on the connection `home`, if the engine asked for it, and none waits anywhere
else. -/
structure World.Posts (w : World) (e : Engine) (home : Option Nat) : Prop where
  engines_eq : w.engines = [some e]
  scheduled_eq : e.scheduled = home.isSome
  home_lt : ∀ conn, home = some conn → conn < w.conns.length
  wakeups_eq : ∀ conn c, w.conns[conn]? = some c →
    c.wakeups = (if home = some conn then 1 else 0, 0)

/-- The delivery waits where it is posted. -/
theorem World.Posts.mem_tasks {w : World} {e : Engine} {conn : Nat} (h : w.Posts e (some conn)) :
    ∃ c, w.conns[conn]? = some c ∧ .deliver 0 ∈ c.tasks := by
  obtain ⟨c, hc⟩ : ∃ c, w.conns[conn]? = some c := ⟨_, List.getElem?_eq_getElem (h.home_lt conn rfl)⟩
  have hcount : c.tasks.count (.deliver 0) = 1 :=
    (congrArg Prod.fst (h.wakeups_eq conn c hc)).trans (if_pos rfl)
  exact ⟨c, hc, List.count_pos_iff.1 (by omega)⟩

namespace Machine

/-- What is kept, and what it comes to between tasks. -/
theorem Wakes.posts {m : Machine} {total : Nat} {strict : Prop} (h : m.Wakes total strict) :
    ∃ t home, m.world.Posts t home ∧
      (m.BetweenTasks → t.canDeliver = true → home.isSome = true) ∧
      (strict → ∀ s conn, t.session = some s → home = some conn → s.conn = conn) := by
  obtain ⟨⟨t, home, ht, hwakeups, he⟩, -⟩ := h
  have hlt : ∀ conn, home = some conn → conn < _ := fun conn hhome =>
    World.length_conns hwakeups ▸ he.home_lt conn hhome
  refine ⟨t, home, ⟨ht, he.scheduled_eq, hlt, fun _ _ => World.wakeups_conn hwakeups⟩, ?_, he.own⟩
  intro hbetween hcan
  rw [← he.scheduled_eq]
  exact (he.waits hcan).resolve_right hbetween.not_delivers

/-- The delivery of an engine whose lines are read on any connections. At any time one waits on one
connection if it was asked for, and none waits anywhere else. Between tasks one waits while a session
could take what is queued, and if no line was begun while a delivery waited on another connection, it
waits on the connection of the session. -/
theorem wakeup_of_play {w : World} {e : Engine} (h : w.AtRest e) (host : Host) (moves : List Move)
    (hadmits : (⟨w, []⟩ : Machine).Admits Minds host moves) :
    let m := (⟨w, []⟩ : Machine).play host moves
    ∃ t home, m.world.Posts t home ∧
      (m.BetweenTasks → t.canDeliver = true → home.isSome = true) ∧
      ((⟨w, []⟩ : Machine).Admits Clear host moves → m.BetweenTasks → ∀ s, t.session = some s →
        s.paused = false → t.queue.hasNext = true →
          ∃ c, m.world.conns[s.conn]? = some c ∧ .deliver 0 ∈ c.tasks) := by
  intro m
  obtain ⟨t, home, hposts, hwaits, hown⟩ := (wakes_play moves (h.wakes _) hadmits id).posts
  refine ⟨t, home, hposts, hwaits, fun hclear hbetween s hs hpaused hqueue => ?_⟩
  have hcan : t.canDeliver = true :=
    Bool.and_eq_true_iff.2 ⟨hqueue, Engine.isListening_eq_true.2 ⟨s, hs, hpaused⟩⟩
  obtain ⟨conn, rfl⟩ := Option.isSome_iff_exists.1 (hwaits hbetween hcan)
  rw [hown hclear s conn hs rfl]
  exact hposts.mem_tasks

/-- A line is read on one connection and the next one on another, where its input is asked for. -/
theorem wakeup_of_play_two_connections :
    let r (conn : Nat) : Request := { engine := 0, conn, prompt := ⟨['>', ' ']⟩, handler := none }
    let host : Host := ⟨fun _ _ => []⟩
    let w : World := { engines := [some (.new {} [])], conns := [.new {} {}, .new {} {}] }
    let moves : List Move := [.call (.readline (r 0) 0), .call (.feed 0 [97, 13]), .call (.runTasks 0),
      .step, .step, .step, .step, .step, .step, .call (.readline (r 1) 1), .call (.feed 1 [98])]
    ∃ c, ((⟨w, []⟩ : Machine).play host moves).world.conns[1]? = some c ∧ .deliver 0 ∈ c.tasks := by
  intro r host w moves
  have hrest : w.AtRest (.new {} []) := ⟨rfl, rfl, rfl, rfl, by decide⟩
  have hadmits : (⟨w, []⟩ : Machine).Admits Minds host moves := by decide +kernel
  have hclear : (⟨w, []⟩ : Machine).Admits Clear host moves := by decide +kernel
  have hbetween : ((⟨w, []⟩ : Machine).play host moves).BetweenTasks := by decide +kernel
  have hreads : (((⟨w, []⟩ : Machine).play host moves).world.engine? 0).map (fun t =>
      (t.session.map fun s => (s.conn, s.paused), t.queue.hasNext)) = some (some (1, false), true) := by
    decide +kernel
  obtain ⟨t, home, hposts, -, hown⟩ := wakeup_of_play hrest host moves hadmits
  rw [World.engine?_of_engines hposts.engines_eq, Option.map_some] at hreads
  obtain ⟨hsession, hqueue⟩ := Prod.mk.inj (Option.some.inj hreads)
  obtain ⟨s, hs, hpair⟩ := Option.map_eq_some_iff.1 hsession
  obtain ⟨hconn, hpaused⟩ := Prod.mk.inj hpair
  rw [← hconn]
  exact hown hclear hbetween s hs hpaused hqueue

/-- A line is ended while a delivery waits on its connection. The next line, on another connection, asks
for none: what is queued is not handled there. -/
theorem stranded_by_moving :
    let r (conn : Nat) : Request := { engine := 0, conn, prompt := ⟨['>', ' ']⟩, handler := none }
    let host : Host := ⟨fun _ _ => []⟩
    let w : World := { engines := [some (.new {} [])], conns := [.new {} {}, .new {} {}] }
    let moves : List Move := [.call (.readline (r 0) 0), .call (.feed 0 [120]),
      .call (.session 0 [.finish (some ['d'])]), .step, .call (.readline (r 1) 1)]
    let m := (⟨w, []⟩ : Machine).play host moves
    (⟨w, []⟩ : Machine).Admits Minds host moves ∧ m.BetweenTasks ∧
      (m.world.engine? 0).map (fun t => (t.session.map fun s => (s.conn, s.paused), t.queue.hasNext)) =
        some (some (1, false), true) ∧
      m.world.conns.map Connection.tasks = [[.deliver 0], []] := by
  decide +kernel

end Machine

end LineEditor
