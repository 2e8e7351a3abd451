import LineEditor.Host.Machine
import LineEditor.Proofs.Engine.Core

/-!
The ledger of the lines that one engine reads, on any connections. A line is entered when it is begun,
every end that is given to it replaces the one before, and the entry leaves the engine when its
session is over.

Main definitions: `Happening`, `ledger`, and `Engine.Owes` and `World.Owes`, what an engine still owes
to the callback of its session. Main statements: `Engine.Owes.work` for work on the session,
`Engine.Owes.takeFinished` for its end, and one lemma for each thing that leaves the session alone.
-/
namespace LineEditor

/-! ### Happenings -/

/-- What happens to the lines that are read. -/
inductive Happening where
  /-- A line is begun for a callback. -/
  | started (callback : Nat)
  /-- The session is ended with a line, or at the end of file; it may not be over yet. -/
  | ended (line : Option Text)
  /-- A callback receives a line, or the end of file. -/
  | ran (callback : Nat) (line : Option Text)
  deriving DecidableEq, Repr

/-- The lines that were begun, newest first, each with its callback and the last end given to it. -/
abbrev Ledger := List (Nat × Outcome)

/-- A happening entered in a ledger: an end is for the newest line. -/
def Ledger.enter : Ledger → Happening → Ledger
  | ledger, .started callback => (callback, .reading) :: ledger
  | (callback, _) :: ledger, .ended line => (callback, .ofLine line) :: ledger
  | [], .ended _ => []
  | ledger, .ran .. => ledger

/-- The ledger of some happenings. -/
def ledger (hs : List Happening) : Ledger := hs.foldl Ledger.enter []

/-- The callbacks of the lines that were begun, oldest first. -/
def started (hs : List Happening) : List Nat :=
  hs.filterMap fun
    | .started callback => some callback
    | _ => none

/-- The callbacks that ran with what they received, oldest first. -/
def ran (hs : List Happening) : List (Nat × Option Text) :=
  hs.filterMap fun
    | .ran callback line => some (callback, line)
    | _ => none

/-- Every line that was begun has its entry. -/
theorem map_fst_foldl_enter (hs : List Happening) (ledger : Ledger) :
    (hs.foldl Ledger.enter ledger).map Prod.fst =
      (started hs).reverse ++ ledger.map Prod.fst := by
  induction hs generalizing ledger with
  | nil => rfl
  | cons x hs ih =>
    rw [List.foldl_cons, ih]
    cases x with
    | started callback => simp [started, Ledger.enter]
    | ended line => cases ledger <;> simp [started, Ledger.enter]
    | ran callback line => simp [started, Ledger.enter]

/-- Of several ends for one line the last one counts. -/
theorem foldl_enter_ended (ends : List (Option Text)) (callback : Nat) (outcome : Outcome)
    (rest : Ledger) : (ends.map Happening.ended).foldl Ledger.enter ((callback, outcome) :: rest) =
      (callback, outcome.after ends) :: rest := by
  induction ends generalizing outcome with
  | nil => rfl
  | cons line ends ih => exact ih (.ofLine line)

/-! ### Engines -/

/-- The entry of a session that is over. -/
def Finished.entry (f : Finished) : Nat × Outcome := (f.callback, .ofLine f.line)

/-- The entry of the session that is read. -/
def Engine.active (e : Engine) : Ledger := (e.session.map fun s => (s.callback, s.outcome)).toList

/-- What an engine owes to the callback of its session. A session that was ended and is not over yet
is paused, unless a script runs. -/
structure Engine.Owes (e : Engine) (busy : Bool) (owed : Ledger) : Prop where
  busy_eq : e.busy = busy
  reading : busy = true → ∃ s, e.session = some s
  active_eq : e.active = owed
  paused_of : busy = false → ∀ s, e.session = some s → s.outcome ≠ .reading → s.paused = true

namespace Engine

variable {e t : Engine} {busy : Bool} {owed : Ledger} {k : Core}

theorem active_of_core? (hk : e.core? = some k) : e.active = [(k.callback, k.outcome)] := by
  obtain ⟨d, -, hs, rfl⟩ := desk_of_core? hk
  unfold active
  rw [hs]
  rfl

/-- A busy engine has a session. -/
theorem Owes.desk (h : e.Owes true owed) :
    ∃ d, e.desk? = some d ∧ owed = [(d.core.callback, d.core.outcome)] := by
  obtain ⟨s, hs⟩ := h.reading rfl
  have hk := core?_of_session hs
  obtain ⟨d, hd, -, hcore⟩ := desk_of_core? hk
  exact ⟨d, hd, h.active_eq.symm.trans (active_of_core? (hk.trans (congrArg some hcore)))⟩

/-- Work on the session changes what is owed as it changes the session. -/
theorem Owes.work (hk : t.core? = some k) (hbusy : t.busy = busy)
    (hpaused : busy = false → k.outcome ≠ .reading → k.paused = true) :
    t.Owes busy [(k.callback, k.outcome)] := by
  obtain ⟨d, -, hs, rfl⟩ := desk_of_core? hk
  refine ⟨hbusy, fun _ => ⟨_, hs⟩, active_of_core? hk, ?_⟩
  intro hfree s hs'
  cases hs.symm.trans hs'
  exact hpaused hfree

/-- Changes of the engine that leave the session alone. -/
theorem Owes.congr (h : e.Owes busy owed) (hsession : t.session = e.session)
    (hbusy : t.busy = e.busy) : t.Owes busy owed := by
  refine ⟨hbusy.trans h.busy_eq, ?_, ?_, ?_⟩
  · rw [hsession]
    exact h.reading
  · unfold active
    rw [hsession]
    exact h.active_eq
  · rw [hsession]
    exact h.paused_of

/-- A session that was ended leaves the engine with its entry; one that goes on keeps it. -/
theorem Owes.takeFinished (hk : t.core? = some k) (hfree : t.busy = false) :
    t.takeFinished.1.Owes false t.takeFinished.1.active ∧
      [(k.callback, k.outcome)] =
        t.takeFinished.1.active ++ t.takeFinished.2.toList.map Finished.entry := by
  rcases takeFinished_cases hk with ⟨hreading, hgoes⟩ | ⟨line, t', hline, hends, hs, -, -, hbusy⟩
  · rw [hgoes]
    have hactive := active_of_core? hk
    refine ⟨?_, hactive.symm.trans (List.append_nil _).symm⟩
    rw [hactive]
    exact Owes.work hk hfree fun _ hended => absurd hreading hended
  · rw [hends]
    have hactive : t'.active = [] := by
      unfold active
      rw [hs]
      rfl
    have houtcome : k.outcome = .ofLine line := by
      cases houtcome : k.outcome with
      | reading =>
        rw [houtcome] at hline
        cases hline
      | accepted l =>
        rw [houtcome] at hline
        cases hline
        rfl
      | eof =>
        rw [houtcome] at hline
        cases hline
        rfl
    refine ⟨⟨hbusy.trans hfree, nofun, rfl, ?_⟩, ?_⟩
    · intro _ s hs'
      rw [hs] at hs'
      cases hs'
    · rw [hactive, houtcome]
      rfl

end Engine

/-! ### Worlds -/

namespace World

variable {w w' : World} {e t : Engine} {busy : Bool} {owed : Ledger} {n : Nat}

@[simp] theorem engines_close (f : Option Finished) : (w.close f).engines = w.engines := by
  cases f <;> rfl

@[simp] theorem engines_resize (conn : Nat) (s : Size) : (w.resize conn s).engines = w.engines := by
  unfold World.resize
  dsimp only
  split <;> rfl

@[simp] theorem lines_close (f : Option Finished) : (w.close f).journal.lines = w.journal.lines := by
  cases f <;> rfl

@[simp] theorem lines_resize (conn : Nat) (s : Size) :
    (w.resize conn s).journal.lines = w.journal.lines := by
  unfold World.resize
  dsimp only
  split <;> rfl

/-- An effect is written, noted or logged. -/
theorem rest_perform (conn : Nat) (bell : BellStyle) (x : Effect) :
    (w.perform conn bell x).engines = w.engines ∧
      (w.perform conn bell x).journal.lines = w.journal.lines := by
  cases x with
  | ring =>
    unfold World.perform
    dsimp only
    split <;> exact ⟨rfl, rfl⟩
  | log l => exact ⟨rfl, w.journal.lines_record l⟩
  | write | draw | note => exact ⟨rfl, rfl⟩

/-- The effects of an engine's work change no engine and are heard by no callback. -/
theorem rest_put (n conn : Nat) (t : Engine) :
    (w.put n conn t).engines = w.engines.set n (some { t with effects := [] }) ∧
      (w.put n conn t).journal.lines = w.journal.lines := by
  have hfold : ∀ (xs : List Effect) (w : World),
      (xs.foldl (World.perform conn t.config.bell) w).engines = w.engines ∧
        (xs.foldl (World.perform conn t.config.bell) w).journal.lines = w.journal.lines := by
    intro xs
    induction xs with
    | nil => exact fun _ => ⟨rfl, rfl⟩
    | cons x xs ih =>
      intro w
      obtain ⟨hengines, hlines⟩ := w.rest_perform conn t.config.bell x
      exact ⟨(ih _).1.trans hengines, (ih _).2.trans hlines⟩
  exact hfold ..

@[simp] theorem engines_put (n conn : Nat) (t : Engine) :
    (w.put n conn t).engines = w.engines.set n (some { t with effects := [] }) :=
  (w.rest_put n conn t).1

@[simp] theorem lines_put (n conn : Nat) (t : Engine) :
    (w.put n conn t).journal.lines = w.journal.lines := (w.rest_put n conn t).2

/-- What is told of a connection changes with it, and for no other one. -/
theorem map_conns_modifyConn {α : Type} {p : Connection → α} {g : Connection → Connection} {f : α → α}
    (hf : ∀ c, w.conns[n]? = some c → p (g c) = f (p c)) :
    (w.modifyConn n g).conns.map p = (w.conns.map p).modify n f := by
  unfold modifyConn
  refine List.ext_getElem? fun i => ?_
  rw [List.getElem?_map, List.getElem?_modify, List.getElem?_modify, List.getElem?_map]
  cases hc : w.conns[i]? with
  | none => rfl
  | some c =>
    by_cases hi : n = i
    · subst hi
      simpa using hf c hc
    · simp [hi]

theorem engine?_of_engines (hw : w.engines = [some e]) : w.engine? 0 = some e := by
  unfold World.engine?
  rw [hw]
  rfl

/-- There is no other engine. -/
theorem eq_of_engines (hw : w.engines = [some e]) (hn : w.engine? n = some t) : n = 0 ∧ t = e := by
  unfold World.engine? at hn
  rw [hw] at hn
  cases n with
  | zero =>
    cases hn
    exact ⟨rfl, rfl⟩
  | succ n => cases hn

/-- A world of one engine, what it owes, and what the callbacks have received. -/
structure Owes (w : World) (busy : Bool) (owed : Ledger) (lines : Array (Option Text)) : Prop where
  engine : ∃ e, w.engines = [some e] ∧ e.Owes busy owed
  lines_eq : w.journal.lines = lines

variable {busy' : Bool} {owed' : Ledger} {lines : Array (Option Text)}

theorem Owes.engine? (h : w.Owes busy owed lines) (hn : w.engine? n = some e) :
    n = 0 ∧ w.engines = [some e] ∧ e.Owes busy owed := by
  obtain ⟨e', hw, he⟩ := h.engine
  obtain ⟨rfl, rfl⟩ := eq_of_engines hw hn
  exact ⟨rfl, hw, he⟩

theorem Owes.congr (h : w.Owes busy owed lines) (hengines : w'.engines = w.engines)
    (hlines : w'.journal.lines = w.journal.lines) : w'.Owes busy owed lines := by
  obtain ⟨⟨e, hw, he⟩, hreceived⟩ := h
  exact ⟨⟨e, hengines.trans hw, he⟩, hlines.trans hreceived⟩

theorem Owes.setEngine (h : w.Owes busy owed lines) (ht : t.Owes busy' owed') :
    (w.setEngine 0 t).Owes busy' owed' lines := by
  obtain ⟨⟨e, hw, -⟩, hreceived⟩ := h
  refine ⟨⟨t, ?_, ht⟩, hreceived⟩
  unfold World.setEngine
  dsimp only
  rw [hw]
  rfl

/-- What an engine leaves is carried out, and the handlers of a session that is over are put back. -/
theorem Owes.put (h : w.Owes busy owed lines) (ht : t.Owes busy' owed') (conn : Nat)
    (f : Option Finished) : ((w.put 0 conn t).close f).Owes busy' owed' lines := by
  obtain ⟨⟨e, hw, -⟩, hreceived⟩ := h
  refine ⟨⟨{ t with effects := [] }, ?_, ht.congr rfl rfl⟩, ?_⟩
  · rw [engines_close, engines_put, hw]
    rfl
  · rw [lines_close, lines_put, hreceived]

theorem Owes.scheduleDelivery (h : w.Owes busy owed lines) (n : Nat) :
    (w.scheduleDelivery n).Owes busy owed lines := by
  unfold World.scheduleDelivery
  split
  · exact h
  · rename_i e hn
    obtain ⟨rfl, -, he⟩ := h.engine? hn
    split
    · exact h
    · split
      · exact h
      · have hset : ({ e with scheduled := true } : Engine).Owes busy owed := he.congr rfl rfl
        exact (h.setEngine hset).congr rfl rfl

theorem Owes.record (h : w.Owes busy owed lines) (x : Log.Entry) :
    (w.record x).Owes busy owed lines := h.congr rfl (w.journal.lines_record x)

theorem Owes.receiveInput (h : w.Owes busy owed lines) (n : Nat) (t : Text) :
    (w.receiveInput n t).Owes busy owed lines := by
  unfold World.receiveInput
  split
  · exact h
  · rename_i e hn
    obtain ⟨rfl, -, he⟩ := h.engine? hn
    split
    · exact h.record _
    · have hset : ({ e with queue := e.queue.append t } : Engine).Owes busy owed :=
        he.congr rfl rfl
      exact (h.setEngine hset).scheduleDelivery 0

theorem Owes.deliver (h : w.Owes busy owed lines) (x : Owner × Delivery) :
    (w.deliver x).Owes busy owed lines := by
  rcases x with ⟨n | n, t | ⟨s, c⟩⟩
  · exact h.receiveInput n t
  · exact h
  · exact h.congr rfl rfl
  · exact h.congr rfl rfl

theorem Owes.deliverAll (h : w.Owes busy owed lines) (conn : Nat)
    (r : Connection × List (Owner × Delivery)) : (w.deliverAll conn r).Owes busy owed lines := by
  have hfold : ∀ (ds : List (Owner × Delivery)) {w : World}, w.Owes busy owed lines →
      (ds.foldl World.deliver w).Owes busy owed lines := by
    intro ds
    induction ds with
    | nil => exact fun h => h
    | cons x ds ih => exact fun h => ih (h.deliver x)
  exact hfold r.2 (h.congr rfl rfl)

theorem Owes.feed (h : w.Owes busy owed lines) (conn : Nat) (bytes : List UInt8) :
    (w.feed conn bytes).Owes busy owed lines := by
  unfold World.feed
  split
  · exact h
  · exact h.deliverAll ..

theorem Owes.endOfStream (h : w.Owes busy owed lines) (conn : Nat) :
    (w.endOfStream conn).Owes busy owed lines := by
  unfold World.endOfStream
  split
  · exact h
  · exact h.deliverAll ..

theorem Owes.queueInput (h : w.Owes busy owed lines) (hn : w.engine? n = some e) (t : Text) :
    (w.queueInput n e t).Owes busy owed lines := by
  obtain ⟨rfl, -, he⟩ := h.engine? hn
  have hset : ({ e with queue := e.queue.append t } : Engine).Owes busy owed := he.congr rfl rfl
  have hqueued := h.setEngine hset
  unfold World.queueInput
  dsimp only
  split
  · exact hqueued.scheduleDelivery 0
  · exact hqueued

/-- A new size is no concern of what is owed. -/
theorem Owes.receiveSize (h : w.Owes busy owed lines) (n : Nat) (s : Size) :
    (w.receiveSize n s).Owes busy owed lines := by
  unfold World.receiveSize
  split
  · exact h
  · rename_i e hn
    obtain ⟨rfl, -, he⟩ := h.engine? hn
    split
    · exact h.record _
    · split
      · exact h
      · rename_i session hs
        have hk := Engine.core?_of_session hs
        have hwork : (e.resized s).Owes busy _ := Engine.Owes.work
          ((Engine.core?_resized e s).trans hk) ((e.flags_resized s).2.trans he.busy_eq)
          fun hfree hended => he.paused_of hfree session hs hended
        rw [← Engine.active_of_core? hk, he.active_eq] at hwork
        exact h.put hwork _ none

end World

end LineEditor
