import LineEditor.Proofs.Host.Alike
import LineEditor.Proofs.Host.Callbacks
import LineEditor.Proofs.Host.Delivery

/-!
Where the delivery waits that an engine asked for, in a world of one engine and any connections. The
engine remembers that it asked, and not on which connection: that is the one its session was read on
when it asked, and a delivery stays there when the session is over.

Main definitions: `World.wakeups`, the deliveries that wait on each connection, and `Engine.Wakes` and
`World.Wakes`, that there is one on the connection `home`, or none at all. Main statements: one lemma for
each thing that concerns a delivery, `Engine.Wakes.work` for work on the session, and `World.Wakes.call`
for calls of the host.
-/
namespace LineEditor

/-! ### Deliveries that wait -/

/-- How many deliveries wait on a connection, and how many are delayed there. -/
def Connection.wakeups (c : Connection) : Nat × Nat :=
  (c.tasks.count (.deliver 0), c.delayed.count (.deliver 0))

/-- One delivery on the connection `home` of `total` connections, or none at all. -/
def wakeupsAt (total : Nat) (home : Option Nat) : List (Nat × Nat) :=
  (List.range total).map fun conn => (if home = some conn then 1 else 0, 0)

theorem length_wakeupsAt (total : Nat) (home : Option Nat) : (wakeupsAt total home).length = total := by
  rw [wakeupsAt, List.length_map, List.length_range]

theorem getElem?_wakeupsAt (total : Nat) (home : Option Nat) (conn : Nat) :
    (wakeupsAt total home)[conn]? =
      if conn < total then some (if home = some conn then 1 else 0, 0) else none := by
  rw [wakeupsAt, List.getElem?_map]
  split
  · rename_i hconn
    rw [List.getElem?_range hconn]
    rfl
  · rw [List.getElem?_eq_none (by rw [List.length_range]; omega)]
    rfl

/-- A change on one connection. -/
theorem modify_wakeupsAt {total n : Nat} {home home' : Option Nat} {f : Nat × Nat → Nat × Nat}
    (hf : f (if home = some n then 1 else 0, 0) = (if home' = some n then 1 else 0, 0))
    (hothers : ∀ conn, conn ≠ n → (home = some conn ↔ home' = some conn)) :
    (wakeupsAt total home).modify n f = wakeupsAt total home' := by
  refine List.ext_getElem? fun i => ?_
  rw [List.getElem?_modify, getElem?_wakeupsAt, getElem?_wakeupsAt]
  by_cases hi : i < total
  · rw [if_pos hi, if_pos hi, Option.map_eq_map, Option.map_some]
    by_cases hn : n = i
    · subst hn
      rw [if_pos rfl, hf]
    · simp [hn, hothers i (Ne.symm hn)]
  · rw [if_neg hi, if_neg hi]
    rfl

namespace World

/-- How many deliveries wait on each of the connections. -/
def wakeups (w : World) : List (Nat × Nat) := w.conns.map Connection.wakeups

variable {w w' : World} {total n conn : Nat} {home : Option Nat} {c : Connection}

theorem wakeups_modifyConn {g : Connection → Connection} {f : Nat × Nat → Nat × Nat}
    (hf : ∀ c, w.conns[n]? = some c → (g c).wakeups = f c.wakeups) :
    (w.modifyConn n g).wakeups = w.wakeups.modify n f := map_conns_modifyConn hf

/-- Changes of a connection that are no concern of its deliveries. -/
theorem wakeups_modifyConn_same {g : Connection → Connection}
    (hg : ∀ c, w.conns[n]? = some c → (g c).wakeups = c.wakeups) :
    (w.modifyConn n g).wakeups = w.wakeups :=
  (wakeups_modifyConn (f := id) hg).trans (List.modify_id ..)

theorem length_conns (h : w.wakeups = wakeupsAt total home) : w.conns.length = total := by
  have hlength := congrArg List.length h
  rw [length_wakeupsAt, wakeups, List.length_map] at hlength
  exact hlength

/-- What waits on a connection. -/
theorem wakeups_conn (h : w.wakeups = wakeupsAt total home) (hc : w.conns[conn]? = some c) :
    c.wakeups = (if home = some conn then 1 else 0, 0) := by
  have hconn : conn < total := length_conns h ▸ (List.getElem?_eq_some_iff.1 hc).1
  have hget : w.wakeups[conn]? = some c.wakeups := by
    rw [wakeups, List.getElem?_map, hc]
    rfl
  rw [h, getElem?_wakeupsAt, if_pos hconn] at hget
  exact (Option.some.inj hget).symm

/-- A delivery that is asked for waits on the connection where it is asked for. -/
theorem wakeups_execute (h : w.wakeups = wakeupsAt total none) (n : Nat) :
    (w.modifyConn n (·.execute (.deliver 0))).wakeups = wakeupsAt total (some n) := by
  have hexecute : ∀ c : Connection,
      (c.execute (.deliver 0)).wakeups = (c.wakeups.1 + 1, c.wakeups.2) :=
    fun c => congrArg (Prod.mk · _) (List.count_append ..)
  rw [wakeups_modifyConn (f := fun x => (x.1 + 1, x.2)) fun c _ => hexecute c, h]
  refine modify_wakeupsAt (by simp) fun conn hconn => ?_
  simp [Ne.symm hconn]

/-- The delivery that is begun is the one that waited, and no other waits. -/
theorem wakeups_begin (h : w.wakeups = wakeupsAt total home) {rest : List Task}
    (hc : w.conns[n]? = some c) (htasks : c.tasks = .deliver 0 :: rest) :
    home = some n ∧
      (w.modifyConn n fun _ => { c with tasks := rest }).wakeups = wakeupsAt total none := by
  have hwaits := wakeups_conn h hc
  unfold Connection.wakeups at hwaits
  rw [htasks, List.count_cons_self] at hwaits
  have hhome : home = some n := by
    by_cases hhome : home = some n
    · exact hhome
    · rw [if_neg hhome] at hwaits
      cases hwaits
  subst hhome
  rw [if_pos rfl] at hwaits
  have hrest : rest.count (.deliver 0) = 0 := Nat.succ.inj (congrArg Prod.fst hwaits)
  have hbegun : ∀ c', w.conns[n]? = some c' →
      ({ c with tasks := rest } : Connection).wakeups = (0, c'.wakeups.2) := by
    intro c' hc'
    cases hc.symm.trans hc'
    exact congrArg (Prod.mk · _) hrest
  refine ⟨rfl, ?_⟩
  rw [wakeups_modifyConn (f := fun x => (0, x.2)) hbegun, h]
  refine modify_wakeupsAt (by simp) fun conn hconn => ?_
  simp [Ne.symm hconn]

/-- Any other task may be begun, and none is asked for by that. -/
theorem wakeups_begin_other {t : Task} {rest : List Task} (hc : w.conns[n]? = some c)
    (htasks : c.tasks = t :: rest) (ht : t ≠ .deliver 0) :
    (w.modifyConn n fun _ => { c with tasks := rest }).wakeups = w.wakeups := by
  refine wakeups_modifyConn_same fun c' hc' => ?_
  cases hc.symm.trans hc'
  unfold Connection.wakeups
  rw [htasks, List.count_cons_of_ne ht]

/-- What is delayed is no delivery. -/
theorem wakeups_releaseDelayed (h : w.wakeups = wakeupsAt total home) (n : Nat) :
    (w.modifyConn n (·.releaseDelayed)).wakeups = w.wakeups := by
  refine wakeups_modifyConn_same fun c hc => ?_
  have hnone : c.delayed.count (.deliver 0) = 0 := congrArg Prod.snd (wakeups_conn h hc)
  unfold Connection.wakeups Connection.releaseDelayed
  rw [List.count_append, hnone, Nat.add_zero]
  rfl

theorem Alike.wakeups (h : w.Alike w') : w'.wakeups = w.wakeups := by
  refine List.ext_getElem? fun n => ?_
  unfold World.wakeups
  rw [List.getElem?_map, List.getElem?_map]
  rcases h.conns n with ⟨hc, hc'⟩ | ⟨c, _, hc, hc', screen, output, rfl⟩
  · rw [hc, hc']
  · rw [hc, hc']
    rfl

/-- The work of an engine asks for no delivery. -/
@[simp] theorem wakeups_put (n conn : Nat) (t : Engine) : (w.put n conn t).wakeups = w.wakeups :=
  (Alike.of_put w n conn t).wakeups

@[simp] theorem wakeups_close (f : Option Finished) : (w.close f).wakeups = w.wakeups := by
  cases f with
  | none => rfl
  | some f => exact wakeups_modifyConn_same fun _ _ => rfl

@[simp] theorem wakeups_resize (conn : Nat) (s : Size) : (w.resize conn s).wakeups = w.wakeups := by
  have hsized : (w.modifyConn conn (·.setSize s)).wakeups = w.wakeups :=
    wakeups_modifyConn_same fun _ _ => rfl
  unfold World.resize
  dsimp only
  split
  · exact hsized
  · rename_i n _
    refine (wakeups_modifyConn_same fun c _ => ?_).trans hsized
    exact congrArg (Prod.mk · _) (List.count_append ..)
  · exact hsized

end World

/-! ### Engines -/

/-- What an engine knows of its delivery, and what it needs: one waits if it asked, and it asked if a
session could take what is queued, or asks later. If `strict` the delivery waits on the connection of the
session. -/
structure Engine.Wakes (e : Engine) (total : Nat) (busy : Bool) (later strict : Prop)
    (home : Option Nat) : Prop where
  busy_eq : e.busy = busy
  reading : busy = true → ∃ s, e.session = some s
  conn_lt : ∀ s, e.session = some s → s.conn < total
  home_lt : ∀ conn, home = some conn → conn < total
  scheduled_eq : e.scheduled = home.isSome
  waits : e.canDeliver = true → e.scheduled = true ∨ later
  own : strict → ∀ s conn, e.session = some s → home = some conn → s.conn = conn

namespace Engine

variable {e t : Engine} {total : Nat} {busy busy' : Bool} {later later' strict : Prop}
  {home : Option Nat} {k k' : Core} {d : Desk} {event : KeyEvent}

theorem Wakes.mono (h : e.Wakes total busy later strict home) (hlater : later → later') :
    e.Wakes total busy later' strict home :=
  { h with waits := fun hcan => (h.waits hcan).imp_right hlater }

/-- Changes of the engine that leave its session alone. -/
theorem Wakes.congr (h : e.Wakes total busy later strict home) (hsession : t.session = e.session)
    (hbusy : t.busy = e.busy) (hscheduled : t.scheduled = e.scheduled)
    (hwaits : t.canDeliver = true → e.scheduled = true ∨ later') :
    t.Wakes total busy later' strict home where
  busy_eq := hbusy.trans h.busy_eq
  reading := hsession ▸ h.reading
  conn_lt := hsession ▸ h.conn_lt
  home_lt := h.home_lt
  scheduled_eq := hscheduled.trans h.scheduled_eq
  waits := hscheduled ▸ hwaits
  own := hsession ▸ h.own

theorem Wakes.desk (h : e.Wakes total true later strict home) :
    ∃ d, e.desk? = some d ∧ e.core? = some d.core := by
  obtain ⟨s, hs⟩ := h.reading rfl
  exact ⟨_, desk?_of_session hs, core?_of_session hs⟩

/-- What is to be known of a session that is read. -/
theorem Wakes.of_core (hk : t.core? = some k) (hbusy : t.busy = busy) (hconn : k.conn < total)
    (hhome : ∀ conn, home = some conn → conn < total) (hscheduled : t.scheduled = home.isSome)
    (hwaits : k.queue.hasNext = true → k.paused = false → t.scheduled = true ∨ later)
    (hown : strict → ∀ conn, home = some conn → k.conn = conn) :
    t.Wakes total busy later strict home := by
  obtain ⟨d, -, hs, rfl⟩ := desk_of_core? hk
  refine ⟨hbusy, fun _ => ⟨_, hs⟩, ?_, hhome, hscheduled, ?_, ?_⟩
  · intro s hs'
    cases hs.symm.trans hs'
    exact hconn
  · intro hcan
    rw [canDeliver_of_core? hk, Bool.and_eq_true, Bool.not_eq_true'] at hcan
    exact hwaits hcan.1 hcan.2
  · intro hstrict s conn hs' hat
    cases hs.symm.trans hs'
    exact hown hstrict conn hat

/-- Work on the session leaves it on its connection, and asks for no delivery. -/
theorem Wakes.work (h : e.Wakes total busy later strict home) (hk : e.core? = some k)
    (hk' : t.core? = some k') (hconn : k'.conn = k.conn) (hscheduled : t.scheduled = e.scheduled)
    (hbusy : t.busy = busy')
    (hwaits : k'.queue.hasNext = true → k'.paused = false → e.canDeliver = true ∨ later) :
    t.Wakes total busy' later strict home := by
  obtain ⟨d, -, hs, rfl⟩ := desk_of_core? hk
  refine .of_core hk' hbusy (hconn ▸ h.conn_lt _ hs) h.home_lt (hscheduled.trans h.scheduled_eq) ?_
    fun hstrict conn hhome => hconn.trans (h.own hstrict _ conn hs hhome)
  intro hqueue hpaused
  rw [hscheduled]
  rcases hwaits hqueue hpaused with hbefore | hlater
  · exact h.waits hbefore
  · exact .inr hlater

/-- A line begins where the delivery waits, if there is one. -/
theorem Wakes.start (h : e.Wakes total false later strict home) {r : Request} (hconn : r.conn < total)
    (hown : strict → ∀ conn, home = some conn → r.conn = conn) (callback width : Nat)
    (previous : Handlers) : (e.start r callback width previous).Wakes total false
      (e.queue.hasNext = true ∨ later) strict home :=
  .of_core (core?_start e r callback width previous) h.busy_eq hconn h.home_lt h.scheduled_eq
    (fun hqueue _ => .inr (.inl hqueue)) hown

/-- Without a session nothing can be delivered. -/
theorem Wakes.idle (h : e.Wakes total busy later strict home) (hnone : t.session = none)
    (hfree : t.busy = false) (hscheduled : t.scheduled = e.scheduled) :
    t.Wakes total false later' strict home := by
  refine ⟨hfree, nofun, ?_, h.home_lt, hscheduled.trans h.scheduled_eq, ?_, ?_⟩
  · intro s hs
    cases hnone.symm.trans hs
  · intro hcan
    unfold canDeliver isListening at hcan
    rw [hnone] at hcan
    simp at hcan
  · intro _ s _ hs
    cases hnone.symm.trans hs

/-- A session that ends leaves the delivery where it waits. -/
theorem Wakes.takeFinished (h : e.Wakes total false later strict home) (hk : e.core? = some k) :
    e.takeFinished.1.Wakes total false later strict home := by
  rcases takeFinished_cases hk with ⟨-, hgoes⟩ | ⟨line, e', -, hends, hnone, -, hscheduled, hbusy⟩
  · rw [hgoes]
    exact h
  · rw [hends]
    exact h.idle hnone (hbusy.trans h.busy_eq) hscheduled

/-- An event may end the session or have a script run, and it asks for no delivery: the one that
handles it goes on. -/
theorem Wakes.handle (h : e.Wakes total false True strict home) (hnext : e.next? = some (d, event)) :
    (∃ t f, e.handle d event = .settled t f ∧ t.Wakes total false True strict home) ∨
    ∃ t c s, e.handle d event = .script t c s ∧
      ({ t with busy := true } : Engine).Wakes total true True strict home := by
  obtain ⟨s, queue, hs, hpaused, -, hd⟩ := next?_eq_some hnext
  have hlisten : d.session.paused = false := by rw [hd]; exact hpaused
  have hk := core?_of_session hs
  have hconn : d.core.conn = (Desk.core { toEditor := e.toEditor, session := s }).conn := by rw [hd]; rfl
  rcases handle_cases e event hlisten with
    ⟨-, hhandle⟩ | ⟨-, d', hhandle, hcore⟩ | ⟨-, c, s', d', hhandle, hcore, -⟩
  · have hk' : ({ e.put d.startOver with pendingResize := none } : Engine).core? =
      some { d.core with outcome := .reading, paused := false } := congrArg some d.core_startOver
    exact .inl ⟨_, _, hhandle, h.work hk hk' hconn rfl h.busy_eq fun _ _ => .inr trivial⟩
  · have hk' := (core?_put e d').trans (congrArg some hcore)
    have hwork := h.work hk hk' hconn rfl h.busy_eq fun _ _ => .inr trivial
    exact .inl ⟨_, _, hhandle, hwork.takeFinished hk'⟩
  · have hk' : ({ e.put d' with busy := true } : Engine).core? = some { d.core with paused := true } :=
      congrArg some hcore
    exact .inr ⟨_, c, s', hhandle, h.work hk hk' hconn rfl rfl fun _ _ => .inr trivial⟩

end Engine

/-! ### Worlds -/

namespace World

variable {w w' : World} {e t : Engine} {total : Nat} {busy : Bool} {later later' strict : Prop}
  {home : Option Nat} {n : Nat}

/-- A world of one engine, with the delivery that it asked for on one of `total` connections. -/
def Wakes (w : World) (total : Nat) (busy : Bool) (later strict : Prop) : Prop :=
  ∃ e home, w.engines = [some e] ∧ w.wakeups = wakeupsAt total home ∧
    e.Wakes total busy later strict home

theorem Wakes.mono (h : w.Wakes total busy later strict) (hlater : later → later') :
    w.Wakes total busy later' strict := by
  obtain ⟨e, home, hw, hwakeups, he⟩ := h
  exact ⟨e, home, hw, hwakeups, he.mono hlater⟩

theorem Wakes.congr (h : w.Wakes total busy later strict) (hengines : w'.engines = w.engines)
    (hwakeups : w'.wakeups = w.wakeups) : w'.Wakes total busy later strict := by
  obtain ⟨e, home, hw, hbefore, he⟩ := h
  exact ⟨e, home, hengines.trans hw, hwakeups.trans hbefore, he⟩

/-- Another connection is put in place of one on which the same deliveries wait. -/
theorem Wakes.modifyConn (h : w.Wakes total busy later strict) {n : Nat} {g : Connection → Connection}
    (hg : ∀ c, w.conns[n]? = some c → (g c).wakeups = c.wakeups) :
    (w.modifyConn n g).Wakes total busy later strict := h.congr rfl (wakeups_modifyConn_same hg)

theorem Wakes.engine? (h : w.Wakes total busy later strict) (hn : w.engine? n = some e) :
    n = 0 ∧ ∃ home, w.engines = [some e] ∧ w.wakeups = wakeupsAt total home ∧
      e.Wakes total busy later strict home := by
  obtain ⟨e', home, hw, hwakeups, he⟩ := h
  obtain ⟨rfl, rfl⟩ := eq_of_engines hw hn
  exact ⟨rfl, home, hw, hwakeups, he⟩

theorem Wakes.engine?_of_ne (h : w.Wakes total busy later strict) (hn : n ≠ 0) : w.engine? n = none := by
  cases hget : w.engine? n with
  | none => rfl
  | some e => exact absurd (h.engine? hget).1 hn

theorem Wakes.setEngine (hw : w.engines = [some e]) (hwakeups : w.wakeups = wakeupsAt total home)
    (ht : t.Wakes total busy later strict home) :
    (w.setEngine 0 t).Wakes total busy later strict := by
  refine ⟨t, home, ?_, hwakeups, ht⟩
  unfold World.setEngine
  dsimp only
  rw [hw]
  rfl

/-- What an engine leaves is carried out, and the handlers of a session that is over are put back. -/
theorem Wakes.put (hw : w.engines = [some e]) (hwakeups : w.wakeups = wakeupsAt total home)
    (ht : t.Wakes total busy later strict home) (conn : Nat) (f : Option Finished) :
    ((w.put 0 conn t).close f).Wakes total busy later strict := by
  refine ⟨{ t with effects := [] }, home, ?_, ?_, ht.congr rfl rfl rfl ht.waits⟩
  · rw [engines_close, engines_put, hw]
    rfl
  · rw [wakeups_close, wakeups_put, hwakeups]

/-- Once a delivery is asked for nothing is left to ask for, unless the engine is busy. -/
theorem Wakes.scheduleDelivery (h : w.Wakes total busy later strict) :
    (w.scheduleDelivery 0).Wakes total busy (busy = true ∧ later) strict := by
  obtain ⟨e, home, hw, hwakeups, he⟩ := h
  unfold World.scheduleDelivery
  rw [engine?_of_engines hw]
  dsimp only
  split
  · rename_i hsame
    refine ⟨e, home, hw, hwakeups, { he with waits := fun hcan => ?_ }⟩
    rcases (Bool.or_eq_true_iff ..).1 hsame with hbusy | hscheduled
    · exact (he.waits hcan).imp_right fun hlater => ⟨he.busy_eq.symm.trans hbusy, hlater⟩
    · exact .inl hscheduled
  · rename_i hasked
    rw [Bool.or_eq_true, not_or, Bool.not_eq_true, Bool.not_eq_true] at hasked
    split
    · rename_i hnone
      have hfree : busy = false := he.busy_eq.symm.trans hasked.1
      subst hfree
      exact ⟨e, home, hw, hwakeups, he.idle hnone hasked.1 rfl⟩
    · rename_i s hs
      -- what is not asked for waits nowhere, so the one delivery is the one that is put there now
      have hnone : home = none := Option.isNone_iff_eq_none.1 (by
        rw [← Option.not_isSome, ← he.scheduled_eq, hasked.2]
        rfl)
      subst hnone
      refine ⟨{ e with scheduled := true }, some s.conn, ?_, ?_, ?_⟩
      · exact congrArg (List.set · 0 _) hw
      · exact wakeups_execute hwakeups s.conn
      · refine { he with home_lt := ?_, scheduled_eq := rfl, waits := fun _ => .inl rfl, own := ?_ }
        · rintro _ ⟨⟩
          exact he.conn_lt s hs
        · rintro - s' _ hs' ⟨⟩
          cases hs.symm.trans hs'
          rfl

/-- Input asks for its delivery, unless the engine is busy and drops it. -/
theorem Wakes.receiveInput (h : w.Wakes total busy later strict) (n : Nat) (t : Text) :
    (w.receiveInput n t).Wakes total busy later strict := by
  unfold World.receiveInput
  split
  · exact h
  · rename_i e hn
    obtain ⟨rfl, home, hw, hwakeups, he⟩ := h.engine? hn
    split
    · exact h.congr rfl rfl
    · rename_i hfree
      have hqueued : ({ e with queue := e.queue.append t } : Engine).Wakes total busy True strict home :=
        he.congr rfl rfl rfl fun _ => .inr trivial
      have hasked := (Wakes.setEngine hw hwakeups hqueued).scheduleDelivery
      exact hasked.mono fun hbusy => absurd (he.busy_eq.trans hbusy.1) hfree

theorem Wakes.deliver (h : w.Wakes total busy later strict) (x : Owner × Delivery) :
    (w.deliver x).Wakes total busy later strict := by
  rcases x with ⟨n | n, t | ⟨s, c⟩⟩
  · exact h.receiveInput n t
  · exact h
  · exact h.congr rfl rfl
  · exact h.congr rfl rfl

theorem Wakes.deliverAll (h : w.Wakes total busy later strict) {conn : Nat} {c : Connection}
    {r : Connection × List (Owner × Delivery)} (hc : w.conns[conn]? = some c)
    (hr : r.1.wakeups = c.wakeups) : (w.deliverAll conn r).Wakes total busy later strict := by
  have hfold : ∀ (ds : List (Owner × Delivery)) {w : World}, w.Wakes total busy later strict →
      (ds.foldl World.deliver w).Wakes total busy later strict := by
    intro ds
    induction ds with
    | nil => exact fun h => h
    | cons x ds ih => exact fun h => ih (h.deliver x)
  refine hfold r.2 (h.modifyConn fun c' hc' => ?_)
  cases hc.symm.trans hc'
  exact hr

theorem Wakes.feed (h : w.Wakes total busy later strict) (conn : Nat) (bytes : List UInt8) :
    (w.feed conn bytes).Wakes total busy later strict := by
  unfold World.feed
  split
  · exact h
  · rename_i c hc
    exact h.deliverAll hc rfl

theorem Wakes.endOfStream (h : w.Wakes total busy later strict) (conn : Nat) :
    (w.endOfStream conn).Wakes total busy later strict := by
  unfold World.endOfStream
  split
  · exact h
  · rename_i c hc
    exact h.deliverAll hc rfl

/-- Input queued by the host is asked for if a session could take it. -/
theorem Wakes.queueInput (hw : w.engines = [some e]) (hwakeups : w.wakeups = wakeupsAt total home)
    (he : e.Wakes total false later strict home) (t : Text) :
    (w.queueInput 0 e t).Wakes total false later strict := by
  have hqueued : ∀ later', ({ e with queue := e.queue.append t }.canDeliver = true → later') →
      (w.setEngine 0 { e with queue := e.queue.append t }).Wakes total false later' strict :=
    fun later' hlater => Wakes.setEngine hw hwakeups (he.congr rfl rfl rfl fun hcan => .inr (hlater hcan))
  unfold World.queueInput
  dsimp only
  split
  · exact (hqueued True fun _ => trivial).scheduleDelivery.mono fun hbusy => nomatch hbusy.1
  · rename_i hcannot
    exact hqueued later fun hcan => absurd hcan hcannot

/-- A new size is no concern of the queue. -/
theorem Wakes.receiveSize (h : w.Wakes total busy later strict) (n : Nat) (s : Size) :
    (w.receiveSize n s).Wakes total busy later strict := by
  unfold World.receiveSize
  split
  · exact h
  · rename_i e hn
    obtain ⟨rfl, home, hw, hwakeups, he⟩ := h.engine? hn
    split
    · exact h.congr rfl rfl
    · split
      · exact h
      · rename_i session hs
        have hk := Engine.core?_of_session hs
        obtain ⟨hscheduled, hbusy⟩ := e.flags_resized s
        have hwork := he.work hk ((Engine.core?_resized e s).trans hk) rfl hscheduled
          (hbusy.trans he.busy_eq) fun hqueue hpaused => .inl (by
            rw [Engine.canDeliver_of_core? hk]
            exact Bool.and_eq_true_iff.2 ⟨hqueue, by simpa using hpaused⟩)
        exact Wakes.put hw hwakeups hwork _ none

end World

/-! ### What a host may do -/

/-- Whether calls on a session that is paused leave it paused. -/
def Engine.holdsPause (e : Engine) (calls : List SessionCall) : Bool :=
  !(e.session.any Session.paused) || calls.foldl SessionCall.holding true

/-- Whether a call ends a pause only by a resume of the engine. -/
def Call.holdsPause (w : World) : Call → Bool
  | .session n calls => (w.engine? n).all fun e => e.holdsPause calls
  | _ => true

/-- Whether a call begins no line while a delivery waits on another connection. -/
def Call.clear (w : World) : Call → Bool
  | .readline r _ =>
    (w.engine? r.engine).any (·.session.isSome) ||
      w.conns.zipIdx.all fun x => x.2 = r.conn || !x.1.tasks.contains (.deliver r.engine)
  | _ => true

/-- A session that is not paused after such calls was not paused before them. -/
theorem Engine.paused_of_holdsPause {e : Engine} {k : Core} {calls : List SessionCall}
    (hk : e.core? = some k) (hcalls : e.holdsPause calls = true)
    (hafter : calls.foldl SessionCall.holding k.paused = false) : k.paused = false := by
  obtain ⟨d, -, hs, rfl⟩ := desk_of_core? hk
  cases hpaused : d.core.paused with
  | false => rfl
  | true =>
    have hbefore : e.session.any Session.paused = true := by
      rw [hs]
      exact hpaused
    unfold Engine.holdsPause at hcalls
    rw [hbefore, Bool.not_true, Bool.false_or] at hcalls
    rw [hpaused, hcalls] at hafter
    cases hafter

/-! ### Calls -/

/-- The delivery after a call, with the jobs that the call leads to. -/
structure Called.Wakes (r : Called) (total : Nat) (busy : Bool) (later strict : Prop) : Prop where
  world : r.world.Wakes total busy (later ∨ ∃ j ∈ r.jobs, j.delivers) strict
  jobs : ∀ j ∈ r.jobs, ¬ j.isScript
  idle : busy = true → ∀ j ∈ r.jobs, ¬ j.delivers

namespace World

variable {w : World} {e t : Engine} {total : Nat} {busy : Bool} {later strict : Prop}
  {home : Option Nat} {n : Nat} {k : Core}

/-- A call that leads to no job. -/
theorem Wakes.called (h : w.Wakes total busy later strict) (reply : Reply) :
    Called.Wakes { world := w, reply } total busy later strict :=
  ⟨h.mono .inl, List.forall_mem_nil _, fun _ => List.forall_mem_nil _⟩

/-- A call after which tasks are run. -/
theorem Wakes.calledTasks (h : w.Wakes total busy later strict) (conn : Nat) (reply : Reply) :
    Called.Wakes { world := w, jobs := [.tasks conn], reply } total busy later strict :=
  ⟨h.mono .inl, List.forall_mem_singleton.2 id, fun _ => List.forall_mem_singleton.2 id⟩

/-- A session that ends is put back with its handlers, and its callback is called. -/
theorem Wakes.finish (jobs : List Job) (hw : w.engines = [some e])
    (hwakeups : w.wakeups = wakeupsAt total home) (hk : t.core? = some k)
    (ht : t.Wakes total false (later ∨ ∃ j ∈ jobs, j.delivers) strict home)
    (hjobs : ∀ j ∈ jobs, ¬ j.isScript) (conn : Nat) (reply : Reply) : Called.Wakes
      { world := (w.put 0 conn t.takeFinished.1).close t.takeFinished.2
        jobs := Job.ofFinished t.takeFinished.2 ++ jobs
        reply } total false later strict := by
  refine ⟨(Wakes.put hw hwakeups (ht.takeFinished hk) conn _).mono ?_,
    List.forall_mem_append.2 ⟨Job.not_isScript_ofFinished _, hjobs⟩, nofun⟩
  rintro (hlater | ⟨j, hj, hdelivers⟩)
  · exact .inl hlater
  · exact .inr ⟨j, List.mem_append_right _ hj, hdelivers⟩

/-- A line is begun on the connection where a delivery waits, if there is one. -/
theorem conn_eq_of_clear (hw : w.engines = [some e]) (hwakeups : w.wakeups = wakeupsAt total home)
    (hnone : e.session = none) {r : Request} (hengine : r.engine = 0) {callback : Nat}
    (hclear : (Call.readline r callback).clear w = true) {conn : Nat} (hconn : conn < total)
    (hhome : home = some conn) : r.conn = conn := by
  obtain ⟨c, hc⟩ : ∃ c, w.conns[conn]? = some c :=
    ⟨_, List.getElem?_eq_getElem (length_conns hwakeups ▸ hconn)⟩
  have hcount : c.tasks.count (.deliver 0) = 1 :=
    (congrArg Prod.fst (wakeups_conn hwakeups hc)).trans (if_pos hhome)
  have hwaits : c.tasks.contains (.deliver 0) = true :=
    List.contains_iff_mem.2 (List.count_pos_iff.1 (by omega))
  have hfree : (w.engine? r.engine).any (·.session.isSome) = false := by
    rw [hengine, engine?_of_engines hw, Option.any_some, hnone]
    rfl
  unfold Call.clear at hclear
  dsimp only at hclear
  rw [hfree, Bool.false_or, hengine] at hclear
  have hother := List.all_eq_true.1 hclear (c, conn) (List.mem_zipIdx_iff_getElem?.2 hc)
  rw [hwaits, Bool.not_true, Bool.or_false] at hother
  exact (of_decide_eq_true hother).symm

/-- A line begins where no delivery waits elsewhere, and input that is queued already asks for its
delivery. -/
theorem Wakes.readline (hw : w.engines = [some e]) (hwakeups : w.wakeups = wakeupsAt total home)
    (he : e.Wakes total false later strict home) {r : Request} (hengine : r.engine = 0)
    (hconn : r.conn < w.conns.length) (callback : Nat)
    (hclear : strict → (Call.readline r callback).clear w = true) :
    (match w.readline r callback with
      | .ok w => ({ world := w, reply := .done } : Called)
      | .error err => { world := w, reply := .engineError err }).Wakes total false later strict := by
  have hsame : w.Wakes total false later strict := ⟨e, home, hw, hwakeups, he⟩
  have hn := engine?_of_engines hw
  unfold World.readline
  rw [hengine, hn, List.getElem?_eq_getElem hconn]
  dsimp only
  rw [if_neg (by rw [he.busy_eq]; decide)]
  cases hs : e.session with
  | some s => exact hsame.called _
  | none =>
    -- a delivery may still wait for a line that is over; then it is the one that serves this line
    have hown : strict → ∀ conn, home = some conn → r.conn = conn := fun hstrict conn hhome =>
      conn_eq_of_clear hw hwakeups hs hengine (hclear hstrict) (he.home_lt conn hhome) hhome
    have hstart := he.start (length_conns hwakeups ▸ hconn) hown callback w.conns[r.conn].size.cols
      w.conns[r.conn].handlers
    have hinstalled : (w.modifyConn r.conn fun _ =>
        { w.conns[r.conn] with handlers := sessionHandlers 0 }).wakeups = wakeupsAt total home := by
      refine (wakeups_modifyConn_same fun c hc => ?_).trans hwakeups
      cases (List.getElem?_eq_getElem hconn).symm.trans hc
      rfl
    have hput := Wakes.put (w := w.modifyConn r.conn fun _ =>
      { w.conns[r.conn] with handlers := sessionHandlers 0 }) hw hinstalled hstart r.conn none
    refine Wakes.called ?_ _
    split
    · exact hput.scheduleDelivery.mono fun hbusy => nomatch hbusy.1
    · rename_i hempty
      exact hput.mono fun hlater => hlater.elim (absurd · hempty) id

theorem Wakes.callResume (hw : w.engines = [some e]) (hwakeups : w.wakeups = wakeupsAt total home)
    (he : e.Wakes total false later strict home) :
    (w.callResume 0 e).Wakes total false later strict := by
  have hsame : w.Wakes total false later strict := ⟨e, home, hw, hwakeups, he⟩
  unfold World.callResume
  cases hk : e.core? with
  | none =>
    rw [Engine.resume_eq_error hk]
    exact hsame.called _
  | some k =>
    rcases Engine.resume_cases hk (w.size e.conn).cols with
      ⟨-, herror⟩ | ⟨-, t, hok, hk', hscheduled, hbusy⟩
    · rw [herror]
      exact hsame.called _
    · rw [hok]
      have hasks : later ∨ ∃ j ∈ [Job.schedule 0], j.delivers :=
        .inr ⟨_, List.mem_singleton_self _, trivial⟩
      have hwork := (he.mono fun _ => hasks).work hk hk' rfl hscheduled (hbusy.trans he.busy_eq)
        fun _ _ => .inr hasks
      exact Wakes.finish [.schedule 0] hw hwakeups hk' hwork (List.forall_mem_singleton.2 id) e.conn .done

/-- Calls on the session may end it, and end no pause. -/
theorem Wakes.callSession (hw : w.engines = [some e]) (hwakeups : w.wakeups = wakeupsAt total home)
    (he : e.Wakes total false later strict home) {calls : List SessionCall}
    (hcalls : e.holdsPause calls = true) :
    (w.callSession 0 e calls).Wakes total false later strict := by
  unfold World.callSession
  cases hk : e.core? with
  | none =>
    have hsame : w.Wakes total false later strict := ⟨e, home, hw, hwakeups, he⟩
    rw [Engine.answers_eq_error hk]
    exact hsame.called _
  | some k =>
    obtain ⟨t, replies, hk', hscheduled, hbusy, hok⟩ := Engine.answers_cases hk (w.size e.conn) calls
    have hwork := he.work hk hk' rfl hscheduled (hbusy.trans he.busy_eq) fun hqueue hpaused => .inl (by
      rw [Engine.canDeliver_of_core? hk, Engine.paused_of_holdsPause hk hcalls hpaused]
      exact Bool.and_eq_true_iff.2 ⟨hqueue, rfl⟩)
    rw [hok]
    cases hpaused : calls.foldl SessionCall.holding k.paused with
    | true => exact (Wakes.put hw hwakeups hwork e.conn none).called _
    | false =>
      have hfinish := Wakes.finish [] hw hwakeups hk' (hwork.mono .inl) (List.forall_mem_nil _) e.conn
        (.replies replies)
      rw [List.append_nil] at hfinish
      exact hfinish

/-- A call of an engine that is there and free. -/
theorem Wakes.callEngine (h : w.Wakes total busy later strict) (n : Nat) {f : Engine → Called}
    (hf : ∀ e home, n = 0 → busy = false → w.engines = [some e] → w.wakeups = wakeupsAt total home →
      e.Wakes total false later strict home → (f e).Wakes total false later strict) :
    (w.callEngine n f).Wakes total busy later strict := by
  unfold World.callEngine
  split
  · exact h.called _
  · rename_i e hn
    obtain ⟨hzero, home, hw, hwakeups, he⟩ := h.engine? hn
    split
    · exact h.called _
    · rename_i hfree
      have hidle : busy = false := he.busy_eq.symm.trans (Bool.eq_false_iff.2 hfree)
      subst hidle
      exact hf e home hzero rfl hw hwakeups he

/-- A call of the host keeps the delivery, with the jobs that it leads to. -/
theorem Wakes.call (h : w.Wakes total busy later strict) {c : Call} (hkeeps : c.keeps w = true)
    (hholds : c.holdsPause w = true) (hclear : strict → c.clear w = true) :
    (w.call c).Wakes total busy later strict := by
  cases c with
  | readline r callback =>
    refine h.callEngine r.engine fun e home hengine _ hw hwakeups he => ?_
    exact Wakes.readline hw hwakeups he hengine (of_decide_eq_true hkeeps) callback hclear
  | queue n t =>
    refine h.callEngine n fun e home hn _ hw hwakeups he => ?_
    rw [hn]
    exact (Wakes.queueInput hw hwakeups he t).called _
  | resume n =>
    refine h.callEngine n fun e home hn _ hw hwakeups he => ?_
    rw [hn]
    exact Wakes.callResume hw hwakeups he
  | session n calls =>
    refine h.callEngine n fun e home hn _ hw hwakeups he => ?_
    have hcalls : (w.engine? n).all fun e => e.holdsPause calls := hholds
    rw [hn, engine?_of_engines hw] at hcalls
    rw [hn]
    exact Wakes.callSession hw hwakeups he hcalls
  | history n calls =>
    refine h.callEngine n fun e home hn _ hw hwakeups he => ?_
    rw [hn]
    have hset : ({ e with history := (collectEach HistoryCall.run e.history calls).1 } : Engine).Wakes
      total false later strict home := he.congr rfl rfl rfl he.waits
    exact (Wakes.setEngine hw hwakeups hset).called _
  | bind n event k =>
    refine h.callEngine n fun e home hn _ hw hwakeups he => ?_
    rw [hn]
    have hset : ({ e with keymap := e.keymap.bind event k } : Engine).Wakes total false later strict
      home := he.congr rfl rfl rfl he.waits
    exact (Wakes.setEngine hw hwakeups hset).called _
  | style n =>
    refine h.callEngine n fun e home _ _ hw hwakeups he => ?_
    exact Wakes.called ⟨e, home, hw, hwakeups, he⟩ _
  | drop n =>
    have hsame : w.drop n = w := by
      unfold World.drop
      rw [h.engine?_of_ne (of_decide_eq_true hkeeps)]
    unfold World.call
    dsimp only
    rw [hsame]
    exact h.called _
  | feed conn bytes => exact (h.feed conn bytes).called _
  | runTasks conn => exact h.calledTasks conn _
  | runDelayed conn =>
    obtain ⟨e, home, hw, hwakeups, he⟩ := h
    have hreleased : (w.modifyConn conn (·.releaseDelayed)).Wakes total busy later strict :=
      ⟨e, home, hw, (wakeups_releaseDelayed hwakeups conn).trans hwakeups, he⟩
    exact hreleased.calledTasks conn _
  | endOfStream conn => exact (h.endOfStream conn).calledTasks conn _
  | resize conn s =>
    exact (h.congr (engines_resize conn s) (wakeups_resize conn s)).calledTasks conn _
  | setHandlers conn f =>
    have hset := h.modifyConn (n := conn) (g := fun c => { c with handlers := f c.handlers })
      fun _ _ => rfl
    exact hset.called _

end World

end LineEditor
