import LineEditor.Proofs.Host.Standing

/-!
Handlers always come back. While a session is read its connection holds the handlers of the session,
and whenever none is read every connection holds the handlers of the host, already when the callback of
the line begins to run.

Main definitions: `ownHandlers`, the handlers of the host after some deeds, `Machine.Spares`, when the
host may install handlers, and `Standing.Held` and `Machine.Held`, the invariant. Main statements:
`Standing.Held.next`, `Machine.held_play` and `Machine.handlers_of_play`.
-/
namespace LineEditor

/-! ### The handlers of the host -/

/-- What a deed does to the handlers of the host. -/
def Deed.install (hs : List Handlers) : Deed → List Handlers
  | .entry _ => hs
  | .installed conn f => hs.modify conn f

/-- The handlers of the host on its connections after some deeds: those from before, but for what the
host itself installed. -/
def ownHandlers (hs : List Handlers) (ds : List Deed) : List Handlers := ds.foldl Deed.install hs

theorem ownHandlers_append (hs : List Handlers) (ds ds' : List Deed) :
    ownHandlers hs (ds ++ ds') = ownHandlers (ownHandlers hs ds) ds' := List.foldl_append ..

/-- What is done to the line installs nothing. -/
theorem ownHandlers_entries (hs : List Handlers) (es : List Entry) :
    ownHandlers hs (es.map .entry) = hs := by
  induction es with
  | nil => rfl
  | cons x es ih => exact ih

/-- While the host installs nothing its handlers are those from before. -/
theorem ownHandlers_of_none {ds : List Deed} (h : ∀ conn f, .installed conn f ∉ ds)
    (hs : List Handlers) : ownHandlers hs ds = hs := by
  induction ds with
  | nil => rfl
  | cons x ds ih =>
    have hds : ∀ conn f, .installed conn f ∉ ds :=
      fun conn f hmem => h conn f (List.mem_cons_of_mem _ hmem)
    cases x with
    | entry x => exact ih hds
    | installed conn f => exact absurd (List.mem_cons_self ..) (h conn f)

/-! ### Standings -/

/-- A session holds the handlers of its connection and remembers those of the host; all other
connections, and all connections while none is read, hold those of the host. -/
structure Standing.Held (own : List Handlers) (k : Standing) : Prop where
  handlers_eq : k.handlers = match k.session with
    | none => own
    | some s => own.set s.conn (World.sessionHandlers 0)
  previous_eq : ∀ s, k.session = some s → own[s.conn]? = some s.previous

/-- Whether the connection that a deed installs handlers on is none of a session's. -/
def Standing.Spared (k : Standing) : Deed → Prop
  | .entry _ => True
  | .installed conn _ => ∀ s, k.session = some s → s.conn ≠ conn

/-- Handlers installed elsewhere. -/
theorem modify_set {α : Type} (l : List α) {i j : Nat} (hij : i ≠ j) (a : α) (f : α → α) :
    (l.set i a).modify j f = (l.modify j f).set i a := by
  refine List.ext_getElem? fun n => ?_
  rw [List.getElem?_modify, List.getElem?_set, List.getElem?_set, List.getElem?_modify,
    List.length_modify]
  by_cases hi : i = n
  · subst hi
    simp [hij.symm]
  · rw [if_neg hi, if_neg hi]

namespace Standing

variable {k k' : Standing} {own : List Handlers} {ds : List Deed} {f : Option Finished}

theorem Held.handlers_of_none (h : k.Held own) (hs : k.session = none) : k.handlers = own := by
  have hhandlers := h.handlers_eq
  rw [hs] at hhandlers
  exact hhandlers

theorem Held.handlers_of_some (h : k.Held own) {s : Session} (hs : k.session = some s) :
    k.handlers = own.set s.conn (World.sessionHandlers 0) := by
  have hhandlers := h.handlers_eq
  rw [hs] at hhandlers
  exact hhandlers

/-- Every step keeps the handlers in order. -/
theorem Held.next (h : k.Held own) (hnext : k.Next ds f k') (hds : ∀ x ∈ ds, k.Spared x) :
    k'.Held (ownHandlers own ds) := by
  cases hnext with
  | rests => exact h
  | works hs hworks =>
    have hconn := congrArg Terms.conn hworks.terms_eq
    have hprevious := congrArg Terms.previous hworks.terms_eq
    rw [ownHandlers_entries]
    refine ⟨?_, ?_⟩
    · rw [h.handlers_of_some hs]
      exact congrArg (own.set · _) hconn.symm
    · intro s' hs'
      cases hs'
      exact (congrArg (own[·]?) hconn).trans ((h.previous_eq _ hs).trans (congrArg some hprevious.symm))
  | ends hs hworks _ =>
    rw [ownHandlers_entries]
    refine ⟨?_, ?_⟩
    · rw [h.handlers_of_some hs, List.set_set]
      obtain ⟨hlt, hown⟩ := List.getElem?_eq_some_iff.1 (h.previous_eq _ hs)
      rw [← hown]
      exact List.set_getElem_self hlt
    · intro s hs
      cases hs
  | begins r callback width hnone hprevious =>
    have hheld := h.handlers_of_none hnone
    rw [hheld] at hprevious
    refine ⟨?_, ?_⟩
    · change k.handlers.set r.conn _ = own.set r.conn _
      rw [hheld]
    · intro s hs
      cases hs
      exact hprevious
  | installs conn g =>
    have hspared := hds _ (List.mem_singleton_self _)
    refine ⟨?_, ?_⟩
    · cases hs : k.session with
      | none => exact congrArg (List.modify · conn g) (h.handlers_of_none hs)
      | some s =>
        exact (congrArg (List.modify · conn g) (h.handlers_of_some hs)).trans
          (modify_set own (hspared s hs) _ g)
    · intro s hs
      refine (List.getElem?_modify ..).trans ?_
      rw [h.previous_eq s hs]
      exact congrArg some (if_neg fun heq => hspared s hs heq.symm)

end Standing

/-! ### Runs -/

/-- Whether a session is read on a connection. -/
def World.readsOn (w : World) (conn : Nat) : Bool :=
  w.engines.any fun e => (e.bind Engine.session).any fun s => s.conn = conn

/-- Whether a call leaves the handlers of a session alone. -/
def Call.spares (w : World) : Call → Bool
  | .setHandlers conn _ => !w.readsOn conn
  | _ => true

/-- Whether a job leaves the handlers of a session alone. -/
def Job.spares (w : World) : Job → Bool
  | .call c => c.spares w
  | _ => true

/-- A line cannot be begun while one is read. -/
theorem World.reply_readline_of_reading {w : World} {t : Engine} (ht : w.engines = [some t])
    (hreading : t.session.isSome = true) (hfree : t.busy = false) {r : Request}
    (hzero : r.engine = 0) (hconn : r.conn < w.conns.length) (callback : Nat) :
    (w.call (.readline r callback)).reply = .engineError .alreadyReading := by
  change (w.callEngine r.engine _).reply = _
  unfold World.callEngine
  rw [hzero, World.engine?_of_engines ht]
  dsimp only
  rw [if_neg (by rw [hfree]; decide)]
  unfold World.readline
  rw [hzero, World.engine?_of_engines ht, List.getElem?_eq_getElem hconn]
  dsimp only
  rw [if_neg (by rw [hfree]; decide), if_pos hreading]

namespace Machine

/-- The host keeps the engine, and installs no handlers on a connection while a session is read
there. -/
def Spares (m : Machine) (x : Move) : Prop :=
  m.Keeps x ∧ match x with
    | .call c => c.spares m.world = true
    | .step => ∀ j ∈ m.jobs.head?, j.spares m.world = true

instance (m : Machine) : (x : Move) → Decidable (m.Spares x)
  | .call c => inferInstanceAs (Decidable (m.Keeps (.call c) ∧ c.spares m.world = true))
  | .step =>
    inferInstanceAs (Decidable (m.Keeps .step ∧ ∀ j ∈ m.jobs.head?, j.spares m.world = true))

variable {host : Host} {m : Machine} {k : Standing} {own : List Handlers}

theorem spared_of_call {w : World} (hk : w.standing? = some k) {c : Call} (hc : c.spares w = true) :
    ∀ x ∈ c.deeds w, k.Spared x := by
  intro x hx
  cases x with
  | entry x => trivial
  | installed conn f =>
    have hcall : ∃ f, c = .setHandlers conn f := by
      unfold Call.deeds at hx
      split at hx
      · simp at hx
      · simp at hx
      · simp only [List.mem_singleton, Deed.installed.injEq] at hx
        obtain ⟨rfl, -⟩ := hx
        exact ⟨_, rfl⟩
      · cases hx
    obtain ⟨g, rfl⟩ := hcall
    obtain ⟨e, hw, rfl⟩ := World.of_standing? hk
    intro s hs hconn
    have hs' : e.session = some s := hs
    have hreads : w.readsOn conn = true := by
      unfold World.readsOn
      rw [hw]
      simp [hs', hconn]
    change (!w.readsOn conn) = true at hc
    rw [hreads] at hc
    cases hc

/-- What is told of an allowed move spares the session. -/
theorem Spares.spared (hk : m.world.standing? = some k) {x : Move} (hx : m.Spares x) :
    ∀ y ∈ x.deeds m, k.Spared y := by
  have hentries : ∀ (es : List Entry), ∀ y ∈ es.map Deed.entry, k.Spared y := by
    intro es
    rw [List.forall_mem_map]
    exact fun _ _ => trivial
  cases x with
  | call c => exact spared_of_call hk hx.2
  | step =>
    unfold Move.deeds
    dsimp only
    cases hj : m.jobs.head? with
    | none => exact List.forall_mem_nil _
    | some j =>
      rw [Option.map_some, Option.getD_some]
      cases j with
      | call c => exact spared_of_call hk (hx.2 _ hj)
      | background n calls =>
        have hsession : (Call.session n calls).spares m.world = true := rfl
        exact spared_of_call hk hsession
      | deliver n => exact hentries _
      | script n c h rest =>
        cases rest with
        | nil => exact List.forall_mem_nil _
        | cons s rest => exact hentries _
      | _ => exact List.forall_mem_nil _

/-- Handlers are in order, and a callback is called when its session is over and before anything else
is done. -/
structure Held (own : List Handlers) (m : Machine) : Prop where
  standing : ∃ k, m.world.standing? = some k ∧ k.Held own ∧
    (∀ j ∈ m.jobs.head?, j.isCallback = true → k.session = none)
  later : ∀ j ∈ m.jobs.tail, j.isCallback = false

/-- A move keeps the handlers in order. -/
theorem Held.move (host : Host) (h : m.Held own) {x : Move} (hx : m.Spares x) :
    (m.move host x).Held (ownHandlers own (x.deeds m)) := by
  obtain ⟨⟨k, hk, hheld, -⟩, hlater⟩ := h
  have hspared := hx.spared hk
  have hleft : ∀ j ∈ m.left x, j.isCallback = false := by
    cases x with
    | call c =>
      intro j hj
      have htasks := hx.1.1 j hj
      cases j <;> first | rfl | cases htasks
    | step => exact hlater
  have hafter := next_move host hk hx.1
  generalize m.left x = left at hleft hafter
  generalize x.deeds m = ds at hspared hafter
  generalize m.move host x = m' at hafter
  cases hafter with
  | @intro w' f k' new hnext hw hnew =>
    have hothers : ∀ j ∈ new ++ left, j.isCallback = false := List.forall_mem_append.2 ⟨hnew, hleft⟩
    have hheld' := hheld.next hnext hspared
    cases f with
    | none =>
      refine ⟨⟨k', hw, hheld', ?_⟩, fun j hj => hothers j (List.mem_of_mem_tail hj)⟩
      intro j hj hcallback
      rw [hothers j (List.mem_of_mem_head? hj)] at hcallback
      cases hcallback
    | some f =>
      refine ⟨⟨k', hw, hheld', fun _ _ _ => ?_⟩, hothers⟩
      cases hnext
      rfl

/-- Along a run the handlers are kept in order. -/
theorem held_play (moves : List Move) (h : m.Held own) (hadmits : m.Admits Spares host moves) :
    (m.play host moves).Held
      (ownHandlers own (record (fun m x => x.deeds m) host m moves)) := by
  induction moves generalizing m own with
  | nil => exact h
  | cons x moves ih =>
    rw [record_cons, ownHandlers_append]
    exact ih (h.move host hadmits.1) hadmits.2

/-- Handlers always come back. Along a run in which the host installs none on the connection of a
session, with the handlers of the host those from before unless it installs others: while no session is
read every connection holds the handlers of the host, already when the callback of a line begins to run;
while one is read its connection holds the handlers for the input and for the size of that session and
none for signals, and every other connection holds those of the host; and a line that cannot be begun,
because one is read already or for any other reason, leaves everything as it was. -/
theorem handlers_of_play {w : World} {e : Engine} (hw : w.engines = [some e])
    (hnone : e.session = none) (host : Host) (moves : List Move)
    (hadmits : (⟨w, []⟩ : Machine).Admits Spares host moves) :
    let ds := record (fun m x => x.deeds m) host ⟨w, []⟩ moves
    let own := ownHandlers w.handlers ds
    let m := (⟨w, []⟩ : Machine).play host moves
    ∃ t, m.world.engines = [some t] ∧
      ((∀ conn f, .installed conn f ∉ ds) → own = w.handlers) ∧
      (t.session = none → m.world.handlers = own) ∧
      (∀ s, t.session = some s → m.world.handlers =
        own.set s.conn { input := some (.engine 0), size := some (.engine 0), signal := none }) ∧
      (∀ callback line rest, m.jobs = .callback callback line :: rest →
        t.session = none ∧ m.world.handlers = own) ∧
      (∀ r callback, t.session.isSome → t.busy = false → r.engine = 0 →
        r.conn < m.world.conns.length →
        m.call (.readline r callback) = (m, .engineError .alreadyReading)) ∧
      (∀ r callback, (m.call (.readline r callback)).2 ≠ .done →
        (m.call (.readline r callback)).1 = m) := by
  intro ds own m
  have hown : (∀ conn f, .installed conn f ∉ ds) → own = w.handlers :=
    fun h => ownHandlers_of_none h w.handlers
  have hstart : (⟨w, []⟩ : Machine).Held w.handlers := by
    refine ⟨⟨_, World.standing?_eq hw, ⟨?_, ?_⟩, fun _ _ _ => hnone⟩, List.forall_mem_nil _⟩
    · dsimp only
      rw [hnone]
    · intro s hs
      dsimp only at hs
      rw [hnone] at hs
      cases hs
  have hlast : m.Held own := held_play moves hstart hadmits
  clear_value m own ds
  obtain ⟨⟨k, hk, hheld, hcallback⟩, -⟩ := hlast
  obtain ⟨t, ht, rfl⟩ := World.of_standing? hk
  have hrefused : ∀ r callback, (m.call (.readline r callback)).2 ≠ .done →
      (m.call (.readline r callback)).1 = m := by
    intro r callback hreply
    obtain ⟨hworld, hjobs⟩ := World.readline_refused hreply
    change m.goOn _ _ = m
    rw [hworld, hjobs]
    rfl
  have hover : t.session = none → m.world.handlers = own := hheld.handlers_of_none
  refine ⟨t, ht, hown, hover, fun s hs => hheld.handlers_of_some hs, ?_, ?_, hrefused⟩
  · intro callback line rest hjobs
    have hs := hcallback (.callback callback line) (by rw [hjobs]; rfl) rfl
    exact ⟨hs, hover hs⟩
  · intro r callback hreading hfree hzero hconn
    have hreply : (m.call (.readline r callback)).2 = .engineError .alreadyReading :=
      World.reply_readline_of_reading ht hreading hfree hzero hconn callback
    have hsame := hrefused r callback (by rw [hreply]; nofun)
    exact Prod.ext hsame hreply

/-- The callback of the first line reads the next one. That line is interrupted and then ended out of the
background while the session is paused; a call that begins a third line meanwhile is refused, and the
host installs handlers on another connection. -/
theorem handlers_of_play_twice :
    let r : Request := { engine := 0, conn := 0, prompt := ⟨['>', ' ']⟩, handler := none }
    let host : Host := ⟨fun n _ => if n = 0 then [.readline r 1, .readline r 2] else []⟩
    let h : Handlers := { input := some (.host 1), size := some (.host 2), signal := some (.host 3) }
    let w : World :=
      { engines := [some (.new {} [])]
        conns := [{ Connection.new {} {} with handlers := h }, .new {} {}] }
    let moves : List Move := [.call (.readline r 0), .call (.feed 0 [97, 13, 3]), .call (.runTasks 0),
      .step, .step, .step, .step, .step, .step, .step, .step, .step, .step, .step,
      .call (.setHandlers 1 fun _ => h), .call (.session 0 [.pause, .finish (some ['b'])]),
      .call (.readline r 3), .call (.resume 0), .step, .step]
    ∃ t, ((⟨w, []⟩ : Machine).play host moves).world.engines = [some t] ∧ t.session.isNone = true ∧
      ((⟨w, []⟩ : Machine).play host moves).world.handlers = [h, h] := by
  intro r host h w moves
  have hadmits : (⟨w, []⟩ : Machine).Admits Spares host moves := by decide +kernel
  obtain ⟨t, ht, -, hover, -⟩ := handlers_of_play rfl rfl host moves hadmits
  have hnone : ((⟨w, []⟩ : Machine).play host moves).world.engines.all
      (fun e => e.all fun e => e.session.isNone) = true := by decide +kernel
  have hnone' : t.session = none := by
    rw [ht] at hnone
    simpa using hnone
  have hown : ownHandlers w.handlers (record (fun m x => x.deeds m) host ⟨w, []⟩ moves) = [h, h] := by
    decide +kernel
  exact ⟨t, ht, by rw [hnone']; rfl, (hover hnone').trans hown⟩

end Machine

end LineEditor
