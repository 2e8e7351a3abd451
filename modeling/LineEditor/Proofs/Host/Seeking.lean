import LineEditor.Proofs.Engine.Seeking
import LineEditor.Proofs.Host.Solo
import LineEditor.Proofs.Host.Turns
import LineEditor.Proofs.Session.Matches

/-!
An incremental search from its first key on, in the session of an engine among any others. Its keys may be
any that leave it the focus, with anything between them that leaves the session and the history alone.

Main definitions: `Machine.Seeks`, the moves that a search goes on with, and `Machine.presses`, what is told
of its keys. Main statements: `runs_play`, the search is what its keys make of it, and `directions_of_play`,
it goes in the direction that its prompt names until it is turned around without a query.
-/
namespace LineEditor

namespace Machine

/-- The search that has the focus of an engine's session. -/
def search? (m : Machine) (n : Nat) : Option Search := (m.world.engine? n).bind Engine.search?

/-- A move after which a search has the focus: a key of the search, or no key, with the history left
alone. -/
def Seeks (n : Nat) (host : Host) (m : Machine) (x : Move) : Prop :=
  (x.turn n m).Seeks (m.world.engine? n) ((m.move host x).world.engine? n)

instance (n : Nat) (host : Host) (m : Machine) (x : Move) : Decidable (m.Seeks n host x) :=
  inferInstanceAs (Decidable (Turn.Seeks ..))

/-- What is told of a move: the key, if it is one. -/
def presses (n : Nat) (m : Machine) (x : Move) : List Press := (x.turn n m).presses (m.world.engine? n)

/-- A move that turns a search around that has no query. -/
def TurnsIdly (n : Nat) (m : Machine) (x : Move) : Prop :=
  ∃ q ∈ m.search? n, ∃ p ∈ m.presses n x, q.TurnsIdly p.bound

instance (n : Nat) (m : Machine) (x : Move) : Decidable (m.TurnsIdly n x) :=
  inferInstanceAs (Decidable (∃ q ∈ m.search? n, ∃ p ∈ m.presses n x, q.TurnsIdly p.bound))

variable {host : Host} {m : Machine} {n : Nat} {e : Engine} {s : Session} {q : Search} {k : Seeking}

theorem search?_of_seeks (he : m.world.engine? n = some e) (hk : e.Seeks k) :
    m.search? n = some k.search := by
  rw [search?, he, Option.bind_some, hk.search?_eq]

/-- A search goes on as its keys ask for. -/
theorem seeks_move (he : m.world.engine? n = some e) (hk : e.Seeks k) {x : Move}
    (hseeks : m.Seeks n host x) :
    ∃ e' k', (m.move host x).world.engine? n = some e' ∧ e'.Seeks k' ∧
      (m.presses n x = [] ∧ k' = k ∨ ∃ p, m.presses n x = [p] ∧ k.Next p k') := by
  have htakes := takes_move host m x n
  rw [Seeks, he] at hseeks
  rw [he] at htakes
  rw [presses, he]
  exact htakes.next hk hseeks

theorem follows_play (moves : List Move) (he : m.world.engine? n = some e) (hk : e.Seeks k)
    (hadmits : m.Admits (Seeks n host) host moves) :
    ∃ e' k', (m.play host moves).world.engine? n = some e' ∧ e'.Seeks k' ∧
      Seeking.Follows k (record (presses n) host m moves) k' := by
  induction moves generalizing m e k with
  | nil => exact ⟨e, k, he, hk, .nil k⟩
  | cons x moves ih =>
    obtain ⟨hseeks, hrest⟩ := hadmits
    obtain ⟨e', k', he', hk', htold⟩ := seeks_move he hk hseeks
    obtain ⟨e'', k'', he'', hk'', hfollows⟩ := ih he' hk' hrest
    refine ⟨e'', k'', he'', hk'', ?_⟩
    rw [record_cons]
    rcases htold with ⟨hnone, rfl⟩ | ⟨p, hp, hnext⟩
    · rwa [hnone, List.nil_append]
    · rw [hp]
      exact .cons hnext hfollows

/-- The first key of a search begins it on what is shown. -/
theorem begins_move (hm : m.search? n = none) {x : Move} (hseeks : m.Seeks n host x) :
    ∃ (e : Engine) (s : Session) (e' : Engine) (event : KeyEvent) (direction : Direction),
      m.world.engine? n = some e ∧ e.session = some s ∧
      (m.move host x).world.engine? n = some e' ∧
      m.presses n x = [⟨event, some direction.command, 0⟩] ∧
      e'.Seeks (.begin e.history s.buffer.text direction) :=
  (takes_move host m x n).begins hm hseeks

/-- A search that has the focus is what the keys since its first one have made of it. -/
theorem runs_play (hm : m.search? n = none) (moves : List Move)
    (hadmits : m.Admits (Seeks n host) host moves)
    (he : (m.play host moves).world.engine? n = some e) (hs : e.session = some s)
    (hfocus : s.focus = some (.search q)) :
    ∃ e₀ s₀, m.world.engine? n = some e₀ ∧ e₀.session = some s₀ ∧ e.Seeks ⟨e.history, q⟩ ∧
      Seeking.Runs e₀.history s₀.buffer.text (record (presses n) host m moves) ⟨e.history, q⟩ := by
  have hq : e.search? = some q := by
    rw [Engine.search?, hs]
    exact Session.search?_eq_some.2 hfocus
  cases moves with
  | nil =>
    rw [search?, show m.world.engine? n = some e from he, Option.bind_some, hq] at hm
    cases hm
  | cons x moves =>
    obtain ⟨e₀, s₀, e₁, event, direction, he₀, hs₀, he₁, hpress, hk₁⟩ := begins_move hm hadmits.1
    obtain ⟨e', k, he', hk, hfollows⟩ := follows_play moves he₁ hk₁ hadmits.2
    cases he.symm.trans he'
    have hsame : k = ⟨e.history, q⟩ := by
      have hsearch : k.search = q := Option.some.inj (hk.search?_eq.symm.trans hq)
      rw [hk.1, ← hsearch]
    rw [hsame] at hk hfollows
    refine ⟨e₀, s₀, he₀, hs₀, hk, ?_⟩
    rw [record_cons, hpress]
    exact .begun hfollows

/-! ### The direction that is searched in -/

theorem Admits.and {A B : Machine → Move → Prop} {moves : List Move} (h : m.Admits A host moves)
    (h' : m.Admits B host moves) : m.Admits (fun m x => A m x ∧ B m x) host moves := by
  induction moves generalizing m with
  | nil => trivial
  | cons x moves ih => exact ⟨⟨h.1, h'.1⟩, ih h.2 h'.2⟩

/-- A search that has the focus, if any, goes in the direction that it shows. -/
def Aligned (n : Nat) (m : Machine) : Prop :=
  m.search? n = none ∨ ∃ e k, m.world.engine? n = some e ∧ e.Seeks k ∧
    k.history.direction = k.search.direction

theorem Aligned.move {x : Move} (hseeks : m.Seeks n host x) (hidle : ¬ m.TurnsIdly n x)
    (hm : m.Aligned n) : (m.move host x).Aligned n := by
  rcases hm with hnone | ⟨e, k, he, hk, hdirection⟩
  · obtain ⟨e, s, e', event, direction, -, -, he', -, hk⟩ := begins_move hnone hseeks
    exact .inr ⟨e', _, he', hk, Seeking.begin_aligned ..⟩
  · obtain ⟨e', k', he', hk', ⟨-, rfl⟩ | ⟨p, hp, hnext⟩⟩ := seeks_move he hk hseeks
    · exact .inr ⟨e', k', he', hk', hdirection⟩
    · refine .inr ⟨e', k', he', hk', hnext.aligned (fun hturns => hidle ?_) hdirection⟩
      refine ⟨k.search, search?_of_seeks he hk, p, ?_, hturns⟩
      rw [hp]
      exact List.mem_singleton_self p

/-- After each key of a search its prompt names the direction that the history is searched in, if no key
has turned it around without a query. Such a key changes the direction in the prompt and leaves the
history searching in the old one. -/
theorem directions_of_play (hm : m.search? n = none) (moves : List Move)
    (hadmits : m.Admits (Seeks n host) host moves)
    (he : (m.play host moves).world.engine? n = some e) (hs : e.session = some s)
    (hfocus : s.focus = some (.search q)) :
    s.shown = q.prompt ∧
      (m.Admits (fun m x => ¬ m.TurnsIdly n x) host moves → e.history.direction = q.direction) ∧
      ∀ x, (m.play host moves).Seeks n host x → (m.play host moves).TurnsIdly n x →
        ∃ e' s' q', (m.play host (moves ++ [x])).world.engine? n = some e' ∧ e'.session = some s' ∧
          s'.focus = some (.search q') ∧ s'.shown = q'.prompt ∧ q'.query = [] ∧
          q'.direction = q.direction.turned ∧ e'.history = e.history := by
  obtain ⟨e₀, s₀, -, -, hk, -⟩ := runs_play hm moves hadmits he hs hfocus
  refine ⟨(hk.shown hs).2, fun hidle => ?_, fun x hseeks hturns => ?_⟩
  · have haligned : (m.play host moves).Aligned n :=
      play_invariant (fun m x h hm => hm.move h.1 h.2) moves (.inl hm) (hadmits.and hidle)
    rcases haligned with hnone | ⟨e', k', he', hk', hdirection⟩
    · cases (search?_of_seeks he hk).symm.trans hnone
    · cases he.symm.trans he'
      have hsame : k'.search = q := Option.some.inj (hk'.search?_eq.symm.trans hk.search?_eq)
      rw [← hsame, ← hdirection, hk'.1]
  · obtain ⟨e', k', he', hk', htold⟩ := seeks_move he hk hseeks
    obtain ⟨q', hq', p, hp, hidle⟩ := hturns
    obtain rfl : q = q' := Option.some.inj ((search?_of_seeks he hk).symm.trans hq')
    rcases htold with ⟨hnone, -⟩ | ⟨p', hp', hnext⟩
    · rw [hnone] at hp
      cases hp
    · rw [hp', List.mem_singleton] at hp
      subst hp
      obtain ⟨hhistory, hempty, -, hturned⟩ := hnext.of_turnsIdly hidle
      obtain ⟨hhistory', s', hs', hfocus', -, -, hshown'⟩ := hk'
      rw [play_append]
      exact ⟨e', s', k'.search, he', hs', hfocus', hshown', hempty, hturned,
        hhistory'.trans hhistory⟩

/-- A search for an `a` is turned around twice. -/
theorem directions_of_play_turned :
    let r : Request := { engine := 0, conn := 0, prompt := ⟨['>', ' ']⟩, handler := none }
    let host : Host := ⟨fun _ _ => []⟩
    let start : Machine := ⟨.solo (.new {} [['a', '1'], ['a', '2']]) (.new { cols := 80 } {}) {}, []⟩
    let m := start.play host [.call (.readline r 0), .call (.queue 0 ['\x12', 'a', '\x13', '\x12', '\x13']),
      .call (.runTasks 0), .step]
    let moves : List Move := List.replicate 5 .step
    ∃ e s q, (m.play host moves).world.engine? 0 = some e ∧ e.session = some s ∧
      s.focus = some (.search q) ∧ q.direction = .forward ∧ s.shown = q.prompt ∧
      e.history.direction = q.direction := by
  intro r host start m moves
  have hm : m.search? 0 = none := by decide +kernel
  have hadmits : m.Admits (Seeks 0 host) host moves := by decide +kernel
  have hturns : m.Admits (fun m x => ¬ m.TurnsIdly 0 x) host moves := by decide +kernel
  have hshown : ((m.play host moves).search? 0).any (·.direction = .forward) = true := by decide +kernel
  obtain ⟨q, hq, hforward⟩ := (Option.any_eq_true _ _).1 hshown
  obtain ⟨e, he, hsearch⟩ := Option.bind_eq_some_iff.1 hq
  obtain ⟨s, hs, hfocus⟩ := Engine.search?_eq_some hsearch
  obtain ⟨hprompt, hdirection, -⟩ := directions_of_play hm moves hadmits he hs hfocus
  exact ⟨e, s, q, he, hs, hfocus, of_decide_eq_true hforward, hprompt, hdirection hturns⟩

/-- A search that is turned around before anything is typed shows the newest entry behind a prompt that
names the other direction; one that begins in that direction shows the oldest. -/
theorem shown_of_turned_without_query :
    let r : Request := { engine := 0, conn := 0, prompt := ⟨['>', ' ']⟩, handler := none }
    let start : Machine := ⟨.solo (.new {} [['a', '1'], ['a', '2']]) (.new { cols := 80 } {}) {}, []⟩
    let shown (keys : Text) : Option (Direction × Text × Text) :=
      ((start.play ⟨fun _ _ => []⟩ ([.call (.readline r 0), .call (.queue 0 keys), .call (.runTasks 0)] ++
        List.replicate 4 .step)).world.engine? 0).bind fun e =>
          e.session.map fun s => (e.history.direction, s.shown.text, s.buffer.text)
    shown ['\x12', '\x13', 'a'] =
        some (.reverse, "(forward-i-search) `a': ".toList, ['a', '2']) ∧
      shown ['\x13', 'a'] = some (.forward, "(forward-i-search) `a': ".toList, ['a', '1']) := by
  decide +kernel

end Machine

end LineEditor
