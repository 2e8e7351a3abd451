import LineEditor.Proofs.Session.Strokes

/-!
Edit groups, and undo that walks back through them. A group is a run of typed code points that no
action interrupts, or an editing action. Each group has taken one snapshot of what it started from, and
these are the newest ones there are; so an undo takes back a group.

Main definitions: `Groups.ofStrokes`, the groups of some strokes; `Memory.Run`, what the strokes of a run
make of what undo goes by; `Memory.Follows` and `Memory.Holds`, what groups leave behind and what undo
needs. Main statements: `Run.typing` for any strokes, `Run.follows` and `Run.first` for groups and
`Run.holds` for undo.
-/
namespace LineEditor

/-! ### Groups -/

namespace Stroke

/-- Whether a stroke is of a group. -/
def isOfGroup : Stroke → Bool
  | .typed _ | .edited _ => true
  | _ => false

/-- Whether a stroke is of a group or between groups. -/
def isEditing : Stroke → Bool
  | .idle _ => true
  | s => s.isOfGroup

/-- The last event that was handled. -/
def lastEvent? (strokes : List Stroke) : Option Stroke := (strokes.filter isEvent).getLast?

theorem lastEvent?_concat (strokes : List Stroke) (s : Stroke) :
    lastEvent? (strokes ++ [s]) = if s.isEvent then some s else lastEvent? strokes := by
  rw [lastEvent?, List.filter_append]
  split
  · rename_i hs
    rw [List.filter_cons_of_pos hs, List.filter_nil, List.getLast?_concat]
  · rename_i hs
    rw [List.filter_cons_of_neg hs, List.filter_nil, List.append_nil]
    rfl

end Stroke

/-- Edit groups. -/
structure Groups where
  /-- Whether the newest one is a typed run that goes on. -/
  typing : Bool := false
  /-- The buffers that they started from, the newest first. -/
  starts : List Buffer := []

namespace Groups

/-- The groups after a stroke. -/
def after (g : Groups) : Stroke → Groups
  | .typed b => if g.typing then g else { typing := true, starts := b :: g.starts }
  | .edited b => { typing := false, starts := b :: g.starts }
  | s => { g with typing := g.typing && !s.isAction }

/-- The groups of some strokes. -/
def ofStrokes (strokes : List Stroke) : Groups := strokes.foldl after {}

@[simp] theorem ofStrokes_append (strokes told : List Stroke) :
    ofStrokes (strokes ++ told) = told.foldl after (ofStrokes strokes) := List.foldl_append ..

/-- The first group stays the first. -/
theorem getLast?_after {g : Groups} {b : Buffer} (hg : g.starts.getLast? = some b) (s : Stroke) :
    (g.after s).starts.getLast? = some b := by
  have hcons : ∀ b' : Buffer, (b' :: g.starts).getLast? = some b := by
    intro b'
    rw [List.getLast?_cons, hg]
    rfl
  cases s with
  | typed b' =>
    rw [after]
    split
    · exact hg
    · exact hcons b'
  | edited b' => exact hcons b'
  | _ => exact hg

end Groups

/-! ### Runs -/

namespace Memory

/-- What is left of a session that ends once its outcome is settled. -/
def unended (k : Memory) : Option Memory := if k.outcome = .reading then some k else none

/-- What a moment makes of what undo goes by, if there is a session. -/
inductive Goes : Option Memory → List Stroke → Option Memory → Prop
  | rests (o : Option Memory) : Goes o [] o
  | settles (k : Memory) : Goes (some k) [] k.unended
  | told {k k' : Memory} {s : Stroke} (h : k.Next s k') : Goes (some k) [s] k'.unended
  /-- No typed run begins, and an action ends one. -/
  | untold {o o' : Option Memory} {s : Stroke} (hs : s.isTold = false)
      (htyping : ∀ k' ∈ o', k'.typing = true → s.isAction = false ∧ ∃ k ∈ o, k.typing = true) :
      Goes o [s] o'

/-- What strokes make of what undo goes by, moment by moment. -/
inductive Run (o : Option Memory) : List Stroke → Option Memory → Prop
  | nil : Run o [] o
  | snoc {strokes told : List Stroke} {o' o'' : Option Memory} (h : Run o strokes o')
      (hlast : Goes o' told o'') : Run o (strokes ++ told) o''

variable {k k' : Memory} {s : Stroke} {strokes : List Stroke} {o o' : Option Memory} {g : Groups}

theorem mem_unended (h : k' ∈ k.unended) : k' = k ∧ k.outcome = .reading := by
  rw [unended, Option.mem_def] at h
  split at h
  · exact ⟨(Option.some.inj h).symm, ‹_›⟩
  · cases h

theorem unended_of_reading (h : k.outcome = .reading) : k.unended = some k := if_pos h

/-- After a stroke that is told a typed run goes on only if it was an event but no action. -/
theorem Next.typing (h : k.Next s k') (htyping : k'.typing = true) :
    s.isEvent = true ∧ s.isAction = false := by
  cases h with
  | typed hlonger => exact ⟨rfl, rfl⟩
  | idle action htext => exact ⟨rfl, Bool.not_eq_eq_eq_not.1 (Bool.and_eq_true_iff.1 htyping).2⟩
  | edited htext => cases htyping
  | undone hpop => cases htyping
  | rested hpop => cases htyping

/-- A typed run goes on only if the last event was no action. -/
theorem Run.typing (h : Run none strokes o) (hk : k ∈ o) (htyping : k.typing = true) :
    ∀ a ∈ Stroke.lastEvent? strokes, a.isAction = false := by
  induction h generalizing k with
  | nil => cases hk
  | @snoc strokes told o' o'' h hlast ih =>
    cases hlast with
    | rests =>
      rw [List.append_nil]
      exact ih hk htyping
    | settles k₀ =>
      obtain ⟨rfl, -⟩ := mem_unended hk
      rw [List.append_nil]
      exact ih rfl htyping
    | told hnext =>
      obtain ⟨rfl, -⟩ := mem_unended hk
      obtain ⟨hevent, hnone⟩ := hnext.typing htyping
      rw [Stroke.lastEvent?_concat, if_pos hevent]
      rintro a ⟨⟩
      exact hnone
    | untold hs hopen =>
      obtain ⟨hnone, k₀, hk₀, htyping₀⟩ := hopen k hk htyping
      rw [Stroke.lastEvent?_concat]
      split
      · rintro a ⟨⟩
        exact hnone
      · exact ih hk₀ htyping₀

/-! ### Groups -/

/-- A snapshot goes on top of all those that there is room for. -/
theorem prefix_push {u : UndoStack} {x : Snapshot} {l : List Snapshot}
    (hl : l.take u.limit <+: u.snapshots) (hx : ∀ y ∈ l.head?, y ≠ x) :
    (x :: l).take (u.push x).limit <+: (u.push x).snapshots := by
  rw [UndoStack.limit_push]
  cases hlimit : u.limit with
  | zero => exact List.nil_prefix
  | succ m =>
    rw [hlimit] at hl
    unfold UndoStack.push
    split
    · rename_i htop
      obtain ⟨rest, hrest⟩ := List.head?_eq_some_iff.1 htop
      rw [hrest] at hl ⊢
      cases l with
      | nil => exact (List.take_prefix (m + 1) [x]).trans ⟨rest, rfl⟩
      | cons y l => exact absurd (List.cons_prefix_cons.1 hl).1 (hx y rfl)
    · rw [hlimit]
      have hroom : l.take m <+: u.snapshots.take m := List.prefix_take_iff.2
        ⟨(List.take_prefix_take_left (Nat.le_succ m)).trans hl, List.length_take_le m l⟩
      exact List.cons_prefix_cons.2 ⟨rfl, hroom⟩

/-- What groups leave behind: the snapshots of what they started from, and another text. -/
structure Follows (k : Memory) (g : Groups) : Prop where
  typing_eq : k.typing = g.typing
  starts_prefix : (g.starts.map Snapshot.ofBuffer).take k.undo.limit <+: k.undo.snapshots
  text_ne : ∀ b ∈ g.starts.head?, k.buffer.text ≠ b.text
  longer : g.typing = true → ∀ b ∈ g.starts.head?, b.text.length < k.buffer.text.length
  reading : g.starts ≠ [] → k.outcome = .reading

/-- A snapshot of what is shown is not there yet. -/
theorem Follows.prefix_push (h : k.Follows g) :
    ((k.buffer :: g.starts).map Snapshot.ofBuffer).take (k.undo.push (.ofBuffer k.buffer)).limit <+:
      (k.undo.push (.ofBuffer k.buffer)).snapshots := by
  refine Memory.prefix_push h.starts_prefix fun y hy hsame => ?_
  rw [List.head?_map, Option.mem_def, Option.map_eq_some_iff] at hy
  obtain ⟨b, hb, rfl⟩ := hy
  exact h.text_ne b hb (congrArg Snapshot.text hsame).symm

/-- What a stroke of a group, or between groups, leaves behind. -/
theorem Next.follows (h : k.Next s k') (hs : s.isEditing = true) (hk : k.Follows g)
    (hreading : k'.outcome = .reading) : k'.Follows (g.after s) := by
  cases h with
  | @typed b hlonger =>
    unfold Groups.after
    rw [hk.typing_eq]
    cases htyping : g.typing with
    | true =>
      have hfurther : ∀ b' ∈ g.starts.head?, b'.text.length < b.text.length :=
        fun b' hb' => Nat.lt_trans (hk.longer htyping b' hb') hlonger
      exact
        { typing_eq := htyping.symm
          starts_prefix := hk.starts_prefix
          text_ne := fun b' hb' hsame => Nat.ne_of_lt (hfurther b' hb') (by rw [← hsame])
          longer := fun _ => hfurther
          reading := fun _ => hreading }
    | false =>
      exact
        { typing_eq := rfl
          starts_prefix := hk.prefix_push
          text_ne := by
            rintro _ ⟨⟩ hsame
            exact Nat.ne_of_lt hlonger (by rw [← hsame])
          longer := by
            rintro - _ ⟨⟩
            exact hlonger
          reading := fun _ => hreading }
  | edited htext =>
    exact
      { typing_eq := rfl
        starts_prefix := hk.prefix_push
        text_ne := by
          rintro _ ⟨⟩
          exact htext
        longer := nofun
        reading := fun _ => hreading }
  | @idle b action htext =>
    exact
      { typing_eq := congrArg (· && !action) hk.typing_eq
        starts_prefix := hk.starts_prefix
        text_ne := fun b' hb' => by
          rw [htext]
          exact hk.text_ne b' hb'
        longer := fun htyping b' hb' => by
          rw [htext]
          exact hk.longer (Bool.and_eq_true_iff.1 htyping).1 b' hb'
        reading := fun _ => hreading }
  | undone hpop => cases hs
  | rested hpop => cases hs

/-- What the groups of a run leave behind, if no typed run was going on before. -/
theorem Run.follows (h : Run o strokes o') (htyping : ∀ k ∈ o, k.typing = false)
    (hs : ∀ s ∈ strokes, s.isEditing = true) : ∀ k ∈ o', k.Follows (.ofStrokes strokes) := by
  induction h with
  | nil =>
    exact fun k hk =>
      { typing_eq := htyping k hk
        starts_prefix := by
          rw [Groups.ofStrokes, List.foldl_nil, List.map_nil, List.take_nil]
          exact List.nil_prefix
        text_ne := nofun
        longer := nofun
        reading := absurd rfl }
  | @snoc strokes told o' o'' h hlast ih =>
    rw [List.forall_mem_append] at hs
    have ih := ih hs.1
    cases hlast with
    | rests =>
      rw [List.append_nil]
      exact ih
    | settles k₀ =>
      intro k hk
      obtain ⟨rfl, -⟩ := mem_unended hk
      rw [List.append_nil]
      exact ih k rfl
    | told hnext =>
      intro k hk
      obtain ⟨rfl, hreading⟩ := mem_unended hk
      rw [Groups.ofStrokes_append]
      exact hnext.follows (hs.2 _ (List.mem_singleton_self _)) (ih _ rfl) hreading
    | @untold _ _ s htold =>
      have hediting := hs.2 s (List.mem_singleton_self _)
      cases s with
      | other | called => cases hediting
      | _ => cases htold

/-- The first group starts from what is shown before a run that begins with it. -/
theorem Run.first (h : Run (some k) strokes o) (hs : ∀ s ∈ strokes, s.isEditing = true)
    (hfirst : ∀ s ∈ strokes.head?, s.isOfGroup = true) :
    (strokes = [] → ∀ k' ∈ o, k' = k) ∧
      (strokes ≠ [] → (Groups.ofStrokes strokes).starts.getLast? = some k.buffer) := by
  induction h with
  | nil =>
    refine ⟨fun _ => ?_, absurd rfl⟩
    rintro _ ⟨⟩
    rfl
  | @snoc strokes told o' o'' h hlast ih =>
    rw [List.forall_mem_append] at hs
    cases hlast with
    | rests =>
      rw [List.append_nil] at hfirst ⊢
      exact ih hs.1 hfirst
    | settles k₀ =>
      rw [List.append_nil] at hfirst ⊢
      refine (ih hs.1 hfirst).imp_left fun hsame hnone k' hk' => ?_
      rw [(mem_unended hk').1]
      exact hsame hnone k₀ rfl
    | @told k₀ k₁ s hnext =>
      refine ⟨fun hnone => absurd hnone (List.append_ne_nil_of_right_ne_nil _ (List.cons_ne_nil _ _)),
        fun _ => ?_⟩
      rw [Groups.ofStrokes_append]
      cases strokes with
      | nil =>
        cases (ih nofun nofun).1 rfl k₀ rfl
        have hs := hfirst s rfl
        cases hnext with
        | typed | edited => rfl
        | idle | undone | rested => cases hs
      | cons s₀ strokes =>
        exact Groups.getLast?_after ((ih hs.1 hfirst).2 (List.cons_ne_nil _ _)) s
    | @untold _ _ s htold =>
      have hediting := hs.2 s (List.mem_singleton_self _)
      cases s with
      | other | called => cases hediting
      | _ => cases htold

/-! ### Undo -/

@[simp] theorem restore_ofBuffer (b : Buffer) : (Snapshot.ofBuffer b).restore = b := by
  ext1
  · rfl
  · exact Nat.min_eq_left b.cursor_le

/-- What undo needs to walk back: a session that goes on, and the snapshots on top. -/
structure Holds (k : Memory) (starts : List Buffer) : Prop where
  reading : k.outcome = .reading
  starts_prefix : starts.map Snapshot.ofBuffer <+: k.undo.snapshots

/-- Groups leave what undo needs, as far as there is room. -/
theorem Follows.holds (h : k.Follows g) (hne : g.starts ≠ []) :
    k.Holds (g.starts.take k.undo.limit) := by
  refine ⟨h.reading hne, ?_⟩
  rw [List.map_take]
  exact h.starts_prefix

/-- What an undo shows and leaves. -/
theorem Next.holds {b : Buffer} {starts : List Buffer} (h : k.Next .undone k')
    (hk : k.Holds (b :: starts)) : k'.buffer = b ∧ k'.Holds starts := by
  obtain ⟨rest, hsnapshots⟩ := hk.starts_prefix
  have hpopped : k.undo.pop = some (.ofBuffer b,
      { k.undo with snapshots := starts.map Snapshot.ofBuffer ++ rest }) := by
    rw [UndoStack.pop, ← hsnapshots]
    rfl
  cases h with
  | undone hpop =>
    rw [hpopped] at hpop
    cases hpop
    exact ⟨restore_ofBuffer b, hk.reading, ⟨rest, rfl⟩⟩
  | rested hpop =>
    rw [hpopped] at hpop
    cases hpop

/-- Undo walks back, as far as there are snapshots, and the session goes on. -/
theorem Run.holds {starts : List Buffer} (h : Run o strokes o') (hs : ∀ s ∈ strokes, s = .undone)
    (hlength : strokes.length ≤ starts.length) (hk : ∀ k ∈ o, k.Holds starts) :
    (∀ k ∈ o', k.Holds (starts.drop strokes.length)) ∧
      (0 < strokes.length → ∃ k ∈ o', starts[strokes.length - 1]? = some k.buffer) := by
  induction h with
  | nil => exact ⟨hk, nofun⟩
  | @snoc strokes told o' o'' h hlast ih =>
    rw [List.forall_mem_append] at hs
    rw [List.length_append] at hlength
    obtain ⟨hholds, hshown⟩ := ih hs.1 (by omega)
    cases hlast with
    | rests =>
      rw [List.append_nil]
      exact ⟨hholds, hshown⟩
    | settles k₀ =>
      rw [List.append_nil, unended_of_reading (hholds k₀ rfl).reading]
      exact ⟨hholds, hshown⟩
    | told hnext =>
      cases hs.2 _ (List.mem_singleton_self _)
      have hlt : strokes.length < starts.length := hlength
      have hlast := hholds _ rfl
      rw [List.drop_eq_getElem_cons hlt] at hlast
      obtain ⟨hbuffer, hnow⟩ := hnext.holds hlast
      rw [unended_of_reading hnow.reading, List.length_append, List.length_singleton]
      refine ⟨?_, fun _ => ⟨_, rfl, ?_⟩⟩
      · rintro k ⟨⟩
        exact hnow
      · rw [Nat.add_sub_cancel, List.getElem?_eq_getElem hlt, hbuffer]
    | untold htold =>
      cases hs.2 _ (List.mem_singleton_self _)
      cases htold

end Memory

end LineEditor
