import Mathlib.Data.List.Chain
import LineEditor.Input.Control

/-!
What a chunk of input is split into for somebody who listens for signals. Every code point goes to one
piece, in order, and the reads between the signals are as long as they can be. There is only one way to
do that, so the cuts between chunks make no difference but for reads that are cut in two.

Main definitions: `ControlChars.Splits`, that some pieces split a chunk, and `Delivery.joinReads`. Main
statements: `ControlChars.Splits.eq_split` and `ControlChars.split_partitions`.
-/
namespace LineEditor

namespace Delivery

/-- The code points of a piece. -/
def text : Delivery → Text
  | .read t => t
  | .signal _ c => [c]

/-- Not two reads side by side. -/
def Apart : Delivery → Delivery → Prop
  | .read _, .read _ => False
  | _, _ => True

/-- A read put before some pieces, joined with the read that they begin with. -/
def consRead (t : Text) : List Delivery → List Delivery
  | .read u :: ds => .read (t ++ u) :: ds
  | ds => .read t :: ds

/-- Reads side by side joined. -/
def joinReads : List Delivery → List Delivery
  | [] => []
  | .read t :: ds => consRead t (joinReads ds)
  | .signal s c :: ds => .signal s c :: joinReads ds

theorem text_consRead (t : Text) (ds : List Delivery) :
    (consRead t ds).flatMap text = t ++ ds.flatMap text := by
  rcases ds with _ | ⟨u | ⟨s, c⟩, ds⟩
  · rfl
  · exact List.append_assoc ..
  · rfl

theorem text_joinReads (ds : List Delivery) :
    (joinReads ds).flatMap text = ds.flatMap text := by
  induction ds with
  | nil => rfl
  | cons d ds ih =>
    cases d with
    | read t => exact (text_consRead ..).trans (congrArg (t ++ ·) ih)
    | signal s c => exact congrArg (c :: ·) ih

theorem apart_consRead (t : Text) {ds : List Delivery} (h : ds.IsChain Apart) :
    (consRead t ds).IsChain Apart := by
  rcases ds with _ | ⟨u | ⟨s, c⟩, ds⟩
  · exact .singleton _
  · cases h with
    | singleton => exact .singleton _
    | cons_cons hab hrest =>
      refine .cons_cons ?_ hrest
      rename_i d ds
      cases d with
      | read v => exact hab
      | signal s c => trivial
  · exact .cons_cons trivial h

theorem apart_joinReads (ds : List Delivery) : (joinReads ds).IsChain Apart := by
  induction ds with
  | nil => exact .nil
  | cons d ds ih =>
    cases d with
    | read t => exact apart_consRead t ih
    | signal s c =>
      rw [joinReads]
      cases hds : joinReads ds with
      | nil => exact .singleton _
      | cons d ds' => exact .cons_cons trivial (hds ▸ ih)

end Delivery

namespace ControlChars

open Delivery (joinReads consRead)

variable {cc : ControlChars} {chunk run t u : Text} {ds : List Delivery} {c : Char} {s : Signal}

/-- Whether a code point stands for no signal. -/
def Ordinary (cc : ControlChars) (c : Char) : Prop :=
  c ≠ cc.interrupt ∧ c ≠ cc.eof ∧ c ≠ cc.suspend

theorem signalFor?_eq_none : cc.signalFor? c = none ↔ cc.Ordinary c := by
  unfold signalFor? Ordinary
  split
  · simp_all
  · split
    · simp_all
    · split
      · simp_all
      · simp_all

/-- Whether a piece may stand in a chunk that is split. -/
def Cuts (cc : ControlChars) : Delivery → Prop
  | .read t => t ≠ [] ∧ ∀ c ∈ t, cc.Ordinary c
  | .signal s c => cc.signalFor? c = some s

/-- Some pieces split a chunk: they are the chunk, in order, and no read ends where none has to. -/
structure Splits (cc : ControlChars) (chunk : Text) (ds : List Delivery) : Prop where
  text_eq : ds.flatMap Delivery.text = chunk
  cuts : ∀ d ∈ ds, cc.Cuts d
  apart : ds.IsChain Delivery.Apart

/-! ### The pieces of a chunk -/

/-- Ordinary input goes to the read that is kept. -/
theorem splitFrom_append (ht : ∀ c ∈ t, cc.Ordinary c) (run u : Text) :
    cc.splitFrom run (t ++ u) = cc.splitFrom (t.reverse ++ run) u := by
  induction t generalizing run with
  | nil => rfl
  | cons c t ih =>
    obtain ⟨hc, ht⟩ := List.forall_mem_cons.1 ht
    have hread : cc.splitFrom run (c :: (t ++ u)) = cc.splitFrom (c :: run) (t ++ u) := by
      rw [splitFrom, signalFor?_eq_none.2 hc]
    rw [List.cons_append, hread, ih ht, List.reverse_cons, List.append_assoc]
    rfl

theorem splitFrom_signal (hc : cc.signalFor? c = some s) (run rest : Text) :
    cc.splitFrom run (c :: rest) = flush run ++ .signal s c :: cc.splitFrom [] rest := by
  rw [splitFrom, hc]

theorem splits_flush (hrun : ∀ c ∈ run, cc.Ordinary c) : cc.Splits run.reverse (flush run) := by
  cases run with
  | nil => exact ⟨rfl, List.forall_mem_nil _, .nil⟩
  | cons c run =>
    refine ⟨List.append_nil _, List.forall_mem_singleton.2 ⟨by simp, ?_⟩, .singleton _⟩
    exact fun x hx => hrun x (List.mem_reverse.1 hx)

/-- A signal between the pieces before it and those behind it. -/
theorem Splits.signal {ds' : List Delivery} (h : cc.Splits t ds) (hc : cc.signalFor? c = some s)
    (h' : cc.Splits u ds') : cc.Splits (t ++ c :: u) (ds ++ .signal s c :: ds') := by
  refine ⟨?_, ?_, ?_⟩
  · rw [List.flatMap_append, List.flatMap_cons, h.text_eq, h'.text_eq]
    rfl
  · exact List.forall_mem_append.2 ⟨h.cuts, List.forall_mem_cons.2 ⟨hc, h'.cuts⟩⟩
  · refine List.isChain_append.2 ⟨h.apart, ?_, ?_⟩
    · cases ds' with
      | nil => exact .singleton _
      | cons d ds' => exact .cons_cons trivial h'.apart
    · rintro d - d' hd'
      cases hd'
      cases d <;> trivial

theorem splits_splitFrom (hrun : ∀ c ∈ run, cc.Ordinary c) (chunk : Text) :
    cc.Splits (run.reverse ++ chunk) (cc.splitFrom run chunk) := by
  induction chunk generalizing run with
  | nil =>
    rw [List.append_nil]
    exact splits_flush hrun
  | cons c chunk ih =>
    cases hc : cc.signalFor? c with
    | some s =>
      rw [splitFrom_signal hc]
      exact (splits_flush hrun).signal hc (ih (List.forall_mem_nil _))
    | none =>
      have hmore := ih (List.forall_mem_cons.2 ⟨signalFor?_eq_none.1 hc, hrun⟩)
      rw [List.reverse_cons, List.append_assoc] at hmore
      rw [splitFrom, hc]
      exact hmore

theorem splits_split (cc : ControlChars) (chunk : Text) :
    cc.Splits chunk (cc.split true chunk) := splits_splitFrom (List.forall_mem_nil _) chunk

/-- There is one way to split a chunk. -/
theorem Splits.eq_split (h : cc.Splits chunk ds) : ds = cc.split true chunk := by
  obtain ⟨rfl, hcuts, hapart⟩ := h
  change ds = cc.splitFrom [] (ds.flatMap Delivery.text)
  induction ds with
  | nil => rfl
  | cons d ds ih =>
    obtain ⟨hd, hds⟩ := List.forall_mem_cons.1 hcuts
    have hrest := ih hds hapart.tail
    rw [List.flatMap_cons]
    cases d with
    | signal s c =>
      have hsplit := splitFrom_signal hd [] (ds.flatMap Delivery.text)
      rw [← hrest] at hsplit
      exact hsplit.symm
    | read t =>
      have hflush : flush t.reverse = [.read t] := by
        rw [flush, if_neg (by simpa using hd.1), List.reverse_reverse]
      have hread := splitFrom_append hd.2 [] (ds.flatMap Delivery.text)
      rw [List.append_nil] at hread
      refine Eq.symm (hread.trans ?_)
      -- behind a read comes a signal or nothing, and either ends it
      rcases ds with _ | ⟨u | ⟨s, c⟩, ds⟩
      · exact hflush
      · cases hapart with
        | cons_cons hab => exact absurd hab id
      · have hc : cc.signalFor? c = some s := hds _ (List.mem_cons_self ..)
        have hsplit := splitFrom_signal hc [] (ds.flatMap Delivery.text)
        have hbehind := hrest.trans hsplit
        refine (splitFrom_signal hc t.reverse _).trans ?_
        rw [hflush]
        exact congrArg (Delivery.read t :: ·) hbehind.symm

/-! ### Chunks one after the other -/

theorem cuts_consRead (ht : cc.Cuts (.read t)) (hds : ∀ d ∈ ds, cc.Cuts d) :
    ∀ d ∈ consRead t ds, cc.Cuts d := by
  rcases ds with _ | ⟨u | ⟨s, c⟩, ds⟩
  · exact List.forall_mem_singleton.2 ht
  · obtain ⟨hu, hds⟩ := List.forall_mem_cons.1 hds
    refine List.forall_mem_cons.2 ⟨⟨?_, List.forall_mem_append.2 ⟨ht.2, hu.2⟩⟩, hds⟩
    exact List.append_ne_nil_of_left_ne_nil ht.1 u
  · exact List.forall_mem_cons.2 ⟨ht, hds⟩

theorem cuts_joinReads (h : ∀ d ∈ ds, cc.Cuts d) : ∀ d ∈ joinReads ds, cc.Cuts d := by
  induction ds with
  | nil => exact List.forall_mem_nil _
  | cons d ds ih =>
    obtain ⟨hd, hds⟩ := List.forall_mem_cons.1 h
    cases d with
    | read t => exact cuts_consRead hd (ih hds)
    | signal s c => exact List.forall_mem_cons.2 ⟨hd, ih hds⟩

/-- The cut between two chunks makes no difference but for a read that it cuts in two. -/
theorem joinReads_split_append (cc : ControlChars) (t u : Text) :
    joinReads (cc.split true t ++ cc.split true u) = cc.split true (t ++ u) := by
  have ht := cc.splits_split t
  have hu := cc.splits_split u
  refine Splits.eq_split ⟨?_, ?_, Delivery.apart_joinReads _⟩
  · rw [Delivery.text_joinReads, List.flatMap_append, ht.text_eq, hu.text_eq]
  · exact cuts_joinReads (List.forall_mem_append.2 ⟨ht.cuts, hu.cuts⟩)

/-- Splitting partitions the input. For somebody who listens for signals the pieces of a chunk are the
chunk, in order; every read is a non-empty run of code points that stand for no signal, every signal
carries the code point that stands for it, and no two reads are side by side; and two chunks one after
the other are split as if they had come at once, but for a read that is cut in two. For somebody who does
not listen the whole chunk is one read, if there is anything in it. -/
theorem split_partitions (cc : ControlChars) :
    (∀ chunk, (cc.split true chunk).flatMap Delivery.text = chunk ∧
      (∀ t, .read t ∈ cc.split true chunk →
        t ≠ [] ∧ ∀ c ∈ t, c ≠ cc.interrupt ∧ c ≠ cc.eof ∧ c ≠ cc.suspend) ∧
      (∀ s c, .signal s c ∈ cc.split true chunk → cc.signalFor? c = some s) ∧
      (cc.split true chunk).IsChain Delivery.Apart) ∧
    (∀ t u, joinReads (cc.split true t ++ cc.split true u) = cc.split true (t ++ u)) ∧
    (∀ chunk, cc.split false chunk = if chunk = [] then [] else [.read chunk]) := by
  refine ⟨fun chunk => ?_, cc.joinReads_split_append, fun chunk => ?_⟩
  · have hsplits := cc.splits_split chunk
    exact ⟨hsplits.text_eq, fun t ht => hsplits.cuts _ ht, fun s c hs => hsplits.cuts _ hs,
      hsplits.apart⟩
  · cases chunk <;> rfl

/-- Of equal control characters one signal is told, and a read may be cut in two. -/
example : ControlChars.split { interrupt := 'x', eof := 'x' } true "abxxc\x1a".toList =
    [.read ['a', 'b'], .signal .interrupt 'x', .signal .interrupt 'x', .read ['c'],
      .signal .suspend '\x1a'] := by decide

end ControlChars

end LineEditor
