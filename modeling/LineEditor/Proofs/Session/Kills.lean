import LineEditor.Proofs.Session.Core
import LineEditor.Proofs.Session.Cutting

/-!
What was cut is not lost. Of all that events do at a desk only commands and operators that cut change the
kill ring, and what one of them cut is what yank puts back.

Main definitions: `Action.cuts`, the actions that cut, `Desk.cuts`, what an event cuts, and
`Desk.GivesBack`. Main statements: `Desk.kills_dispatch`, all that an event does to the kill ring, and
`Desk.givesBack_dispatch`.
-/
namespace LineEditor

/-! ### The ring -/

/-- The newest entries are kept. -/
theorem KillRing.foldl_add {r : KillRing} {ts : List Text} (hts : ∀ t ∈ ts, t ≠ [])
    (hr : r.entries.length ≤ r.limit) :
    ts.foldl add r = { r with entries := (ts.reverse ++ r.entries).take r.limit } := by
  induction ts generalizing r with
  | nil =>
    rw [List.foldl_nil, List.reverse_nil, List.nil_append, List.take_of_length_le hr]
  | cons t ts ih =>
    obtain ⟨ht, hts⟩ := List.forall_mem_cons.1 hts
    have hroom : ((t :: r.entries).take r.limit).length ≤ r.limit := List.length_take_le ..
    rw [List.foldl_cons, add_eq ht, ih hts hroom, List.reverse_cons, List.append_assoc]
    dsimp only
    rw [List.take_append, List.take_take, Nat.min_eq_left (Nat.sub_le ..), List.singleton_append,
      ← List.take_append]

theorem KillRing.newest?_add {r : KillRing} {t : Text} (hr : 0 < r.limit) (ht : t ≠ []) :
    (r.add t).newest? = some t := by
  rw [add_eq ht, newest?, get?]
  dsimp only
  rw [List.getElem?_take_of_lt hr, List.getElem?_cons_zero]

/-- What is gone of a text that was shown, where the cursor is now. -/
def Buffer.lost (b b' : Buffer) : Text := (b.text.drop b'.cursor).take (b.length - b'.length)

namespace Stock

variable {k k' : Stock} {first last : Nat}

theorem Cuts.lost_eq (h : k.Cuts k' first last) (hspan : first ≤ last)
    (hlast : last ≤ k.buffer.length) :
    k.buffer.lost k'.buffer = (k.buffer.text.take last).drop first := by
  have hleft : k.buffer.length - k'.buffer.length = last - first := by
    rw [Buffer.length] at hlast
    rw [Buffer.length, Buffer.length, h.text_eq, List.length_append, List.length_drop,
      List.length_take_of_le (Nat.le_trans hspan hlast)]
    omega
  rw [Buffer.lost, hleft, h.cursor_eq, List.drop_take]

theorem Cuts.lost_ne_nil (h : k.Cuts k' first last) (hspan : first < last)
    (hlast : last ≤ k.buffer.length) : k.buffer.lost k'.buffer ≠ [] := by
  rw [h.lost_eq (Nat.le_of_lt hspan) hlast]
  refine List.ne_nil_of_length_pos ?_
  rw [List.length_drop, List.length_take_of_le hlast]
  exact Nat.sub_pos_of_lt hspan

/-- What is gone of the text gives it back where it is inserted, and the cursor is behind it. -/
theorem Cuts.insert_lost (h : k.Cuts k' first last) (hspan : first ≤ last)
    (hlast : last ≤ k.buffer.length) (htext : k.buffer.text.Only (Buffer.isInsertable · = true)) :
    k'.buffer.insert (k.buffer.lost k'.buffer) = .ok (k.buffer.setCursor last) := by
  have hleft : k'.buffer = .ofSides (k.buffer.text.take first) (k.buffer.text.drop last) := by
    ext1
    · exact h.text_eq
    · exact h.cursor_eq.trans (List.length_take_of_le (Nat.le_trans hspan hlast)).symm
  rw [h.lost_eq hspan hlast, hleft]
  exact Buffer.insert_cut hspan htext

/-- It is what lay between the two sides that are left. -/
theorem Cuts.setCursor_eq (h : k.Cuts k' first last) (hspan : first ≤ last)
    (hlast : last ≤ k.buffer.length) (htext : k.buffer.text.Only (Buffer.isInsertable · = true)) :
    k.buffer.setCursor last =
      .ofSides (k'.buffer.before ++ k.buffer.lost k'.buffer) k'.buffer.after := by
  have hlost : (k.buffer.lost k'.buffer).Only (Buffer.isInsertable · = true) := by
    rw [h.lost_eq hspan hlast]
    exact (htext.take last).drop first
  exact Except.ok.inj ((h.insert_lost hspan hlast htext).symm.trans (Buffer.insert_eq_ok _ hlost))

/-- What is gone of the text is in front of the ring. -/
theorem CutsOut.kills_eq (h : k.CutsOut k' first last) (hlast : last ≤ k.buffer.length) :
    k'.kills = k.kills.add (k.buffer.lost k'.buffer) := by
  rw [CutsOut] at h
  split at h
  · rename_i hspan
    rw [KillRing.add_eq (h.lost_ne_nil hspan hlast), h.lost_eq (Nat.le_of_lt hspan) hlast]
    exact h.kills_eq
  · rw [h, Buffer.lost, Nat.sub_self]
    rfl

/-- Where the text is another, something was cut out. -/
theorem CutsOut.cuts (h : k.CutsOut k' first last) (htext : k'.buffer.text ≠ k.buffer.text) :
    first < last ∧ k.Cuts k' first last := by
  rw [CutsOut] at h
  split at h
  · exact ⟨‹_›, h⟩
  · exact absurd (congrArg (fun k : Stock => k.buffer.text) h) htext

end Stock

/-! ### What cuts -/

/-- The actions that cut; an operator does with its motion. -/
def Action.cuts : Action → Bool
  | .basic k => k.cuts
  | .operator o => o.motion.isSome
  | _ => false

theorem Buffer.cut?_of_cuts {k : Command} (hk : k.cuts = true) (b : Buffer) :
    ∃ span, b.cut? k = some span := by
  cases k
  case backwardDeleteChar | killLine | backwardKillLine | killWholeLine | killWord |
      backwardKillWord | unixWordRubout | viChangeToEnd =>
    exact ⟨_, rfl⟩
  all_goals cases hk

namespace Desk

variable {d : Desk} {a : Action} {e : KeyEvent} {t : Text}

/-- What an event cuts: what is gone of the text, if it is for an action that cuts. -/
def cuts (d : Desk) (e : KeyEvent) : List Text :=
  match d.dispatch e with
  | .finished d' =>
    let lost := d.session.buffer.lost d'.session.buffer
    if (d.actionFor e).any Action.cuts ∧ lost ≠ [] then [lost] else []
  | .script .. => []

theorem of_mem_cuts (ht : t ∈ d.cuts e) : ∃ a d', d.actionFor e = some a ∧ a.cuts = true ∧
    d.dispatch e = .finished d' ∧ t = d.session.buffer.lost d'.session.buffer ∧ t ≠ [] := by
  rw [cuts] at ht
  split at ht
  · rename_i d' hd'
    dsimp only at ht
    split at ht
    · rename_i hlost
      cases List.mem_singleton.1 ht
      obtain ⟨a, haction, ha⟩ := (Option.any_eq_true ..).1 hlost.1
      exact ⟨a, d', haction, ha, hd', rfl, hlost.2⟩
    · cases ht
  · cases ht

/-- An action that does not cut. -/
theorem kills_apply (d : Desk) (ha : a.cuts = false) :
    match d.apply a with
    | .finished _ d' => d'.kills = d.kills
    | .script _ _ d' => d'.kills = d.kills := by
  cases a with
  | acceptLine => exact congrArg Kept.kills d.kept_acceptLine
  | search q => exact congrArg Kept.kills (d.kept_search q)
  | complete c =>
    have hkept := d.kept_beginCompletion c
    unfold Desk.apply
    dsimp only
    cases hc : d.beginCompletion c with
    | finished c' d' =>
      rw [hc] at hkept
      exact congrArg Kept.kills hkept
    | script c' h d' =>
      rw [hc] at hkept
      exact congrArg Kept.kills hkept
  | operator o =>
    obtain ⟨operation, motion⟩ := o
    cases motion with
    | none => rfl
    | some motion => cases ha
  | basic k => exact congrArg Kept.kills (d.kept_of_not_cuts ha)

/-- An action that cuts does so around the cursor; where it is rejected, there is nothing to cut. -/
theorem dispatch_cuts (h : d.actionFor e = some a) (ha : a.cuts = true) :
    ∃ d' span, d.dispatch e = .finished d' ∧ d.session.buffer.Around span ∧
      d.stock.CutsOut d'.stock span.1 span.2 := by
  cases a with
  | basic k =>
    obtain ⟨span, hspan⟩ := Buffer.cut?_of_cuts ha d.session.buffer
    obtain ⟨d', hd', hcuts⟩ := dispatch_cut h hspan
    exact ⟨d', span, hd', Buffer.around_cut? hspan, hcuts⟩
  | operator o =>
    obtain ⟨operation, motion⟩ := o
    obtain ⟨motion, rfl⟩ := Option.isSome_iff_exists.1 ha
    cases hspan : d.session.buffer.operatorSpan? operation.command motion with
    | some span =>
      obtain ⟨d', hd', hdone⟩ := operates_dispatch h hspan
      exact ⟨d', span, hd', Buffer.around_operatorSpan? (isMotion_command operation) hspan,
        hdone.cuts⟩
    | none =>
      obtain ⟨d', hd', hstock, -⟩ := rejects_dispatch h hspan
      refine ⟨d', (d.session.buffer.cursor, d.session.buffer.cursor), hd',
        ⟨Nat.le_refl _, Nat.le_refl _, d.session.buffer.cursor_le⟩, ?_⟩
      rw [hstock]
      exact d.stock.cutsOut_empty _
  | acceptLine | search q | complete c => cases ha

/-- All that an event does to the kill ring: what it cuts goes in. -/
theorem kills_dispatch (d : Desk) (e : KeyEvent) :
    match d.dispatch e with
    | .finished d' => d'.kills = (d.cuts e).foldl KillRing.add d.kills
    | .script _ _ d' => d'.kills = (d.cuts e).foldl KillRing.add d.kills := by
  cases haction : d.actionFor e with
  | none =>
    have hnone : d.dispatch e = .finished (d.selfInsert e) := by rw [dispatch, haction]
    have hcuts : d.cuts e = [] := by
      rw [cuts, hnone, haction]
      rfl
    rw [hcuts, hnone]
    exact congrArg Kept.kills (d.kept_selfInsert e)
  | some a =>
    cases ha : a.cuts with
    | false =>
      have hcuts : d.cuts e = [] := by
        refine List.eq_nil_iff_forall_not_mem.2 fun t ht => ?_
        obtain ⟨a', d', haction', ha', -⟩ := of_mem_cuts ht
        cases haction.symm.trans haction'
        cases ha.symm.trans ha'
      have happly := (d.beginAction a e).kills_apply ha
      rw [hcuts, dispatch, haction]
      dsimp only
      cases hr : (d.beginAction a e).apply a with
      | finished a' d' =>
        rw [hr] at happly
        exact (congrArg Kept.kills (d'.kept_settleFocus a')).trans happly
      | script c h d' =>
        rw [hr] at happly
        exact happly
    | true =>
      obtain ⟨d', span, hd', haround, hcut⟩ := dispatch_cuts haction ha
      have hkills : d'.kills = d.kills.add (d.session.buffer.lost d'.session.buffer) :=
        hcut.kills_eq haround.last_le
      rw [cuts, hd', haction, Option.any_some, ha]
      dsimp only
      rw [hkills]
      split
      · rfl
      · rename_i hlost
        have hnothing : d.session.buffer.lost d'.session.buffer = [] :=
          Classical.not_not.1 fun hne => hlost ⟨rfl, hne⟩
        rw [hnothing]
        rfl

/-! ### Yanking -/

theorem buffer_yank {b : Buffer} (ht : d.kills.newest? = some t)
    (hb : d.session.buffer.insert t = .ok b) : (d.yank false).session.buffer = b := by
  have hinsert : (if (false && !d.session.buffer.isEmpty) = true then d.session.buffer.moveBy 1
      else d.session.buffer).insert t = .ok b := hb
  rw [yank, ht]
  dsimp only
  rw [hinsert]
  rfl

/-- A text was taken out of what was shown, where the cursor is now. Yank puts it back there, as long as
the same is shown and the kill ring is the same, and the cursor is behind it then. -/
structure GivesBack (d d' : Desk) (t : Text) : Prop where
  text_eq : d.session.buffer.text = d'.session.buffer.before ++ t ++ d'.session.buffer.after
  yank : ∀ (l : Desk) (y : KeyEvent), l.session.buffer = d'.session.buffer → l.kills = d'.kills →
    l.actionFor y = some (.basic .yank) → ∃ l', l.dispatch y = .finished l' ∧
      l'.session.buffer.text = d.session.buffer.text ∧
      l'.session.buffer.cursor = d'.session.buffer.cursor + t.length

/-- What was cut is given back. -/
theorem givesBack_dispatch (hlimit : 0 < d.kills.limit)
    (htext : d.session.buffer.text.Only (Buffer.isInsertable · = true))
    (haction : d.actionFor e = some a) (ha : a.cuts = true) :
    ∃ d', d.dispatch e = .finished d' ∧ (d'.session.buffer.text ≠ d.session.buffer.text →
      ∃ t, d.cuts e = [t] ∧ d.GivesBack d' t) := by
  obtain ⟨d', ⟨first, last⟩, hd', haround, hout⟩ := dispatch_cuts haction ha
  refine ⟨d', hd', fun hother => ?_⟩
  obtain ⟨hspan, hcut⟩ := hout.cuts hother
  have hlast : last ≤ d.session.buffer.length := haround.last_le
  have hne : d.session.buffer.lost d'.session.buffer ≠ [] := hcut.lost_ne_nil hspan hlast
  have hcuts : d.cuts e = [d.session.buffer.lost d'.session.buffer] := by
    rw [cuts, hd', haction, Option.any_some, ha]
    exact if_pos ⟨rfl, hne⟩
  have hnewest : d'.kills.newest? = some (d.session.buffer.lost d'.session.buffer) := by
    have hkills : d'.kills = d.kills.add (d.session.buffer.lost d'.session.buffer) :=
      hout.kills_eq hlast
    rw [hkills, KillRing.newest?_add hlimit hne]
  have hback : d'.session.buffer.insert (d.session.buffer.lost d'.session.buffer) =
      .ok (d.session.buffer.setCursor last) := hcut.insert_lost (Nat.le_of_lt hspan) hlast htext
  have hsides : d.session.buffer.setCursor last = .ofSides
      (d'.session.buffer.before ++ d.session.buffer.lost d'.session.buffer)
      d'.session.buffer.after := hcut.setCursor_eq (Nat.le_of_lt hspan) hlast htext
  refine ⟨_, hcuts, congrArg Buffer.text hsides, fun l y hbuffer hring hy =>
    ⟨_, dispatch_basic hy, ?_⟩⟩
  have hyanked : (((l.beginAction (.basic .yank) y).basic .yank).settleFocus
      (.basic .yank)).session.buffer = d.session.buffer.setCursor last := by
    have hinsert : l.session.buffer.insert (d.session.buffer.lost d'.session.buffer) =
        .ok (d.session.buffer.setCursor last) := by rwa [hbuffer]
    rw [← hring] at hnewest
    rw [buffer_settleFocus]
    exact buffer_yank (d := l.beginAction (.basic .yank) y) hnewest hinsert
  rw [hyanked]
  refine ⟨rfl, ?_⟩
  rw [hsides, ← Buffer.length_before d'.session.buffer]
  exact List.length_append

end Desk

end LineEditor
