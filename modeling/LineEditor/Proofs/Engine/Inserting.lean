import LineEditor.Proofs.Engine.Refit
import LineEditor.Proofs.Session.Inserting

/-!
Engines that differ in their style only. As long as no escape arrives and no key is bound anew, whatever
is done to one of them does the same to the other.

Main definitions: `Engine.Inserts`, an engine at which text is inserted only, and `Engine.Akin`. Main
statements: `Inserts.step`, an event leaves such an engine, and `Inserts.restyle_step`, it is handled in
the same way in every style.
-/
namespace LineEditor.Engine

/-- An engine at which text is inserted only. -/
structure Inserts (e : Engine) : Prop where
  keymap_eq : e.keymap = .new e.config.style
  queue : e.queue.pending.Unescaped
  focus : ∀ s a, e.session = some s → s.focus = some a → a.switches false = false

/-- Engines at which text is inserted only, and that differ in their style. -/
structure Akin (e e' : Engine) : Prop where
  inserts : e.Inserts
  restyled : ∃ style, e' = e.refit (.restyle style)

/-- The style, the key map, the input and the focus of an engine. -/
def parts (e : Engine) : Refit :=
  { e.toEditor.parts with focus := fun _ => e.session.bind Session.focus }

variable {e e' t : Engine} {d : Desk}

/-! ### Inserting -/

@[simp] theorem session_restyle (e : Engine) (style : EditStyle) :
    (e.refit (.restyle style)).session = e.session := by
  obtain ⟨editor, session, pendingResize, scheduled, busy⟩ := e
  cases session <;> rfl

theorem Inserts.akin (h : e.Inserts) (style : EditStyle) : e.Akin (e.refit (.restyle style)) :=
  ⟨h, style, rfl⟩

theorem inserts_new (config : Config) (lines : List Text) : (new config lines).Inserts := by
  refine ⟨rfl, Text.only_nil, ?_⟩
  intro s a hs
  cases hs

theorem refit_parts (e : Engine) : e.refit e.parts = e := by
  obtain ⟨editor, session, pendingResize, scheduled, busy⟩ := e
  cases session <;> rfl

theorem Inserts.desk (h : e.Inserts) (hd : e.desk? = some d) : d.Inserts := by
  obtain ⟨s, hs, rfl⟩ := Option.map_eq_some_iff.1 hd
  exact ⟨h.keymap_eq, h.queue, fun a => h.focus s a hs⟩

theorem inserts_put (e : Engine) (h : d.Inserts) : (e.put d).Inserts := by
  refine ⟨h.keymap_eq, h.queue, ?_⟩
  rintro s a hs
  cases hs
  exact h.focus a

/-- An engine that is left with all its parts. -/
theorem Inserts.of_parts (h : e.Inserts) (ht : t = t.refit e.parts) : t.Inserts := by
  refine ⟨?_, ?_, ?_⟩
  · rw [ht]
    exact h.keymap_eq
  · rw [ht]
    exact h.queue
  · intro s a hs ha
    rw [ht] at hs
    obtain ⟨s', -, rfl⟩ := Option.map_eq_some_iff.1 hs
    obtain ⟨s, hs, hfocus⟩ := Option.bind_eq_some_iff.1 ha
    exact h.focus s a hs hfocus

theorem Inserts.takeFinished (h : e.Inserts) : e.takeFinished.1.Inserts := by
  have hkept := refit_takeFinished e.parts e
  rw [refit_parts] at hkept
  exact h.of_parts (congrArg Prod.fst hkept)

theorem Inserts.start (h : e.Inserts) (r : Request) (callback width : Nat) (previous : Handlers) :
    (e.start r callback width previous).Inserts := by
  have hreset : e.keymap.reset = e.keymap := by rw [h.keymap_eq, Keymap.reset_new]
  have hkept := refit_start (r := e.toEditor.parts) e (fun _ => hreset.symm) rfl
    r callback width previous
  have hsame : e.refit e.toEditor.parts = e := by
    obtain ⟨editor, session, pendingResize, scheduled, busy⟩ := e
    cases session <;> rfl
  rw [hsame] at hkept
  refine ⟨?_, ?_, ?_⟩
  · rw [hkept]
    exact h.keymap_eq
  · rw [hkept]
    exact h.queue
  · intro s a hs ha
    cases hs
    cases ha

theorem Inserts.resume (h : e.Inserts) {width : Nat} {f : Option Finished}
    (ht : e.resume width = .ok (t, f)) : t.Inserts := by
  have hkept := refit_resume (r := e.parts) e width
  rw [refit_parts, ht] at hkept
  exact h.of_parts (congrArg Prod.fst (Except.ok.inj hkept))

theorem Inserts.resized (h : e.Inserts) (size : Size) : (e.resized size).Inserts := by
  have hkept := refit_resized (r := e.parts) e size
  rw [refit_parts] at hkept
  exact h.of_parts hkept

theorem Inserts.answers (h : e.Inserts) {size : Size} {calls : List SessionCall}
    {replies : List Reply} {f : Option Finished}
    (ht : e.answers size calls = .ok (t, replies, f)) : t.Inserts := by
  have hfocus : ∀ s, e.session = some s → (e.parts.focus s.focus).isSome = s.focus.isSome := by
    intro s hs
    change (e.session.bind Session.focus).isSome = _
    rw [hs]
    rfl
  have hkept := refit_answers e hfocus size calls
  rw [refit_parts, ht] at hkept
  exact h.of_parts (congrArg Prod.fst (Except.ok.inj hkept))

/-- A line begins in the same way in every style. -/
theorem restyle_start (e : Engine) (style : EditStyle) (r : Request) (callback width : Nat)
    (previous : Handlers) : (e.refit (.restyle style)).start r callback width previous =
      (e.start r callback width previous).refit (.restyle style) :=
  refit_start e (fun _ => (Keymap.reset_new style).symm) rfl r callback width previous

/-! ### Events -/

variable {event : KeyEvent}

theorem Inserts.next (h : e.Inserts) (hnext : e.next? = some (d, event)) :
    d.Inserts ∧ event.Unescaped ∧ d.session.paused = false := by
  obtain ⟨s, queue, hs, hpaused, hqueue, rfl⟩ := next?_eq_some hnext
  obtain ⟨hevent, hleft⟩ := (EventQueue.next_unescaped h.queue fun _ _ => rfl).2 event queue hqueue
  exact ⟨⟨h.keymap_eq, hleft, fun a => h.focus s a hs⟩, hevent, hpaused⟩

/-- The next event is the same in every style. -/
theorem Inserts.restyle_next (h : e.Inserts) (style : EditStyle) :
    (e.refit (.restyle style)).next? =
      e.next?.map fun x => (x.1.refit (.restyle style), x.2) := by
  have hrecognizes : ∀ k : Key, k.isMeta = false →
      (Keymap.new style).recognizes k = e.keymap.recognizes k := by
    intro k hk
    rw [h.keymap_eq, Keymap.recognizes_new hk, Keymap.recognizes_new hk]
  have hqueue : (e.refit (.restyle style)).queue.next (e.refit (.restyle style)).keymap.recognizes =
      e.queue.next e.keymap.recognizes := (EventQueue.next_unescaped h.queue hrecognizes).1
  rw [next?, next?, isListening_refit, hqueue, desk?_refit]
  cases e.isListening with
  | false => rfl
  | true =>
    cases e.queue.next e.keymap.recognizes with
    | none => rfl
    | some x =>
      cases e.desk? with
      | none => rfl
      | some d => rfl

/-- An event is handled in the same way in every style. -/
theorem Inserts.restyle_step (h : e.Inserts) (style : EditStyle) :
    (e.refit (.restyle style)).step? = e.step?.map (Handled.refit (.restyle style)) := by
  rw [step?_eq, step?_eq, h.restyle_next]
  cases hnext : e.next? with
  | none => rfl
  | some x =>
    obtain ⟨hd, hevent, -⟩ := h.next hnext
    exact congrArg some (refit_handle (fun _ => (Keymap.reset_new style).symm) rfl
      (hd.restyle_isViCommand style) (hd.restyle_lookup? hevent style)
      fun _ => hd.restyle_hides hevent style)

/-- An event leaves such an engine, unless a script is to be run. -/
theorem Inserts.step (h : e.Inserts) {f : Option Finished} (ht : e.step? = some (.settled t f)) :
    t.Inserts := by
  rw [step?_eq] at ht
  obtain ⟨⟨d, event⟩, hnext, hsettled⟩ := Option.map_eq_some_iff.1 ht
  obtain ⟨hd, hevent, hlisten⟩ := h.next hnext
  rw [handle_eq] at hsettled
  split at hsettled
  · cases hsettled
    exact { inserts_put e hd.startOver with }
  · split at hsettled
    · cases hsettled
      have hended : Desk.Inserts
          { d.log .debug .engine "end of file" [] with session.outcome := .eof } := { hd with }
      exact (inserts_put e hended).takeFinished
    · cases hdispatch : d.dispatch event with
      | finished d' =>
        rw [hdispatch] at hsettled
        cases hsettled
        exact (inserts_put e (hd.dispatch hevent hlisten hdispatch)).takeFinished
      | script c k d' =>
        rw [hdispatch] at hsettled
        cases hsettled

end LineEditor.Engine
