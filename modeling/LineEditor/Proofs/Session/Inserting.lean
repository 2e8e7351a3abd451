import LineEditor.Proofs.Key.Unescaped
import LineEditor.Proofs.Session.Refit

/-!
Desks at which text is inserted only. While no escape arrives and the key maps are those of the styles,
no event gives a Vi command, no operator waits for its motion and the Vi state is never set; so nothing
that is done depends on the style.

Main definitions: `Refit.restyle`, another style with its key maps, and `Desk.Inserts`. Main statements:
`restyle_dispatch`, an event is handled in the same way in every style, and `Inserts.dispatch`, it
leaves such a desk.
-/
namespace LineEditor

/-- Another style, with its own key maps. -/
def Refit.restyle (style : EditStyle) : Refit where
  style := fun _ => style
  keymap := fun _ => .new style

/-- The style, the key map and the input of an editor. -/
def Editor.parts (d : Editor) : Refit where
  style := fun _ => d.config.style
  keymap := fun _ => d.keymap
  queue := fun _ => d.queue

/-- A desk at which text is inserted only. -/
structure Desk.Inserts (d : Desk) : Prop where
  keymap_eq : d.keymap = .new d.config.style
  queue : d.queue.pending.Unescaped
  focus : ∀ a, d.session.focus = some a → a.switches false = false

/-! ### The two key maps -/

namespace Keymap

theorem reset_new (style : EditStyle) : (new style).reset = new style := by cases style <;> rfl

theorem isViCommand_new (style : EditStyle) : (new style).isViCommand = false := by
  cases style <;> rfl

/-- An event that no escape starts is bound in the same way in every style. -/
theorem lookup?_new {event : KeyEvent} (he : event.Unescaped) (style : EditStyle) :
    (new style).lookup? event = Bindings.emacs.lookup? event := by
  cases style with
  | emacs => rfl
  | vi => exact Bindings.lookup?_viInsert he

/-- Keys other than meta chords are recognized in every style. -/
theorem recognizes_new {k : Key} (hk : k.isMeta = false) (style : EditStyle) :
    (new style).recognizes k = true := by
  cases style with
  | emacs => rfl
  | vi => exact congrArg not hk

end Keymap

/-- The Emacs table has no commands that give Vi commands or set the Vi state. -/
theorem Bindings.switches_emacs :
    ∀ x ∈ emacs.entries, (Action.ofCommand x.2).switches false = false := by decide

theorem Bindings.switches_of_lookup?_emacs {event : KeyEvent} {k : Command}
    (h : emacs.lookup? event = some k) : (Action.ofCommand k).switches false = false := by
  obtain ⟨x, hx, rfl⟩ := Option.map_eq_some_iff.1 h
  exact switches_emacs x (List.mem_of_find?_eq_some hx)

/-! ### Actions -/

theorem Action.switches_input (viCommand : Bool) (bound : Option Command) (event : KeyEvent)
    (a : Action) : (a.input bound event).switches viCommand = a.switches viCommand := by
  cases a <;> rfl

/-- What an action leaves in the queue holds no escape. -/
theorem Action.unescaped_given (a : Action) : a.given.Unescaped := by
  cases a with
  | search s =>
    change Text.Unescaped s.given
    rw [Search.given]
    split
    · exact Text.only_singleton (by decide)
    · exact Text.only_nil
  | acceptLine | complete c | operator o | basic k => exact Text.only_nil

namespace Desk

variable {d d' : Desk} {a a' : Action} {event : KeyEvent}

/-- An action that is applied stays of its kind. -/
theorem switches_apply (viCommand : Bool) (h : d.apply a = .finished a' d') :
    a'.switches viCommand = a.switches viCommand := by
  cases a with
  | complete c =>
    simp only [apply] at h
    split at h
    · cases h
      rfl
    · cases h
  | acceptLine | search s | operator o | basic k =>
    cases h
    rfl

/-- Only the focus is put in the place of something else. -/
theorem hides_focus (m : Keymap) (a : Action) (f : Option Action → Option Action) :
    Refit.Hides { focus := f } m a :=
  ⟨rfl, fun _ _ _ => ite_eq_apply (refit { focus := f }) rfl rfl, fun _ => rfl⟩

/-- An action that is applied leaves the focus. -/
theorem focus_apply (h : d.apply a = .finished a' d') : d'.session.focus = d.session.focus := by
  have hkept := refit_apply (d := d) (hides_focus d.keymap a fun _ => d.session.focus)
  change d.apply a = _ at hkept
  rw [h] at hkept
  injection hkept with _ hd'
  rw [hd']
  rfl

/-- After an event the focus is with the action that the event was for, or with none, or it was not
moved. -/
theorem focus_dispatch (h : d.dispatch event = .finished d') (ha : d'.session.focus = some a)
    (viCommand : Bool) :
    (∃ b, d.actionFor event = some b ∧ a.switches viCommand = b.switches viCommand) ∨
      d.session.focus = some a := by
  unfold dispatch at h
  cases haction : d.actionFor event with
  | none =>
    rw [haction] at h
    cases h
    have hkept := refit_selfInsert (r := { focus := fun _ => d.session.focus }) (d := d) rfl event
    exact .inr ((congrArg (fun d : Desk => d.session.focus) hkept).symm.trans ha)
  | some b =>
    rw [haction] at h
    dsimp only at h
    split at h
    · rename_i b' d₂ happly
      cases h
      have hnone : d₂.session.focus = none := focus_apply happly
      rw [settleFocus] at ha
      split at ha
      · cases ha
        exact .inl ⟨b, rfl, switches_apply viCommand happly⟩
      · rw [hnone] at ha
        cases ha
    · cases h

namespace Inserts

theorem isViCommand (h : d.Inserts) : d.keymap.isViCommand = false := by
  rw [h.keymap_eq, Keymap.isViCommand_new]

theorem lookup? (h : d.Inserts) (he : event.Unescaped) :
    d.keymap.lookup? event = Bindings.emacs.lookup? event := by
  rw [h.keymap_eq, Keymap.lookup?_new he]

theorem restyled (h : d.Inserts) : d.refit (.restyle d.config.style) = d := by
  have hkeymap : Keymap.new d.config.style = d.keymap := h.keymap_eq.symm
  rw [refit, Editor.refit]
  dsimp only [Refit.restyle]
  rw [hkeymap]
  rfl

/-- No event is for an action that gives Vi commands or sets the Vi state. -/
theorem switches_actionFor (h : d.Inserts) (he : event.Unescaped)
    (ha : d.actionFor event = some a) : a.switches false = false := by
  rw [actionFor, h.lookup? he] at ha
  cases hfocus : d.session.focus with
  | none =>
    rw [hfocus] at ha
    obtain ⟨k, hk, rfl⟩ := Option.map_eq_some_iff.1 ha
    exact Bindings.switches_of_lookup?_emacs hk
  | some b =>
    rw [hfocus] at ha
    cases ha
    rw [Action.switches_input]
    exact h.focus b hfocus

theorem restyle_isViCommand (h : d.Inserts) (style : EditStyle) :
    ((Refit.restyle style).keymap d.keymap).isViCommand = d.keymap.isViCommand := by
  rw [h.isViCommand]
  exact Keymap.isViCommand_new style

theorem restyle_lookup? (h : d.Inserts) (he : event.Unescaped) (style : EditStyle) :
    ((Refit.restyle style).keymap d.keymap).lookup? event = d.keymap.lookup? event := by
  rw [h.lookup? he]
  exact Keymap.lookup?_new he style

/-- What such an event is for does not look at the style. -/
theorem restyle_hides (h : d.Inserts) (he : event.Unescaped) (style : EditStyle)
    (ha : d.actionFor event = some a) : (Refit.restyle style).Hides d.keymap a := by
  refine ⟨h.restyle_isViCommand style, fun hswitches => ?_, fun _ => rfl⟩
  rw [h.isViCommand, h.switches_actionFor he ha] at hswitches
  cases hswitches

/-- An event is handled in the same way in every style. -/
theorem restyle_dispatch (h : d.Inserts) (he : event.Unescaped) (style : EditStyle) :
    (d.refit (.restyle style)).dispatch event = (d.dispatch event).refit (.restyle style) :=
  refit_dispatch (h.restyle_isViCommand style) (h.restyle_lookup? he style) rfl
    fun _ => h.restyle_hides he style

theorem dispatch (h : d.Inserts) (he : event.Unescaped) (hlisten : d.session.paused = false)
    (hdispatch : d.dispatch event = .finished d') : d'.Inserts := by
  have hkept := h.restyle_dispatch he d.config.style
  rw [h.restyled, hdispatch] at hkept
  injection hkept with hd'
  have hqueue := d.core_dispatch event hlisten
  rw [hdispatch] at hqueue
  have hgiven : (d.givenBy event).Unescaped := by
    rw [givenBy]
    cases d.actionFor event with
    | none => exact Text.only_nil
    | some a => exact a.unescaped_given
  refine ⟨?_, ?_, ?_⟩
  · rw [hd']
    rfl
  · rw [show d'.queue = d.queue.append (d.givenBy event) from congrArg Core.queue hqueue]
    exact Text.only_append.2 ⟨h.queue, hgiven⟩
  · intro a ha
    rcases focus_dispatch hdispatch ha false with ⟨b, hb, hsame⟩ | hfocus
    · rw [hsame]
      exact h.switches_actionFor he hb
    · exact h.focus a hfocus

theorem startOver (h : d.Inserts) : d.startOver.Inserts := by
  have hreset : d.keymap.reset = d.keymap := by rw [h.keymap_eq, Keymap.reset_new]
  have hkept := refit_startOver (r := d.toEditor.parts) (d := d)
    (fun _ => hreset.symm) rfl
  change d.startOver = _ at hkept
  refine ⟨?_, ?_, nofun⟩
  · rw [hkept]
    exact h.keymap_eq
  · rw [hkept]
    exact h.queue

end Inserts

end Desk

end LineEditor
