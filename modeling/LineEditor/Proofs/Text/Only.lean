import LineEditor.Text.Basic

/-!
Texts whose code points are all of one kind. What is picked out of such texts and joined again is of
that kind too.

Main definition: `Text.Only`.
-/
namespace LineEditor.Text

variable {P Q : Char → Prop} {t u : Text}

/-- Every code point is of a kind. -/
def Only (P : Char → Prop) (t : Text) : Prop := ∀ c ∈ t, P c

@[simp] theorem only_nil : Only P [] := List.forall_mem_nil P

@[simp] theorem only_append : Only P (t ++ u) ↔ Only P t ∧ Only P u := List.forall_mem_append

theorem only_singleton {c : Char} (h : P c) : Only P [c] := List.forall_mem_singleton.2 h

theorem Only.mono (h : Only P t) (hPQ : ∀ c, P c → Q c) : Only Q t := fun c hc => hPQ c (h c hc)

/-- Whatever is picked out of such a text is of the same kind. -/
theorem Only.of_subset (h : Only P t) (hu : u ⊆ t) : Only P u := fun c hc => h c (hu hc)

theorem Only.take (h : Only P t) (n : Nat) : Only P (t.take n) := h.of_subset (List.take_subset n t)

theorem Only.drop (h : Only P t) (n : Nat) : Only P (t.drop n) := h.of_subset (List.drop_subset n t)

end LineEditor.Text
