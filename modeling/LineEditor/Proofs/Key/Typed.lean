import LineEditor.Keymap.Basic
import LineEditor.Proofs.Key.Munch

/-!
Typed events are read back as they were typed. A key may be typed as any of its sequences. Apart from the
lone escape no sequence of the table starts another one, so joined sequences are cut where they were joined,
unless what follows an escape makes a longer key of it.

Main definition: `EventQueue.Typed`, the texts that may be typed for some events. Main statements:
`next_of_typed`, the event that was typed first comes first, and `drain_typed`, all of them come in order.
-/
namespace LineEditor

/-- What comes behind the escape in every longer sequence. -/
def Key.seconds : List Char := ['[', 'O', 'b', 'd', 'f', Key.del]

namespace EventQueue

/-- A text that may be typed for an event: any sequence of a recognized key, or a code point that is
neither the escape nor a recognized key by itself. -/
inductive Types (recognizes : Key → Bool) : KeyEvent → Text → Prop
  | key {c : Text} {k : Key} (hrecognized : recognizes k = true) (hmem : (c, k) ∈ Key.sequences) :
      Types recognizes (.key k) c
  | char {x : Char} (hesc : x ≠ Key.esc)
      (hplain : ∀ k, recognizes k = true → ([x], k) ∉ Key.sequences) : Types recognizes (.char x) [x]

/-- A text that may be typed for some events, one after the other. An escape key is the last one, or what
follows does not go on like a longer key. -/
inductive Typed (recognizes : Key → Bool) : List KeyEvent → Text → Prop
  | nil : Typed recognizes [] []
  | cons {event : KeyEvent} {c : Text} {events : List KeyEvent} {t : Text}
      (htypes : Types recognizes event c) (hrest : Typed recognizes events t)
      (hescape : event = .key .escape → ∀ x, t.head? = some x → x ∉ Key.seconds) :
      Typed recognizes (event :: events) (c ++ t)

variable {recognizes : Key → Bool} {event : KeyEvent} {events : List KeyEvent} {c t : Text} {k : Key}
  {x : Char}

/-! ### The table of keys -/

/-- Only the lone escape starts another sequence. -/
theorem eq_or_escape_of_isPrefix : ∀ e ∈ Key.sequences, ∀ e' ∈ Key.sequences, e.1 <+: e'.1 →
    e' = e ∨ e = ([Key.esc], .escape) ∧ e'.1.tail.head? ∈ Key.seconds.map some := by
  decide +kernel

/-- A sequence starts with the escape or is a single code point. -/
theorem head_of_mem_sequences :
    ∀ e ∈ Key.sequences, e.1.head? = some Key.esc ∨ e.1.length = 1 := by
  decide +kernel

/-- Every event is typed as at least one code point. -/
theorem Types.ne_nil (h : Types recognizes event c) : c ≠ [] := by
  cases h with
  | key _ hmem =>
    have htable : ∀ e ∈ Key.sequences, e.1 ≠ [] := by decide +kernel
    exact htable _ hmem
  | char => exact List.cons_ne_nil _ _

/-! ### Reading -/

/-- A key is read of its whole sequence, whichever of its sequences that is. -/
theorem next_of_key (hrecognized : recognizes k = true) (hmem : (c, k) ∈ Key.sequences)
    (hescape : k = .escape → ∀ x, t.head? = some x → x ∉ Key.seconds) :
    next recognizes ⟨c ++ t⟩ = some (.key k, ⟨t⟩) := by
  have hoffers : Offers recognizes (c ++ t) (c, k) := ⟨hmem, hrecognized, List.prefix_append c t⟩
  have hne : c ++ t ≠ [] :=
    List.append_ne_nil_of_left_ne_nil (Types.key hrecognized hmem).ne_nil t
  obtain ⟨⟨n, k'⟩, hlongest, hle⟩ := le_of_offers hoffers
  obtain ⟨c', rfl, hoffers', -⟩ := offers_of_longest? hlongest
  have hstarts : c <+: c' := List.prefix_of_prefix_length_le hoffers.2.2 hoffers'.2.2 hle
  rcases eq_or_escape_of_isPrefix _ hmem _ hoffers'.1 hstarts with hsame | ⟨heq, hsecond⟩
  · cases hsame
    rw [next_of_longest hne hlongest, List.drop_left]
  · -- a longer key would go on into what follows the escape
    cases heq
    obtain ⟨rest, rfl⟩ := hstarts
    obtain ⟨u, rfl⟩ : rest <+: t := (List.prefix_append_right_inj [Key.esc]).1 hoffers'.2.2
    obtain ⟨x, hx, hsome⟩ := List.mem_map.1 hsecond
    have hhead : rest.head? = some x := hsome.symm
    refine absurd hx (hescape rfl x ?_)
    rw [List.head?_append, hhead, Option.some_or]

/-- A code point that is no key is read as itself. -/
theorem next_of_char (hesc : x ≠ Key.esc)
    (hplain : ∀ k, recognizes k = true → ([x], k) ∉ Key.sequences) :
    next recognizes ⟨x :: t⟩ = some (.char x, ⟨t⟩) := by
  refine next_of_none ?_
  cases hlongest : longest? recognizes (x :: t) with
  | none => rfl
  | some r =>
    obtain ⟨c, -, ⟨hmem, hrecognized, hstarts⟩, -⟩ := offers_of_longest? hlongest
    obtain ⟨y, c, rfl⟩ := List.exists_cons_of_ne_nil (Types.key hrecognized hmem).ne_nil
    obtain ⟨rfl, -⟩ := List.cons_prefix_cons.1 hstarts
    rcases head_of_mem_sequences _ hmem with hhead | hsingle
    · exact absurd (Option.some.inj hhead) hesc
    · obtain rfl := List.length_eq_zero_iff.1 (Nat.succ.inj hsingle)
      exact absurd hmem (hplain _ hrecognized)

/-- The event that was typed first is read first, and what was typed for the others is left. -/
theorem next_of_typed (htypes : Types recognizes event c)
    (hescape : event = .key .escape → ∀ x, t.head? = some x → x ∉ Key.seconds) :
    next recognizes ⟨c ++ t⟩ = some (event, ⟨t⟩) := by
  cases htypes with
  | key hrecognized hmem =>
    exact next_of_key hrecognized hmem fun hk => hescape (congrArg KeyEvent.key hk)
  | char hesc hplain => exact next_of_char hesc hplain

theorem take_of_typed (h : Typed recognizes events t) {n : Nat} (hn : t.length ≤ n) :
    take recognizes n ⟨t⟩ = (events, ⟨[]⟩) := by
  induction h generalizing n with
  | nil => cases n <;> rfl
  | @cons event c events t htypes hrest hescape ih =>
    have hpos : 0 < c.length := List.length_pos_iff.2 htypes.ne_nil
    rw [List.length_append] at hn
    obtain ⟨n, rfl⟩ : ∃ m, n = m + 1 := ⟨n - 1, by omega⟩
    rw [take, next_of_typed htypes hescape]
    dsimp only
    rw [ih (by omega)]

/-- Input that arrives in some reads waits as if it had come in one. -/
theorem foldl_append (q : EventQueue) (reads : List Text) :
    reads.foldl append q = ⟨q.pending ++ reads.flatten⟩ := by
  induction reads generalizing q with
  | nil => simp
  | cons s reads ih => rw [List.foldl_cons, ih, List.flatten_cons, ← List.append_assoc]; rfl

/-- What is typed for some events is read back as these events, and nothing is left, however the input
arrives before the first of them is read. This holds whichever keys are recognized; in both styles of
editing the escape key is. -/
theorem drain_typed :
    (∀ (recognizes : Key → Bool) (events : List KeyEvent) (reads : List Text),
      Typed recognizes events reads.flatten →
        drain recognizes (reads.foldl append {}) = (events, {})) ∧
    ∀ m : Keymap, m.recognizes .escape = true := by
  refine ⟨fun recognizes events reads h => ?_, fun m => ?_⟩
  · rw [foldl_append, List.nil_append]
    exact take_of_typed h (Nat.le_refl _)
  · cases hstyle : m.style <;> rw [Keymap.recognizes, hstyle]
    rfl

/-- In Vi style, with a longer key behind the first escape, and with a key that is cut by the reads. -/
theorem drain_typed_vi :
    let m := Keymap.new .vi
    let events : List KeyEvent := [.key .escape, .key .ctrlLeft, .char 'b', .key .home, .key .escape]
    let reads : List Text := [[Key.esc, Key.esc, '[', '1'], [';', '5', 'D', 'b', Key.esc],
      ['O', 'H', Key.esc]]
    Typed m.recognizes events reads.flatten ∧
      drain m.recognizes (reads.foldl append {}) = (events, {}) := by
  intro m events reads
  have hescape : Types m.recognizes (.key .escape) [Key.esc] := .key rfl (by decide)
  have hleft : Types m.recognizes (.key .ctrlLeft) [Key.esc, '[', '1', ';', '5', 'D'] :=
    .key rfl (by decide)
  have hplain : Types m.recognizes (.char 'b') ['b'] := by
    have hunlisted : ['b'] ∉ Key.sequences.map Prod.fst := by decide
    exact .char (by decide) fun k _ hmem => hunlisted (List.mem_map_of_mem hmem)
  have hhome : Types m.recognizes (.key .home) [Key.esc, 'O', 'H'] := .key rfl (by decide)
  have hlast : Typed m.recognizes [.key .home, .key .escape] [Key.esc, 'O', 'H', Key.esc] :=
    .cons hhome (.cons hescape .nil nofun) nofun
  have hrest := Typed.cons hleft (Typed.cons hplain hlast nofun) nofun
  have htyped := Typed.cons hescape hrest fun _ x hx => by cases hx; decide
  exact ⟨htyped, drain_typed.1 _ _ _ htyped⟩

end EventQueue

end LineEditor
