import LineEditor.Proofs.Session.Hits
import LineEditor.Proofs.Session.Searching
import LineEditor.Proofs.Session.Traces

/-!
A search under way as its keys see it: the query, the result and the direction that it shows, and the
history that it looks through.

Main definitions: `Press`, a key that is handled; `Seeking`, a search with its history; `Seeking.begin`,
how it begins, `Seeking.Next`, what a key makes of it, and `Seeking.Runs`, what some keys make of it from
the first on. Main statements: `Desk.startSearch_begins` and `Desk.next_searchStep`, this is what a search
does at a desk, and `Desk.search_of_keeps`, what it shows.
-/
namespace LineEditor

/-- The command that searches in a direction. -/
def Direction.command : Direction → Command
  | .reverse => .reverseSearchHistory
  | .forward => .forwardSearchHistory

theorem Direction.command_injective : Function.Injective Direction.command := by
  rintro (_ | _) (_ | _) h <;> first | rfl | cases h

/-- What the command of a direction asks of a search. -/
def Direction.status : Direction → SearchStatus
  | .reverse => .previous
  | .forward => .next

/-- A key that is handled: the event, what it is bound to, and how often the bell rings. -/
structure Press where
  event : KeyEvent
  bound : Option Command
  rings : Nat
  deriving DecidableEq

/-- A search under way, with the history that it looks through. -/
structure Seeking where
  history : History
  search : Search

namespace Seeking

/-- A search that begins on a line: the text of the line, if there is any, is the query. -/
def begin (h : History) (text : Text) (direction : Direction) : Seeking :=
  let h := h.resetSearch.aim direction
  if text.isEmpty then ⟨h, { direction, status := .input }⟩
  else ⟨(h.search text).1, { direction, status := .input, query := text, result := (h.search text).2 }⟩

/-- The search in a direction for the next match. Turning around searches from the last match on. -/
def proceed (k : Seeking) (heading : Direction) : History × Option Text :=
  if k.history.direction = heading then k.history.searchAgain k.search.query
  else (k.history.aim heading).search k.search.query

theorem proceed_cases (k : Seeking) (heading : Direction) :
    k.proceed heading = (k.history.aim heading, none) ∨
      ∃ n t, k.history.get? n = some t ∧ k.search.query <:+: t ∧
        k.proceed heading =
          ({ k.history with direction := heading, found := some n, fetched := n }, some t) := by
  rw [proceed]
  split
  · rename_i hsame
    subst hsame
    exact k.history.searchAgain_cases k.search.query
  · exact (k.history.aim heading).search_cases k.search.query

/-- What a key makes of a search that keeps the focus. -/
inductive Next (k : Seeking) : Press → Seeking → Prop
  /-- A character behind the query, for which there is a match. -/
  | typed {c : Char} {h : History} {t : Text} (hprintable : (KeyEvent.char c).isPrintable = true)
      (hfound : k.history.search (k.search.query ++ [c]) = (h, some t)) :
      Next k ⟨.char c, none, 0⟩
        ⟨h, { k.search with status := .input, query := k.search.query ++ [c], result := some t }⟩
  /-- A character for which there is none is dropped again. -/
  | dropped {c : Char} (hprintable : (KeyEvent.char c).isPrintable = true)
      (hnone : (k.history.search (k.search.query ++ [c])).2 = none) :
      Next k ⟨.char c, none, 1⟩ ⟨k.history, { k.search with status := .input }⟩
  /-- Without a query the key of a direction changes what the search shows and nothing else. -/
  | aimed {event : KeyEvent} {heading : Direction} (hempty : k.search.query = []) :
      Next k ⟨event, some heading.command, 0⟩
        ⟨k.history, { k.search with status := heading.status, direction := heading }⟩
  | moved {event : KeyEvent} {heading : Direction} {h : History} {t : Text}
      (hquery : k.search.query ≠ []) (hfound : k.proceed heading = (h, some t)) :
      Next k ⟨event, some heading.command, 0⟩
        ⟨h, { k.search with status := heading.status, direction := heading, result := some t }⟩
  | stopped {event : KeyEvent} {heading : Direction} (hquery : k.search.query ≠ [])
      (hnone : (k.proceed heading).2 = none) :
      Next k ⟨event, some heading.command, 1⟩
        ⟨k.history.aim heading, { k.search with status := heading.status, direction := heading }⟩
  /-- The last character is deleted. -/
  | emptied {event : KeyEvent} (hshort : k.search.query.dropLast = []) :
      Next k ⟨event, some .backwardDeleteChar, 0⟩
        ⟨k.history.resetSearch.aim k.search.direction,
          { k.search with status := .delete, query := [], result := none }⟩
  | shortened {event : KeyEvent} (hquery : k.search.query.dropLast ≠ []) :
      Next k ⟨event, some .backwardDeleteChar, 0⟩
        ⟨(k.history.search k.search.query.dropLast).1,
          { k.search with
            status := .delete
            query := k.search.query.dropLast
            result := (k.history.search k.search.query.dropLast).2.or k.search.result }⟩

/-- What the key of a direction makes of a search: without a query it changes what is shown, otherwise the
search goes on to the next match or the bell rings. -/
theorem Next.of_command {k k' : Seeking} {p : Press} {heading : Direction} (hnext : k.Next p k')
    (hbound : p.bound = some heading.command) :
    (k.search.query = [] ∧ p.rings = 0 ∧
      k' = ⟨k.history, { k.search with status := heading.status, direction := heading }⟩) ∨
    (k.search.query ≠ [] ∧ ∃ h t, k.proceed heading = (h, some t) ∧ p.rings = 0 ∧
      k' = ⟨h, { k.search with status := heading.status, direction := heading, result := some t }⟩) ∨
    k.search.query ≠ [] ∧ (k.proceed heading).2 = none ∧ p.rings = 1 ∧
      k' = ⟨k.history.aim heading,
        { k.search with status := heading.status, direction := heading }⟩ := by
  cases hnext with
  | typed | dropped => cases hbound
  | aimed hempty =>
    obtain rfl := Direction.command_injective (Option.some.inj hbound)
    exact .inl ⟨hempty, rfl, rfl⟩
  | moved hquery hfound =>
    obtain rfl := Direction.command_injective (Option.some.inj hbound)
    exact .inr (.inl ⟨hquery, _, _, hfound, rfl, rfl⟩)
  | stopped hquery hnone =>
    obtain rfl := Direction.command_injective (Option.some.inj hbound)
    exact .inr (.inr ⟨hquery, hnone, rfl, rfl⟩)
  | emptied | shortened => cases heading <;> cases hbound

/-- What some keys make of a search. -/
inductive Follows : Seeking → List Press → Seeking → Prop
  | nil (k : Seeking) : Follows k [] k
  | cons {k k' k'' : Seeking} {p : Press} {ps : List Press} (h : k.Next p k') (h' : Follows k' ps k'') :
      Follows k (p :: ps) k''

/-- What some keys make of a search the first of them do first, and then the others. -/
theorem Follows.split {ps ps' : List Press} {k k'' : Seeking} (h : Follows k (ps ++ ps') k'') :
    ∃ k', Follows k ps k' ∧ Follows k' ps' k'' := by
  induction ps generalizing k with
  | nil => exact ⟨k, .nil k, h⟩
  | cons p ps ih =>
    cases h with
    | cons hnext hrest =>
      obtain ⟨k', hfirst, hlast⟩ := ih hrest
      exact ⟨k', .cons hnext hfirst, hlast⟩

/-- A search that begins in some direction and what the keys behind the first make of it. -/
inductive Runs (h : History) (text : Text) : List Press → Seeking → Prop
  | begun {event : KeyEvent} {direction : Direction} {ps : List Press} {k : Seeking}
      (hfollows : Follows (begin h text direction) ps k) :
      Runs h text (⟨event, some direction.command, 0⟩ :: ps) k

end Seeking

namespace Search

variable {q : Search} {bound : Option Command} {e : KeyEvent}

/-- A key asks something of a search. -/
theorem input_started (q : Search) (bound : Option Command) (e : KeyEvent) :
    (q.input bound e).status ≠ .notStarted := by
  have hstarted : statusFor bound e ≠ .notStarted := by
    unfold statusFor
    split
    · nofun
    · cases bound with
      | some k => cases k <;> nofun
      | none =>
        dsimp only
        split <;> nofun
  simp only [input]
  split <;> exact hstarted

theorem input_of_printable {c : Char} (hprintable : (KeyEvent.char c).isPrintable = true) :
    q.input none (.char c) = { q with status := .input, query := q.query ++ [c] } := by
  simp only [input, statusFor, if_pos hprintable, reduceCtorEq, if_false]

theorem input_of_command (hescape : e ≠ .key .escape) (heading : Direction) :
    q.input (some heading.command) e = { q with status := heading.status } := by
  cases heading <;> simp only [input, statusFor, if_neg hescape, Direction.command, Direction.status]

/-- The keys that a search goes on with: a character that is not bound, the key of a direction, and the
one that deletes. -/
theorem input_cases (hkeeps : (q.input bound e).keepsFocus = true) :
    (∃ c, e = .char c ∧ e.isPrintable = true ∧ bound = none ∧
      q.input bound e = { q with status := .input, query := q.query ++ [c] }) ∨
    (∃ heading : Direction, bound = some heading.command ∧
      q.input bound e = { q with status := heading.status }) ∨
    bound = some .backwardDeleteChar ∧ q.input bound e = { q with status := .delete } := by
  have hleaves : ∀ status : SearchStatus, q.input bound e = { q with status } →
      ({ q with status } : Search).keepsFocus = true := by
    intro status hstatus
    rwa [hstatus] at hkeeps
  by_cases hescape : e = .key .escape
  · cases hleaves .exit (by simp only [input, statusFor, if_pos hescape])
  cases bound with
  | none =>
    by_cases hprintable : e.isPrintable = true
    · cases e with
      | key k => cases hprintable
      | char c =>
        refine .inl ⟨c, rfl, hprintable, rfl, ?_⟩
        simp only [input, statusFor, if_neg hescape, if_pos hprintable]
    · cases hleaves .exit (by simp only [input, statusFor, if_neg hescape, if_neg hprintable])
  | some command =>
    have hstatus : ∀ status, statusFor (some command) e = status → status ≠ .input →
        q.input (some command) e = { q with status } := by
      intro status hstatus hne
      simp only [input, hstatus]
      split
      · exact absurd rfl hne
      · rfl
    cases command
    case reverseSearchHistory =>
      exact .inr (.inl ⟨.reverse, rfl, hstatus _ (if_neg hescape) (by decide)⟩)
    case forwardSearchHistory =>
      exact .inr (.inl ⟨.forward, rfl, hstatus _ (if_neg hescape) (by decide)⟩)
    case backwardDeleteChar => exact .inr (.inr ⟨rfl, hstatus _ (if_neg hescape) (by decide)⟩)
    all_goals cases hleaves _ (hstatus _ (if_neg hescape) (by rintro ⟨⟩))

end Search

namespace Desk

variable {d : Desk} {q : Search} {bound : Option Command} {e : KeyEvent}

theorem session_refreshWith (d : Desk) (p : Prompt) (b : Buffer) :
    (d.refreshWith p b).session = { d.session with shown := p, buffer := b } := by
  rw [refreshWith]
  dsimp only
  rw [session_write]

theorem history_refreshWith (d : Desk) (p : Prompt) (b : Buffer) :
    (d.refreshWith p b).history = d.history := history_write d _

/-! ### The steps of a search -/

theorem takeMatch_none (d : Desk) (q : Search) (h : History) :
    d.takeMatch q (h, none) = (q, Desk.bell { d with history := h }) := rfl

theorem takeMatch_some (d : Desk) (q : Search) (h : History) (t : Text) :
    d.takeMatch q (h, some t) = ({ q with result := some t }, { d with history := h }) := rfl

theorem rings_bell (d : Desk) : d.bell.trace.rings = d.trace.rings + 1 :=
  congrArg Trace.rings d.trace_bell

/-- A longer query. -/
theorem next_extendSearch {c : Char} (hprintable : (KeyEvent.char c).isPrintable = true) :
    ∃ rings, Seeking.Next ⟨d.history, q⟩ ⟨.char c, none, rings⟩
        ⟨(d.extendSearch { q with status := .input, query := q.query ++ [c] }).2.history,
          (d.extendSearch { q with status := .input, query := q.query ++ [c] }).1⟩ ∧
      (d.extendSearch { q with status := .input, query := q.query ++ [c] }).2.trace.rings =
        d.trace.rings + rings := by
  unfold extendSearch
  dsimp only
  rcases d.history.search_cases (q.query ++ [c]) with hnone | ⟨n, t, -, -, hfound⟩
  · rw [hnone]
    refine ⟨1, ?_, rings_bell d⟩
    have hdropped := Seeking.Next.dropped (k := ⟨d.history, q⟩) hprintable (congrArg Prod.snd hnone)
    dsimp only
    rwa [List.dropLast_concat]
  · rw [hfound]
    exact ⟨0, .typed hprintable hfound, rfl⟩

/-- On to the next match in a direction. -/
theorem next_searchOn (d : Desk) (q : Search) (event : KeyEvent) (heading : Direction) :
    ∃ rings, Seeking.Next ⟨d.history, q⟩ ⟨event, some heading.command, rings⟩
        ⟨(d.searchOn { q with status := heading.status } heading).2.history,
          (d.searchOn { q with status := heading.status } heading).1⟩ ∧
      (d.searchOn { q with status := heading.status } heading).2.trace.rings =
        d.trace.rings + rings := by
  by_cases hempty : q.query = []
  · have hon : d.searchOn { q with status := heading.status } heading =
        ({ q with status := heading.status, direction := heading }, d) := by
      simp only [searchOn, hempty, List.isEmpty_nil, if_true]
    rw [hon]
    exact ⟨0, .aimed hempty, rfl⟩
  have hon : d.searchOn { q with status := heading.status } heading =
      ({ (d.takeMatch { q with status := heading.status }
          (Seeking.proceed ⟨d.history, q⟩ heading)).1 with direction := heading },
        (d.takeMatch { q with status := heading.status }
          (Seeking.proceed ⟨d.history, q⟩ heading)).2) := by
    unfold searchOn Seeking.proceed
    dsimp only
    rw [if_neg (by rwa [List.isEmpty_iff])]
    split <;> rfl
  rw [hon]
  rcases Seeking.proceed_cases ⟨d.history, q⟩ heading with hnone | ⟨n, t, -, -, hfound⟩
  · rw [hnone, takeMatch_none]
    exact ⟨1, .stopped hempty (congrArg Prod.snd hnone), rings_bell _⟩
  · rw [hfound, takeMatch_some]
    exact ⟨0, .moved hempty hfound, rfl⟩

/-- A shorter query. -/
theorem next_shortenSearch (d : Desk) (q : Search) (event : KeyEvent) :
    Seeking.Next ⟨d.history, q⟩ ⟨event, some .backwardDeleteChar, 0⟩
        ⟨(d.shortenSearch { q with status := .delete }).2.history,
          (d.shortenSearch { q with status := .delete }).1⟩ ∧
      (d.shortenSearch { q with status := .delete }).2.trace.rings = d.trace.rings := by
  unfold shortenSearch
  dsimp only
  by_cases hshort : q.query.dropLast = []
  · rw [if_pos (List.isEmpty_iff.2 hshort), hshort]
    exact ⟨.emptied hshort, rfl⟩
  · rw [if_neg (by rwa [List.isEmpty_iff])]
    exact ⟨.shortened hshort, rfl⟩

/-- What a key makes of a search that goes on. -/
theorem next_searchStep (hkeeps : (q.input bound e).keepsFocus = true) :
    ∃ rings, Seeking.Next ⟨d.history, q⟩ ⟨e, bound, rings⟩
        ⟨(d.searchStep (q.input bound e)).2.history, (d.searchStep (q.input bound e)).1⟩ ∧
      (d.searchStep (q.input bound e)).2.trace.rings = d.trace.rings + rings := by
  rcases Search.input_cases hkeeps with
    ⟨c, rfl, hprintable, rfl, hinput⟩ | ⟨heading, rfl, hinput⟩ | ⟨rfl, hinput⟩
  · rw [hinput]
    exact next_extendSearch hprintable
  · rw [hinput]
    cases heading
    case reverse => exact d.next_searchOn q e .reverse
    case forward => exact d.next_searchOn q e .forward
  · rw [hinput]
    exact ⟨0, d.next_shortenSearch q e⟩

/-- How a search begins. -/
theorem startSearch_begins (d : Desk) (direction : Direction) :
    Seeking.begin d.history d.session.buffer.text direction =
        ⟨(d.startSearch { direction }).2.history, (d.startSearch { direction }).1⟩ ∧
      (d.startSearch { direction }).2.trace.rings = d.trace.rings := by
  unfold startSearch Seeking.begin
  dsimp only
  generalize hd : (if d.keymap.isViCommand then
    Desk.setVi { d with history := d.history.resetSearch.aim direction } .insert
    else { d with history := d.history.resetSearch.aim direction }) = d'
  have hsame : d'.session = d.session ∧ d'.trace.rings = d.trace.rings ∧
      d'.history = d.history.resetSearch.aim direction := by
    rw [← hd]
    split
    · rw [session_setVi, trace_setVi, setVi]
      refine ⟨rfl, rfl, ?_⟩
      split <;> rfl
    · exact ⟨rfl, rfl, rfl⟩
  obtain ⟨hsession, hrings, hhistory⟩ := hsame
  rw [hsession]
  split
  · exact ⟨by rw [hhistory], hrings⟩
  · rw [hhistory]
    exact ⟨rfl, hrings⟩

/-! ### What a search shows -/

/-- A search that goes on shows its prompt and its result. -/
theorem search_of_keeps (hkeeps : (d.searchStep q).1.keepsFocus = true) :
    (d.search q).1 = (d.searchStep q).1 ∧
      (d.search q).2.history = (d.searchStep q).2.history ∧
      (d.search q).2.trace.rings = (d.searchStep q).2.trace.rings ∧
      (d.search q).2.session = { (d.searchStep q).2.session with
        shown := (d.searchStep q).1.prompt
        buffer := (d.searchStep q).1.shownBuffer
        paused := false } := by
  rw [search]
  generalize d.searchStep q = r at *
  obtain ⟨q', d'⟩ := r
  dsimp only at hkeeps ⊢
  rw [if_pos hkeeps]
  refine ⟨rfl, d'.history_refreshWith q'.prompt q'.shownBuffer, ?_, ?_⟩
  · exact congrArg Trace.rings (d'.trace_refreshWith q'.shownBuffer q'.prompt)
  · exact congrArg (fun s : Session => { s with paused := false })
      (d'.session_refreshWith q'.prompt q'.shownBuffer)

/-- A search that is over leaves the line to others. -/
theorem search_of_leaves (hkeeps : (d.searchStep q).1.keepsFocus = false) :
    (d.search q).1 = (d.searchStep q).1 ∧
      (d.search q).2.history = (d.searchStep q).2.history.resetSearch ∧
      (d.search q).2.session = { (d.searchStep q).2.session with paused := false } := by
  rw [search]
  generalize d.searchStep q = r at *
  obtain ⟨q', d'⟩ := r
  dsimp only at hkeeps ⊢
  rw [if_neg (Bool.eq_false_iff.1 hkeeps)]
  exact ⟨rfl, rfl, rfl⟩

end Desk

end LineEditor
