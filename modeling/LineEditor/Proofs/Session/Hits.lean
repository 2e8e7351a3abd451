import LineEditor.History
import LineEditor.Proofs.Text.Occurrences
import Mathlib.Data.List.Nodup

/-!
What a search of the history comes to. The entries that a query is in lie in a row, in the order in
which a direct search would come to them; a search finds the first of them that it has not passed, and
searching on finds the next.

Main definitions: `History.places`, the order of all entries for a direction, and `History.hits`, those
that a query is in. Main statements: `search_eq` and `searchAgain_eq`, which places a search looks at,
`pick_cases`, what it makes of them, and `filter_drop_rank`, which of the hits lie there.
-/
namespace LineEditor

/-- Whether a search in a direction comes to one place before another. -/
def Direction.Leads : Direction → Nat → Nat → Prop
  | .reverse, n, m => m < n
  | .forward, n, m => n < m

namespace History

/-- Whether the entry at a place has `query` in it. -/
def holds (h : History) (query : Text) (n : Nat) : Bool := (h.get? n).any (Text.includes · query)

/-- All places, in the order in which a search in a direction looks at them. -/
def places (h : History) : Direction → List Nat
  | .reverse => (List.range h.entries.length).reverse
  | .forward => List.range h.entries.length

/-- How many places a search in a direction has passed when it comes to one. -/
def rank (h : History) : Direction → Nat → Nat
  | .reverse, n => h.entries.length - 1 - n
  | .forward, n => n

/-- The places of the entries with `query` in them, in the order in which a search comes to them. -/
def hits (h : History) (direction : Direction) (query : Text) : List Nat :=
  (h.places direction).filter (h.holds query)

/-- The first of some places that has `query` in its entry becomes the fetched and the found one. -/
def pick (h : History) (query : Text) (places : List Nat) : History × Option Text :=
  match places.find? (h.holds query) with
  | none => (h, none)
  | some n => ({ h with found := some n, fetched := n }, h.get? n)

variable {h h' : History} {query u : Text} {direction : Direction} {i n : Nat}

/-! ### Places and hits -/

theorem holds_iff : h.holds query n = true ↔ ∃ t, h.get? n = some t ∧ query <:+: t := by
  simp only [holds, Option.any_eq_true, Text.includes_iff]

theorem holds_of_append (hn : h.holds (query ++ u) n = true) : h.holds query n = true := by
  obtain ⟨t, ht, hmatch⟩ := holds_iff.1 hn
  exact holds_iff.2 ⟨t, ht, (List.infix_append' [] query u).trans hmatch⟩

theorem lt_length_of_get? {t : Text} (ht : h.get? n = some t) : n < h.entries.length :=
  (List.getElem?_eq_some_iff.1 ht).1

@[simp] theorem length_places (h : History) (direction : Direction) :
    (h.places direction).length = h.entries.length := by
  cases direction <;> simp [places]

theorem mem_places : n ∈ h.places direction ↔ n < h.entries.length := by
  cases direction <;> simp [places]

theorem pairwise_places (h : History) (direction : Direction) :
    (h.places direction).Pairwise direction.Leads := by
  cases direction with
  | reverse => exact List.pairwise_reverse.2 List.pairwise_lt_range
  | forward => exact List.pairwise_lt_range

theorem pairwise_hits (h : History) (direction : Direction) (query : Text) :
    (h.hits direction query).Pairwise direction.Leads :=
  (h.pairwise_places direction).filter _

theorem nodup_hits (h : History) (direction : Direction) (query : Text) :
    (h.hits direction query).Nodup := by
  refine (h.pairwise_hits direction query).imp ?_
  intro n m hleads hnm
  subst hnm
  cases direction <;> exact absurd hleads (Nat.lt_irrefl n)

theorem mem_hits : n ∈ h.hits direction query ↔ ∃ t, h.get? n = some t ∧ query <:+: t := by
  rw [hits, List.mem_filter, mem_places, holds_iff]
  exact ⟨And.right, fun ⟨t, ht, hmatch⟩ => ⟨lt_length_of_get? ht, t, ht, hmatch⟩⟩

/-- There are hits if the query is in any entry. -/
theorem hits_ne_nil : h.hits direction query ≠ [] ↔ h.entries.any (Text.includes · query) = true := by
  rw [List.any_eq_true]
  constructor
  · intro hne
    obtain ⟨n, hn⟩ := List.exists_mem_of_ne_nil _ hne
    obtain ⟨t, ht, hmatch⟩ := mem_hits.1 hn
    exact ⟨t, List.mem_of_getElem? ht, Text.includes_iff.2 hmatch⟩
  · rintro ⟨t, ht, hmatch⟩
    obtain ⟨n, hn⟩ := List.getElem?_of_mem ht
    exact List.ne_nil_of_mem (mem_hits.2 ⟨t, hn, Text.includes_iff.1 hmatch⟩)

/-- The hits are those of the entries, wherever the cursors are. -/
theorem hits_congr (hentries : h'.entries = h.entries) (direction : Direction) (query : Text) :
    h'.hits direction query = h.hits direction query := by
  have hholds : h'.holds query = h.holds query := by
    funext n
    rw [holds, holds, get?, get?, hentries]
  have hplaces : h'.places direction = h.places direction := by
    cases direction <;> simp [places, hentries]
  rw [hits, hits, hholds, hplaces]

/-- What is looked at from a place on begins with that place. -/
theorem drop_rank (hn : n < h.entries.length) (direction : Direction) :
    (h.places direction).drop (h.rank direction n) =
      n :: (h.places direction).drop (h.rank direction n + 1) := by
  have hrank : h.rank direction n < (h.places direction).length := by
    rw [length_places]
    cases direction with
    | reverse => simp only [rank]; omega
    | forward => exact hn
  have hplace : (h.places direction)[h.rank direction n] = n := by
    cases direction with
    | reverse => simp only [places, rank, List.getElem_reverse, List.getElem_range, List.length_range]; omega
    | forward => simp [places, rank]
  rw [List.drop_eq_getElem_cons hrank, hplace]

/-- The hits that a search has passed, and those that it has not. -/
theorem hits_eq_append (h : History) (direction : Direction) (query : Text) (k : Nat) :
    h.hits direction query = ((h.places direction).take k).filter (h.holds query) ++
      ((h.places direction).drop k).filter (h.holds query) := by
  rw [hits, ← List.filter_append, List.take_append_drop]

/-- From a hit on there are this hit and those behind it. -/
theorem filter_drop_rank (hi : (h.hits direction query)[i]? = some n) :
    ((h.places direction).drop (h.rank direction n)).filter (h.holds query) =
      (h.hits direction query).drop i := by
  obtain ⟨t, ht, hmatch⟩ := mem_hits.1 (List.mem_of_getElem? hi)
  have hsplit := h.hits_eq_append direction query (h.rank direction n)
  have hleft : (((h.places direction).drop (h.rank direction n)).filter (h.holds query)).head? =
      some n := by
    have hholds : h.holds query n = true := holds_iff.2 ⟨t, ht, hmatch⟩
    rw [drop_rank (lt_length_of_get? ht), List.filter_cons_of_pos hholds, List.head?_cons]
  generalize ((h.places direction).take (h.rank direction n)).filter (h.holds query) = passed at hsplit
  generalize ((h.places direction).drop (h.rank direction n)).filter (h.holds query) = left at *
  -- no place is a hit twice, so the hits that were passed are those before the `i`th
  have hpassed : (h.hits direction query)[passed.length]? = some n := by
    rw [hsplit, List.getElem?_append_right (Nat.le_refl _), Nat.sub_self, ← List.head?_eq_getElem?,
      hleft]
  have hlength : passed.length = i :=
    (List.getElem?_inj (List.getElem?_eq_some_iff.1 hpassed).1 (h.nodup_hits direction query)).1
      (hpassed.trans hi.symm)
  rw [hsplit, List.drop_left' hlength]

/-- Behind a hit there are those behind it. -/
theorem filter_drop_rank_succ (hi : (h.hits direction query)[i]? = some n) :
    ((h.places direction).drop (h.rank direction n + 1)).filter (h.holds query) =
      (h.hits direction query).drop (i + 1) := by
  obtain ⟨t, ht, hmatch⟩ := mem_hits.1 (List.mem_of_getElem? hi)
  have hall := filter_drop_rank hi
  rw [drop_rank (lt_length_of_get? ht), List.filter_cons_of_pos (holds_iff.2 ⟨t, ht, hmatch⟩)] at hall
  exact (congrArg List.tail hall).trans List.tail_drop

/-- From the first hit of a query on there are all hits of a longer one. -/
theorem filter_drop_rank_append (hhead : (h.hits direction query).head? = some n) (u : Text) :
    ((h.places direction).drop (h.rank direction n)).filter (h.holds (query ++ u)) =
      h.hits direction (query ++ u) := by
  have hall := filter_drop_rank (i := 0) (by rwa [← List.head?_eq_getElem?])
  have hpassed : ((h.places direction).take (h.rank direction n)).filter (h.holds query) = [] := by
    have hsplit := h.hits_eq_append direction query (h.rank direction n)
    rw [hall, List.drop_zero] at hsplit
    exact List.self_eq_append_left.1 hsplit
  have hnone : ((h.places direction).take (h.rank direction n)).filter (h.holds (query ++ u)) = [] := by
    rw [List.filter_eq_nil_iff] at hpassed ⊢
    exact fun m hm hholds => hpassed m hm (holds_of_append hholds)
  rw [h.hits_eq_append direction (query ++ u) (h.rank direction n), hnone, List.nil_append]

/-! ### Searches -/

theorem searchOrder_eq (hn : n < h.entries.length) :
    h.searchOrder n = (h.places h.direction).drop (h.rank h.direction n) := by
  unfold searchOrder
  cases h.direction with
  | reverse =>
    simp only [places, rank, List.drop_reverse, List.length_range, List.take_range]
    congr 2
    omega
  | forward => rfl

/-- A search without a place to start from looks at all places. -/
theorem search_eq_of_none (hfound : h.found = none) (query : Text) :
    h.search query = h.pick query (h.places h.direction) := by
  rw [search]
  split
  · rename_i hempty
    have hplaces : h.places h.direction = [] := by
      rw [List.isEmpty_iff] at hempty
      cases h.direction <;> simp [places, hempty]
    rw [hplaces]
    rfl
  · rename_i hne
    have hlength : 0 < h.entries.length := by
      rw [List.isEmpty_iff] at hne
      exact List.length_pos_iff.2 hne
    have hscan : ∀ n, n < h.entries.length → h.rank h.direction n = 0 →
        h.scan query n = h.pick query (h.places h.direction) := by
      intro n hn hrank
      change h.pick query (h.searchOrder n) = _
      rw [searchOrder_eq hn, hrank, List.drop_zero]
    rw [hfound]
    cases hdirection : h.direction with
    | reverse =>
      rw [hdirection] at hscan
      exact hscan (h.entries.length - 1) (by omega) (Nat.sub_self _)
    | forward =>
      rw [hdirection] at hscan
      exact hscan 0 hlength rfl

/-- A search looks at the last found place first, and at all those behind it. -/
theorem search_eq (hfound : h.found = some n) (hn : n < h.entries.length) (query : Text) :
    h.search query = h.pick query ((h.places h.direction).drop (h.rank h.direction n)) := by
  have hne : h.entries.isEmpty = false := by
    rw [List.isEmpty_eq_false_iff]
    exact List.ne_nil_of_length_pos (Nat.zero_lt_of_lt hn)
  have hmin : min n (h.entries.length - 1) = n := by omega
  rw [search, hne, hfound]
  dsimp only
  rw [if_neg Bool.false_ne_true, hmin, ← searchOrder_eq hn]
  rfl

/-- Searching on looks at the places behind the last found one. -/
theorem searchAgain_eq (hfound : h.found = some n) (hn : n < h.entries.length) (query : Text) :
    h.searchAgain query =
      h.pick query ((h.places h.direction).drop (h.rank h.direction n + 1)) := by
  have hscan : ∀ m, m < h.entries.length → h.rank h.direction m = h.rank h.direction n + 1 →
      h.scan query m = h.pick query ((h.places h.direction).drop (h.rank h.direction n + 1)) := by
    intro m hm hrank
    change h.pick query (h.searchOrder m) = _
    rw [searchOrder_eq hm, hrank]
  have hend : h.entries.length ≤ h.rank h.direction n + 1 →
      (h, none) = h.pick query ((h.places h.direction).drop (h.rank h.direction n + 1)) := by
    intro hle
    rw [List.drop_eq_nil_of_le (by rwa [length_places])]
    rfl
  rw [searchAgain, hfound]
  cases hdirection : h.direction with
  | reverse =>
    rw [hdirection] at hscan hend
    cases n with
    | zero => exact hend (by simp only [rank]; omega)
    | succ n => exact hscan n (by omega) (by simp only [rank]; omega)
  | forward =>
    rw [hdirection] at hscan hend
    have hnext : (if h.entries.length ≤ n + 1 then (h, none) else h.scan query (n + 1)) =
        h.pick query ((h.places .forward).drop (h.rank .forward n + 1)) := by
      split
      · rename_i hle
        exact hend hle
      · rename_i hlt
        exact hscan (n + 1) (by omega) rfl
    cases n with
    | zero => exact hnext
    | succ n => exact hnext

/-- What is made of some places: the first of them that is a hit is found, or nothing is and the history
stays as it is. -/
theorem pick_cases (h : History) (query : Text) (places : List Nat) :
    (places.filter (h.holds query)).head? = none ∧ h.pick query places = (h, none) ∨
      ∃ n t, (places.filter (h.holds query)).head? = some n ∧ h.get? n = some t ∧ query <:+: t ∧
        h.pick query places = ({ h with found := some n, fetched := n }, some t) := by
  rw [List.head?_filter, pick]
  cases hfind : places.find? (h.holds query) with
  | none => exact .inl ⟨rfl, rfl⟩
  | some n =>
    obtain ⟨t, ht, hmatch⟩ := holds_iff.1 (List.find?_some hfind)
    exact .inr ⟨n, t, rfl, ht, hmatch, congrArg (Prod.mk _) ht⟩

/-- A search finds an entry with the query in it, or leaves the history as it is. -/
theorem search_cases (h : History) (query : Text) :
    h.search query = (h, none) ∨
      ∃ n t, h.get? n = some t ∧ query <:+: t ∧
        h.search query = ({ h with found := some n, fetched := n }, some t) := by
  have hpick : ∃ places, h.search query = h.pick query places := by
    rw [search]
    split
    · exact ⟨[], rfl⟩
    · exact ⟨_, rfl⟩
  obtain ⟨places, hplaces⟩ := hpick
  rw [hplaces]
  rcases h.pick_cases query places with ⟨-, hnone⟩ | ⟨n, t, -, hfound⟩
  · exact .inl hnone
  · exact .inr ⟨n, t, hfound⟩

theorem searchAgain_cases (h : History) (query : Text) :
    h.searchAgain query = (h, none) ∨
      ∃ n t, h.get? n = some t ∧ query <:+: t ∧
        h.searchAgain query = ({ h with found := some n, fetched := n }, some t) := by
  rw [searchAgain]
  split
  · exact h.search_cases query
  · exact .inl rfl
  · rename_i n _ _
    rcases h.pick_cases query (h.searchOrder n) with ⟨-, hnone⟩ | ⟨m, t, -, hfound⟩
    · exact .inl hnone
    · exact .inr ⟨m, t, hfound⟩
  · split
    · exact .inl rfl
    · rename_i n _ _ _
      rcases h.pick_cases query (h.searchOrder (n + 1)) with ⟨-, hnone⟩ | ⟨m, t, -, hfound⟩
      · exact .inl hnone
      · exact .inr ⟨m, t, hfound⟩

end History

end LineEditor
