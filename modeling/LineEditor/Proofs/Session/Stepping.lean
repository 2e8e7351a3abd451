import Mathlib.Algebra.GroupWithZero.Nat
import LineEditor.Proofs.Session.Matches

/-!
Typing a query and stepping on from its match. Each character that is kept leaves the search at the first
hit of the query that a direct search would come to, and each key of the direction goes on to the next.

Main definitions: `History.accepted`, the query that is left of what is typed, and `Seeking.At`, a search
at one of the hits of its query. Main statements: `At.follows_typed` and `At.follows_stepped`.
-/
namespace LineEditor

/-- What is left of a query that characters are typed behind: each is kept if any entry then has the query
in it. -/
def History.accepted (h : History) (query : Text) (cs : Text) : Text :=
  cs.foldl (fun query c =>
    if h.entries.any (Text.includes · (query ++ [c])) then query ++ [c] else query) query

/-- A key and what it is bound to. -/
def Press.key (p : Press) : KeyEvent × Option Command := (p.event, p.bound)

namespace Seeking

/-- A search in a direction for a query that is at the `i`th of its hits, if there is a query. -/
structure At (h : History) (direction : Direction) (query : Text) (i : Nat) (k : Seeking) : Prop where
  entries_eq : k.history.entries = h.entries
  heading_eq : k.history.direction = direction
  shown_eq : k.search.direction = direction
  query_eq : k.search.query = query
  found_eq : k.history.found = if query = [] then none else (h.hits direction query)[i]?
  isHit : query ≠ [] → i < (h.hits direction query).length

variable {h : History} {direction : Direction} {query : Text} {i : Nat} {k k' : Seeking} {p : Press}
  {ps : List Press}

/-- The hit that a search is at. -/
theorem At.exists_found (hk : k.At h direction query i) (hquery : query ≠ []) :
    ∃ n, (k.history.hits direction query)[i]? = some n ∧ k.history.found = some n ∧
      n < k.history.entries.length := by
  have hhit := hk.found_eq
  rw [if_neg hquery, ← History.hits_congr hk.entries_eq,
    List.getElem?_eq_getElem (by rw [History.hits_congr hk.entries_eq]; exact hk.isHit hquery)] at hhit
  refine ⟨_, List.getElem?_eq_getElem _, hhit, ?_⟩
  obtain ⟨t, ht, -⟩ := History.mem_hits.1 (List.getElem_mem _)
  exact History.lt_length_of_get? ht

/-! ### Typing -/

/-- A search from the first hit of a query for a longer one comes to the first hit of that. -/
theorem At.search_append (hk : k.At h direction query 0) (c : Char) :
    (h.hits direction (query ++ [c]) = [] ∧ (k.history.search (query ++ [c])).2 = none) ∨
      ∃ n t, (h.hits direction (query ++ [c]))[0]? = some n ∧
        k.history.search (query ++ [c]) = ({ k.history with found := some n, fetched := n }, some t) := by
  have hpick : ∃ places, k.history.search (query ++ [c]) = k.history.pick (query ++ [c]) places ∧
      places.filter (k.history.holds (query ++ [c])) = k.history.hits direction (query ++ [c]) := by
    by_cases hquery : query = []
    · have hfound : k.history.found = none := hk.found_eq.trans (if_pos hquery)
      refine ⟨_, History.search_eq_of_none hfound _, ?_⟩
      rw [hk.heading_eq]
      rfl
    · obtain ⟨n, hhit, hfound, hn⟩ := hk.exists_found hquery
      refine ⟨_, History.search_eq hfound hn _, ?_⟩
      rw [hk.heading_eq]
      exact History.filter_drop_rank_append (by rwa [List.head?_eq_getElem?]) [c]
  obtain ⟨places, hsearch, hplaces⟩ := hpick
  rw [hsearch, ← History.hits_congr hk.entries_eq, ← hplaces, ← List.head?_eq_getElem?]
  rcases k.history.pick_cases (query ++ [c]) places with ⟨hnone, hpick⟩ | ⟨n, t, hhead, -, -, hpick⟩
  · exact .inl ⟨List.head?_eq_none_iff.1 hnone, by rw [hpick]⟩
  · exact .inr ⟨n, t, hhead, hpick⟩

/-- A typed character is kept, or dropped while the bell rings. -/
theorem At.typed {c : Char} {rings : Nat} (hk : k.At h direction query 0)
    (hnext : k.Next ⟨.char c, none, rings⟩ k') :
    k'.At h direction (h.accepted query [c]) 0 ∧
      rings + (h.accepted query [c]).length = query.length + 1 := by
  have haccepted : h.accepted query [c] =
      if h.hits direction (query ++ [c]) ≠ [] then query ++ [c] else query := by
    simp only [History.hits_ne_nil]
    rfl
  obtain ⟨hentries, hheading, hshown, hquery, hfound, hhit⟩ := hk
  rw [haccepted]
  rcases At.search_append ⟨hentries, hheading, hshown, hquery, hfound, hhit⟩ c with
    ⟨hempty, hnone⟩ | ⟨n, t, hhead, hsome⟩
  · rw [if_neg (not_not.2 hempty)]
    cases hnext with
    | typed hprintable hsearch =>
      rw [hquery] at hsearch
      rw [hsearch] at hnone
      cases hnone
    | dropped => exact ⟨⟨hentries, hheading, hshown, hquery, hfound, hhit⟩, Nat.add_comm ..⟩
  · have hne : h.hits direction (query ++ [c]) ≠ [] := by
      rintro hempty
      rw [hempty] at hhead
      cases hhead
    rw [if_pos hne]
    cases hnext with
    | typed hprintable hsearch =>
      rw [hquery, hsome] at hsearch
      cases hsearch
      refine ⟨⟨hentries, hheading, hshown, by rw [← hquery], ?_, fun _ => List.length_pos_iff.2 hne⟩, ?_⟩
      · rw [if_neg (List.append_ne_nil_of_right_ne_nil _ (List.cons_ne_nil c [])), hhead]
      · rw [Nat.zero_add, List.length_append, List.length_singleton]
    | dropped hprintable hnone =>
      rw [hquery, hsome] at hnone
      cases hnone

theorem At.follows_typed {cs : Text} (hfollows : Follows k ps k')
    (hkeys : ps.map Press.key = cs.map fun c => (KeyEvent.char c, none))
    (hk : k.At h direction query 0) :
    k'.At h direction (h.accepted query cs) 0 ∧
      (ps.map Press.rings).sum + (h.accepted query cs).length = query.length + cs.length := by
  induction cs generalizing k ps query with
  | nil =>
    obtain rfl := List.map_eq_nil_iff.1 hkeys
    cases hfollows
    exact ⟨hk, Nat.zero_add _⟩
  | cons c cs ih =>
    cases hfollows with
    | nil => cases hkeys
    | @cons _ k₁ _ p ps hnext hrest =>
      obtain ⟨hkey, hrest'⟩ := List.cons.inj hkeys
      obtain ⟨event, bound, rings⟩ := p
      obtain ⟨rfl, rfl⟩ := Prod.mk.inj hkey
      obtain ⟨hk₁, hrings⟩ := hk.typed hnext
      obtain ⟨hk', hsum⟩ := ih hrest hrest' hk₁
      refine ⟨hk', ?_⟩
      rw [List.map_cons, List.sum_cons, List.length_cons]
      have hsame : h.accepted (h.accepted query [c]) cs = h.accepted query (c :: cs) := rfl
      rw [hsame] at hsum
      dsimp only
      omega

/-! ### Stepping -/

/-- A key of the direction goes on to the next hit; behind the last the bell rings. -/
theorem At.stepped (hk : k.At h direction query i) (hquery : query ≠ [])
    (hbound : p.bound = some direction.command) (hnext : k.Next p k') :
    (i + 1 < (h.hits direction query).length ∧ p.rings = 0 ∧ k'.At h direction query (i + 1)) ∨
      i + 1 = (h.hits direction query).length ∧ p.rings = 1 ∧ k'.At h direction query i := by
  obtain ⟨n, hhit, hfound, hn⟩ := hk.exists_found hquery
  obtain ⟨hentries, hheading, hshown, rfl, hat, hlt⟩ := hk
  have hlt := hlt hquery
  have hproceed : k.proceed direction = k.history.pick k.search.query
      ((k.history.places direction).drop (k.history.rank direction n + 1)) := by
    rw [proceed, if_pos hheading, History.searchAgain_eq hfound hn, hheading]
  have hbehind := History.filter_drop_rank_succ hhit
  rw [History.hits_congr hentries] at hbehind
  rcases k.history.pick_cases k.search.query
      ((k.history.places direction).drop (k.history.rank direction n + 1)) with
    ⟨hnone, hpick⟩ | ⟨n', t, hhead, -, -, hpick⟩
  · rw [hbehind, List.head?_drop, List.getElem?_eq_none_iff] at hnone
    rcases hnext.of_command hbound with ⟨hempty, -⟩ | ⟨-, h', t, hsome, -⟩ | ⟨-, -, hrings, rfl⟩
    · exact absurd hempty hquery
    · cases (hproceed.trans hpick).symm.trans hsome
    · exact .inr ⟨by omega, hrings, hentries, rfl, rfl, rfl, hat, fun _ => hlt⟩
  · rw [hbehind, List.head?_drop] at hhead
    obtain ⟨hlt', -⟩ := List.getElem?_eq_some_iff.1 hhead
    rcases hnext.of_command hbound with ⟨hempty, -⟩ | ⟨-, h', t', hsome, hrings, rfl⟩ | ⟨-, hnone, -⟩
    · exact absurd hempty hquery
    · cases (hproceed.trans hpick).symm.trans hsome
      refine .inl ⟨hlt', hrings, hentries, hheading, rfl, rfl, ?_, fun _ => hlt'⟩
      rw [if_neg hquery, hhead]
    · rw [hproceed.trans hpick] at hnone
      cases hnone

/-- So many keys of the direction go on by as many hits, as far as there are any. -/
theorem At.follows_stepped (hfollows : Follows k ps k') (hquery : query ≠ [])
    (hkeys : ∀ p ∈ ps, p.bound = some direction.command) (hk : k.At h direction query i) :
    k'.At h direction query (min (i + ps.length) ((h.hits direction query).length - 1)) ∧
      (ps.map Press.rings).sum = i + ps.length - ((h.hits direction query).length - 1) := by
  induction hfollows generalizing i with
  | nil k =>
    have hlt := hk.isHit hquery
    rw [List.length_nil, Nat.add_zero, Nat.min_eq_left (by omega)]
    exact ⟨hk, by rw [List.map_nil, List.sum_nil]; omega⟩
  | @cons k k₁ k' p ps hnext _ ih =>
    have hrest : ∀ p ∈ ps, p.bound = some direction.command :=
      fun p hp => hkeys p (List.mem_cons_of_mem _ hp)
    rw [List.map_cons, List.sum_cons, List.length_cons]
    rcases hk.stepped hquery (hkeys p (List.mem_cons_self ..)) hnext with
      ⟨hlt, hrings, hk₁⟩ | ⟨hlast, hrings, hk₁⟩
    · obtain ⟨hk', hsum⟩ := ih hrest hk₁
      have hplace : i + 1 + ps.length = i + (ps.length + 1) := by omega
      rw [hplace] at hk' hsum
      exact ⟨hk', by omega⟩
    · obtain ⟨hk', hsum⟩ := ih hrest hk₁
      have hplace : min (i + ps.length) ((h.hits direction query).length - 1) =
          min (i + (ps.length + 1)) ((h.hits direction query).length - 1) := by omega
      rw [hplace] at hk'
      exact ⟨hk', by omega⟩

/-- Without a query the keys of the direction do nothing. -/
theorem At.follows_idle (hfollows : Follows k ps k')
    (hkeys : ∀ p ∈ ps, p.bound = some direction.command) (hk : k.At h direction [] 0) :
    k'.At h direction [] 0 ∧ (ps.map Press.rings).sum = 0 := by
  induction hfollows with
  | nil k => exact ⟨hk, rfl⟩
  | @cons k k₁ k' p ps hnext _ ih =>
    obtain ⟨hentries, hheading, hshown, hquery, hat, hlt⟩ := hk
    rcases hnext.of_command (hkeys p (List.mem_cons_self ..)) with
      ⟨-, hrings, rfl⟩ | ⟨hne, -⟩ | ⟨hne, -⟩
    · obtain ⟨hk', hsum⟩ := ih (fun p hp => hkeys p (List.mem_cons_of_mem _ hp))
        ⟨hentries, hheading, rfl, hquery, hat, hlt⟩
      exact ⟨hk', by rw [List.map_cons, List.sum_cons, hrings, hsum]⟩
    · exact absurd hquery hne
    · exact absurd hquery hne

/-! ### From the first key on -/

/-- A search is begun on an empty line, characters are typed and the key of the direction is pressed again
some times. -/
theorem Runs.at_hit {cs : Text} {steps : Nat} {first again : KeyEvent} (hruns : Runs h [] ps k)
    (hkeys : ps.map Press.key = (first, some direction.command) ::
      cs.map (fun c => (.char c, none)) ++ List.replicate steps (again, some direction.command))
    (haccepted : h.accepted [] cs = query) :
    (query = [] → k.At h direction query 0 ∧ (ps.map Press.rings).sum = cs.length) ∧
      (query ≠ [] → k.At h direction query (min steps ((h.hits direction query).length - 1)) ∧
        (ps.map Press.rings).sum =
          (cs.length - query.length) + (steps - ((h.hits direction query).length - 1))) := by
  cases hruns with
  | @begun event direction' ps k hfollows =>
    rw [List.map_cons, List.cons_append] at hkeys
    obtain ⟨hfirst, hrest⟩ := List.cons.inj hkeys
    obtain rfl : direction' = direction :=
      Direction.command_injective (Option.some.inj (congrArg Prod.snd hfirst))
    obtain ⟨typed, stepped, rfl, htyped, hstepped⟩ := List.map_eq_append_iff.1 hrest
    obtain ⟨k₁, hfollows₁, hfollows₂⟩ := hfollows.split
    have hbegin : (begin h [] direction').At h direction' [] 0 :=
      ⟨rfl, rfl, rfl, rfl, rfl, fun hne => absurd rfl hne⟩
    obtain ⟨hk₁, hsum₁⟩ := hbegin.follows_typed hfollows₁ htyped
    rw [haccepted] at hk₁ hsum₁
    have hbound : ∀ p ∈ stepped, p.bound = some direction'.command := by
      intro p hp
      have hkey : p.key ∈ stepped.map Press.key := List.mem_map_of_mem hp
      rw [hstepped] at hkey
      exact congrArg Prod.snd (List.eq_of_mem_replicate hkey)
    have hlength : stepped.length = steps := by
      rw [← List.length_map Press.key, hstepped, List.length_replicate]
    rw [List.map_cons, List.sum_cons, List.map_append, List.sum_append]
    dsimp only
    constructor
    · rintro rfl
      obtain ⟨hk, hsum₂⟩ := hk₁.follows_idle hfollows₂ hbound
      simp only [List.length_nil, Nat.add_zero, Nat.zero_add] at hsum₁
      exact ⟨hk, by omega⟩
    · intro hne
      obtain ⟨hk, hsum₂⟩ := hk₁.follows_stepped hfollows₂ hne hbound
      rw [Nat.zero_add, hlength] at hk hsum₂
      simp only [List.length_nil, Nat.zero_add] at hsum₁
      exact ⟨hk, by omega⟩

end Seeking

end LineEditor
