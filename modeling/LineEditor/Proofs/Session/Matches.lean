import LineEditor.Proofs.Session.Seeking

/-!
What holds of a search at every key. Its result is the entry that the history found last, and is shown
with the cursor on the query; and the history is searched in the direction that the prompt names, until
the search is turned around without a query, which the history is not told.

Main definitions: `Search.Shows`, a match or nothing is shown, and `Search.TurnsIdly`, the keys that the
history is not told. Main statements: `Runs.shows` and `Next.aligned`.
-/
namespace LineEditor

/-- What a search shows of a history: the entry that was found last, with the cursor on the first place
where the query is in it, or nothing. -/
inductive Search.Shows (q : Search) (h : History) (b : Buffer) : Prop
  | found {i : Nat} {r : Text} (hresult : q.result = some r) (hfound : h.found = some i)
      (hentry : h.get? i = some r) (hfetched : h.fetched = i) (hmatch : q.query <:+: r)
      (htext : b.text = r) (hcursor : q.query <+: r.drop b.cursor)
      (hfirst : ∀ n < b.cursor, ¬ q.query <+: r.drop n)
  | nothing (hresult : q.result = none) (hfound : h.found = none) (hshown : b = .empty)

/-- The other direction. -/
def Direction.turned : Direction → Direction
  | .reverse => .forward
  | .forward => .reverse

namespace Search

/-- Whether a key turns a search around that has no query. -/
def TurnsIdly (q : Search) (bound : Option Command) : Prop :=
  q.query = [] ∧ bound = some q.direction.turned.command

instance (q : Search) (bound : Option Command) : Decidable (q.TurnsIdly bound) :=
  inferInstanceAs (Decidable (_ ∧ _))

variable {q : Search} {h : History} {i : Nat} {r : Text}

/-- The entry that was found is shown with the cursor on the query. -/
theorem shows_of_found (hresult : q.result = some r) (hfound : h.found = some i)
    (hentry : h.get? i = some r) (hfetched : h.fetched = i) (hmatch : q.query <:+: r) :
    q.Shows h q.shownBuffer := by
  obtain ⟨n, hn⟩ := Option.isSome_iff_exists.1 (Text.includes_iff.2 hmatch)
  obtain ⟨hcursor, hfirst⟩ := Text.indexOf?_eq_some_iff.1 hn
  have hle : n ≤ r.length := by
    by_contra hgt
    have hempty : q.query = [] := by
      rw [List.drop_eq_nil_of_le (by omega), List.prefix_nil] at hcursor
      exact hcursor
    rw [hempty] at hfirst
    exact hfirst 0 (by omega) List.nil_prefix
  have hshown : q.shownBuffer = ⟨r, n, hle⟩ := by
    rw [shownBuffer, hresult, Option.getD_some, hn, resultBuffer, hresult, Option.getD_some]
    exact Buffer.ext rfl (Nat.min_eq_left hle)
  rw [hshown]
  exact .found hresult hfound hentry hfetched hmatch rfl hcursor hfirst

theorem shows_nothing (hresult : q.result = none) (hfound : h.found = none) :
    q.Shows h q.shownBuffer := by
  refine .nothing hresult hfound ?_
  have hempty : ∀ n, q.resultBuffer.setCursor n = .empty := by
    intro n
    rw [resultBuffer, hresult]
    exact Buffer.ext rfl (Nat.min_zero n)
  rw [shownBuffer]
  split
  · exact hempty _
  · rw [resultBuffer, hresult]
    rfl

end Search

namespace Seeking

variable {k k' : Seeking} {p : Press} {ps : List Press} {h : History} {text : Text}

/-! ### The result is the found entry -/

/-- The result is the entry that was found and fetched last, and the query is in it. -/
inductive Stands (k : Seeking) : Prop
  | found {i : Nat} {r : Text} (hresult : k.search.result = some r) (hfound : k.history.found = some i)
      (hentry : k.history.get? i = some r) (hfetched : k.history.fetched = i)
      (hmatch : k.search.query <:+: r)
  | nothing (hresult : k.search.result = none) (hfound : k.history.found = none)

theorem Stands.shows (hk : k.Stands) : k.search.Shows k.history k.search.shownBuffer := by
  cases hk with
  | found hresult hfound hentry hfetched hmatch =>
    exact Search.shows_of_found hresult hfound hentry hfetched hmatch
  | nothing hresult hfound => exact Search.shows_nothing hresult hfound

/-- A match stands, whatever the search was before. -/
theorem stands_search {query : Text} {h' : History} {t : Text} {q : Search}
    (hfound : h.search query = (h', some t)) (hquery : q.query = query) (hresult : q.result = some t) :
    Stands ⟨h', q⟩ := by
  rcases h.search_cases query with hnone | ⟨n, t', hentry, hmatch, hsome⟩
  · cases hnone.symm.trans hfound
  · cases hsome.symm.trans hfound
    exact .found hresult rfl hentry rfl (hquery ▸ hmatch)

theorem stands_begin (h : History) (text : Text) (direction : Direction) :
    (begin h text direction).Stands := by
  rw [begin]
  split
  · exact .nothing rfl rfl
  · cases hsearch : (h.resetSearch.aim direction).search text with
    | mk h' o =>
      cases o with
      | some t => exact stands_search hsearch rfl rfl
      | none =>
        rcases (h.resetSearch.aim direction).search_cases text with hnone | ⟨n, t, -, -, hsome⟩
        · cases hnone.symm.trans hsearch
          exact .nothing rfl rfl
        · cases hsome.symm.trans hsearch

theorem Next.stands (hk : k.Stands) (hnext : k.Next p k') : k'.Stands := by
  cases hnext with
  | typed hprintable hfound => exact stands_search hfound rfl rfl
  | moved hquery hfound =>
    rcases k.proceed_cases _ with hnone | ⟨n, t, hentry, hmatch, hsome⟩
    · cases hnone.symm.trans hfound
    · cases hsome.symm.trans hfound
      exact .found rfl rfl hentry rfl hmatch
  | emptied hshort => exact .nothing rfl rfl
  | shortened hquery =>
    rcases k.history.search_cases k.search.query.dropLast with hnone | ⟨n, t, hentry, hmatch, hsome⟩
    · rw [hnone]
      cases hk with
      | found hresult hfound hentry hfetched hmatch =>
        have hshorter : k.search.query.dropLast <:+: k.search.query :=
          (List.dropLast_prefix _).isInfix
        exact .found hresult hfound hentry hfetched (hshorter.trans hmatch)
      | nothing hresult hfound => exact .nothing hresult hfound
    · rw [hsome]
      exact .found rfl rfl hentry rfl hmatch
  | dropped | aimed | stopped =>
    cases hk with
    | found hresult hfound hentry hfetched hmatch =>
      exact .found hresult hfound hentry hfetched hmatch
    | nothing hresult hfound => exact .nothing hresult hfound

theorem Follows.stands (hfollows : Follows k ps k') (hk : k.Stands) : k'.Stands := by
  induction hfollows with
  | nil k => exact hk
  | cons hnext _ ih => exact ih (hnext.stands hk)

/-- A search shows a match or nothing, whatever its keys were. -/
theorem Runs.shows (hruns : Runs h text ps k) : k.search.Shows k.history k.search.shownBuffer := by
  cases hruns with
  | begun hfollows => exact (hfollows.stands (stands_begin ..)).shows

/-! ### The direction that is searched in -/

/-- A search without a query turns around, and the history is left searching in the old direction. -/
theorem Next.of_turnsIdly (hidle : k.search.TurnsIdly p.bound) (hnext : k.Next p k') :
    k'.history = k.history ∧ k'.search.query = [] ∧ k'.search.result = k.search.result ∧
      k'.search.direction = k.search.direction.turned := by
  obtain ⟨hempty, hbound⟩ := hidle
  rcases hnext.of_command hbound with ⟨-, -, rfl⟩ | ⟨hquery, -⟩ | ⟨hquery, -⟩
  · exact ⟨rfl, hempty, rfl, rfl⟩
  · exact absurd hempty hquery
  · exact absurd hempty hquery

/-- Every other key leaves the history searching in the direction that the search shows, if it was. -/
theorem Next.aligned (hidle : ¬ k.search.TurnsIdly p.bound) (hnext : k.Next p k')
    (hk : k.history.direction = k.search.direction) : k'.history.direction = k'.search.direction := by
  have hsearch : ∀ (h : History) (query : Text), (h.search query).1.direction = h.direction := by
    intro h query
    rcases h.search_cases query with hnone | ⟨n, t, -, -, hsome⟩
    · rw [hnone]
    · rw [hsome]
  cases hnext with
  | @typed c h t hprintable hfound =>
    have hsame := hsearch k.history (k.search.query ++ [c])
    rw [hfound] at hsame
    exact hsame.trans hk
  | dropped => exact hk
  | @aimed event heading hempty =>
    -- only turning around would be told to the search alone
    have hsame : heading = k.search.direction := by
      by_contra hne
      refine hidle ⟨hempty, ?_⟩
      cases heading <;> cases hdirection : k.search.direction <;> rw [hdirection] at hne <;>
        first | exact absurd rfl hne | rfl
    exact hk.trans hsame.symm
  | moved hquery hfound =>
    rcases k.proceed_cases _ with hnone | ⟨n, t, -, -, hsome⟩
    · cases hnone.symm.trans hfound
    · cases hsome.symm.trans hfound
      rfl
  | stopped => rfl
  | emptied => rfl
  | shortened => exact (hsearch ..).trans hk

theorem begin_aligned (h : History) (text : Text) (direction : Direction) :
    (begin h text direction).history.direction = (begin h text direction).search.direction := by
  rw [begin]
  split
  · rfl
  · rcases (h.resetSearch.aim direction).search_cases text with hnone | ⟨n, t, -, -, hsome⟩
    · rw [hnone]
      rfl
    · rw [hsome]
      rfl

end Seeking

end LineEditor
