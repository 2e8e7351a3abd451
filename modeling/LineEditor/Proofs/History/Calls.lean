import Mathlib.Data.List.Destutter
import LineEditor.Proofs.Session.Hits
import LineEditor.Reply

/-!
What any calls leave of a history. Its entries are the newest of the lines that were pushed, without the
blank ones and without repeats; both cursors stay at entries, so no search looks where there is none; and a
search comes to the nearest entry with the query in it, or changes nothing.

Main definitions: `HistoryCall.pushed` and `History.storable`, the lines that are kept of some calls, and
`History.Finds`, what a search from a place comes to. Main statements: `Sound.run`, what one call preserves,
and `sound_of_calls`, what holds after any calls.
-/
namespace LineEditor

namespace HistoryCall

/-- The lines pushed since the last clearing, with one call more. -/
def note (lines : List Text) : HistoryCall → List Text
  | push line => lines ++ [line]
  | clear => []
  | _ => lines

/-- The lines that some calls pushed since the last of them that cleared the history. -/
def pushed (calls : List HistoryCall) : List Text := calls.foldl note []

/-- A history after some calls. -/
def runAll (h : History) (calls : List HistoryCall) : History := calls.foldl (fun h c => (c.run h).1) h

end HistoryCall

/-- Whether a search in a direction that starts at one place comes to another. -/
def Direction.Reaches (direction : Direction) (start n : Nat) : Prop :=
  n = start ∨ direction.Leads start n

namespace History

/-- Lines without the blank ones, and then without those that repeat the one before them. -/
def storable (lines : List Text) : List Text :=
  (lines.filter fun line => !line.all Text.isSpace).destutter (· ≠ ·)

/-- The place that a search looks at first: that of the last found entry, or the end from which its
direction leads. -/
def searchStart? (h : History) : Option Nat :=
  if h.entries = [] then none
  else match h.found, h.direction with
    | some n, _ => some n
    | none, .reverse => some (h.entries.length - 1)
    | none, .forward => some 0

/-- The place that searching on looks at first: the one behind that of the last found entry. -/
def searchAgainStart? (h : History) : Option Nat :=
  match h.found, h.direction with
  | none, _ => h.searchStart?
  | some 0, .reverse => none
  | some (n + 1), .reverse => some n
  | some n, .forward => if n + 1 < h.entries.length then some (n + 1) else none

/-- A search from a place, if there is one to start from. -/
def scanFrom (h : History) (query : Text) : Option Nat → History × Option Text
  | none => (h, none)
  | some start => h.scan query start

/-- What a search from a place comes to: no entry that it reaches has the query in it, and nothing changes;
or the nearest that has it is given, and both cursors are set to it. -/
inductive Finds (h : History) (query : Text) (start? : Option Nat) : History × Option Text → Prop
  | nothing (hnone : ∀ start ∈ start?, ∀ n t, h.direction.Reaches start n → h.get? n = some t →
      ¬ query <:+: t) : Finds h query start? (h, none)
  | nearest {start n : Nat} {t : Text} (hstart : start? = some start)
      (hreaches : h.direction.Reaches start n) (hentry : h.get? n = some t) (hmatch : query <:+: t)
      (hfirst : ∀ m u, h.direction.Reaches start m → h.get? m = some u → query <:+: u →
        h.direction.Reaches n m) :
      Finds h query start? ({ h with found := some n, fetched := n }, some t)

/-- A history after calls that pushed some lines: these are stored, and both cursors are at entries, or the
one for fetching is past the newest. -/
structure Sound (limit : Nat) (lines : List Text) (h : History) : Prop where
  limit_eq : h.limit = max limit 1
  entries_eq : h.entries = newest h.limit (storable lines)
  fetched_le : h.fetched ≤ h.entries.length
  found_lt : ∀ n, h.found = some n → n < h.entries.length

variable {h : History} {limit n start : Nat} {lines : List Text} {line query : Text}

/-! ### Stored lines -/

/-- One element more is kept unless it repeats the last one. -/
theorem destutter'_concat (a x : Text) (ts : List Text) :
    (ts ++ [x]).destutter' (· ≠ ·) a =
      if (ts.destutter' (· ≠ ·) a).getLast? = some x then ts.destutter' (· ≠ ·) a
      else ts.destutter' (· ≠ ·) a ++ [x] := by
  induction ts generalizing a with
  | nil => by_cases hx : a = x <;> simp [hx]
  | cons b ts ih =>
    by_cases hb : a = b
    · subst hb
      rw [List.cons_append, List.destutter'_cons_neg _ (not_not.2 rfl),
        List.destutter'_cons_neg _ (not_not.2 rfl), ih]
    · have hne : ts.destutter' (· ≠ ·) b ≠ [] := List.destutter'_ne_nil _ _
      rw [List.cons_append, List.destutter'_cons_pos _ hb, List.destutter'_cons_pos _ hb, ih,
        List.getLast?_cons_of_ne_nil hne]
      split <;> rfl

theorem storable_concat (lines : List Text) (line : Text) :
    storable (lines ++ [line]) =
      if stores (storable lines) line then storable lines ++ [line] else storable lines := by
  have hconcat : ∀ ts : List Text, (ts ++ [line]).destutter (· ≠ ·) =
      if (ts.destutter (· ≠ ·)).getLast? = some line then ts.destutter (· ≠ ·)
      else ts.destutter (· ≠ ·) ++ [line] := by
    intro ts
    cases ts with
    | nil => simp
    | cons a ts => exact destutter'_concat a line ts
  rw [storable, List.filter_append]
  by_cases hblank : line.all Text.isSpace = true
  · simp only [stores, storable, Text.isBlank, hblank, List.filter_cons, List.filter_nil,
      Bool.not_true, Bool.false_and, Bool.false_eq_true, if_false, List.append_nil]
  · rw [Bool.not_eq_true] at hblank
    have hkept : [line].filter (fun line => !line.all Text.isSpace) = [line] := by
      rw [List.filter_cons, hblank]
      rfl
    rw [hkept, hconcat, ← storable.eq_1]
    by_cases hrepeats : (storable lines).getLast? = some line
    · simp [stores, Text.isBlank, hblank, hrepeats]
    · simp [stores, Text.isBlank, hblank, hrepeats]

/-- A blank line does not keep its neighbours apart. -/
example : storable [['a'], [' '], ['a'], ['b'], ['a']] = [['a'], ['b'], ['a']] := by decide +kernel

/-- The newest line is kept. -/
theorem getLast?_newest (hlimit : 0 < limit) (lines : List Text) :
    (newest limit lines).getLast? = lines.getLast? := by
  rw [newest, List.getLast?_drop]
  split
  · have hempty : lines.length = 0 := by omega
    rw [List.length_eq_zero_iff.1 hempty]
    rfl
  · rfl

/-- The newest lines may be taken before or after one more is added. -/
theorem newest_concat (limit : Nat) (lines : List Text) (line : Text) :
    newest limit (newest limit lines ++ [line]) = newest limit (lines ++ [line]) := by
  rcases Nat.le_total lines.length limit with hfew | hmany
  · have hall : newest limit lines = lines := by rw [newest, Nat.sub_eq_zero_of_le hfew, List.drop_zero]
    rw [hall]
  · have hlength : (newest limit lines).length = limit := by
      rw [newest, List.length_drop]
      omega
    have hone : limit + 1 - limit = 1 := by omega
    have hmore : lines.length + 1 - limit = lines.length - limit + 1 := by omega
    rw [newest, List.length_append, hlength, List.length_singleton, hone, newest, newest,
      List.length_append, List.length_singleton, hmore, ← List.drop_drop,
      List.drop_append_of_le_length (Nat.sub_le ..)]

/-! ### One call -/

theorem sound_new (limit : Nat) : Sound limit [] (new limit) :=
  ⟨rfl, (List.drop_nil).symm, Nat.le_refl 0, nofun⟩

/-- A call that leaves the lines and sets the cursors to entries. -/
theorem Sound.of_entries {h' : History} (hs : Sound limit lines h) (hlimit : h'.limit = h.limit)
    (hentries : h'.entries = h.entries) (hfetched : h'.fetched ≤ h.entries.length)
    (hfound : ∀ n, h'.found = some n → n < h.entries.length) : Sound limit lines h' :=
  ⟨hlimit.trans hs.limit_eq, by rw [hentries, hlimit, hs.entries_eq], by rwa [hentries],
    by rwa [hentries]⟩

/-- A line that is pushed is stored behind the others, or is blank or repeats the newest one. -/
theorem Sound.push (hs : Sound limit lines h) (line : Text) :
    Sound limit (lines ++ [line]) (h.push line) := by
  have hlimit : 0 < h.limit := by
    rw [hs.limit_eq]
    exact Nat.lt_of_lt_of_le Nat.one_pos (Nat.le_max_right ..)
  have hstores : stores h.entries line = stores (storable lines) line := by
    rw [stores, stores, hs.entries_eq, getLast?_newest hlimit]
  rw [History.push, hstores]
  split
  · rename_i hstored
    have hentries : newest h.limit (h.entries ++ [line]) = newest h.limit (storable lines ++ [line]) := by
      rw [hs.entries_eq, newest_concat]
    refine ⟨hs.limit_eq, ?_, Nat.le_refl _, nofun⟩
    rw [storable_concat, if_pos hstored]
    exact hentries
  · rename_i hdropped
    refine ⟨hs.limit_eq, ?_, Nat.le_refl _, nofun⟩
    rw [storable_concat, if_neg hdropped]
    exact hs.entries_eq

/-- A search finds an entry or nothing. -/
theorem Sound.found {r : History × Option Text} (hs : Sound limit lines h)
    (hr : r = (h, none) ∨ ∃ n t, h.get? n = some t ∧ query <:+: t ∧
      r = ({ h with found := some n, fetched := n }, some t)) : Sound limit lines r.1 := by
  obtain rfl | ⟨n, t, hentry, -, rfl⟩ := hr
  · exact hs
  · have hlt := lt_length_of_get? hentry
    refine hs.of_entries rfl rfl (Nat.le_of_lt hlt) fun m hm => ?_
    obtain rfl := Option.some.inj hm
    exact hlt

theorem Sound.run (hs : Sound limit lines h) (c : HistoryCall) :
    Sound limit (c.note lines) (c.run h).1 := by
  cases c with
  | push line => exact hs.push line
  | clear => exact ⟨hs.limit_eq, (List.drop_nil).symm, Nat.le_refl _, nofun⟩
  | previous =>
    change Sound limit lines h.previous.1
    rw [History.previous]
    split
    · exact hs
    · exact hs.of_entries rfl rfl (by dsimp only; omega) hs.found_lt
  | next =>
    change Sound limit lines h.next.1
    rw [History.next]
    split
    · exact hs.of_entries rfl rfl (Nat.le_refl _) hs.found_lt
    · exact hs.of_entries rfl rfl (by dsimp only; omega) hs.found_lt
  | resetFetch => exact hs.of_entries rfl rfl (Nat.le_refl _) hs.found_lt
  | resetSearch => exact hs.of_entries rfl rfl hs.fetched_le nofun
  | aim d => exact hs.of_entries rfl rfl hs.fetched_le hs.found_lt
  | search query => exact hs.found (h.search_cases query)
  | searchAgain query => exact hs.found (h.searchAgain_cases query)
  | get | length | isEmpty | direction | all => exact hs

theorem sound_runAll (limit : Nat) (calls : List HistoryCall) :
    Sound limit (HistoryCall.pushed calls) (HistoryCall.runAll (new limit) calls) := by
  have hkept : ∀ (calls : List HistoryCall) (lines : List Text) (h : History), Sound limit lines h →
      Sound limit (calls.foldl HistoryCall.note lines) (HistoryCall.runAll h calls) := by
    intro calls
    induction calls with
    | nil => exact fun _ _ hs => hs
    | cons c calls ih => exact fun lines h hs => ih _ _ (hs.run c)
  exact hkept calls [] _ (sound_new limit)

/-! ### Searches -/

/-- What is looked at from a place on is what is reached from it, all of it entries. -/
theorem mem_searchOrder (hstart : start < h.entries.length) :
    n ∈ h.searchOrder start ↔ n < h.entries.length ∧ h.direction.Reaches start n := by
  rw [searchOrder, Direction.Reaches]
  cases h.direction with
  | reverse =>
    simp only [List.mem_reverse, List.mem_range, Direction.Leads]
    omega
  | forward =>
    simp only [List.mem_drop_iff_getElem, List.getElem_range, List.length_range, Direction.Leads]
    constructor
    · rintro ⟨i, hi, rfl⟩
      omega
    · rintro ⟨hn, hreaches⟩
      exact ⟨n - start, by omega, by omega⟩

theorem pairwise_searchOrder (hstart : start < h.entries.length) :
    (h.searchOrder start).Pairwise h.direction.Leads := by
  rw [searchOrder_eq hstart]
  exact (h.pairwise_places h.direction).drop

/-- A search from an entry. -/
theorem finds_scan (hstart : start < h.entries.length) (query : Text) :
    Finds h query (some start) (h.scan query start) := by
  have hscan : h.scan query start = h.pick query (h.searchOrder start) := rfl
  rw [hscan, pick]
  cases hfind : (h.searchOrder start).find? (h.holds query) with
  | none =>
    refine .nothing fun start' hstart' n t hreaches hentry hmatch => ?_
    obtain rfl := Option.some.inj hstart'
    have hmem := (mem_searchOrder hstart).2 ⟨lt_length_of_get? hentry, hreaches⟩
    exact List.find?_eq_none.1 hfind n hmem (holds_iff.2 ⟨t, hentry, hmatch⟩)
  | some n =>
    obtain ⟨hholds, before, behind, horder, hbefore⟩ := List.find?_eq_some_iff_append.1 hfind
    obtain ⟨t, hentry, hmatch⟩ := holds_iff.1 hholds
    have hpairwise := pairwise_searchOrder hstart
    have hmem : n ∈ h.searchOrder start := List.mem_of_find?_eq_some hfind
    dsimp only
    rw [hentry]
    refine .nearest rfl ((mem_searchOrder hstart).1 hmem).2 hentry hmatch ?_
    intro m u hreaches hm hmatch'
    have hmem' := (mem_searchOrder hstart).2 ⟨lt_length_of_get? hm, hreaches⟩
    rw [horder] at hmem' hpairwise
    -- what comes before has no match, so the other match is this one or behind it
    rcases List.mem_append.1 hmem' with hpassed | hleft
    · have hno := hbefore m hpassed
      rw [holds_iff.2 ⟨u, hm, hmatch'⟩] at hno
      cases hno
    · rcases List.mem_cons.1 hleft with rfl | hbehind
      · exact .inl rfl
      · exact .inr (List.rel_of_pairwise_cons (List.pairwise_append.1 hpairwise).2.1 hbehind)

theorem finds_scanFrom {start? : Option Nat} (hstart : ∀ start ∈ start?, start < h.entries.length)
    (query : Text) : Finds h query start? (h.scanFrom query start?) := by
  cases start? with
  | none => exact .nothing nofun
  | some start => exact finds_scan (hstart start rfl) query

theorem Sound.search_eq (hs : Sound limit lines h) (query : Text) :
    h.search query = h.scanFrom query h.searchStart? := by
  rw [search, searchStart?]
  by_cases hempty : h.entries = []
  · rw [if_pos hempty, if_pos (List.isEmpty_iff.2 hempty)]
    rfl
  · rw [if_neg hempty, if_neg (fun hnone => hempty (List.isEmpty_iff.1 hnone))]
    cases hfound : h.found with
    | none => cases h.direction <;> rfl
    | some n =>
      have hlt := hs.found_lt n hfound
      have hmin : min n (h.entries.length - 1) = n := by omega
      dsimp only
      rw [hmin]
      rfl

theorem Sound.searchAgain_eq (hs : Sound limit lines h) (query : Text) :
    h.searchAgain query = h.scanFrom query h.searchAgainStart? := by
  rw [searchAgain, searchAgainStart?]
  cases hfound : h.found with
  | none => exact hs.search_eq query
  | some n =>
    cases h.direction with
    | reverse => cases n <;> rfl
    | forward =>
      have hnext : (if h.entries.length ≤ n + 1 then (h, none) else h.scan query (n + 1)) =
          h.scanFrom query (if n + 1 < h.entries.length then some (n + 1) else none) := by
        by_cases hlt : n + 1 < h.entries.length
        · rw [if_pos hlt, if_neg (Nat.not_le.2 hlt)]
          rfl
        · rw [if_neg hlt, if_pos (Nat.not_lt.1 hlt)]
          rfl
      cases n <;> exact hnext

/-- A search starts at an entry. -/
theorem Sound.searchStart_lt (hs : Sound limit lines h) :
    ∀ start ∈ h.searchStart?, start < h.entries.length := by
  intro start hstart
  rw [searchStart?] at hstart
  split at hstart
  · cases hstart
  · rename_i hne
    have hpos := List.length_pos_iff.2 hne
    split at hstart <;> cases hstart
    · rename_i hfound
      exact hs.found_lt _ hfound
    · exact Nat.sub_lt hpos Nat.one_pos
    · exact hpos

theorem Sound.searchAgainStart_lt (hs : Sound limit lines h) :
    ∀ start ∈ h.searchAgainStart?, start < h.entries.length := by
  intro start hstart
  rw [searchAgainStart?] at hstart
  split at hstart
  · exact hs.searchStart_lt start hstart
  · cases hstart
  · rename_i hfound _
    cases hstart
    exact Nat.lt_of_succ_lt (hs.found_lt _ hfound)
  · split at hstart <;> cases hstart
    assumption

/-- After any calls a history has the last of the lines that were pushed since it was last cleared, as many
as its limit allows, without the blank ones and then without repeats. Its cursors are at entries, the one for fetching at most past the
newest, and not there when a step back would count down from nothing. A search looks at entries only: it
finds the nearest with the query in it, from the last found one or the end on, and searching on finds the
nearest behind the last found one. -/
theorem sound_of_calls (limit : Nat) (calls : List HistoryCall) (query : Text) :
    let h := HistoryCall.runAll (new limit) calls
    let stored := storable (HistoryCall.pushed calls)
    h.entries = stored.drop (stored.length - max limit 1) ∧
      h.fetched ≤ h.entries.length ∧ (∀ n ∈ h.found, n < h.entries.length) ∧
      (h.fetched ≠ 0 → 0 < min h.fetched h.entries.length) ∧
      (∀ start, start ∈ h.searchStart? ∨ start ∈ h.searchAgainStart? →
        ∀ n ∈ h.searchOrder start, n < h.entries.length) ∧
      h.search query = h.scanFrom query h.searchStart? ∧
      Finds h query h.searchStart? (h.search query) ∧
      h.searchAgain query = h.scanFrom query h.searchAgainStart? ∧
      Finds h query h.searchAgainStart? (h.searchAgain query) := by
  intro h stored
  have hs : Sound limit (HistoryCall.pushed calls) h := sound_runAll limit calls
  have hfetched := hs.fetched_le
  refine ⟨?_, hfetched, hs.found_lt, by omega, ?_, hs.search_eq query, ?_, hs.searchAgain_eq query, ?_⟩
  · rw [hs.entries_eq, hs.limit_eq, newest]
  · rintro start (hstart | hstart) n hn
    · exact ((mem_searchOrder (hs.searchStart_lt start hstart)).1 hn).1
    · exact ((mem_searchOrder (hs.searchAgainStart_lt start hstart)).1 hn).1
  · rw [hs.search_eq]
    exact finds_scanFrom hs.searchStart_lt query
  · rw [hs.searchAgain_eq]
    exact finds_scanFrom hs.searchAgainStart_lt query

/-- A full history of two lines has lost the oldest one, and a search from the end finds the older of the
two. -/
theorem sound_of_calls_full :
    let calls : List HistoryCall :=
      [.push ['a'], .push [' '], .push ['b'], .push ['b'], .push ['c']]
    let h := HistoryCall.runAll (new 2) calls
    h.entries = [['b'], ['c']] ∧
      h.search ['b'] = ({ h with found := some 0, fetched := 0 }, some ['b']) := by
  intro calls h
  have hstored : storable (HistoryCall.pushed calls) = [['a'], ['b'], ['c']] := by decide +kernel
  obtain ⟨hentries, -, -, -, -, hsearch, -⟩ := sound_of_calls 2 calls ['b']
  refine ⟨hentries.trans ?_, hsearch.trans ?_⟩
  · rw [hstored]
    rfl
  · decide +kernel

end History

end LineEditor
