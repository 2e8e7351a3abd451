import LineEditor.Proofs.Session.Shown

/-!
Searches and the screen. While a search has the focus its own prompt is on the screen, in front of
the result; a search that is over leaves the result behind the current prompt.

Main statement: `Ready.search`, which puts together what is drawn in the two cases.
-/
namespace LineEditor.Desk

variable {d : Desk} {style : BellStyle} {s : Screen} {own : Bool} {q : Search}

/-- A search goes on with a plain query and result, and nothing is drawn but the bell. -/
theorem Ready.takeMatch {r : History × Option Text} (h : d.Ready style s own) (hq : q.Plain)
    (hr : d.history.Fetches r) :
    (d.takeMatch q r).1.Plain ∧ (d.takeMatch q r).2.Ready style s own := by
  obtain ⟨hentries, hmatch⟩ := hr.plain h.plain.history
  unfold Desk.takeMatch
  dsimp only
  split
  · rename_i t ht
    exact ⟨⟨hq.query, fun u hu => hmatch u (ht.trans hu)⟩, h.setHistory hentries⟩
  · exact ⟨hq, (h.setHistory hentries).bell⟩

theorem Ready.searchOn (h : d.Ready style s own) (hq : q.Plain) (heading : Direction) :
    (d.searchOn q heading).1.Plain ∧ (d.searchOn q heading).2.Ready style s own := by
  have hstep : ∀ r : Search × Desk, r.1.Plain ∧ r.2.Ready style s own →
      { r.1 with direction := heading : Search }.Plain ∧ r.2.Ready style s own :=
    fun r hr => ⟨⟨hr.1.query, hr.1.result⟩, hr.2⟩
  unfold Desk.searchOn
  dsimp only
  split
  · exact hstep (q, d) ⟨hq, h⟩
  · split
    · exact hstep _ (h.takeMatch hq (History.fetches_searchAgain ..))
    · have haim : (d.history.aim heading).Fetches ((d.history.aim heading).search q.query) :=
        History.fetches_search ..
      exact hstep _ (h.takeMatch hq ⟨haim.entries_eq, haim.mem⟩)

theorem Ready.startSearch (h : d.Ready style s own) (hq : q.Plain) :
    (d.startSearch q).1.Plain ∧ (d.startSearch q).2.Ready style s own := by
  have haim : { d with history := d.history.resetSearch.aim q.direction }.Ready style s own :=
    h.setHistory h.plain.history
  unfold Desk.startSearch
  dsimp only
  generalize hd : (if d.keymap.isViCommand then
    { d with history := d.history.resetSearch.aim q.direction }.setVi .insert
    else { d with history := d.history.resetSearch.aim q.direction }) = d'
  have hstart : d'.Ready style s own := by
    rw [← hd]
    split
    · exact haim.setVi _
    · exact haim
  split
  · exact ⟨⟨hq.query, hq.result⟩, hstart⟩
  · obtain ⟨hentries, hmatch⟩ :=
      (History.fetches_search d'.history d'.session.buffer.text).plain hstart.plain.history
    exact ⟨⟨hstart.plain.frame.buffer, hmatch⟩, hstart.setHistory hentries⟩

theorem Ready.extendSearch (h : d.Ready style s own) (hq : q.Plain) :
    (d.extendSearch q).1.Plain ∧ (d.extendSearch q).2.Ready style s own := by
  obtain ⟨hentries, hmatch⟩ := (History.fetches_search d.history q.query).plain h.plain.history
  unfold Desk.extendSearch
  dsimp only
  split
  · rename_i t ht
    exact ⟨⟨hq.query, fun u hu => hmatch u (ht.trans hu)⟩, h.setHistory hentries⟩
  · refine ⟨⟨?_, hq.result⟩, (h.setHistory hentries).bell⟩
    exact hq.query.of_subset (List.dropLast_subset _)

theorem Ready.shortenSearch (h : d.Ready style s own) (hq : q.Plain) :
    (d.shortenSearch q).1.Plain ∧ (d.shortenSearch q).2.Ready style s own := by
  have hquery : Text.Plain q.query.dropLast := hq.query.of_subset (List.dropLast_subset _)
  obtain ⟨hentries, hmatch⟩ :=
    (History.fetches_search d.history q.query.dropLast).plain h.plain.history
  unfold Desk.shortenSearch
  dsimp only
  split
  · exact ⟨⟨hquery, fun t ht => absurd ht (by simp)⟩, h.setHistory h.plain.history⟩
  · refine ⟨⟨hquery, fun t ht => ?_⟩, h.setHistory hentries⟩
    rcases Option.or_eq_some_iff.1 ht with hfound | ⟨-, hkept⟩
    · exact hmatch t hfound
    · exact hq.result t hkept

theorem Ready.showNeighbour {r : History × Option Text} (h : d.Ready style s true) (hq : q.Plain)
    (hr : d.history.Fetches r) (hfits : (d.showNeighbour q r).Fits) :
    (d.showNeighbour q r).Ready style s own := by
  obtain ⟨hentries, hline⟩ := hr.plain h.plain.history
  refine (h.setHistory hentries).refresh ?_ hfits
  split
  · rename_i line hr
    exact hline line hr
  · exact hq.resultBuffer

/-- The first step leads on to the query; all others do what the last key asked for. -/
theorem keepsFocus_searchStep (d : Desk) (q : Search) :
    (d.searchStep q).1.keepsFocus = (decide (q.status = .notStarted) || q.keepsFocus) := by
  have hmatch : ∀ (d : Desk) (q : Search) (r : History × Option Text),
      (d.takeMatch q r).1.status = q.status := by
    intro d q r
    unfold Desk.takeMatch
    dsimp only
    split <;> rfl
  have hon : ∀ heading, (d.searchOn q heading).1.status = q.status := by
    intro heading
    unfold Desk.searchOn
    dsimp only
    split
    · rfl
    · split
      · exact hmatch ..
      · exact hmatch ..
  have hstatus : (d.searchStep q).1.status =
      if q.status = .notStarted then .input else q.status := by
    unfold Desk.searchStep
    split
    case h_1 h =>
      rw [if_pos h]
      unfold Desk.startSearch
      dsimp only
      split <;> split <;> rfl
    case h_2 h =>
      rw [if_neg (by rw [h]; decide)]
      unfold Desk.extendSearch
      dsimp only
      split <;> rfl
    case h_3 h => rw [if_neg (by rw [h]; decide), hon]
    case h_4 h => rw [if_neg (by rw [h]; decide), hon]
    case h_5 h =>
      rw [if_neg (by rw [h]; decide)]
      unfold Desk.shortenSearch
      dsimp only
      split <;> rfl
    all_goals
      rename_i h
      rw [if_neg (by rw [h]; decide)]
  unfold Search.keepsFocus
  rw [hstatus]
  cases q.status <;> rfl

/-- A search that keeps the focus has not drawn anything yet. -/
theorem Ready.searchStep_keeps (h : d.Ready style s true) (hq : q.Plain)
    (hkeeps : (d.searchStep q).1.keepsFocus = true) :
    (d.searchStep q).1.Plain ∧ (d.searchStep q).2.Ready style s true := by
  rw [keepsFocus_searchStep] at hkeeps
  obtain ⟨direction, status, query, result⟩ := q
  cases status
  case notStarted => exact h.startSearch hq
  case input => exact h.extendSearch hq
  case previous => exact h.searchOn hq _
  case next => exact h.searchOn hq _
  case delete => exact h.shortenSearch hq
  all_goals cases hkeeps

/-- A search that is over shows its result behind the current prompt. -/
theorem Ready.searchStep_leaves (h : d.Ready style s true) (hq : q.Plain)
    (hleaves : (d.searchStep q).1.keepsFocus = false) (hfits : (d.searchStep q).2.Fits) :
    (d.searchStep q).2.Ready style s false := by
  rw [keepsFocus_searchStep] at hleaves
  obtain ⟨direction, status, query, result⟩ := q
  cases status
  case accept =>
    unfold Desk.searchStep at hfits ⊢
    dsimp only at hfits ⊢
    cases result with
    | none => exact h.refresh hq.resultBuffer hfits
    | some t => exact (h.refresh hq.resultBuffer hfits).setQueue _
  case exit => exact h.refresh hq.resultBuffer hfits
  case moveRight => exact h.refresh hq.resultBuffer hfits
  case interrupt => exact h.refresh Text.plain_nil hfits
  case movePrevious => exact h.showNeighbour hq (History.fetches_previous _) hfits
  case moveNext => exact h.showNeighbour hq (History.fetches_next _) hfits
  all_goals cases hleaves

/-- A search applied either shows itself behind a prompt of its own or is over. -/
theorem Ready.search (h : d.Ready style s true) (hq : q.Plain) (hfits : (d.search q).2.Fits) :
    (d.search q).1.keepsFocus = true ∧ (d.search q).1.Plain ∧ (d.search q).2.Ready style s true ∨
      (d.search q).1.keepsFocus = false ∧ (d.search q).2.Ready style s false := by
  unfold Desk.search at hfits ⊢
  dsimp only at hfits ⊢
  cases hkeeps : (d.searchStep q).1.keepsFocus with
  | true =>
    rw [hkeeps, if_pos rfl] at hfits
    obtain ⟨hplain, hready⟩ := h.searchStep_keeps hq hkeeps
    have hshown : ((d.searchStep q).2.showSearch (d.searchStep q).1).Ready style s true :=
      hready.refreshWith hplain.prompt hplain.shownBuffer (fun hown => by cases hown) hfits
    rw [if_pos rfl]
    exact Or.inl ⟨rfl, hplain, hshown.resume⟩
  | false =>
    rw [hkeeps, if_neg (by decide)] at hfits
    have hready := h.searchStep_leaves hq hkeeps hfits
    have hreset : (d.searchStep q).2.history.resetSearch.Plain := hready.plain.history
    rw [if_neg (by decide)]
    exact Or.inr ⟨rfl, ((hready.log ..).setHistory hreset).resume⟩

end LineEditor.Desk
