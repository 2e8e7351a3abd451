import LineEditor.Proofs.Buffer.Spans
import LineEditor.Proofs.Session.Candidates
import LineEditor.Proofs.Session.Groups
import LineEditor.Proofs.Session.Only

/-!
Completion from a list of words. The word at the cursor is only ever extended: by the rest of the only
word that starts with it and a space, or as far as all the words go on that start with it. An undo takes
the extension back, and completing again changes no text where several words go on.

Main definitions: `Buffer.WordAt`, the word at the cursor; `Completer.OnlyWord` and `Completer.SharedStart`,
what it is extended to; `Desk.Replaces`, an extension. Main statement: `Desk.extends_word`.
-/
namespace LineEditor

/-! ### The word at the cursor -/

namespace Buffer

/-- The word that ends at the cursor, and what stands before it; white space separates words. -/
structure WordAt (b : Buffer) (s w : Text) : Prop where
  before_eq : b.before = s ++ w
  spaceless : w.Only (Text.isSpace · = false)
  delimited : ∀ c ∈ s.getLast?, Text.isSpace c = true

variable {b : Buffer} {s w r : Text}

theorem wordStart_le (b : Buffer) : b.wordStart ≤ b.cursor := Nat.sub_le ..

theorem wordAt_word (b : Buffer) : b.WordAt (b.text.take b.wordStart) b.word := by
  have hsplit : b.before = b.text.take b.wordStart ++ b.word := by
    have htake : b.before.take b.wordStart = b.text.take b.wordStart := by
      rw [before, List.take_take, Nat.min_eq_left b.wordStart_le]
    rw [← htake, word, List.take_append_drop]
  refine ⟨hsplit, b.word_spaceless, fun c hc => ?_⟩
  have hrest : b.before.rdropWhile (fun c => !Text.isSpace c) ++ b.word = b.before := by
    rw [← rtakeWhile_before, List.rdropWhile_append_rtakeWhile]
  rw [← List.append_cancel_right (hrest.trans hsplit)] at hc
  obtain ⟨hne, rfl⟩ := List.mem_getLast?_eq_getLast hc
  simpa using List.rdropWhile_last_not (fun c => !Text.isSpace c) b.before hne

/-- There is one word at the cursor. -/
theorem WordAt.word_eq (h : b.WordAt s w) : b.word = w := by
  have hspace : List.takeWhile (fun c => !Text.isSpace c) s.reverse = [] := by
    cases hs : s.reverse with
    | nil => rfl
    | cons c rest =>
      have hlast : Text.isSpace c = true := h.delimited c (by rw [← List.head?_reverse, hs]; rfl)
      exact List.takeWhile_cons_of_neg (by simp [hlast])
  have hword : ∀ c ∈ w.reverse, (!Text.isSpace c) = true := by
    intro c hc
    rw [h.spaceless c (List.mem_reverse.1 hc)]
    rfl
  rw [← rtakeWhile_before, h.before_eq, List.rtakeWhile, List.reverse_append,
    List.takeWhile_append_of_pos hword, hspace, List.append_nil, List.reverse_reverse]

/-- The word at the cursor is cut out, and something insertable is inserted. -/
theorem insert_deleteRange_word (b : Buffer) (hr : r.Only (isInsertable · = true)) :
    (b.deleteRange b.wordStart b.cursor).1.insert r =
      .ok (ofSides (b.text.take b.wordStart ++ r) b.after) := by
  rw [deleteRange_eq b.wordStart_le (Nat.le_refl _) b.cursor_le, insert_eq_ok _ hr, before_ofSides,
    after_ofSides]
  rfl

end Buffer

/-! ### Extensions -/

namespace Completer

/-- The only one of some words that starts with a word. -/
structure OnlyWord (words : List Text) (w x : Text) : Prop where
  mem : x ∈ words
  isPrefix : w <+: x
  only : ∀ y ∈ words, w <+: y → y = x

/-- What all of some words that start with a word start with, if there are at least two and they go on. -/
structure SharedStart (words : List Text) (w p : Text) : Prop where
  several : ∃ x ∈ words, ∃ y ∈ words, w <+: x ∧ w <+: y ∧ x ≠ y
  start : Text.CommonStart (words.filter w.isPrefixOf) p
  longer : w.length < p.length

variable {words : List Text} {w p x : Text}

theorem commonStart_ofWords (h : (ofWords words).candidates w ≠ []) :
    Text.CommonStart (words.filter w.isPrefixOf) (commonStart ((ofWords words).candidates w)) := by
  have hsame : ∀ {P : Text → Prop}, (∀ t ∈ words.filter w.isPrefixOf, P t) ↔
      ∀ t ∈ (ofWords words).candidates w, P t := by
    intro P
    simp only [mem_ofWords, List.mem_filter, List.isPrefixOf_iff_prefix]
  obtain ⟨hextends, hlongest⟩ := commonStart_spec h
  exact ⟨hsame.2 hextends, fun q hq => hlongest q (hsame.1 hq)⟩

section Several

variable {y : Text} {rest : List Text} (hc : (ofWords words).candidates w = x :: y :: rest)

include hc

/-- Several candidates are several words. -/
theorem several_of_candidates : (x ∈ words ∧ w <+: x) ∧ (y ∈ words ∧ w <+: y) ∧ x ≠ y := by
  have hmem : ∀ {z}, z ∈ x :: y :: rest → z ∈ words ∧ w <+: z := by
    intro z hz
    rwa [← hc, mem_ofWords] at hz
  refine ⟨hmem (List.mem_cons_self ..), hmem (List.mem_cons_of_mem _ (List.mem_cons_self ..)), ?_⟩
  have hnodup := nodup_ofWords words w
  rw [hc, List.nodup_cons] at hnodup
  rintro rfl
  exact hnodup.1 (List.mem_cons_self ..)

theorem not_onlyWord_of_candidates (z : Text) : ¬ OnlyWord words w z := fun hz => by
  obtain ⟨⟨hx, hwx⟩, ⟨hy, hwy⟩, hne⟩ := several_of_candidates hc
  exact hne ((hz.only x hx hwx).trans (hz.only y hy hwy).symm)

theorem sharedStart_iff_of_candidates :
    SharedStart words w p ↔ p = commonStart (x :: y :: rest) ∧ w.length < p.length := by
  obtain ⟨⟨hx, hwx⟩, ⟨hy, hwy⟩, hne⟩ := several_of_candidates hc
  have hstart : Text.CommonStart (words.filter w.isPrefixOf) (commonStart (x :: y :: rest)) := by
    rw [← hc]
    exact commonStart_ofWords (by simp [hc])
  have hmatch : words.filter w.isPrefixOf ≠ [] :=
    List.ne_nil_of_mem (List.mem_filter.2 ⟨hx, List.isPrefixOf_iff_prefix.2 hwx⟩)
  refine ⟨fun hp => ⟨hp.start.unique hmatch hstart, hp.longer⟩, ?_⟩
  rintro ⟨rfl, hlonger⟩
  exact ⟨⟨x, hx, y, hy, hwx, hwy, hne⟩, hstart, hlonger⟩

end Several

/-- What all words go on with that start with a word has the same words. -/
theorem SharedStart.candidates_eq (h : SharedStart words w p) :
    (ofWords words).candidates p = (ofWords words).candidates w := by
  have hmem : ∀ t, t ∈ words → w <+: t → p <+: t := fun t ht hw =>
    h.start.isPrefix t (List.mem_filter.2 ⟨ht, List.isPrefixOf_iff_prefix.2 hw⟩)
  obtain ⟨x, hx, -, -, hwx, -, -⟩ := h.several
  have hwp : w <+: p := List.prefix_of_prefix_length_le hwx (hmem x hx hwx) h.longer.le
  refine List.filter_congr fun t ht => ?_
  rw [Bool.eq_iff_iff, List.isPrefixOf_iff_prefix, List.isPrefixOf_iff_prefix]
  exact ⟨hwp.trans, hmem t (mem_wordList.1 ht)⟩

end Completer

namespace UndoStack

/-- A snapshot that is pushed is on top. -/
theorem pop_push {u : UndoStack} (hroom : 0 < u.limit) (s : Snapshot) :
    ∃ u', (u.push s).pop = some (s, u') := by
  rw [push]
  split
  · rename_i htop
    obtain ⟨rest, hrest⟩ := List.head?_eq_some_iff.1 htop
    rw [pop, hrest]
    exact ⟨_, rfl⟩
  · obtain ⟨n, hn⟩ := Nat.exists_eq_succ_of_ne_zero hroom.ne'
    rw [pop, hn]
    exact ⟨_, rfl⟩

end UndoStack

namespace Desk

variable {d d' : Desk} {h : CandidateHandler} {c : Completion} {e : KeyEvent} {s w r : Text}
  {words : List Text}

/-- An undo shows what the newest snapshot was taken of. -/
theorem dispatch_undo {b : Buffer} {undo : UndoStack} (haction : d.actionFor e = some (.basic .undo))
    (hpop : d.undo.pop = some (.ofBuffer b, undo)) :
    ∃ d', d.dispatch e = .finished d' ∧ d'.session.buffer = b := by
  have hmemory := (d.beginAction (.basic .undo) e).memory_undoEdit
  have hsame : (d.beginAction (.basic .undo) e).undo = d.undo :=
    congrArg Trace.undo (d.trace_beginAction (.basic .undo) e)
  rw [hsame, hpop] at hmemory
  refine ⟨_, by rw [dispatch, haction]; rfl, ?_⟩
  rw [buffer_settleFocus]
  exact (congrArg Memory.buffer hmemory).trans (Memory.restore_ofBuffer b)

/-- A word that is replaced by an extension of it, with the cursor behind it; an undo takes it back. -/
structure Replaces (d d' : Desk) (s w r : Text) : Prop where
  isPrefix : w <+: r
  buffer_eq : d'.session.buffer = .ofSides (s ++ r) d.session.buffer.after
  undone : ∀ y, d'.actionFor y = some (.basic .undo) →
    ∃ d'', d'.dispatch y = .finished d'' ∧ d''.session.buffer = d.session.buffer

/-- A handler that replaces the word by something insertable. -/
theorem LeftBy.replaces (hleft : d'.LeftBy (h, ((d.atWork c e).logged h).replaceWord r))
    (hroom : 0 < d.undo.limit) (hr : r.Only (Buffer.isInsertable · = true))
    (hextends : d.session.buffer.word <+: r) :
    d.Replaces d' (d.session.buffer.text.take d.session.buffer.wordStart) d.session.buffer.word r ∧
      d'.trace.rings = d.trace.rings := by
  have hbegun : ((d.atWork c e).logged h).trace = { d.trace with typing := false } :=
    (trace_logged ..).trans (d.trace_atWork c e)
  have hshown : ((d.atWork c e).logged h).session.buffer = d.session.buffer := rfl
  generalize (d.atWork c e).logged h = l at hleft hbegun hshown
  have hreplaced : l.replaceWord r = l.applyEdit (.ofSides
      (d.session.buffer.text.take d.session.buffer.wordStart ++ r) d.session.buffer.after) := by
    rw [replaceWord, Buffer.insert_deleteRange_word _ hr, hshown]
  rw [hreplaced] at hleft
  have hundo : l.undo = d.undo := congrArg Trace.undo hbegun
  have htrace : d'.trace = ⟨d.undo.push (.ofBuffer d.session.buffer), false, d.trace.rings⟩ := by
    rw [hleft.trace_eq, trace_applyEdit, hbegun, hshown, hundo]
  refine ⟨⟨hextends, hleft.buffer_eq, fun y hy => ?_⟩, by rw [htrace]⟩
  obtain ⟨undo, hpop⟩ := UndoStack.pop_push hroom (.ofBuffer d.session.buffer)
  have htop : d'.undo = d.undo.push (.ofBuffer d.session.buffer) := congrArg Trace.undo htrace
  rw [← htop] at hpop
  exact dispatch_undo hy hpop

/-- What a completion makes of the word at the cursor, by the words that start with it. -/
structure CompletesWord (d d' : Desk) (words : List Text) (s w : Text) : Prop where
  only : ∀ x, Completer.OnlyWord words w x → d.Replaces d' s w (x ++ [' '])
  shared : ∀ p, Completer.SharedStart words w p → d.Replaces d' s w p
  kept : (∀ x, ¬ Completer.OnlyWord words w x) → (∀ p, ¬ Completer.SharedStart words w p) →
    d'.session.buffer.text = d.session.buffer.text
  /-- Completing once more, where several words go on, changes no text. -/
  again : ∀ p, Completer.SharedStart words w p → ∀ y c, d'.actionFor y = some (.complete c) →
    ∃ d'', d'.dispatch y = .finished d'' ∧ d''.session.buffer.text = d'.session.buffer.text
  rings_eq : d'.trace.rings = d.trace.rings + if ∃ x ∈ words, w <+: x then 0 else 1

/-- Words without white space and control characters, and what they start with, are insertable. -/
theorem insertable_of_start {x : Text}
    (hx : x.Only fun c => Text.isSpace c = false ∧ Text.isControl c = false) (hr : r <+: x) :
    r.Only (Buffer.isInsertable · = true) := by
  intro c hc
  rw [Buffer.isInsertable, (hx c (hr.subset hc)).2]
  rfl

/-- Completing at the end of what several words start with lists these words. -/
theorem listed_of_sharedStart {p : Text} (hp : Completer.SharedStart words w p)
    (hmany : 2 ≤ ((Completer.ofWords words).candidates w).length)
    (hword : d.session.buffer.word = p) (hhandler : d.session.handler = some (.candidates h))
    (hcompleter : h.completer = .ofWords words) (hcalm : h.ask = false)
    (haction : d.actionFor e = some (.complete c)) :
    ∃ d', d.dispatch e = .finished d' ∧ d'.session.buffer.text = d.session.buffer.text := by
  have hcands : h.completer.candidates d.session.buffer.word = (Completer.ofWords words).candidates w := by
    rw [hcompleter, hword, hp.candidates_eq]
  have hsame : commonStart ((Completer.ofWords words).candidates w) = p := by
    obtain ⟨x, hx, -, -, hwx, -, -⟩ := hp.several
    have hmem : x ∈ (Completer.ofWords words).candidates w := Completer.mem_ofWords.2 ⟨hx, hwx⟩
    have hstart := Completer.commonStart_ofWords (List.ne_nil_of_mem hmem)
    have hmatch := List.mem_filter.2 ⟨hx, List.isPrefixOf_iff_prefix.2 hwx⟩
    exact hstart.unique (List.ne_nil_of_mem hmatch) hp.start
  obtain ⟨d', hd', hleft⟩ := dispatch_candidates haction hhandler fun hask => by
    rw [hcalm] at hask
    cases hask
  have hshort : (commonStart (h.completer.candidates d.session.buffer.word)).length ≤
      d.session.buffer.word.length := by
    rw [hcands, hsame, hword]
  obtain ⟨hshown, -⟩ := completeFrom_of_short (d := d.atWork c e) hcalm (hcands ▸ hmany) hshort
  refine ⟨d', hd', ?_⟩
  rw [hleft.buffer_eq, hshown]
  rfl

section Cases

variable (hleft : d'.LeftBy ((d.atWork c e).completeFrom h)) (hcompleter : h.completer = .ofWords words)
  (hcalm : h.ask = false)

include hleft hcompleter hcalm

/-- No word starts with the word at the cursor. -/
theorem completesWord_of_none
    (hc : (Completer.ofWords words).candidates d.session.buffer.word = []) :
    d.CompletesWord d' words s d.session.buffer.word := by
  have hnone : ∀ x ∈ words, ¬ d.session.buffer.word <+: x := fun x hx hextends => by
    have hmem := Completer.mem_ofWords.2 ⟨hx, hextends⟩
    rw [hc] at hmem
    cases hmem
  have hshared : ∀ p, ¬ Completer.SharedStart words d.session.buffer.word p := fun p hp => by
    obtain ⟨x, hx, -, -, hextends, -, -⟩ := hp.several
    exact hnone x hx hextends
  rw [← hcompleter] at hc
  rw [completeFrom_of_none (d := d.atWork c e) hcalm hc] at hleft
  refine ⟨fun x hx => absurd hx.isPrefix (hnone x hx.mem), fun p hp => absurd hp (hshared p),
    fun _ _ => congrArg Buffer.text hleft.buffer_eq, fun p hp => absurd hp (hshared p), ?_⟩
  rw [if_neg (by simpa using hnone), hleft.trace_eq, trace_bell, trace_logged, trace_atWork]

/-- One word starts with the word at the cursor. -/
theorem completesWord_of_single {x : Text}
    (hwords : ∀ x ∈ words, x.Only fun c => Text.isSpace c = false ∧ Text.isControl c = false)
    (hroom : 0 < d.undo.limit)
    (hc : (Completer.ofWords words).candidates d.session.buffer.word = [x]) :
    d.CompletesWord d' words (d.session.buffer.text.take d.session.buffer.wordStart)
      d.session.buffer.word := by
  have hmem : ∀ {y}, y ∈ words ∧ d.session.buffer.word <+: y ↔ y = x := by
    intro y
    rw [← Completer.mem_ofWords, hc, List.mem_singleton]
  obtain ⟨hx, hextends⟩ := hmem.2 rfl
  have hshared : ∀ p, ¬ Completer.SharedStart words d.session.buffer.word p := fun p hp => by
    obtain ⟨y, hy, z, hz, hwy, hwz, hne⟩ := hp.several
    exact hne ((hmem.1 ⟨hy, hwy⟩).trans (hmem.1 ⟨hz, hwz⟩).symm)
  have hinsertable : Text.Only (Buffer.isInsertable · = true) (x ++ [' ']) :=
    Text.only_append.2 ⟨insertable_of_start (hwords x hx) List.prefix_rfl, Text.only_singleton rfl⟩
  rw [← hcompleter] at hc
  rw [completeFrom_of_single (d := d.atWork c e) hcalm hc] at hleft
  obtain ⟨hreplaces, hrings⟩ := hleft.replaces hroom hinsertable
    (hextends.trans (List.prefix_append ..))
  refine ⟨fun y hy => ?_, fun p hp => absurd hp (hshared p), fun honly => ?_,
    fun p hp => absurd hp (hshared p), ?_⟩
  · rw [hmem.1 ⟨hy.mem, hy.isPrefix⟩]
    exact hreplaces
  · exact absurd ⟨hx, hextends, fun y hy hwy => hmem.1 ⟨hy, hwy⟩⟩ (honly x)
  · rw [if_pos ⟨x, hx, hextends⟩]
    exact hrings

section Several

variable {x y : Text} {rest : List Text}
  (hc : (Completer.ofWords words).candidates d.session.buffer.word = x :: y :: rest)

include hc

/-- Several words start with the word at the cursor, and they go on in the same way. -/
theorem completesWord_of_longer
    (hwords : ∀ x ∈ words, x.Only fun c => Text.isSpace c = false ∧ Text.isControl c = false)
    (hroom : 0 < d.undo.limit)
    (hlonger : d.session.buffer.word.length < (commonStart (x :: y :: rest)).length) :
    d.CompletesWord d' words (d.session.buffer.text.take d.session.buffer.wordStart)
      d.session.buffer.word := by
  obtain ⟨⟨hx, hwx⟩, -, -⟩ := Completer.several_of_candidates hc
  have hshared : ∀ {p}, Completer.SharedStart words d.session.buffer.word p ↔
      p = commonStart (x :: y :: rest) ∧ d.session.buffer.word.length < p.length :=
    Completer.sharedStart_iff_of_candidates hc
  have honly := Completer.not_onlyWord_of_candidates hc
  have hcands : h.completer.candidates (d.atWork c e).session.buffer.word = x :: y :: rest := by
    rw [hcompleter]
    exact hc
  rw [completeFrom_of_longer hcalm hcands hlonger] at hleft
  have hextends : commonStart (x :: y :: rest) <+: x :=
    (isPrefix_commonStart x _).1 x (List.mem_cons_self ..)
  obtain ⟨hreplaces, hrings⟩ := hleft.replaces hroom (insertable_of_start (hwords x hx) hextends)
    (List.prefix_of_prefix_length_le hwx hextends hlonger.le)
  refine ⟨fun z hz => absurd hz (honly z), fun p hp => ?_, fun _ hnone => ?_,
    fun p hp z c' hz => ?_, ?_⟩
  · obtain ⟨rfl, -⟩ := hshared.1 hp
    exact hreplaces
  · exact absurd (hshared.2 ⟨rfl, hlonger⟩) (hnone _)
  · obtain ⟨rfl, -⟩ := hshared.1 hp
    have hword : d'.session.buffer.WordAt (d.session.buffer.text.take d.session.buffer.wordStart)
        (commonStart (x :: y :: rest)) := by
      rw [hreplaces.buffer_eq]
      exact ⟨Buffer.before_ofSides .., fun z hz => (hwords x hx z (hextends.subset hz)).1,
        d.session.buffer.wordAt_word.delimited⟩
    exact listed_of_sharedStart hp (by simp [hc]) hword.word_eq hleft.handler_eq hcompleter hcalm hz
  · rw [if_pos ⟨x, hx, hwx⟩]
    exact hrings

/-- Several words start with the word at the cursor, and they go on in different ways. -/
theorem completesWord_of_short
    (hshort : (commonStart (x :: y :: rest)).length ≤ d.session.buffer.word.length) :
    d.CompletesWord d' words s d.session.buffer.word := by
  obtain ⟨⟨hx, hwx⟩, -, -⟩ := Completer.several_of_candidates hc
  have honly := Completer.not_onlyWord_of_candidates hc
  have hshared : ∀ p, ¬ Completer.SharedStart words d.session.buffer.word p := fun p hp => by
    obtain ⟨rfl, hlonger⟩ := (Completer.sharedStart_iff_of_candidates hc).1 hp
    exact Nat.not_lt.2 hshort hlonger
  have hcands : h.completer.candidates (d.atWork c e).session.buffer.word = x :: y :: rest := by
    rw [hcompleter]
    exact hc
  obtain ⟨hshown, htrace, -⟩ := completeFrom_of_short (d := d.atWork c e) hcalm (by simp [hcands])
    (by rwa [hcands])
  refine ⟨fun z hz => absurd hz (honly z), fun p hp => absurd hp (hshared p), fun _ _ => ?_,
    fun p hp => absurd hp (hshared p), ?_⟩
  · rw [hleft.buffer_eq, hshown]
    rfl
  · rw [if_pos ⟨x, hx, hwx⟩, hleft.trace_eq, htrace, trace_atWork]
    rfl

end Several

end Cases

/-- A completion from a list of words extends the word at the cursor, or leaves the text. -/
theorem extends_word
    (hwords : ∀ x ∈ words, x.Only fun c => Text.isSpace c = false ∧ Text.isControl c = false)
    (hhandler : d.session.handler = some (.candidates h)) (hcompleter : h.completer = .ofWords words)
    (hcalm : h.ask = false) (hroom : 0 < d.undo.limit)
    (haction : d.actionFor e = some (.complete c)) :
    ∃ s w d', d.session.buffer.WordAt s w ∧ d.dispatch e = .finished d' ∧
      d.CompletesWord d' words s w := by
  obtain ⟨d', hd', hleft⟩ := dispatch_candidates haction hhandler fun hask => by
    rw [hcalm] at hask
    cases hask
  refine ⟨_, _, d', d.session.buffer.wordAt_word, hd', ?_⟩
  rcases hc : (Completer.ofWords words).candidates d.session.buffer.word with _ | ⟨x, _ | ⟨y, rest⟩⟩
  · exact completesWord_of_none hleft hcompleter hcalm hc
  · exact completesWord_of_single hleft hcompleter hcalm hwords hroom hc
  · by_cases hlonger : d.session.buffer.word.length < (commonStart (x :: y :: rest)).length
    · exact completesWord_of_longer hleft hcompleter hcalm hc hwords hroom hlonger
    · exact completesWord_of_short hleft hcompleter hcalm hc (Nat.not_lt.1 hlonger)

/-- Two words go on with an `r` behind a `g` that stands before an `x`; an undo takes the `r` back. -/
theorem extends_word_two :
    let words : List Text := [['g', 'r', 'a', 'b'], ['g', 'r', 'e', 'p']]
    let session : Session := { conn := 0, prompt := ⟨['>', ' ']⟩, current := ⟨['>', ' ']⟩,
                               shown := ⟨['>', ' ']⟩, continuation := ⟨['>', ' ']⟩, width := 80,
                               buffer := .ofSides ['l', 's', ' ', 'g'] [' ', 'x'],
                               handler := some (.candidates { completer := .ofWords words }),
                               callback := 0 }
    let d : Desk := { config := {}, keymap := .new .emacs, history := .ofEntries 10 [], session }
    ∃ d' d'', d.dispatch (.key .tab) = .finished d' ∧
      d'.session.buffer = .ofSides ['l', 's', ' ', 'g', 'r'] [' ', 'x'] ∧
      d'.dispatch (.key .ctrlUnderscore) = .finished d'' ∧ d''.session.buffer = d.session.buffer := by
  intro words session d
  have haction : d.actionFor (.key .tab) = some (.complete {}) := by decide +kernel
  have hwords : ∀ x ∈ words, x.Only fun c => Text.isSpace c = false ∧ Text.isControl c = false := by
    have hall : (words.all fun x => x.all fun c => !Text.isSpace c && !Text.isControl c) = true := by
      decide +kernel
    intro x hx c hc
    simpa using List.all_eq_true.1 (List.all_eq_true.1 hall x hx) c hc
  obtain ⟨s, w, d', hword, hd', hcompletes⟩ :=
    extends_word hwords (h := { completer := .ofWords words }) rfl rfl rfl (by decide) haction
  have hw : w = ['g'] := by
    rw [← hword.word_eq]
    decide +kernel
  subst hw
  have hs : s = ['l', 's', ' '] := List.append_cancel_right hword.before_eq.symm
  subst hs
  have hstart : Text.CommonStart (words.filter (List.isPrefixOf ['g'])) ['g', 'r'] :=
    commonStart_spec (by decide : words ≠ [])
  have hshared : Completer.SharedStart words ['g'] ['g', 'r'] :=
    ⟨⟨_, List.mem_cons_self .., _, List.mem_cons_of_mem _ (List.mem_cons_self ..), by decide⟩, hstart,
      by decide⟩
  have hreplaces := hcompletes.shared _ hshared
  have hundo : d'.actionFor (.key .ctrlUnderscore) = some (.basic .undo) := by
    have hbound : ((d.dispatch (.key .tab)).desk?.bind (·.actionFor (.key .ctrlUnderscore))) =
        some (.basic .undo) := by
      dsimp only [d, session]
      rw [Completer.ofWords_of_pairwise (by decide +kernel)]
      decide +kernel
    rwa [hd'] at hbound
  obtain ⟨d'', hd'', hback⟩ := hreplaces.undone _ hundo
  exact ⟨d', d'', hd', hreplaces.buffer_eq, hd'', hback⟩

end Desk

end LineEditor
