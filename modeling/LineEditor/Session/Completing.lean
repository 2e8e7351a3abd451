import LineEditor.Session.Edit

/-!
Completion at work. Without a candidate the bell rings; a single candidate replaces the word and a
space follows; several extend the word to their longest common start, or are listed below the line
when there is nothing to extend. Many are listed only after a question, and then the next key is
its answer.

A scripted handler cannot be run here, since its script reaches beyond the desk: `beginCompletion`
takes it out of the session and says so, and `endCompletion` puts it back.
-/
namespace LineEditor

namespace CandidateHandler

/-- The question set or dropped; the candidates that wait for its answer go with it. -/
def setAsk (h : CandidateHandler) (ask : Bool) : CandidateHandler :=
  { h with ask, pending := if ask then h.pending else [] }

end CandidateHandler

namespace Desk

/-- Replaces the word at the cursor; the bell rings if the replacement is refused. -/
def replaceWord (d : Desk) (replacement : Text) : Desk :=
  let b := d.session.buffer
  match (b.deleteRange b.wordStart b.cursor).1.insert replacement with
  | .ok b => d.applyEdit b
  | .error _ => d.bell

/-- Lists candidates on an empty row and draws the line again below them. -/
def listCandidates (d : Desk) (candidates : List Text) : Desk :=
  (d.write ([' ', ' '].intercalate candidates ++ ['\n'])).redraw

/-- The question before a long list. -/
def askBeforeListing (d : Desk) (count : Nat) : Desk :=
  d.newLine.write ("Display all ".toList ++ Nat.toDigits 10 count ++
    " possibilities? (y or n)".toList)

/-- The usual handler at work. -/
def completeFrom (d : Desk) (h : CandidateHandler) : CandidateHandler × Desk :=
  if h.ask then
    ({ h with ask := false, pending := [] }, (d.write ['\n']).listCandidates h.pending)
  else
    let word := d.session.buffer.word
    let candidates := h.completer.candidates word
    let d := d.log .debug .completion "complete"
      [("word", .quoted word), ("candidates", .number candidates.length)]
    match candidates with
    | [] => (h, d.bell)
    | [single] => (h, d.replaceWord (single ++ [' ']))
    | _ =>
      let shared := commonStart candidates
      if word.length < shared.length then (h, d.replaceWord shared)
      else if d.config.queryItems < candidates.length then
        ({ h with ask := true, pending := candidates }, d.askBeforeListing candidates.length)
      else (h, d.newLine.listCandidates candidates)

/-- A handler's question set or dropped; a scripted handler tells the host. -/
def setAsk (d : Desk) (h : Handler) (ask : Bool) : Handler × Desk :=
  match h with
  | .candidates h => (.candidates (h.setAsk ask), d)
  | .scripted h => (.scripted { h with ask }, d.emit (.note (.askSet ask)))

/-- The answer to a question was no: the line starts over on a row of its own. -/
def declineListing (d : Desk) : Desk :=
  resetDisplay (write { d with undo := d.undo.clear } ['\n'])

/-- How a completion goes on. -/
inductive CompletionStep where
  | finished (c : Completion) (d : Desk)
  /-- The script of a handler has to be run. -/
  | script (c : Completion) (h : ScriptedHandler) (d : Desk)

/-- The handler back in the session, which is resumed unless the work goes on elsewhere. -/
def endCompletion (d : Desk) (c : Completion) (h : Handler) (deferred : Bool) :
    Completion × Desk :=
  let d := { d with session.handler := some h }
  ({ c with asking := h.asks },
    if deferred then d.log .debug .complete "completion deferred" [] else d.resume)

/-- Whether a key says yes. -/
def isYes (answer : Option KeyEvent) : Bool :=
  answer = some (.char 'y') || answer = some (.char 'Y')

/-- A completion applied, up to where a script has to be run. -/
def beginCompletion (d : Desk) (c : Completion) : CompletionStep :=
  match d.session.handler with
  | none => .finished c d.bell.resume
  | some h =>
    let d := { d with session.handler := none }
    let asked := h.asks
    let declined := asked && !isYes c.answer
    let c := if asked then { c with answer := none } else c
    if declined then
      let (h, d) := d.setAsk h false
      let (c, d) := d.declineListing.endCompletion c h false
      .finished c d
    else
      match h with
      | .candidates h =>
        let (h, d) := d.completeFrom h
        let (c, d) := d.endCompletion c (.candidates h) false
        .finished c d
      | .scripted h => .script c h d

end Desk

end LineEditor
