import LineEditor.Buffer.Basic

/-!
Where words start and end. Forward motions skip runs of code points behind a place, backward
motions skip runs before it, so a backward motion is the forward one on the reversed text. Places
past the end count as the end.
-/
namespace LineEditor

/-- The length of the run at the start of `t` whose code points satisfy `p`. -/
def Text.runLength (p : Char → Bool) (t : Text) : Nat := (t.takeWhile p).length

/-- The length of the run that satisfies `gap`, together with the run behind it that does not. -/
def Text.gapAndWord (gap : Char → Bool) (t : Text) : Nat :=
  runLength gap t + runLength (fun c => !gap c) (t.dropWhile gap)

namespace Buffer

/-- The end of the word behind `place`: first what is no word, then the word. -/
def nextWordEnd (b : Buffer) (place : Nat) : Nat :=
  let place := min place b.length
  place + Text.gapAndWord (fun c => !Text.isWordChar c) (b.text.drop place)

/-- The start of the next word: the run of the class of the code point at `place`, if that is not
white space, and then white space. -/
def nextWordStart (b : Buffer) (place : Nat) : Nat :=
  let place := min place b.length
  let rest := b.text.drop place
  let run : Char → Bool := match rest with
    | [] => fun _ => false
    | first :: _ => fun c =>
      !Text.isSpace first && !Text.isSpace c && Text.isWordChar c == Text.isWordChar first
  place + Text.runLength run rest + Text.runLength Text.isSpace (rest.dropWhile run)

/-- The start of the word before `place`, where `gap` tells what separates words. -/
def previousStart (gap : Char → Bool) (b : Buffer) (place : Nat) : Nat :=
  let place := min place b.length
  place - Text.gapAndWord gap (b.text.take place).reverse

/-- The start of the word before `place`. -/
def previousWordStart : Buffer → Nat → Nat := previousStart fun c => !Text.isWordChar c

/-- The start of the word before `place`, where only white space separates words. -/
def previousBlankWordStart : Buffer → Nat → Nat := previousStart Text.isSpace

end Buffer

end LineEditor
