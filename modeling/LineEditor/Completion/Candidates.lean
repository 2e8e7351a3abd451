import LineEditor.Buffer.Basic

/-!
Candidates for the word before the cursor. A completer gives the candidates for a word; a list of
words is one, which offers its words in code point order without repeats.
-/
namespace LineEditor

/-- A source of candidates. -/
structure Completer where
  candidates : Text → List Text

namespace Completer

/-- Code point order on texts. -/
def precedes : Text → Text → Bool
  | [], _ => true
  | _ :: _, [] => false
  | a :: s, b :: t => a.toNat < b.toNat || (a == b && precedes s t)

/-- Neighbours that are equal kept once. -/
def dedup : List Text → List Text
  | a :: b :: rest => if a = b then dedup (b :: rest) else a :: dedup (b :: rest)
  | ts => ts

/-- Words in code point order without repeats. -/
def wordList (words : List Text) : List Text := dedup (words.mergeSort precedes)

/-- Offers the words that start with the given one. -/
def ofWords (words : List Text) : Completer :=
  let offered := wordList words
  ⟨fun word => offered.filter word.isPrefixOf⟩

/-- Offers the same candidates for every word. -/
def always (ts : List Text) : Completer := ⟨fun _ => ts⟩

/-- Offers the word with each of some endings. -/
def ofEndings (endings : List Text) : Completer := ⟨fun word => endings.map (word ++ ·)⟩

end Completer

/-- The longest text that all candidates start with. -/
def commonStart : List Text → Text
  | [] => []
  | t :: rest => rest.foldl (fun shared s => shared.take (Text.sharedLength shared s)) t

namespace Buffer

/-- Where the word that ends at the cursor starts; white space separates words. -/
def wordStart (b : Buffer) : Nat :=
  b.cursor - (b.before.reverse.takeWhile fun c => !Text.isSpace c).length

/-- The part before the cursor of the word at the cursor. -/
def word (b : Buffer) : Text := b.before.drop b.wordStart

end Buffer

end LineEditor
