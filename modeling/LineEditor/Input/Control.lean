import LineEditor.Text.Basic

/-!
Terminal signals that arrive in band, as control characters. While somebody listens for signals, a
chunk of input is split into ordinary reads and signals; every code point goes to exactly one of
the two. While nobody does, the whole chunk is ordinary input.

Main definitions: `ControlChars.signalFor?` and `ControlChars.split`.
-/
namespace LineEditor

/-- A signal from the terminal. -/
inductive Signal where
  | interrupt | eof | suspend
  deriving DecidableEq, Repr

/-- The name of a signal. -/
def Signal.name : Signal → String
  | .interrupt => "Intr"
  | .eof => "Eof"
  | .suspend => "Susp"

/-- The code points that stand for the signals. -/
structure ControlChars where
  interrupt : Char := '\x03'
  suspend : Char := '\x1a'
  eof : Char := '\x04'
  deriving DecidableEq, Repr

/-- A piece of a chunk of input. -/
inductive Delivery where
  | read (t : Text)
  | signal (s : Signal) (c : Char)
  deriving DecidableEq, Repr

namespace ControlChars

/-- The signal a code point stands for. Of equal control characters interrupt goes before end of
file, and end of file before suspend. -/
def signalFor? (cc : ControlChars) (c : Char) : Option Signal :=
  if c = cc.interrupt then some .interrupt
  else if c = cc.eof then some .eof
  else if c = cc.suspend then some .suspend
  else none

/-- A run of ordinary input, kept newest first, as a read; none for an empty run. -/
def flush (run : Text) : List Delivery :=
  if run.isEmpty then [] else [.read run.reverse]

/-- Splits a chunk, with `run` ordinary code points before it. -/
def splitFrom (cc : ControlChars) (run : Text) : Text → List Delivery
  | [] => flush run
  | c :: rest =>
    match cc.signalFor? c with
    | some s => flush run ++ .signal s c :: splitFrom cc [] rest
    | none => splitFrom cc (c :: run) rest

/-- The pieces of a chunk for somebody who listens for signals, or the whole chunk for somebody
who does not. -/
def split (cc : ControlChars) (listening : Bool) (chunk : Text) : List Delivery :=
  if listening then splitFrom cc [] chunk
  else if chunk.isEmpty then [] else [.read chunk]

end ControlChars

end LineEditor
