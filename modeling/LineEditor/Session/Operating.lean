import LineEditor.Session.Commands

/-!
Vi operators at work: the motion that follows tells which text is cut. The operator's own key stands
for the whole line, and a key that is no motion rings the bell.
-/
namespace LineEditor

/-- The text between the cursor and where a motion leads; an operator's own command stands for the
whole line, and a command that is no motion for nothing. -/
def Buffer.operatorSpan? (b : Buffer) (own : Command) (motion : Option Command) :
    Option (Nat × Nat) :=
  if motion = some own then some (0, b.length)
  else
    match motion with
    | some .viForwardWord => some (b.cursor, b.nextWordStart b.cursor)
    | some .forwardWord => some (b.cursor, b.nextWordEnd b.cursor)
    | some .backwardWord => some (b.previousWordStart b.cursor, b.cursor)
    | some .endOfLine => some (b.cursor, b.length)
    | some .beginningOfLine => some (0, b.cursor)
    | some .backwardChar => some (b.cursor - 1, b.cursor)
    | some .forwardChar => some (b.cursor, min (b.cursor + 1) b.length)
    | _ => none

namespace Desk

/-- A range in the log. -/
def describeSpan (span : Nat × Nat) : Text :=
  Nat.toDigits 10 span.1 ++ ['.', '.'] ++ Nat.toDigits 10 span.2

/-- An operator applied: nothing before its motion is known. -/
def operate (d : Desk) (o : ViOperator) : Desk :=
  match o.motion with
  | none => d.resume
  | some motion =>
    match d.session.buffer.operatorSpan? o.operation.command motion with
    | none => d.bell.resume
    | some span =>
      let d := d.log .debug .viOperator "vi operator"
        [("operation", .name o.operation.name), ("range", .plain (describeSpan span))]
      let d := d.killRange span.1 span.2
      resume (if o.operation = .change then d.setVi .insert else d)

end Desk

end LineEditor
