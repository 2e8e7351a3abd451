import LineEditor.Host.World

/-!
The steps of a scripted completion handler that work at the desk. Its engine is busy while it runs,
so every call of the engine itself is refused.
-/
namespace LineEditor

/-- What a busy engine answers. -/
def EngineProbe.reply : EngineProbe → Reply
  | .isReading | .isPaused | .buffer => .flag false
  | .describe => .name "Readline \x7b <busy> \x7d"
  | _ => .engineError .reentrant

namespace Desk

/-- A note for the host. -/
def note (d : Desk) (n : Note) : Desk := d.emit (.note n)

/-- A step at the desk, on a terminal of a size; a step that reaches beyond the desk does nothing
here. -/
def scriptStep (size : Size) (d : Desk) : ScriptStep → Desk
  | .probe p => d.note (.probed p.reply)
  | .queue t => { d with queue := d.queue.append t }
  | .kill t => { d with kills := d.kills.add t }
  | .newestKill => d.note (.newestKill d.kills.newest?)
  | .undoDepth => d.note (.undoDepth d.undo.snapshots.length)
  | .history c =>
    let (history, reply) := c.run d.history
    { d with history }.note (.history reply)
  | .apply k => d.applyInside k
  | .basic k => d.basic k
  | .killRange first last => (d.killRange first last).note (.killRange (first < last))
  | .applyEdit b => d.applyEdit b
  | .setVi v => d.setVi v
  | .bind e k => { d with keymap := d.keymap.bind e k }
  | .queryItems => d.note (.queryItems d.config.queryItems)
  | .session calls =>
    let (d, replies) := d.answers size calls
    d.note (.session replies)
  | .setAsk _ | .feed _ | .runTasks | .resize _ | .schedule .. => d

end Desk

end LineEditor
