import LineEditor.Action.Basic
import LineEditor.Action.Search
import LineEditor.Buffer.Basic
import LineEditor.Buffer.KillRing
import LineEditor.Buffer.Undo
import LineEditor.Buffer.Words
import LineEditor.Collect
import LineEditor.Completion.Candidates
import LineEditor.Completion.Handler
import LineEditor.Config
import LineEditor.Display.Draw
import LineEditor.Display.Frame
import LineEditor.Display.Redraw
import LineEditor.Display.Screen
import LineEditor.Engine.Basic
import LineEditor.History
import LineEditor.Host.Connection
import LineEditor.Host.Guard
import LineEditor.Host.Machine
import LineEditor.Host.Scenario
import LineEditor.Host.Script
import LineEditor.Host.World
import LineEditor.Input.Control
import LineEditor.Input.Quote
import LineEditor.Key.Basic
import LineEditor.Key.Event
import LineEditor.Key.Queue
import LineEditor.Keymap.Basic
import LineEditor.Keymap.Bindings
import LineEditor.Keymap.Command
import LineEditor.Log.Entry
import LineEditor.Log.Setup
import LineEditor.Proofs.Display.Incremental
import LineEditor.Proofs.Display.Layout
import LineEditor.Proofs.Display.Motion
import LineEditor.Proofs.Display.Rows
import LineEditor.Proofs.Display.Sequence
import LineEditor.Proofs.Display.Strip
import LineEditor.Proofs.Engine.Core
import LineEditor.Proofs.Engine.Shown
import LineEditor.Proofs.Host.Accounts
import LineEditor.Proofs.Host.Callbacks
import LineEditor.Proofs.Host.Delivery
import LineEditor.Proofs.Host.Ledger
import LineEditor.Proofs.Host.Newlines
import LineEditor.Proofs.Host.Play
import LineEditor.Proofs.Host.Shown
import LineEditor.Proofs.Host.Solo
import LineEditor.Proofs.Session.Commands
import LineEditor.Proofs.Session.Completing
import LineEditor.Proofs.Session.Core
import LineEditor.Proofs.Session.Dispatch
import LineEditor.Proofs.Session.Only
import LineEditor.Proofs.Session.Plain
import LineEditor.Proofs.Session.Searching
import LineEditor.Proofs.Session.Shown
import LineEditor.Proofs.Text.Only
import LineEditor.Proofs.Text.Plain
import LineEditor.Reply
import LineEditor.Report
import LineEditor.Session.Accept
import LineEditor.Session.Answer
import LineEditor.Session.Basic
import LineEditor.Session.Call
import LineEditor.Session.Commands
import LineEditor.Session.Completing
import LineEditor.Session.Dispatch
import LineEditor.Session.Display
import LineEditor.Session.Edit
import LineEditor.Session.Operating
import LineEditor.Session.Searching
import LineEditor.Text.Alphanumeric
import LineEditor.Text.Basic
import LineEditor.Text.Hidden
import LineEditor.Text.Literal
import LineEditor.Text.Utf8
import LineEditor.Text.Visible
import LineEditor.Proofs.Session.Rules
import LineEditor.Proofs.Engine.Rules
import LineEditor.Proofs.Host.Rules
import LineEditor.Proofs.Host.Accepted
import LineEditor.Proofs.Host.Controls
import LineEditor.Proofs.Engine.Searched
import LineEditor.Proofs.Engine.Requeue
import LineEditor.Proofs.Key.Cuts
import LineEditor.Proofs.Text.Utf8
import LineEditor.Proofs.Host.Calm
import LineEditor.Proofs.Host.Reading
import LineEditor.Proofs.Host.Batches
import LineEditor.Proofs.Input.Lexer
import LineEditor.Proofs.Session.Kept
import LineEditor.Proofs.Engine.Works
import LineEditor.Proofs.Host.Standing
import LineEditor.Proofs.Host.Installed
import LineEditor.Proofs.Host.Accumulated
import LineEditor.Proofs.Host.Alike
import LineEditor.Proofs.Host.Restarted
import LineEditor.Proofs.Display.Narrowed
import LineEditor.Proofs.Host.Paused
import LineEditor.Proofs.Text.Resync
import LineEditor.Proofs.Engine.Gauge
import LineEditor.Proofs.Host.Widths
import LineEditor.Proofs.Engine.Workload
import LineEditor.Proofs.Host.Returns
import LineEditor.Proofs.Session.Traces
import LineEditor.Proofs.Session.Strokes
import LineEditor.Proofs.Host.Turns
import LineEditor.Proofs.Session.Groups
import LineEditor.Proofs.Engine.Turns
import LineEditor.Proofs.Host.Undone
import LineEditor.Proofs.Text.Occurrences
import LineEditor.Proofs.Session.Hits
import LineEditor.Proofs.Session.Seeking
import LineEditor.Proofs.Session.Matches
import LineEditor.Proofs.Session.Stepping
import LineEditor.Proofs.Engine.Seeking
import LineEditor.Proofs.Host.Seeking
import LineEditor.Proofs.Host.Matches
import LineEditor.Proofs.Host.Stepping
import LineEditor.Proofs.Key.Unescaped
import LineEditor.Proofs.Session.Refit
import LineEditor.Proofs.Session.Inserting
import LineEditor.Proofs.Engine.Refit
import LineEditor.Proofs.Engine.Inserting
import LineEditor.Proofs.Host.Inserting
import LineEditor.Proofs.Completion.Words
import LineEditor.Proofs.Session.Candidates
import LineEditor.Proofs.Session.Extending
import LineEditor.Proofs.Session.Cutting
import LineEditor.Proofs.Session.Kills
import LineEditor.Proofs.Engine.Kills
import LineEditor.Proofs.Host.Kills
import LineEditor.Proofs.Key.Munch
import LineEditor.Proofs.Text.Malformed
import LineEditor.Proofs.Host.Refusals
import LineEditor.Proofs.Host.Waiting
import LineEditor.Proofs.Key.Typed
import LineEditor.Proofs.History.Calls
import LineEditor.Proofs.Buffer.Sides
import LineEditor.Proofs.Buffer.Words
import LineEditor.Proofs.Input.Deliveries
import LineEditor.Proofs.Display.Styled
import LineEditor.Proofs.Host.Wakeups
import LineEditor.Proofs.Host.Moving
