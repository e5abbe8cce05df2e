import Dialogue.CommandLine.Linter
import Dialogue.CommandLine.Player
import Dialogue.Document.Flat
import Dialogue.Engine.Command
import Dialogue.Host
import Dialogue.Json.Reader
import Dialogue.Main
import Dialogue.Proofs.Document.Fault
import Dialogue.Proofs.Document.Grammar
import Dialogue.Proofs.Document.Parsing
import Dialogue.Proofs.Document.Token
import Dialogue.Proofs.Document.Writing
import Dialogue.Proofs.State.History
import Dialogue.Proofs.Table
import Dialogue.Proofs.Text.Decimal
import Dialogue.Proofs.Text.Enclosed
import Dialogue.Text.Lines
import Dialogue.Proofs.State.Restoring
import Dialogue.Proofs.Engine.Effect
import Dialogue.Proofs.Engine.History
import Dialogue.Proofs.Service
import Dialogue.Proofs.Engine.Refusal
import Dialogue.Proofs.Keyed
import Dialogue.Proofs.Script.Nodes
import Dialogue.Proofs.Script.Dangling
import Dialogue.Proofs.Host.Refusal
import Dialogue.Proofs.Engine.Links
import Dialogue.Proofs.Text.Pieces
import Dialogue.Proofs.Document.Path
import Dialogue.Proofs.Document.PathText
import Dialogue.Proofs.Document.Part
import Dialogue.Proofs.Document.Flat
import Dialogue.Proofs.Document.Query
import Dialogue.Proofs.Script.Reading
import Dialogue.Proofs.Engine.Lifecycle
import Dialogue.Proofs.Engine.Nesting
import Dialogue.Proofs.Engine.Undo
import Dialogue.Proofs.Engine.Playthrough
import Dialogue.Proofs.CommandLine.Linter
import Dialogue.Proofs.Engine.CurrentNode
import Dialogue.Proofs.Json.Writing
import Dialogue.Proofs.Host.Message
import Dialogue.Proofs.Host.Snapshot
import Dialogue.Proofs.Script.Findings
import Dialogue.Proofs.Reports
import Dialogue.Proofs.Text.Lines
import Dialogue.Proofs.State.Unbroken
import Dialogue.Proofs.CommandLine.Session
import Dialogue.Proofs.Document.Image
import Dialogue.Proofs.State.Canonical
import Dialogue.Proofs.State.Reading
import Dialogue.Proofs.Json.Reading
import Dialogue.Proofs.State.Json
import Dialogue.Proofs.Host.Following
import Dialogue.Proofs.State.Lockstep
import Dialogue.Proofs.Document.Lossless
import Dialogue.Proofs.Script.Register
import Dialogue.Proofs.Engine.Loading
import Dialogue.Proofs.Engine.Variables
import Dialogue.Proofs.CommandLine.Idle
import Dialogue.Document.Cursor
import Dialogue.Proofs.Document.Cursor.Bytes
import Dialogue.Proofs.Document.Rendering
import Dialogue.Proofs.Document.Cursor.Run
import Dialogue.Proofs.Document.Cursor.Token
import Dialogue.Proofs.Document.Cursor.Reading
import Dialogue.Proofs.Files
