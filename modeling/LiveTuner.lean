import LiveTuner.Binary64.Basic
import LiveTuner.Client.Run
import LiveTuner.Client.SetValue
import LiveTuner.Command
import LiveTuner.CommandLine
import LiveTuner.Console
import LiveTuner.Decimal.Basic
import LiveTuner.Decimal.Shortest
import LiveTuner.Decimal.Written
import LiveTuner.Editor.Basic
import LiveTuner.Editor.Edit
import LiveTuner.Editor.Interaction
import LiveTuner.Editor.View
import LiveTuner.EditorTree.Basic
import LiveTuner.EditorTree.Change
import LiveTuner.Endpoint
import LiveTuner.Host
import LiveTuner.Job
import LiveTuner.Json.Basic
import LiveTuner.Json.Complaint
import LiveTuner.Json.Number
import LiveTuner.Json.Reader
import LiveTuner.Json.Record
import LiveTuner.Json.Skip
import LiveTuner.Json.Writer
import LiveTuner.Launch
import LiveTuner.Literal
import LiveTuner.Main
import LiveTuner.Message.Inbound
import LiveTuner.Message.Outbound
import LiveTuner.MessagePack.Fault
import LiveTuner.MessagePack.Reader
import LiveTuner.MessagePack.Token
import LiveTuner.MessagePack.Writer
import LiveTuner.Mismatch
import LiveTuner.NodeState
import LiveTuner.Outline
import LiveTuner.Param.Basic
import LiveTuner.Param.Definition
import LiveTuner.Param.Id
import LiveTuner.Param.Nesting
import LiveTuner.Param.Resolution
import LiveTuner.Param.Value
import LiveTuner.Path
import LiveTuner.Problem
import LiveTuner.Program
import LiveTuner.Proofs.Binary64
import LiveTuner.Proofs.Client.Delivery
import LiveTuner.Proofs.Client.Run
import LiveTuner.Proofs.Client.SetValue
import LiveTuner.Proofs.Command
import LiveTuner.Proofs.Editor.Bounds
import LiveTuner.Proofs.Editor.Edit
import LiveTuner.Proofs.Editor.InPlace
import LiveTuner.Proofs.EditorTree.Acyclic
import LiveTuner.Proofs.EditorTree.Ancestors
import LiveTuner.Proofs.EditorTree.Change
import LiveTuner.Proofs.EditorTree.Commuting
import LiveTuner.Proofs.EditorTree.Copies
import LiveTuner.Proofs.EditorTree.Everywhere
import LiveTuner.Proofs.EditorTree.Fresh
import LiveTuner.Proofs.EditorTree.Hosts
import LiveTuner.Proofs.EditorTree.Instances
import LiveTuner.Proofs.EditorTree.Lasting
import LiveTuner.Proofs.EditorTree.Layered
import LiveTuner.Proofs.EditorTree.Mount
import LiveTuner.Proofs.EditorTree.Panels
import LiveTuner.Proofs.EditorTree.Remove
import LiveTuner.Proofs.EditorTree.Roster
import LiveTuner.Proofs.EditorTree.Run
import LiveTuner.Proofs.EditorTree.Settled
import LiveTuner.Proofs.EditorTree.Sound
import LiveTuner.Proofs.EditorTree.Visible
import LiveTuner.Proofs.Enclosure
import LiveTuner.Proofs.Forest
import LiveTuner.Proofs.InPlace
import LiveTuner.Proofs.InStep
import LiveTuner.Proofs.Json.Number
import LiveTuner.Proofs.Json.Spacing
import LiveTuner.Proofs.Json.Text
import LiveTuner.Proofs.Json.Written
import LiveTuner.Proofs.Literal
import LiveTuner.Proofs.Message.Choice
import LiveTuner.Proofs.Message.Classification
import LiveTuner.Proofs.Message.Definitions
import LiveTuner.Proofs.Message.Update
import LiveTuner.Proofs.MessagePack.Data
import LiveTuner.Proofs.MessagePack.Forms
import LiveTuner.Proofs.MessagePack.Grammar
import LiveTuner.Proofs.MessagePack.Token
import LiveTuner.Proofs.Outcome
import LiveTuner.Proofs.Outline.Breaks
import LiveTuner.Proofs.Outline.Places
import LiveTuner.Proofs.Param.Controls
import LiveTuner.Proofs.Param.Definition
import LiveTuner.Proofs.Param.Echo
import LiveTuner.Proofs.Param.Finite
import LiveTuner.Proofs.Param.Nodes
import LiveTuner.Proofs.Param.Panel
import LiveTuner.Proofs.Param.Resolution
import LiveTuner.Proofs.Param.Sending
import LiveTuner.Proofs.Param.Skeleton
import LiveTuner.Proofs.Param.Value
import LiveTuner.Proofs.Param.Vector
import LiveTuner.Proofs.Param.Walks
import LiveTuner.Proofs.Registry
import LiveTuner.Proofs.Registry.Commuting
import LiveTuner.Proofs.Registry.Flattening
import LiveTuner.Proofs.Registry.Separation
import LiveTuner.Proofs.Session.Agreement
import LiveTuner.Proofs.Session.Commuting
import LiveTuner.Proofs.Session.Components
import LiveTuner.Proofs.Session.Consistency
import LiveTuner.Proofs.Session.Edits
import LiveTuner.Proofs.Session.Exchange
import LiveTuner.Proofs.Session.Hidden
import LiveTuner.Proofs.Session.Lasting
import LiveTuner.Proofs.Session.Loading
import LiveTuner.Proofs.Session.Names
import LiveTuner.Proofs.Session.Pinned
import LiveTuner.Proofs.Session.Push
import LiveTuner.Proofs.Session.Redefinition
import LiveTuner.Proofs.Session.Rejection
import LiveTuner.Proofs.Session.Returning
import LiveTuner.Proofs.Session.Roster
import LiveTuner.Proofs.Session.Selection
import LiveTuner.Proofs.Session.Sending
import LiveTuner.Proofs.Session.Step
import LiveTuner.Proofs.Session.Vectors
import LiveTuner.Proofs.Session.Verdict
import LiveTuner.Proofs.Settings
import LiveTuner.Proofs.Text.Lines
import LiveTuner.Proofs.Text.Utf8
import LiveTuner.Proofs.Text.Words
import LiveTuner.Readout
import LiveTuner.Registry
import LiveTuner.Report
import LiveTuner.Session
import LiveTuner.Settings
import LiveTuner.Terminal
import LiveTuner.Text.Blank
import LiveTuner.Text.Piece
import LiveTuner.Text.Quoted
import LiveTuner.Text.Unprintable
import LiveTuner.Text.Utf8
import LiveTuner.Url
import LiveTuner.WebSocket.Frame
import LiveTuner.WebSocket.Handshake
