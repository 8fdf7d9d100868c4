import ScopedCss.ClassName
import ScopedCss.CommandLine.Arguments
import ScopedCss.CommandLine.Run
import ScopedCss.Compiler
import ScopedCss.ContentHash
import ScopedCss.Element
import ScopedCss.Json.Document
import ScopedCss.Json.Fault
import ScopedCss.Json.Read
import ScopedCss.Json.Scan
import ScopedCss.Json.Skim
import ScopedCss.Log
import ScopedCss.Main
import ScopedCss.Number.Binary64
import ScopedCss.Number.Layout
import ScopedCss.Number.Rounding
import ScopedCss.Number.Shortest
import ScopedCss.OrderedMap
import ScopedCss.Registry.Basic
import ScopedCss.Registry.Client
import ScopedCss.Registry.Settings
import ScopedCss.Rule
import ScopedCss.Session.Basic
import ScopedCss.Session.Desk
import ScopedCss.Session.Guard
import ScopedCss.Sink.Basic
import ScopedCss.Sink.Calling
import ScopedCss.Sink.Choice
import ScopedCss.Sink.Memory
import ScopedCss.Sink.Recorded
import ScopedCss.Sink.Sheet
import ScopedCss.Style.Decode
import ScopedCss.Style.Group
import ScopedCss.Style.Merge
import ScopedCss.Style.Property
import ScopedCss.Style.Unit
import ScopedCss.Style.Value
import ScopedCss.Text.Blank
import ScopedCss.Text.Quoted
import ScopedCss.Text.Utf16
import ScopedCss.Toml.Document
import ScopedCss.Toml.Moment
import ScopedCss.Toml.Number
import ScopedCss.Toml.Read
import ScopedCss.Toml.Scan
import ScopedCss.Proofs.OrderedMap
import ScopedCss.Proofs.Sink.Lawful
import ScopedCss.Proofs.Sink.Taking
import ScopedCss.Proofs.Registry.Walk
import ScopedCss.Proofs.Registry.Acquire
import ScopedCss.Proofs.Registry.Rollback
import ScopedCss.Proofs.Registry.Frame
import ScopedCss.Proofs.Client.History
import ScopedCss.Proofs.Client.Rollback
import ScopedCss.Proofs.Client.Counts
import ScopedCss.Proofs.Client.Styling
import ScopedCss.Proofs.Registry.Simulation
import ScopedCss.Proofs.Session.Account
import ScopedCss.Proofs.Session.Guards
import ScopedCss.Proofs.Session.Runs
import ScopedCss.Proofs.Registry.Modes
import ScopedCss.Proofs.Registry.ReleaseOrder
import ScopedCss.Proofs.Registry.Flattening
import ScopedCss.Proofs.Registry.Moves
import ScopedCss.Proofs.Client.Calls
import ScopedCss.Proofs.Compiler.History
import ScopedCss.Proofs.Style.Groups
import ScopedCss.Proofs.Style.Mentions
import ScopedCss.Proofs.Compiler.LastWriter
import ScopedCss.Proofs.Compiler.Meaning
import ScopedCss.Proofs.Sink.Sheet
import ScopedCss.Proofs.Compiler.Plain
import ScopedCss.Proofs.Compiler.Acceptance
import ScopedCss.Proofs.Compiler.Trees
import ScopedCss.Proofs.Sink.Regions
import ScopedCss.Proofs.CommandLine.Sheet
import ScopedCss.Proofs.Compiler.Names
import ScopedCss.Proofs.Registry.Succession
import ScopedCss.Proofs.Client.Cascade
import ScopedCss.Proofs.Json.Read
import ScopedCss.Proofs.Style.Decode
import ScopedCss.Proofs.Sink.Steady
import ScopedCss.Proofs.Registry.Refusal
import ScopedCss.Proofs.Registry.Unlogged
import ScopedCss.Proofs.Client.Isolation
import ScopedCss.Proofs.Client.Restriction
import ScopedCss.Proofs.Sink.Grammar
import ScopedCss.Proofs.Compiler.Variables
import ScopedCss.Proofs.Style.Merging
import ScopedCss.Proofs.Compiler.Inputs
import ScopedCss.Proofs.ContentHash
import ScopedCss.Proofs.Style.Partition
import ScopedCss.Proofs.Registry.Sharing
import ScopedCss.Proofs.Compiler.Content
import ScopedCss.Proofs.Sink.Rendering
import ScopedCss.Proofs.Style.Shape
import ScopedCss.Proofs.Json.Strings
import ScopedCss.Proofs.Style.Texts
import ScopedCss.Proofs.Compiler.HashedText
import ScopedCss.Proofs.Compiler.Spelling
import ScopedCss.Proofs.MapEvents
import ScopedCss.Proofs.Style.Overwriting
import ScopedCss.Proofs.Number.Rendering
