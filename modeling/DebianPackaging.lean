import DebianPackaging.Outcome
import DebianPackaging.Text.Basic
import DebianPackaging.Text.Unassigned
import DebianPackaging.Text.Printable
import DebianPackaging.Text.Quoted
import DebianPackaging.Text.Cased
import DebianPackaging.Text.LowerCase
import DebianPackaging.Version.Basic
import DebianPackaging.Version.Chunk
import DebianPackaging.Version.Parse
import DebianPackaging.Version.Order
import DebianPackaging.Version.Key
import DebianPackaging.Version.KeyReader
import DebianPackaging.Architecture.Basic
import DebianPackaging.Architecture.Alias
import DebianPackaging.Architecture.Name
import DebianPackaging.Architecture.Filter
import DebianPackaging.Dependency.Basic
import DebianPackaging.Dependency.Parse
import DebianPackaging.Dependency.Select
import DebianPackaging.Log
import DebianPackaging.Table
import DebianPackaging.Graph.Basic
import DebianPackaging.Graph.Layers
import DebianPackaging.Graph.Release
import DebianPackaging.Graph.ReleaseLayers
import DebianPackaging.Graph.Layering
import DebianPackaging.Paragraph.Basic
import DebianPackaging.Paragraph.Reader
import DebianPackaging.Paragraph.Writer
import DebianPackaging.Record.Value
import DebianPackaging.Record.Schema
import DebianPackaging.Record.Kind
import DebianPackaging.Record.Basic
import DebianPackaging.Record.Clearsigned
import DebianPackaging.Record.Document
import DebianPackaging.Files.Path
import DebianPackaging.Files.Tree
import DebianPackaging.Record.File
import DebianPackaging.Yaml.Value
import DebianPackaging.Yaml.Number
import DebianPackaging.Yaml.Timestamp
import DebianPackaging.Yaml.Scalar
import DebianPackaging.Yaml.Node
import DebianPackaging.Yaml.Cursor
import DebianPackaging.Yaml.ScalarText
import DebianPackaging.Yaml.Document
import DebianPackaging.Yaml.Reader
import DebianPackaging.Yaml.Writer
import DebianPackaging.Settings.Overlay
import DebianPackaging.Settings.Basic
import DebianPackaging.Settings.Load
import DebianPackaging.BuildOrder.BuildSet
import DebianPackaging.BuildOrder.Basic
import DebianPackaging.Json.Basic
import DebianPackaging.CommandLine.Argument
import DebianPackaging.CommandLine.Command
import DebianPackaging.CommandLine.Run
import DebianPackaging.Main
import DebianPackaging.Proofs.Outcome
import DebianPackaging.Proofs.Text.Basic
import DebianPackaging.Proofs.Text.Split
import DebianPackaging.Proofs.Text.Trim
import DebianPackaging.Proofs.Text.Lines
import DebianPackaging.Proofs.Text.Pieces
import DebianPackaging.Proofs.Text.Words
import DebianPackaging.Proofs.Text.Folding
import DebianPackaging.Proofs.Paragraph.Reading
import DebianPackaging.Proofs.Paragraph.Writing
import DebianPackaging.Proofs.Paragraph.Structure
import DebianPackaging.Proofs.Paragraph.RoundTrip
import DebianPackaging.Proofs.Paragraph.Normal
import DebianPackaging.Proofs.Paragraph.Stored
import DebianPackaging.Proofs.Version.Chunk
import DebianPackaging.Proofs.Version.ChunkSearch
import DebianPackaging.Proofs.Version.Pass
import DebianPackaging.Proofs.Version.Scan
import DebianPackaging.Proofs.Version.Coding
import DebianPackaging.Proofs.Version.Order
import DebianPackaging.Proofs.Version.Cancellation
import DebianPackaging.Proofs.Version.Number
import DebianPackaging.Proofs.Version.WellFormed
import DebianPackaging.Proofs.Version.KeyStep
import DebianPackaging.Proofs.Version.KeyReading
import DebianPackaging.Proofs.Version.KeyRoundTrip
import DebianPackaging.Proofs.Version.KeyOrder
import DebianPackaging.Proofs.Version.KeyPrefix
import DebianPackaging.Proofs.Version.Grammar
import DebianPackaging.Proofs.Graph.Layers
import DebianPackaging.Proofs.Graph.Generations
import DebianPackaging.Proofs.Graph.Cycle
import DebianPackaging.Proofs.Architecture.Name
import DebianPackaging.Proofs.Architecture.Shortest
import DebianPackaging.Proofs.Architecture.Components
import DebianPackaging.Proofs.Architecture.Agreement
import DebianPackaging.Proofs.Architecture.Wildcard
import DebianPackaging.Proofs.Dependency.Grammar
import DebianPackaging.Proofs.Dependency.Contents
import DebianPackaging.Proofs.Dependency.Section
import DebianPackaging.Proofs.Dependency.Reading
import DebianPackaging.Proofs.Dependency.WellFormed
import DebianPackaging.Proofs.Dependency.RoundTrip
import DebianPackaging.Proofs.Dependency.Satisfaction
import DebianPackaging.Proofs.Dependency.Folding
import DebianPackaging.Proofs.Dependency.Concatenation
import DebianPackaging.Proofs.BuildOrder.BuildSet
import DebianPackaging.Proofs.Log
import DebianPackaging.Proofs.BuildOrder.Order
import DebianPackaging.Proofs.BuildOrder.Compute
import DebianPackaging.Proofs.Record.Value
import DebianPackaging.Proofs.Record.Schema
import DebianPackaging.Proofs.Record.Stored
import DebianPackaging.Proofs.Record.Document
import DebianPackaging.Proofs.Record.Concatenation
import DebianPackaging.Proofs.Record.Packages
import DebianPackaging.Proofs.Record.Clearsigned
import DebianPackaging.Proofs.Yaml.Value
import DebianPackaging.Proofs.Settings.Overlay
import DebianPackaging.Proofs.Settings.Load
