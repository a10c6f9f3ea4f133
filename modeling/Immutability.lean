import Immutability.Classification
import Immutability.Command.Line
import Immutability.Command.Run
import Immutability.Config
import Immutability.Config.Toml
import Immutability.Declaration
import Immutability.Declaration.Json
import Immutability.Diagnostic
import Immutability.Diagnostic.Json
import Immutability.Discovery
import Immutability.Document
import Immutability.DottedName
import Immutability.Element
import Immutability.Explanation
import Immutability.Files.Access
import Immutability.Files.Tree
import Immutability.Graph
import Immutability.Graph.Fingerprint
import Immutability.Json.Basic
import Immutability.Json.Literal
import Immutability.Json.Numeral
import Immutability.Json.Printer
import Immutability.Json.Read
import Immutability.Json.Token
import Immutability.Json.Tree
import Immutability.Keyed
import Immutability.Lookup
import Immutability.Main
import Immutability.Number.Binary64
import Immutability.Number.Notation
import Immutability.Number.Shortest
import Immutability.Proofs.Classification
import Immutability.Proofs.Command.Check
import Immutability.Proofs.Command.Effects
import Immutability.Proofs.Command.Stability
import Immutability.Proofs.Config.Toml
import Immutability.Proofs.Declaration.Json
import Immutability.Proofs.Diagnostic.Json
import Immutability.Proofs.Discovery
import Immutability.Proofs.Discovery.Completeness
import Immutability.Proofs.Document.Json
import Immutability.Proofs.Document.Presentation
import Immutability.Proofs.DottedName
import Immutability.Proofs.Explanation
import Immutability.Proofs.Explanation.Page
import Immutability.Proofs.Files.Listing
import Immutability.Proofs.Files.Names
import Immutability.Proofs.Files.Steps
import Immutability.Proofs.Files.Writing
import Immutability.Proofs.Graph.Canonical
import Immutability.Proofs.Graph.Collision
import Immutability.Proofs.Graph.Fingerprint
import Immutability.Proofs.Graph.Grouping
import Immutability.Proofs.Graph.Insertion
import Immutability.Proofs.Graph.Loading
import Immutability.Proofs.Graph.Marking
import Immutability.Proofs.Graph.Refusal
import Immutability.Proofs.Graph.Reload
import Immutability.Proofs.Graph.Resumption
import Immutability.Proofs.Graph.Union
import Immutability.Proofs.Graph.WellFormed
import Immutability.Proofs.Json.Building
import Immutability.Proofs.Json.Form
import Immutability.Proofs.Json.Free
import Immutability.Proofs.Json.Layout
import Immutability.Proofs.Json.Line
import Immutability.Proofs.Json.Literal
import Immutability.Proofs.Json.Numeral
import Immutability.Proofs.Json.Reading
import Immutability.Proofs.Json.Spelling
import Immutability.Proofs.Keyed
import Immutability.Proofs.Lookup
import Immutability.Proofs.Reading.Record
import Immutability.Proofs.Registry
import Immutability.Proofs.Report.Json
import Immutability.Proofs.Report.Screen
import Immutability.Proofs.Sha256
import Immutability.Proofs.SkipPattern
import Immutability.Proofs.Styled
import Immutability.Proofs.Toml.Document
import Immutability.Proofs.Toml.Table
import Immutability.Proofs.Verification.Evidence
import Immutability.Proofs.Verification.Exactness
import Immutability.Proofs.Verification.Independence
import Immutability.Proofs.Verification.Marking
import Immutability.Proofs.Verification.Merging
import Immutability.Proofs.Verification.Outcome
import Immutability.Proofs.Verification.Registration
import Immutability.Proofs.Verification.Reordering
import Immutability.Proofs.Verification.Repair
import Immutability.Proofs.Verification.Reweighing
import Immutability.Proofs.Verification.Selection
import Immutability.Proofs.Verification.Settling
import Immutability.Proofs.Verification.Skipping
import Immutability.Proofs.Verification.Trust
import Immutability.Reading.Fault
import Immutability.Reading.Record
import Immutability.Registry
import Immutability.Report
import Immutability.Report.Json
import Immutability.Report.Markdown
import Immutability.Report.Screen
import Immutability.Severity
import Immutability.Sha256
import Immutability.SkipPattern
import Immutability.Styled
import Immutability.Text.Digits
import Immutability.Text.Quoted
import Immutability.Text.Visible
import Immutability.Toml.Document
import Immutability.Toml.Scalar
import Immutability.Toml.Table
import Immutability.Toml.Text
import Immutability.Toml.Value
import Immutability.Verification
import Immutability.Violation
