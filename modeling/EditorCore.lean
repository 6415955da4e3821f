import EditorCore.Main
import EditorCore.Exchange.Session
import EditorCore.Files.Snapshot
import EditorCore.Proofs.Text.Columns
import EditorCore.Proofs.Text.Lines
import EditorCore.Proofs.Document.Rows
import EditorCore.Proofs.Document.Tiling
import EditorCore.Proofs.Selection.Normal
import EditorCore.Proofs.Edit.Offsets
import EditorCore.Proofs.Edit.Ascending
import EditorCore.Proofs.Session.Keys
import EditorCore.Proofs.Hint.Neighbours
import EditorCore.Proofs.Text.Search
import EditorCore.Proofs.Hint.ByIndex
import EditorCore.Proofs.Session.Range
import EditorCore.Proofs.Session.History
import EditorCore.Proofs.Token.Bytes
import EditorCore.Proofs.Token.Prefix
import EditorCore.Proofs.Token.Reader
import EditorCore.Proofs.Hint.Below
import EditorCore.Proofs.Edit.Undo
import EditorCore.Proofs.Session.Undo
import EditorCore.Proofs.Selection.Components
import EditorCore.Proofs.Edit.Splice
import EditorCore.Proofs.Hint.Qualified
import EditorCore.Proofs.Json.Token
import EditorCore.Proofs.Json.Parse
import EditorCore.Proofs.Exchange.RoundTrip
import EditorCore.Proofs.Session.Page
import EditorCore.Proofs.Session.Boundary
import EditorCore.Proofs.Edit.Marks
import EditorCore.Proofs.Edit.Wrap
import EditorCore.Proofs.Toml.Scalar
import EditorCore.Proofs.Toml.Lines
import EditorCore.Proofs.Toml.Sections
import EditorCore.Proofs.Config.RoundTrip
import EditorCore.Proofs.Edit.Landing
import EditorCore.Proofs.Edit.Blanks
import EditorCore.Proofs.Edit.Reindent
import EditorCore.Proofs.Edit.Touched
import EditorCore.Proofs.Session.Outdent
import EditorCore.Proofs.Document.Addresses
import EditorCore.Proofs.Edit.Overlap
import EditorCore.Proofs.Session.StepOver
import EditorCore.Proofs.Token.Words
import EditorCore.Proofs.Token.Comments
import EditorCore.Proofs.Token.Literals
import EditorCore.Proofs.Document.ImportRegion
import EditorCore.Proofs.Document.HeaderLines
import EditorCore.Proofs.Hint.Walks
import EditorCore.Proofs.Document.Words
import EditorCore.Proofs.Hint.Clauses
import EditorCore.Proofs.Session.Checked
import EditorCore.Proofs.Text.Boundaries
import EditorCore.Proofs.CommandLine.Tokens
import EditorCore.Proofs.CommandLine.Hint
