import BranchText.Source.Span
import BranchText.Source.Position
import BranchText.Decimal.Nearest
import BranchText.Decimal.Style
import BranchText.Chance.Generator
import BranchText.Chance.Deck
import BranchText.Document.ReadError
import BranchText.Token.Stream
import BranchText.Script.Extent
import BranchText.Text.Quoted
import BranchText.Text.Alphabet
import BranchText.Text.Alphabet.Unprintable
import BranchText.Document.Scripts
import BranchText.Document.Pieces
import BranchText.Document.Reader
import BranchText.Document.Dump
import BranchText.Outcomes.Count
import BranchText.Cleanup.Pass
import BranchText.Warning
import BranchText.Disk.Files
import BranchText.Script.Syntax
import BranchText.Script.Token
import BranchText.Script.Reader
import BranchText.Script.Exchange
import BranchText.Script.Arithmetic
import BranchText.Script.Evaluation
import BranchText.Ledger.Table
import BranchText.Ledger.Record
import BranchText.Render.Error
import BranchText.Render.State
import BranchText.Render.Fork
import BranchText.Render.Nodes
import BranchText.Script.Advice
import BranchText.Render.Include
import BranchText.Render.Scripts
import BranchText.Render.Document
import BranchText.Render.Output
import BranchText.Script.Console
import BranchText.Text.Hex
import BranchText.Text.Scan
import BranchText.Decimal.Number
import BranchText.Ron.Reader
import BranchText.Json.Basic
import BranchText.Json.Reader
import BranchText.Settings.Decoding
import BranchText.Settings.Request
import BranchText.Report
import BranchText.Lint
import BranchText.Playground
import BranchText.Command.Basic
import BranchText.Command.Render
import BranchText.Command.Lint
import BranchText.Main
import BranchText.Document.Print
import BranchText.Document.Within
import BranchText.Proofs.Reading.Runs
import BranchText.Proofs.Reading.Tokens
import BranchText.Proofs.Reading.Words
import BranchText.Proofs.Reading.Parts
import BranchText.Proofs.Reading.Steps
import BranchText.Proofs.Chance.WholeWeights
import BranchText.Proofs.Reading.RoundTrip
import BranchText.Proofs.Chance.Replacement
import BranchText.Proofs.Render.Ensures
import BranchText.Proofs.Render.Follows
import BranchText.Proofs.Render.Steps
import BranchText.Proofs.Render.Tracks
import BranchText.Proofs.Render.Reached
import BranchText.Proofs.Render.Replacement
import BranchText.Proofs.Render.OwnBranches
import BranchText.Proofs.Chance.Cycles
import BranchText.Proofs.Render.Registrations
import BranchText.Proofs.Render.SideBySide
import BranchText.Proofs.Script.IncludeProgram
import BranchText.Proofs.Render.Isolation
import BranchText.Proofs.Document.Parts
import BranchText.Proofs.Render.Dormant
import BranchText.Proofs.Render.Sandbox
import BranchText.Proofs.Render.Declarations
import BranchText.Indexed.Access
import BranchText.Indexed.Reader
import BranchText.Proofs.Indexed.Places
import BranchText.Proofs.Indexed.Runs
import BranchText.Proofs.Indexed.Tokens
import BranchText.Proofs.Indexed.Stream
import BranchText.Proofs.Indexed.Searches
import BranchText.Proofs.Indexed.Literals
import BranchText.Proofs.Indexed.Mirrors
import BranchText.Proofs.Indexed.Pieces
import BranchText.Proofs.Indexed.Grammar
import BranchText.Proofs.Reading.Yields
import BranchText.Proofs.Reading.Written
import BranchText.Proofs.Document.References
import BranchText.Proofs.Reading.Nested
import BranchText.Proofs.Reading.NormalForm
import BranchText.Proofs.Reading.Spans
import BranchText.Proofs.Render.Ledger
import BranchText.Proofs.Outcomes.Counting
import BranchText.Proofs.Outcomes.Accountable
import BranchText.Proofs.Outcomes.Growth
import BranchText.Proofs.Outcomes.Covering
import BranchText.Proofs.Outcomes.Price
import BranchText.Proofs.Outcomes.Weighing
import BranchText.Proofs.Outcomes.Possible
import BranchText.Proofs.Outcomes.Standing
import BranchText.Proofs.Outcomes.Worth
import BranchText.Proofs.Outcomes.Bounds
import BranchText.Proofs.Outcomes.Credit
import BranchText.Proofs.Outcomes.Sequences
import BranchText.Proofs.Outcomes.Rendered
import BranchText.Proofs.Render.Offsets
import BranchText.Proofs.LineBreaks.Respelling
import BranchText.Proofs.LineBreaks.Searches
import BranchText.Proofs.LineBreaks.Lexemes
import BranchText.Proofs.LineBreaks.Pieces
import BranchText.Proofs.LineBreaks.Grammar
import BranchText.Proofs.Text.UsualAlphabet
import BranchText.Proofs.Cleanup.Lines
import BranchText.Proofs.Cleanup.Revisions
import BranchText.Proofs.Cleanup.Sentences
import BranchText.Proofs.Cleanup.Spaces
import BranchText.Proofs.Cleanup.Articles
import BranchText.Proofs.Cleanup.Tidy
import BranchText.Proofs.Document.Spanless
import BranchText.Proofs.Compared.Comparison
import BranchText.Proofs.Compared.Laws
import BranchText.Proofs.Compared.Pieces
import BranchText.Proofs.Compared.Grammar
import BranchText.Proofs.Comments.AsBlanks
import BranchText.Proofs.Token.Tiling
import BranchText.Proofs.Render.IncludeAgain
import BranchText.Proofs.Document.Rephrasing
import BranchText.Proofs.Render.Pairs
import BranchText.Proofs.Render.SilentForks
import BranchText.Proofs.Document.Ordered
import BranchText.Proofs.Outcomes.Depth
import BranchText.Proofs.Outcomes.CycleFree
import BranchText.Proofs.Document.Choices
import BranchText.Proofs.Outcomes.Derivations
import BranchText.Proofs.Outcomes.Moments
import BranchText.Proofs.Outcomes.Snapshots
import BranchText.Proofs.Outcomes.Outlines
import BranchText.Proofs.Outcomes.Insertions
import BranchText.Proofs.Document.InOrder
import BranchText.Proofs.Outcomes.Tally
import BranchText.Proofs.Cut.Documents
import BranchText.Proofs.Chance.Proportions
import BranchText.Proofs.Render.Contributions
import BranchText.Proofs.Render.Replays
import BranchText.Proofs.Render.Visits
import BranchText.Proofs.Render.OneFork
import BranchText.Proofs.Render.Mappings
import BranchText.Proofs.Text.Quoting
import BranchText.Proofs.Cleanup.Visible
import BranchText.Proofs.Script.Bodies
import BranchText.Proofs.Reading.IndexMaps
import BranchText.Proofs.Token.Lookahead
import BranchText.Proofs.Source.Positions
import BranchText.Proofs.Reading.Listing
