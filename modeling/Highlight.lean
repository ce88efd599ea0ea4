import Highlight.Text.Category
import Highlight.Text.CaseFold
import Highlight.Text.LowerCase
import Highlight.Text.Property
import Highlight.Text.Source
import Highlight.Regex.Pattern
import Highlight.Regex.Attempt
import Highlight.Regex.SetReader
import Highlight.Regex.Reader
import Highlight.Regex.Basic
import Highlight.Rules.Matcher
import Highlight.Grammar.Definition
import Highlight.Assembly.Table
import Highlight.Tree.Builder
import Highlight.Json.Value
import Highlight.Format.Html
import Highlight.Format.Markup
import Highlight.Format.Registry
import Highlight.Scan.Run
import Highlight.Grammar.Bundled
import Highlight.Session
import Highlight.Configuration.Number
import Highlight.Configuration.Value
import Highlight.Configuration.Toml.Text
import Highlight.Configuration.Toml.Document
import Highlight.Configuration.Layers
import Highlight.CommandLine.Run
import Highlight.Main
import Highlight.Proofs.Rules.First
import Highlight.Proofs.Continuations
import Highlight.Proofs.RoundTrip
import Highlight.Proofs.SafeMode
import Highlight.Proofs.Tolerance
import Highlight.Proofs.Assembly.Unfolding
import Highlight.Proofs.Scan.Ignored
import Highlight.Proofs.Assembly.Placed
import Highlight.Proofs.Assembly.Terminator
import Highlight.Proofs.Scan.Moves
import Highlight.Proofs.Scan.Neighbours
import Highlight.Proofs.Detection
import Highlight.Proofs.Nesting
import Highlight.Proofs.Returns
import Highlight.Proofs.Scan.Closing
import Highlight.Proofs.Tree.Operations
import Highlight.Proofs.Bundled.Embedding
import Highlight.Proofs.Bundled.Diff
import Highlight.Proofs.Json.Nodes
import Highlight.Proofs.Json.Steps
import Highlight.Proofs.Json.Values
import Highlight.Proofs.Json.Document
import Highlight.Proofs.Html
import Highlight.Proofs.Registrations
import Highlight.Proofs.Scan.Headway
import Highlight.Proofs.Assembly.Caseless
import Highlight.Proofs.CaseInsensitivity
import Highlight.Proofs.Scan.Unclosing
import Highlight.Proofs.Scan.HandedBack
import Highlight.Proofs.Scan.Relevance
import Highlight.Proofs.Scan.Spans
import Highlight.Proofs.IllegalReports
import Highlight.Proofs.Scan.Stalling
import Highlight.Proofs.Scan.Delimiters
import Highlight.Proofs.Rules.GroupCount
import Highlight.Proofs.Assembly.Outcome
import Highlight.Proofs.Markup
import Highlight.Proofs.Assembly.BeginKeywords
import Highlight.Proofs.Assembly.BrokenPatterns
import Highlight.Proofs.Json.PrefixFree
import Highlight.Proofs.Rules.Escaped
import Highlight.Proofs.Rules.JoinedTokens
import Highlight.Proofs.Bundled.Ini
