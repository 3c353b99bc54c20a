import AnnotatedApi.Annotation.Comment
import AnnotatedApi.Annotation.Header
import AnnotatedApi.Annotation.Model
import AnnotatedApi.Annotation.Operation
import AnnotatedApi.Annotation.Parameter
import AnnotatedApi.Annotation.Response
import AnnotatedApi.Annotation.Route
import AnnotatedApi.Annotation.Security
import AnnotatedApi.Annotation.Settings
import AnnotatedApi.Annotation.TypeExpr
import AnnotatedApi.Assoc
import AnnotatedApi.Calendar
import AnnotatedApi.Command.Arguments
import AnnotatedApi.Command.Build
import AnnotatedApi.Command.Session
import AnnotatedApi.Command.Usage
import AnnotatedApi.Command.Workspace
import AnnotatedApi.Config
import AnnotatedApi.Document.Contribution
import AnnotatedApi.Document.Edit
import AnnotatedApi.Document.File
import AnnotatedApi.Document.Finish
import AnnotatedApi.Document.Generator
import AnnotatedApi.Document.Merge
import AnnotatedApi.Document.Stamp
import AnnotatedApi.Json.Reader
import AnnotatedApi.Json.Writer
import AnnotatedApi.Main
import AnnotatedApi.Number.Binary64
import AnnotatedApi.Number.Numeral
import AnnotatedApi.Number.Shortest
import AnnotatedApi.Path
import AnnotatedApi.Proofs.Alike
import AnnotatedApi.Proofs.AnnotationOrder
import AnnotatedApi.Proofs.Assembly
import AnnotatedApi.Proofs.Assoc
import AnnotatedApi.Proofs.Blocks
import AnnotatedApi.Proofs.Commuting
import AnnotatedApi.Proofs.DeclaredTypes
import AnnotatedApi.Proofs.Deduplication
import AnnotatedApi.Proofs.Excision
import AnnotatedApi.Proofs.Failures
import AnnotatedApi.Proofs.Formatting
import AnnotatedApi.Proofs.Groups
import AnnotatedApi.Proofs.HeaderPolicies
import AnnotatedApi.Proofs.Headers
import AnnotatedApi.Proofs.Inert
import AnnotatedApi.Proofs.JsonGrammar
import AnnotatedApi.Proofs.JsonLexemes
import AnnotatedApi.Proofs.JsonText
import AnnotatedApi.Proofs.Kinds
import AnnotatedApi.Proofs.LastWriter
import AnnotatedApi.Proofs.Merge
import AnnotatedApi.Proofs.Models
import AnnotatedApi.Proofs.NameOrder
import AnnotatedApi.Proofs.Nulls
import AnnotatedApi.Proofs.Output
import AnnotatedApi.Proofs.Parameters
import AnnotatedApi.Proofs.Paths
import AnnotatedApi.Proofs.Ready
import AnnotatedApi.Proofs.References
import AnnotatedApi.Proofs.Regeneration
import AnnotatedApi.Proofs.Reports
import AnnotatedApi.Proofs.Required
import AnnotatedApi.Proofs.ResponseSettings
import AnnotatedApi.Proofs.Responses
import AnnotatedApi.Proofs.Routes
import AnnotatedApi.Proofs.Run
import AnnotatedApi.Proofs.Sections
import AnnotatedApi.Proofs.SecurityTexts
import AnnotatedApi.Proofs.SettingsFailures
import AnnotatedApi.Proofs.Sharing
import AnnotatedApi.Proofs.Sizes
import AnnotatedApi.Proofs.Skeleton
import AnnotatedApi.Proofs.Spaces
import AnnotatedApi.Proofs.Store
import AnnotatedApi.Proofs.Stretches
import AnnotatedApi.Proofs.TagOrder
import AnnotatedApi.Proofs.Validation
import AnnotatedApi.Proofs.Writable
import AnnotatedApi.Proofs.Yaml.Documents
import AnnotatedApi.Proofs.Yaml.JsonTexts
import AnnotatedApi.Report
import AnnotatedApi.Text.Base64
import AnnotatedApi.Text.Blank
import AnnotatedApi.Text.Case
import AnnotatedApi.Text.CaseTable
import AnnotatedApi.Text.Cut
import AnnotatedApi.Text.Digit
import AnnotatedApi.Text.Lines
import AnnotatedApi.Text.Printable
import AnnotatedApi.Text.Quoted
import AnnotatedApi.Text.Similar
import AnnotatedApi.Text.Span
import AnnotatedApi.Text.Surrogate
import AnnotatedApi.Text.Word
import AnnotatedApi.Validation
import AnnotatedApi.Value
import AnnotatedApi.Value.Members
import AnnotatedApi.Value.Share
import AnnotatedApi.Value.Spelled
import AnnotatedApi.Value.WellFormed
import AnnotatedApi.Yaml.Cursor
import AnnotatedApi.Yaml.Filling
import AnnotatedApi.Yaml.Lexer
import AnnotatedApi.Yaml.Node
import AnnotatedApi.Yaml.Notation
import AnnotatedApi.Yaml.Pen
import AnnotatedApi.Yaml.Reader
import AnnotatedApi.Yaml.Scalar
import AnnotatedApi.Yaml.Schema
import AnnotatedApi.Yaml.Style
import AnnotatedApi.Yaml.Token
import AnnotatedApi.Yaml.Writer
