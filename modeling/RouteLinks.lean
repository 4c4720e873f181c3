import RouteLinks.CommandLine.Options
import RouteLinks.CommandLine.Session
import RouteLinks.Decimal.Limit
import RouteLinks.Decimal.Shortest
import RouteLinks.Diagnostic
import RouteLinks.Emit.Emitter
import RouteLinks.Emit.Layout
import RouteLinks.Emit.Node
import RouteLinks.Files.Path
import RouteLinks.Files.Tree
import RouteLinks.Links.Assembly
import RouteLinks.Links.Companion
import RouteLinks.Links.Generation
import RouteLinks.Links.Override
import RouteLinks.Links.Registry
import RouteLinks.Links.Run
import RouteLinks.Links.StaticFiles
import RouteLinks.Main
import RouteLinks.Order
import RouteLinks.Parser.Declaration
import RouteLinks.Parser.Fault
import RouteLinks.Parser.Levels
import RouteLinks.Parser.Operand
import RouteLinks.Parser.Tree
import RouteLinks.Parser.TypeName
import RouteLinks.Proofs.Emit.Canonical
import RouteLinks.Proofs.Emit.Indentation
import RouteLinks.Proofs.Emit.Layout
import RouteLinks.Proofs.Emit.Node
import RouteLinks.Proofs.Emit.Pragma
import RouteLinks.Proofs.Emit.Region
import RouteLinks.Proofs.Files.Growth
import RouteLinks.Proofs.Files.Path
import RouteLinks.Proofs.Files.Tree
import RouteLinks.Proofs.Files.Walk
import RouteLinks.Proofs.Grouping
import RouteLinks.Proofs.Links.Accessors
import RouteLinks.Proofs.Links.Accounting
import RouteLinks.Proofs.Links.Afterwards
import RouteLinks.Proofs.Links.Constructors
import RouteLinks.Proofs.Links.Describing
import RouteLinks.Proofs.Links.Dictionary
import RouteLinks.Proofs.Links.Execution
import RouteLinks.Proofs.Links.HalfMembers
import RouteLinks.Proofs.Links.Hygiene
import RouteLinks.Proofs.Links.Idempotence
import RouteLinks.Proofs.Links.Imports
import RouteLinks.Proofs.Links.LinkTree
import RouteLinks.Proofs.Links.Listing
import RouteLinks.Proofs.Links.MemberNames
import RouteLinks.Proofs.Links.Paths
import RouteLinks.Proofs.Links.Registry
import RouteLinks.Proofs.Links.Regrouping
import RouteLinks.Proofs.Links.RouteKeys
import RouteLinks.Proofs.Links.Running
import RouteLinks.Proofs.Links.SecondRun
import RouteLinks.Proofs.Links.StaticFiles
import RouteLinks.Proofs.Links.WriteOrder
import RouteLinks.Proofs.Order
import RouteLinks.Proofs.Routes.Actions
import RouteLinks.Proofs.Routes.Area
import RouteLinks.Proofs.Routes.Binding
import RouteLinks.Proofs.Routes.Descriptor
import RouteLinks.Proofs.Routes.EditPlaces
import RouteLinks.Proofs.Routes.Edited
import RouteLinks.Proofs.Routes.EditedController
import RouteLinks.Proofs.Routes.IntegerDefault
import RouteLinks.Proofs.Routes.Literal
import RouteLinks.Proofs.Routes.Nearest
import RouteLinks.Proofs.Routes.Numbering
import RouteLinks.Proofs.Routes.Numeral
import RouteLinks.Proofs.Routes.Origin
import RouteLinks.Proofs.Routes.Overridable
import RouteLinks.Proofs.Routes.RespelledController
import RouteLinks.Proofs.Routes.ResultJudgement
import RouteLinks.Proofs.Routes.ResultTokens
import RouteLinks.Proofs.Routes.RouteName
import RouteLinks.Proofs.Routes.Signatures
import RouteLinks.Proofs.Routes.SpacedOverrides
import RouteLinks.Proofs.Routes.Splice
import RouteLinks.Proofs.Routes.StringDefault
import RouteLinks.Proofs.Settings.Names
import RouteLinks.Proofs.Settings.Overrides
import RouteLinks.Proofs.Settings.Values
import RouteLinks.Proofs.Source.Collection
import RouteLinks.Proofs.Source.CommentedContexts
import RouteLinks.Proofs.Source.CommentedHeads
import RouteLinks.Proofs.Source.CommentedParameters
import RouteLinks.Proofs.Source.CommentedSources
import RouteLinks.Proofs.Source.Constructors
import RouteLinks.Proofs.Source.Insertion
import RouteLinks.Proofs.Source.Lexing
import RouteLinks.Proofs.Source.Loading
import RouteLinks.Proofs.Source.NameBytes
import RouteLinks.Proofs.Source.Occurrences
import RouteLinks.Proofs.Source.Offsets
import RouteLinks.Proofs.Source.Outline
import RouteLinks.Proofs.Source.OutlineHeads
import RouteLinks.Proofs.Source.OutlineReading
import RouteLinks.Proofs.Source.OutlineText
import RouteLinks.Proofs.Source.Phrase
import RouteLinks.Proofs.Source.Placement
import RouteLinks.Proofs.Source.Reading
import RouteLinks.Proofs.Source.TypeSpacing
import RouteLinks.Proofs.Source.TypeTokens
import RouteLinks.Proofs.Source.TypeTree
import RouteLinks.Proofs.Symbols.Ancestry
import RouteLinks.Proofs.Symbols.Declarations
import RouteLinks.Proofs.Symbols.Descent
import RouteLinks.Proofs.Symbols.Discovery
import RouteLinks.Proofs.Symbols.Identity
import RouteLinks.Proofs.Symbols.Matching
import RouteLinks.Proofs.Symbols.Merging
import RouteLinks.Proofs.Symbols.Respelled
import RouteLinks.Proofs.Symbols.Sample
import RouteLinks.Proofs.Symbols.Spelling
import RouteLinks.Proofs.Symbols.Walk
import RouteLinks.Proofs.Text.Ascii
import RouteLinks.Proofs.Text.Fields
import RouteLinks.Proofs.Text.Identifier
import RouteLinks.Proofs.Text.LowerCase
import RouteLinks.Proofs.Text.Utf8
import RouteLinks.Routes.Action
import RouteLinks.Routes.Controller
import RouteLinks.Routes.Descriptor
import RouteLinks.Routes.Edit
import RouteLinks.Routes.Literal
import RouteLinks.Routes.Naming
import RouteLinks.Routes.Numbering
import RouteLinks.Routes.ResultKind
import RouteLinks.Routes.Value
import RouteLinks.Settings.Basic
import RouteLinks.Settings.Document
import RouteLinks.Settings.Json
import RouteLinks.Settings.Lenient
import RouteLinks.Settings.Load
import RouteLinks.Settings.Yaml
import RouteLinks.Settings.Yaml.Cursor
import RouteLinks.Settings.Yaml.Flow
import RouteLinks.Settings.Yaml.Number
import RouteLinks.Settings.Yaml.Scalar
import RouteLinks.Source.BaseList
import RouteLinks.Source.Collection
import RouteLinks.Source.Head
import RouteLinks.Source.Lexer
import RouteLinks.Source.LiteralLength
import RouteLinks.Source.ParameterList
import RouteLinks.Source.Reader
import RouteLinks.Source.Selection
import RouteLinks.Source.SyntaxTree
import RouteLinks.Source.Token
import RouteLinks.Source.Unit
import RouteLinks.Symbols.Ancestry
import RouteLinks.Symbols.Attribute
import RouteLinks.Symbols.Class
import RouteLinks.Symbols.Discovery
import RouteLinks.Symbols.Model
import RouteLinks.Symbols.Parameter
import RouteLinks.Text.Basic
import RouteLinks.Text.Encoding
import RouteLinks.Text.Identifier
import RouteLinks.Text.Quoted
import RouteLinks.Text.Utf8
import RouteLinks.Unicode.LetterCase
import RouteLinks.Unicode.Printable
import RouteLinks.Unicode.Ranges
import RouteLinks.Unicode.Word
