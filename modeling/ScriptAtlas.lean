import ScriptAtlas.Cache
import ScriptAtlas.Cache.Codec
import ScriptAtlas.Cache.Record
import ScriptAtlas.Cache.Store
import ScriptAtlas.Catalog
import ScriptAtlas.Catalog.Entry
import ScriptAtlas.Catalog.Record
import ScriptAtlas.CommandLine
import ScriptAtlas.Comment
import ScriptAtlas.Config
import ScriptAtlas.ConfigFile
import ScriptAtlas.Cursor
import ScriptAtlas.Declaration
import ScriptAtlas.Diagnostic
import ScriptAtlas.Discovery
import ScriptAtlas.DocComment
import ScriptAtlas.DocType
import ScriptAtlas.DocType.Reader
import ScriptAtlas.EditDistance
import ScriptAtlas.Extraction
import ScriptAtlas.FileTree
import ScriptAtlas.Glob
import ScriptAtlas.Globals
import ScriptAtlas.IgnoreRule
import ScriptAtlas.IgnoreRule.Pattern
import ScriptAtlas.JsonValue
import ScriptAtlas.Main
import ScriptAtlas.NameSearch
import ScriptAtlas.Ordered
import ScriptAtlas.Overload
import ScriptAtlas.Path
import ScriptAtlas.PlatformType
import ScriptAtlas.Proofs.ArraySpellings
import ScriptAtlas.Proofs.CacheRuns
import ScriptAtlas.Proofs.CatalogOrder
import ScriptAtlas.Proofs.CatalogTypes
import ScriptAtlas.Proofs.CheckedCalls
import ScriptAtlas.Proofs.CodecRoundTrip
import ScriptAtlas.Proofs.CommentRoundTrip
import ScriptAtlas.Proofs.CursorCalls
import ScriptAtlas.Proofs.CursorChains
import ScriptAtlas.Proofs.DeclarationSites
import ScriptAtlas.Proofs.DeclaredTypes
import ScriptAtlas.Proofs.DisplayForms
import ScriptAtlas.Proofs.DocTypeAgreement
import ScriptAtlas.Proofs.EditScripts
import ScriptAtlas.Proofs.ExtractedArity
import ScriptAtlas.Proofs.FindingOrder
import ScriptAtlas.Proofs.FirstOfEach
import ScriptAtlas.Proofs.FolderListings
import ScriptAtlas.Proofs.GrammarLaws
import ScriptAtlas.Proofs.IndexOrder
import ScriptAtlas.Proofs.KeptTrees
import ScriptAtlas.Proofs.LexicalScopes
import ScriptAtlas.Proofs.LexisLaws
import ScriptAtlas.Proofs.LongestFolder
import ScriptAtlas.Proofs.LooserChecks
import ScriptAtlas.Proofs.MergedGlobals
import ScriptAtlas.Proofs.MergedParams
import ScriptAtlas.Proofs.NameGraph
import ScriptAtlas.Proofs.NodeNumbering
import ScriptAtlas.Proofs.NodeStarts
import ScriptAtlas.Proofs.OptionalMark
import ScriptAtlas.Proofs.OverloadChoice
import ScriptAtlas.Proofs.PathLaws
import ScriptAtlas.Proofs.PieceLaws
import ScriptAtlas.Proofs.PlatformCodes
import ScriptAtlas.Proofs.PositionBytes
import ScriptAtlas.Proofs.ReaderLaws
import ScriptAtlas.Proofs.RouteLaws
import ScriptAtlas.Proofs.ScanBounds
import ScriptAtlas.Proofs.ScopeResolution
import ScriptAtlas.Proofs.SearchAnswers
import ScriptAtlas.Proofs.SearchOrder
import ScriptAtlas.Proofs.SettingsRoundTrip
import ScriptAtlas.Proofs.SingleOrList
import ScriptAtlas.Proofs.SortedLists
import ScriptAtlas.Proofs.SourceText
import ScriptAtlas.Proofs.StackVisit
import ScriptAtlas.Proofs.StartupIsolation
import ScriptAtlas.Proofs.StartupOrder
import ScriptAtlas.Proofs.StatementForms
import ScriptAtlas.Proofs.SteadyCalls
import ScriptAtlas.Proofs.StoredExtractions
import ScriptAtlas.Proofs.TextLaws
import ScriptAtlas.Proofs.TornRecords
import ScriptAtlas.Proofs.TraceScopes
import ScriptAtlas.Proofs.TreeLaws
import ScriptAtlas.Proofs.TypeDerivations
import ScriptAtlas.Proofs.TypeEndings
import ScriptAtlas.Proofs.TypeForm
import ScriptAtlas.Proofs.TypeReaders
import ScriptAtlas.Proofs.TypeRoundTrip
import ScriptAtlas.Proofs.TypeScan
import ScriptAtlas.Proofs.TypeSoundness
import ScriptAtlas.Proofs.UnitOwnership
import ScriptAtlas.Proofs.UnitReferences
import ScriptAtlas.Proofs.WalkTrace
import ScriptAtlas.Proofs.WholeText
import ScriptAtlas.ScopeStack
import ScriptAtlas.Script.Callable
import ScriptAtlas.Script.Expression
import ScriptAtlas.Script.Fault
import ScriptAtlas.Script.Goal
import ScriptAtlas.Script.Grammar
import ScriptAtlas.Script.Kind
import ScriptAtlas.Script.Lexeme
import ScriptAtlas.Script.Lexis
import ScriptAtlas.Script.Literal
import ScriptAtlas.Script.Markup
import ScriptAtlas.Script.Node
import ScriptAtlas.Script.Pattern
import ScriptAtlas.Script.Reader
import ScriptAtlas.Script.Repair
import ScriptAtlas.Script.Semicolon
import ScriptAtlas.Script.Shape
import ScriptAtlas.Script.Source
import ScriptAtlas.Script.Statement
import ScriptAtlas.Settings
import ScriptAtlas.Signature
import ScriptAtlas.SymbolIndex
import ScriptAtlas.Text.Blank
import ScriptAtlas.Text.Letter
import ScriptAtlas.Text.LowerCase
import ScriptAtlas.Text.Position
import ScriptAtlas.Text.Size
import ScriptAtlas.TypeInfo
import ScriptAtlas.UnitGraph
import ScriptAtlas.Units
import ScriptAtlas.Workspace
