import Sqlwright.Catalog.Listing
import Sqlwright.Catalog.NativeType
import Sqlwright.Catalog.Reading
import Sqlwright.Connection
import Sqlwright.Connection.Script
import Sqlwright.Database
import Sqlwright.Ddl.Alter
import Sqlwright.Ddl.Create
import Sqlwright.Ddl.Definition
import Sqlwright.Ddl.NativeName
import Sqlwright.Dialect
import Sqlwright.Fault
import Sqlwright.Grammar
import Sqlwright.Issue
import Sqlwright.Json
import Sqlwright.Json.Reader
import Sqlwright.Keyed
import Sqlwright.Number.FloatText
import Sqlwright.Number.Integer
import Sqlwright.Number.Nearest
import Sqlwright.Number.Shortest
import Sqlwright.Piece
import Sqlwright.Proofs.AddressedTables
import Sqlwright.Proofs.AliasReading
import Sqlwright.Proofs.AlterBatch
import Sqlwright.Proofs.AlterRun
import Sqlwright.Proofs.AlterTarget
import Sqlwright.Proofs.BlueprintLookups
import Sqlwright.Proofs.BuilderCoherence
import Sqlwright.Proofs.BuilderExchange
import Sqlwright.Proofs.BuilderTrace
import Sqlwright.Proofs.CallExchange
import Sqlwright.Proofs.CallOrder
import Sqlwright.Proofs.CallRuns
import Sqlwright.Proofs.ClauseLocality
import Sqlwright.Proofs.Coherence
import Sqlwright.Proofs.ColumnPlaces
import Sqlwright.Proofs.FixedText
import Sqlwright.Proofs.KnownOperators
import Sqlwright.Proofs.LogGrowth
import Sqlwright.Proofs.LogOwnership
import Sqlwright.Proofs.LogPrepending
import Sqlwright.Proofs.NameReading
import Sqlwright.Proofs.Numbering
import Sqlwright.Proofs.PortableSelect
import Sqlwright.Proofs.QualifiedNames
import Sqlwright.Proofs.SelectNumbering
import Sqlwright.Proofs.SelectTokens
import Sqlwright.Proofs.StrictBuilding
import Sqlwright.Proofs.Subquery
import Sqlwright.Proofs.ValueExchange
import Sqlwright.Proofs.VersionReading
import Sqlwright.Proofs.WriteClauses
import Sqlwright.Proofs.WriteExchange
import Sqlwright.Proofs.WriteNumbering
import Sqlwright.Query.Basic
import Sqlwright.Query.Builder
import Sqlwright.Query.Call
import Sqlwright.Query.Compile
import Sqlwright.Query.Execute
import Sqlwright.Query.Record
import Sqlwright.Query.Select
import Sqlwright.Query.Write
import Sqlwright.Registry
import Sqlwright.Row
import Sqlwright.Schema
import Sqlwright.Table.Basic
import Sqlwright.Table.Build
import Sqlwright.Table.Column
import Sqlwright.Table.ColumnType
import Sqlwright.Table.Command
import Sqlwright.Table.Index
import Sqlwright.Table.Named
import Sqlwright.Table.Snapshot
import Sqlwright.Text.Alias
import Sqlwright.Text.Blank
import Sqlwright.Text.Escape
import Sqlwright.Text.Fields
import Sqlwright.Text.Quoted
import Sqlwright.Text.Utf8
import Sqlwright.Value
import Sqlwright.Version
import Sqlwright.Proofs.DistinctNames
import Sqlwright.Proofs.ColumnPositions
import Sqlwright.Proofs.KeyFlags
import Sqlwright.Proofs.Redefinition
import Sqlwright.Proofs.CreationParts
import Sqlwright.Proofs.CreationLog
import Sqlwright.Proofs.CounterResets
import Sqlwright.Proofs.CreatedBlueprint
import Sqlwright.Proofs.ColumnReferences
import Sqlwright.Proofs.JoinedLabels
import Sqlwright.Proofs.EnumTypes
import Sqlwright.Proofs.CommentMarkers
import Sqlwright.Proofs.ReflectedIndexes
import Sqlwright.Proofs.IndexPartition
import Sqlwright.Proofs.NativeTypes
import Sqlwright.Proofs.EnumLabels
import Sqlwright.Proofs.DeclaredTypes
import Sqlwright.Proofs.QuotedNames
import Sqlwright.Proofs.UnquotedText
import Sqlwright.Proofs.StoredIndexes
import Sqlwright.Proofs.StrayMarks
import Sqlwright.Proofs.FirstAppearances
import Sqlwright.Proofs.WrittenRows
import Sqlwright.Proofs.DefaultCells
import Sqlwright.Proofs.CollidingRows
import Sqlwright.Proofs.ListedTables
import Sqlwright.Proofs.ArrayLabels
import Sqlwright.Proofs.KeyDeclarations
import Sqlwright.Proofs.ModifiedColumns
import Sqlwright.Proofs.RenamedColumns
import Sqlwright.Proofs.RecordedColumns
import Sqlwright.Proofs.LiteralReading
import Sqlwright.Proofs.InlinedTexts
import Sqlwright.Proofs.Parentheses
import Sqlwright.Proofs.TidyQueries
import Sqlwright.Proofs.FragmentMarks
import Sqlwright.Proofs.GroupedConditions
import Sqlwright.Proofs.TrimmedTexts
import Sqlwright.Proofs.CommaLists
import Sqlwright.Proofs.PassedColumns
