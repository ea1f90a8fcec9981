import QueueBench.Main
import QueueBench.Proofs.AxisSearch
import QueueBench.Proofs.TableLookup
import QueueBench.Proofs.MatrixStore
import QueueBench.Proofs.MatrixLookup
import QueueBench.Proofs.MatrixRuns
import QueueBench.Proofs.SeriesGroups
import QueueBench.Proofs.TallySurvivors
import QueueBench.Proofs.ViewAgreement
import QueueBench.Proofs.DiscoveryOrder
import QueueBench.Proofs.DocumentMerge
import QueueBench.Proofs.CrossReference
import QueueBench.Proofs.DumpKeys
import QueueBench.Proofs.UsableDocuments
import QueueBench.Proofs.CharacterSequences
import QueueBench.Proofs.TextEncoding
import QueueBench.Proofs.DirectoryNames
import QueueBench.Proofs.DirectoryRuns
import QueueBench.Proofs.EnumerationOrder
import QueueBench.Proofs.FileReports
import QueueBench.Proofs.SourceAccounts
import QueueBench.Proofs.ReportedNames
import QueueBench.Proofs.ResolvedDumps
import QueueBench.Proofs.RepeatedKeys
import QueueBench.Proofs.FailingRuns
import QueueBench.Proofs.DocumentIsolation
import QueueBench.Proofs.ReaderRuns
import QueueBench.Proofs.ValueRuns
import QueueBench.Proofs.SkippedValues
import QueueBench.Proofs.ThroughputRange
import QueueBench.Proofs.TwoFieldRecords
import QueueBench.Proofs.DocumentForms
import QueueBench.Proofs.NormalForms
import QueueBench.Proofs.WrittenNumbers
import QueueBench.Proofs.WrittenTexts
import QueueBench.Proofs.WrittenValues
import QueueBench.Proofs.KeptRecords
import QueueBench.Proofs.LosslessDocuments
import QueueBench.Proofs.TextPieces
import QueueBench.Proofs.CollectedCounters
import QueueBench.Proofs.PathResolution
import QueueBench.Proofs.SingleDocuments
import QueueBench.Proofs.CommandRuns
import QueueBench.Proofs.WrittenRecords
import QueueBench.Proofs.WrittenZones
import QueueBench.Proofs.WrittenReports
import QueueBench.Proofs.DuplicateKeys
import QueueBench.Proofs.AggregationShape
import QueueBench.Proofs.NameForms
import QueueBench.Proofs.DoubleBits
import QueueBench.Proofs.NearestDoubles
import QueueBench.Proofs.RoundedDoubles
import QueueBench.Proofs.RoundedArithmetic
import QueueBench.Proofs.ShortestDigits
import QueueBench.Proofs.WrittenDoubles
import QueueBench.Proofs.IndentedValues
import QueueBench.Proofs.RenderedAggregations
import QueueBench.Proofs.CounterLines
import QueueBench.Proofs.LineIsolation
import QueueBench.Proofs.CellCoercion
import QueueBench.Proofs.ColumnsByName
import QueueBench.Proofs.RaisedLimits
import QueueBench.Proofs.EmptyDocuments
