import PackedEdges.Main
import PackedEdges.Proofs.BitView
import PackedEdges.Proofs.RecordBytes
import PackedEdges.Proofs.SlotRead
import PackedEdges.Proofs.SlotWrite
import PackedEdges.Proofs.SlotGrants
import PackedEdges.Proofs.Registration
import PackedEdges.Proofs.AttributeRange
import PackedEdges.Proofs.SchemaLayout
import PackedEdges.Proofs.ReadPaths
import PackedEdges.Proofs.AttributeAccess
import PackedEdges.Proofs.BuiltSchema
import PackedEdges.Proofs.CellTable
import PackedEdges.Proofs.StoreRefinement
import PackedEdges.Proofs.HistoryIndependence
import PackedEdges.Proofs.StringText
import PackedEdges.Proofs.NumeralText
import PackedEdges.Proofs.IntegerText
import PackedEdges.Proofs.TokenSpelling
import PackedEdges.Proofs.ValueTokens
import PackedEdges.Proofs.SkippedValues
import PackedEdges.Proofs.CodecLaws
import PackedEdges.Proofs.RecordLaws
import PackedEdges.Proofs.PresentedForms
import PackedEdges.Proofs.WrittenForms
import PackedEdges.Proofs.FileContent
import PackedEdges.Proofs.LastingForms
import PackedEdges.Proofs.FieldPresentation
import PackedEdges.Proofs.ReachableStates
import PackedEdges.Proofs.SnapshotRestore
import PackedEdges.Proofs.InPlace
import PackedEdges.Proofs.FailedOperations
import PackedEdges.Proofs.RestoredRuns
import PackedEdges.Proofs.RunningMaximum
import PackedEdges.Proofs.RecordLocality
import PackedEdges.Proofs.ExactAccess
import PackedEdges.Proofs.SchemaGrowth
import PackedEdges.Proofs.CommandRuns
import PackedEdges.Proofs.RoundTrips
import PackedEdges.Proofs.FirstFit
import PackedEdges.Proofs.WordLoads
import PackedEdges.Proofs.NameGrammar
import PackedEdges.Proofs.SoundSettings
import PackedEdges.Proofs.RegisteredOnce
import PackedEdges.Proofs.DefinitionFaults
import PackedEdges.Proofs.NameIndex
import PackedEdges.Proofs.RestoredSchemas
import PackedEdges.Proofs.LayoutText
import PackedEdges.Proofs.NameVerdicts
import PackedEdges.Proofs.RecordEnds
import PackedEdges.Proofs.RecordList
import PackedEdges.Proofs.LowerCaseText
import PackedEdges.Proofs.LayoutColumns
import PackedEdges.Proofs.FloatOrder
import PackedEdges.Proofs.RoundedNumbers
import PackedEdges.Proofs.FloatRounding
import PackedEdges.Proofs.FloatValues
import PackedEdges.Proofs.FloatArithmetic
import PackedEdges.Proofs.WordLikeness
import PackedEdges.Proofs.SuggestionScores
import PackedEdges.Proofs.FirstBest
import PackedEdges.Proofs.CaseVariants
