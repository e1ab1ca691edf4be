import StringReport.Main
import StringReport.Proofs.AcceptedDocuments
import StringReport.Proofs.BlockHeights
import StringReport.Proofs.CandidateLists
import StringReport.Proofs.CarriedStyles
import StringReport.Proofs.ColoredLines
import StringReport.Proofs.ColoredReports
import StringReport.Proofs.CountedSections
import StringReport.Proofs.DeclaredDocuments
import StringReport.Proofs.DeclaredRecords
import StringReport.Proofs.DeclaredTables
import StringReport.Proofs.DeclaredValues
import StringReport.Proofs.DocumentEdits
import StringReport.Proofs.DocumentPlaces
import StringReport.Proofs.DocumentText
import StringReport.Proofs.DrawnLines
import StringReport.Proofs.ExactCells
import StringReport.Proofs.FilledRecords
import StringReport.Proofs.FilledTables
import StringReport.Proofs.GrammarOutline
import StringReport.Proofs.GrammarTokens
import StringReport.Proofs.GreedyWrap
import StringReport.Proofs.Inert
import StringReport.Proofs.JoinedSections
import StringReport.Proofs.JsonGrammar
import StringReport.Proofs.MetadataTexts
import StringReport.Proofs.NumberDigits
import StringReport.Proofs.OneLineTables
import StringReport.Proofs.OpenTables
import StringReport.Proofs.PaddedWidths
import StringReport.Proofs.PaintedLines
import StringReport.Proofs.PaintedWidths
import StringReport.Proofs.PlainListing
import StringReport.Proofs.ReadingBack
import StringReport.Proofs.RecordCounts
import StringReport.Proofs.RecordEdits
import StringReport.Proofs.RecordGaps
import StringReport.Proofs.RoutineGroups
import StringReport.Proofs.RecordStrings
import StringReport.Proofs.RecordTables
import StringReport.Proofs.ReorderedScores
import StringReport.Proofs.ReportHeight
import StringReport.Proofs.RespacedTexts
import StringReport.Proofs.RunOutcomes
import StringReport.Proofs.SanitizedTexts
import StringReport.Proofs.SanitizerLog
import StringReport.Proofs.SectionBlocks
import StringReport.Proofs.SpelledStrings
import StringReport.Proofs.StartDates
import StringReport.Proofs.TameLines
import StringReport.Proofs.TameReports
import StringReport.Proofs.TextEndings
import StringReport.Proofs.TextLines
import StringReport.Proofs.TimestampGrammar
import StringReport.Proofs.TimestampText
import StringReport.Proofs.UnusedTechniques
import StringReport.Proofs.WrittenGrammar
import StringReport.Proofs.WrittenOutline
import StringReport.Proofs.WrittenTokens
import StringReport.Proofs.PlainSections
import StringReport.Proofs.OffsetColumns
import StringReport.Proofs.FrameTables
import StringReport.Proofs.RoutineTables
import StringReport.Proofs.TonedLines
import StringReport.Proofs.HexOrder
import StringReport.Proofs.StaticOrder
import StringReport.Proofs.StrippingPlan
import StringReport.Proofs.NearestNumbers
import StringReport.Proofs.DecimalNumerals
import StringReport.Proofs.NumeralAccuracy
