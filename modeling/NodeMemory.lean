import NodeMemory.Main
import NodeMemory.Proofs.LastValues
import NodeMemory.Proofs.Magnitudes
import NodeMemory.Proofs.Rounding
import NodeMemory.Proofs.NearestValues
import NodeMemory.Proofs.ScaledValues
import NodeMemory.Proofs.NativeRuns
import NodeMemory.Proofs.StructLayout
import NodeMemory.Proofs.NativeAnswers
import NodeMemory.Proofs.NativeFigures
import NodeMemory.Proofs.Grouping
import NodeMemory.Proofs.FamilyContents
import NodeMemory.Proofs.NodePass
import NodeMemory.Proofs.RecordSets
import NodeMemory.Proofs.RecordFlaws
import NodeMemory.Proofs.Readings
import NodeMemory.Proofs.Collectors
import NodeMemory.Proofs.Passes
import NodeMemory.Proofs.Channels
import NodeMemory.Proofs.Kinds
import NodeMemory.Proofs.Fields
import NodeMemory.Proofs.Tables
import NodeMemory.Proofs.Tokens
import NodeMemory.Proofs.Qualifiers
import NodeMemory.Proofs.TableGrammar
import NodeMemory.Proofs.ValueGrammar
import NodeMemory.Proofs.TokenNumbers
import NodeMemory.Proofs.Kibibytes
import NodeMemory.Proofs.TableFaults
import NodeMemory.Proofs.TableAgreement
import NodeMemory.Proofs.RecordNames
import NodeMemory.Proofs.NodeIds
import NodeMemory.Proofs.RecordInvariant
import NodeMemory.Proofs.CacheTransparency
import NodeMemory.Proofs.FailureReports
import NodeMemory.Proofs.NodeDiscovery
import NodeMemory.Proofs.JsonGrammar
import NodeMemory.Proofs.Numerals
import NodeMemory.Proofs.JsonTexts
import NodeMemory.Proofs.FileWrites
import NodeMemory.Proofs.Deliveries
import NodeMemory.Proofs.ReportTexts
import NodeMemory.Proofs.ExposedNames
import NodeMemory.Proofs.ExpositionLines
import NodeMemory.Proofs.Declarations
import NodeMemory.Proofs.ScrapeLayout
import NodeMemory.Proofs.FaultIsolation
import NodeMemory.Proofs.CacheHistory
import NodeMemory.Proofs.RunTraces
import NodeMemory.Proofs.JsonContents
import NodeMemory.Proofs.JsonReader
import NodeMemory.Proofs.JsonReading
import NodeMemory.Proofs.SortedLists
import NodeMemory.Proofs.ShortestDecimals
import NodeMemory.Proofs.NumeralValues
import NodeMemory.Proofs.JsonRoundTrip
import NodeMemory.Proofs.ReportContents
import NodeMemory.Proofs.ReportOrder
import NodeMemory.Proofs.EventLines
import NodeMemory.Proofs.WrittenSizes
