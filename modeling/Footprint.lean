import Footprint.Files.Tree
import Footprint.Main
import Footprint.Proofs.AnnotatedListing
import Footprint.Proofs.AugmentedNames
import Footprint.Proofs.BlankLines
import Footprint.Proofs.Brackets
import Footprint.Proofs.CoverageTexts
import Footprint.Proofs.DefinitionSpans
import Footprint.Proofs.DepthLimit
import Footprint.Proofs.Detaching
import Footprint.Proofs.EndlessValues
import Footprint.Proofs.ExceptionEvents
import Footprint.Proofs.Extremes
import Footprint.Proofs.Gaps
import Footprint.Proofs.GrammarCompleteness
import Footprint.Proofs.HighlightedText
import Footprint.Proofs.HostFailures
import Footprint.Proofs.Identity
import Footprint.Proofs.IntegerPower
import Footprint.Proofs.Lifecycle
import Footprint.Proofs.LineEndings
import Footprint.Proofs.ListChanges
import Footprint.Proofs.Listening
import Footprint.Proofs.LiteralReading
import Footprint.Proofs.Moments
import Footprint.Proofs.NameResolution
import Footprint.Proofs.Naming
import Footprint.Proofs.OutputLines
import Footprint.Proofs.ParameterBinding
import Footprint.Proofs.PrintedLines
import Footprint.Proofs.RangeMembership
import Footprint.Proofs.Refinement
import Footprint.Proofs.RoundTrip
import Footprint.Proofs.SequenceLengths
import Footprint.Proofs.Sights
import Footprint.Proofs.StatementCounts
import Footprint.Proofs.Targets
import Footprint.Proofs.TupleNumbers
import Footprint.Proofs.ViewerStates
