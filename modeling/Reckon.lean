import Reckon.English.Weights
import Reckon.Main
import Reckon.RuleData
import Reckon.Proofs.English.WellFormed
import Reckon.Proofs.Parsing.BestOnly
import Reckon.Proofs.English.Dimensions
import Reckon.Proofs.English.WordNumbers
import Reckon.Proofs.Pattern.Ways
import Reckon.Proofs.Pattern.WholeWords
import Reckon.Proofs.English.NumberChains
import Reckon.Proofs.Pattern.Alphabet
import Reckon.Proofs.English.NumberReadings
import Reckon.Proofs.Selection.Alternatives
import Reckon.Proofs.Parsing.Exhaustive
import Reckon.Proofs.English.Conversions
import Reckon.Proofs.Parsing.Dropping
import Reckon.Proofs.English.Resolving
import Reckon.Proofs.English.Returning
import Reckon.Proofs.Pattern.Leading
import Reckon.Proofs.English.NumberTexts
import Reckon.Proofs.English.SpokenNumbers
import Reckon.Proofs.English.Cardinals
import Reckon.Proofs.Parsing.OneExpression
import Reckon.Proofs.English.ReadingBack
import Reckon.Proofs.Parsing.LaterKinds
import Reckon.Proofs.Parsing.Contexts
import Reckon.Proofs.Forest.Heights
import Reckon.Proofs.English.Heights
import Reckon.Proofs.Scoring.TreeScore
import Reckon.Proofs.Selection.Modes
import Reckon.Proofs.Parsing.Repetitions
import Reckon.Proofs.Resolution.TimedEnds
import Reckon.Proofs.Forest.Geometry
import Reckon.Proofs.Pattern.Runs
import Reckon.Proofs.English.Literals
import Reckon.Proofs.English.DurationParts
import Reckon.Proofs.English.DurationReadings
import Reckon.Proofs.Pattern.FewWords
import Reckon.Proofs.Pattern.Spellable
import Reckon.Proofs.English.Periods
import Reckon.Proofs.English.DurationTexts
import Reckon.Proofs.English.DurationRules
import Reckon.Proofs.English.DurationForests
import Reckon.Proofs.English.DurationsBuilt
import Reckon.Proofs.English.DurationBounds
import Reckon.Proofs.English.WrittenDurations
import Reckon.Proofs.English.DurationsReadBack
import Reckon.Proofs.English.Approximation
import Reckon.Proofs.Clock.Changes
import Reckon.Proofs.Clock.ZoneRules
import Reckon.Proofs.Clock.Truncation
import Reckon.Proofs.Clock.Weeks
import Reckon.Proofs.Clock.Gaps
import Reckon.Proofs.Clock.Midnights
import Reckon.Proofs.Resolution.Occurrences
import Reckon.Proofs.Calendar.Cycles
import Reckon.Proofs.Resolution.FirstOccurrence
import Reckon.Proofs.Resolution.SearchWindow
import Reckon.Proofs.Resolution.CalendarFields
import Reckon.Proofs.Resolution.Weekdays
import Reckon.Proofs.Clock.Counting
import Reckon.Proofs.Clock.OnceShown
import Reckon.Proofs.Resolution.ClockTimes
import Reckon.Proofs.Clock.WholeSeconds
import Reckon.Proofs.Resolution.ElapsedShifts
import Reckon.Proofs.Calendar.Buckets
import Reckon.Proofs.Clock.BucketStarts
import Reckon.Proofs.Resolution.DateShifts
import Reckon.Proofs.Clock.OneOffset
import Reckon.Proofs.Resolution.Precision
import Reckon.Proofs.Resolution.Ranges
import Reckon.Proofs.Resolution.RelativeGrains
import Reckon.Proofs.Text.Blanks
import Reckon.Proofs.Pattern.Endings
import Reckon.Proofs.Forest.Ends
import Reckon.Proofs.English.Covering
import Reckon.Proofs.Binary64.Integers
import Reckon.Proofs.English.NamedWords
import Reckon.Proofs.English.NumbersInWords
import Reckon.Proofs.Clock.IsoTexts
import Reckon.Proofs.Clock.ContextReports
import Reckon.Proofs.Text.LetterCase
import Reckon.Proofs.Language.ModelFiles
import Reckon.Proofs.Language.StoredModels
import Reckon.Proofs.Forest.Listed
