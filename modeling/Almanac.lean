import Almanac.Text.Blank
import Almanac.Text.Numeral
import Almanac.Calendar.Weekday
import Almanac.Calendar.Date
import Almanac.Calendar.WeekNumber
import Almanac.Calendar.Civil
import Almanac.Zone.Basic
import Almanac.Zone.GapPolicy
import Almanac.Zone.Table
import Almanac.Temporal.Basic
import Almanac.Temporal.Printer
import Almanac.Amount.Basic
import Almanac.Amount.Printer
import Almanac.Fault
import Almanac.Temporal.Parser
import Almanac.Amount.Parser
import Almanac.Temporal.Arithmetic
import Almanac.Temporal.Comparator
import Almanac.Json.Basic
import Almanac.Json.Parser
import Almanac.Period.Basic
import Almanac.Period.Parser
import Almanac.PeriodList.Basic
import Almanac.Settings
import Almanac.Rule.Vocabulary
import Almanac.Rule.Basic
import Almanac.Rule.Draft
import Almanac.Rule.Parser
import Almanac.Rule.Printer
import Almanac.Ascending
import Almanac.Rule.Stages
import Almanac.Rule.Candidates
import Almanac.Rule.Increment
import Almanac.Rule.Series
import Almanac.Component
import Almanac.FreeTime
import Almanac.Command.Switch
import Almanac.Command.Arguments
import Almanac.Command.Invocation
import Almanac.Command.Run
import Almanac.Main
import Almanac.Proofs.Calendar.Fields
import Almanac.Proofs.Rule.Units
import Almanac.Proofs.Rule.Stages
import Almanac.Proofs.Ascending
import Almanac.Proofs.Rule.Midnight
import Almanac.Proofs.Series.Sift
import Almanac.Proofs.Series.Bounds
import Almanac.Proofs.Series.Course
import Almanac.Proofs.Series.Endings
import Almanac.Proofs.Series.Unzoned
import Almanac.Proofs.Series.Window
import Almanac.Proofs.Period.Seconds
import Almanac.Proofs.Period.Coverage
import Almanac.Proofs.Period.Order
import Almanac.Proofs.PeriodList.Members
import Almanac.Proofs.PeriodList.Edits
import Almanac.Proofs.Series.Successor
import Almanac.Proofs.PeriodList.Normal
import Almanac.Proofs.Text.Cuts
import Almanac.Proofs.Text.Words
import Almanac.Proofs.Temporal.RoundTrip
import Almanac.Proofs.Rule.Reading
import Almanac.Proofs.Rule.RoundTrip
import Almanac.Proofs.Calendar.Spans
import Almanac.Proofs.Calendar.Months
import Almanac.Proofs.Rule.Days
import Almanac.Proofs.Rule.Clocks
import Almanac.Proofs.Series.Agreement
import Almanac.Proofs.Period.Pieces
import Almanac.Proofs.PeriodList.Difference
import Almanac.Proofs.PeriodList.Gaps
import Almanac.Proofs.Temporal.Steps
import Almanac.Proofs.Component.Instances
import Almanac.Proofs.Component.Occurrences
import Almanac.Proofs.Temporal.Reach
import Almanac.Proofs.Component.Exceptions
import Almanac.Proofs.Component.UnderWay
import Almanac.Proofs.Amount.Signs
import Almanac.Proofs.Amount.RoundTrip
import Almanac.Proofs.Amount.Order
import Almanac.Proofs.Amount.Displacement
import Almanac.Proofs.Period.RoundTrip
import Almanac.Proofs.Component.WholeSeconds
import Almanac.Proofs.FreeTime
import Almanac.Proofs.Zone.Readings
import Almanac.Proofs.Series.Elapsed
import Almanac.Proofs.Series.Visits
import Almanac.Proofs.Zone.Once
import Almanac.Proofs.Zone.Settling
import Almanac.Proofs.Zone.Resolving
import Almanac.Proofs.Period.Forward
import Almanac.Proofs.Series.Zoned
import Almanac.Proofs.Rule.Forward
import Almanac.Proofs.Series.SkipAhead
import Almanac.Proofs.Temporal.Grammar
import Almanac.Proofs.Amount.Grammar
import Almanac.Proofs.Rule.WellFormed
import Almanac.Proofs.Calendar.Weeks
import Almanac.Proofs.Calendar.WeekYears
import Almanac.Proofs.Rule.Increments
import Almanac.Proofs.Rule.Lists
import Almanac.Proofs.Series.Alike
import Almanac.Proofs.Rule.Week
import Almanac.Proofs.Series.Weekly
import Almanac.Proofs.Series.Progression
import Almanac.Proofs.Overwriting
import Almanac.Proofs.Rule.Assignments
import Almanac.Proofs.Rule.LastTokens
import Almanac.Proofs.Rule.LastBefore
import Almanac.Proofs.Series.Cursor
