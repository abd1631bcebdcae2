import OpeningHours.Calendar.Session
import OpeningHours.Interval.Reduce
import OpeningHours.Main
import OpeningHours.Rule.Printer
import OpeningHours.Proofs.Interval.Cover
import OpeningHours.Proofs.Interval.NormalForm
import OpeningHours.Proofs.Interval.Difference
import OpeningHours.Proofs.Calendar.Represents
import OpeningHours.Proofs.Calendar.Session
import OpeningHours.Proofs.Calendar.OpenMinutes
import OpeningHours.Proofs.Date.Order
import OpeningHours.Proofs.Date.Computus
import OpeningHours.Proofs.Date.Easter
import OpeningHours.Proofs.Date.CheckedComputus
import OpeningHours.Proofs.Date.SpecialDay
import OpeningHours.Proofs.Window
import OpeningHours.Proofs.Date.IsoText
import OpeningHours.Proofs.Date.TextOrder
import OpeningHours.Proofs.Date.Rendering
import OpeningHours.Proofs.Date.InstantText
import OpeningHours.Proofs.Calendar.Windows
import OpeningHours.Proofs.Calendar.WindowStart
import OpeningHours.Proofs.Refusal
import OpeningHours.Proofs.Interval.Slots
import OpeningHours.Proofs.Interval.ExactSlots
import OpeningHours.Proofs.Text.Trim
import OpeningHours.Proofs.Text.Numeral
import OpeningHours.Proofs.Rule.Parts
import OpeningHours.Proofs.Calendar.Saved
import OpeningHours.Proofs.Calendar.Booking
import OpeningHours.Proofs.Rule.WellFormed
import OpeningHours.Proofs.Rule.RoundTrip
import OpeningHours.Proofs.Calendar.Refused
import OpeningHours.Proofs.Calendar.WindowSplit
import OpeningHours.Proofs.Calendar.AdjustedSlots
import OpeningHours.Proofs.Rule.Joining
import OpeningHours.Proofs.Rule.Grammar
import OpeningHours.Proofs.Rule.Meaning
import OpeningHours.Proofs.Rule.DateRanges
import OpeningHours.Proofs.Eviction
import OpeningHours.Proofs.Shelf
import OpeningHours.Proofs.Calendar.Fresh
import OpeningHours.Proofs.Calendar.Remembered
import OpeningHours.Proofs.Calendar.DayKeys
import OpeningHours.Proofs.CommandLine.Options
import OpeningHours.Proofs.Document.Printed
import OpeningHours.Proofs.Document.RuleFile
