import WindowedStats.Clock
import WindowedStats.Histogram.Basic
import WindowedStats.Histogram.Marks
import WindowedStats.Proofs.EarlyStops
import WindowedStats.Proofs.ElapsedTime
import WindowedStats.Proofs.ExportedBounds
import WindowedStats.Proofs.ExportedIntervals
import WindowedStats.Proofs.ForgottenValues
import WindowedStats.Proofs.GeneratedThresholds
import WindowedStats.Proofs.GivenSettings
import WindowedStats.Proofs.LoggedQueues
import WindowedStats.Proofs.Readings
import WindowedStats.Proofs.RepeatedReports
import WindowedStats.Proofs.SharedTotals
import WindowedStats.Proofs.SimultaneousChanges
import WindowedStats.Proofs.Survivors
import WindowedStats.Proofs.UpdateOrder
import WindowedStats.Proofs.WaitingTimes
import WindowedStats.Proofs.WindowDivision
import WindowedStats.Proofs.WindowEdges
import WindowedStats.Proofs.WindowsAgree
import WindowedStats.Proofs.WordRings
import WindowedStats.Rate.Scaled
import WindowedStats.Registry.Workload
import WindowedStats.Window.MovingAverage
import WindowedStats.Window.Tagged
