import Profiler.Script
import Profiler.Session.Run
import Profiler.Switches
import Profiler.Proofs.Timer.Siblings
import Profiler.Proofs.Timer.WellFormed
import Profiler.Proofs.Timer.Paths
import Profiler.Proofs.Timer.Unwinding
import Profiler.Proofs.Timer.Orders
import Profiler.Proofs.Ledger.Basic
import Profiler.Proofs.Timer.Moves
import Profiler.Proofs.Ledger.Refinement
import Profiler.Proofs.Ledger.Reports
import Profiler.Proofs.Ledger.Runs
import Profiler.Proofs.Text.ByteOrder
import Profiler.Proofs.Timer.Checked
import Profiler.Proofs.Timer.Sound
import Profiler.Proofs.Gauges
import Profiler.Proofs.Timer.Attribution
import Profiler.Proofs.Session.Orders
import Profiler.Proofs.Timer.Openings
import Profiler.Proofs.Session.Spans
import Profiler.Proofs.Timer.UpToDate
import Profiler.Proofs.Script.Reports
import Profiler.Proofs.Json.Numbers
import Profiler.Proofs.Json.Inversion
import Profiler.Proofs.Report.Json
import Profiler.Proofs.Timer.Visits
import Profiler.Proofs.Session.Timed
import Profiler.Proofs.Session.Matching
import Profiler.Proofs.Session.Alike
import Profiler.Proofs.Session.Lockstep
import Profiler.Proofs.Session.Others
import Profiler.Proofs.Session.Isolation
import Profiler.Proofs.Session.Frames
import Profiler.Proofs.Sampler.Histogram
import Profiler.Proofs.Sampler.Lifecycle
import Profiler.Proofs.Session.Samplers
import Profiler.Proofs.Registry.Slots
import Profiler.Proofs.Session.Slots
import Profiler.Proofs.Fields
import Profiler.Proofs.Report.Embedding
import Profiler.Proofs.Timer.Growth
import Profiler.Proofs.Report.Table
import Profiler.Proofs.Timer.Reached
import Profiler.Proofs.Ledger.Parallel
import Profiler.Proofs.Timer.Independence
import Profiler.Proofs.Timer.Balance
import Profiler.Proofs.Session.Balance
import Profiler.Proofs.Timer.Exits
import Profiler.Proofs.Session.StaleGuards
import Profiler.Proofs.Timer.Stays
import Profiler.Proofs.Timer.Refusals
import Profiler.Proofs.Ledger.Additions
import Profiler.Proofs.Timer.Additions
import Profiler.Proofs.Timer.Bisection
import Profiler.Proofs.Timer.Search
import Profiler.Proofs.Report.Delivery
import Profiler.Proofs.Timer.Chains
