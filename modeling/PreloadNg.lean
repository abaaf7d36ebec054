import PreloadNg.Config.Discovery
import PreloadNg.Config.Merge
import PreloadNg.Config.RoundTrip
import PreloadNg.Engine.ActiveRestart
import PreloadNg.Engine.ActiveRuns
import PreloadNg.Engine.CachedDaemon
import PreloadNg.Engine.CorrelationRuns
import PreloadNg.Engine.DaemonRestarts
import PreloadNg.Engine.DaemonSignals
import PreloadNg.Engine.DaemonTiming
import PreloadNg.Engine.DeltaByPath
import PreloadNg.Engine.DwellTimes
import PreloadNg.Engine.IdleRuns
import PreloadNg.Engine.IllFormedSnapshots
import PreloadNg.Engine.MapMetadata
import PreloadNg.Engine.ModelTimes
import PreloadNg.Engine.OrderIndependence
import PreloadNg.Engine.PlannedMaps
import PreloadNg.Engine.PolicyRuns
import PreloadNg.Engine.Purge
import PreloadNg.Engine.RecordOrder
import PreloadNg.Engine.RecordProvenance
import PreloadNg.Engine.Reloads
import PreloadNg.Engine.RestartTransitions
import PreloadNg.Engine.RetriedTick
import PreloadNg.Engine.RunningTime
import PreloadNg.Engine.SavedRecords
import PreloadNg.Engine.SavedRuns
import PreloadNg.Engine.UsageTimes
import PreloadNg.Lib.Greedy
import PreloadNg.Lib.RankGroups
import PreloadNg.Lib.Runs
import PreloadNg.Math.ExpAccuracy
import PreloadNg.Observation.Accesses
import PreloadNg.Observation.FailedReads
import PreloadNg.Observation.MapFreshness
import PreloadNg.Observation.ObservationContract
import PreloadNg.Observation.PrefixRules
import PreloadNg.Observation.RejectionCache
import PreloadNg.Observation.RepeatedProcesses
import PreloadNg.Observation.ScannedPrograms
import PreloadNg.Prediction.EdgeChain
import PreloadNg.Prediction.FadingMeans
import PreloadNg.Prediction.ScoreFormulas
import PreloadNg.Prefetch.Execution
import PreloadNg.Prefetch.PlanDeterminism
import PreloadNg.Prefetch.PlanSelection
import PreloadNg.Prefetch.Prefetcher
import PreloadNg.Prefetch.UncachedRanges
import PreloadNg.Stores.GraphRuns
import PreloadNg.Stores.IndexRuns
