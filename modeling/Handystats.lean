import Handystats.Library.Runs
import Handystats.Library.Fading
import Handystats.Library.Rounding
import Handystats.Fault
import Handystats.MathUtils
import Handystats.Chrono
import Handystats.DurationConversion
import Handystats.DurationOrder
import Handystats.RateOfChange
import Handystats.StatisticsConfig
import Handystats.Histogram
import Handystats.Statistics
import Handystats.StatisticsGet
import Handystats.StatisticsRun
import Handystats.IntervalStatistics
import Handystats.WholeDataset
import Handystats.FadingPaths
import Handystats.HistogramFacts
import Handystats.HistogramWeight
import Handystats.EntropyWidth
import Handystats.WindowMass
import Handystats.StaleUpdate
import Handystats.ExpiredData
import Handystats.Library.Stretches
import Handystats.Library.Quadratic
import Handystats.Quantile
import Handystats.QuantileTotal
import Handystats.SegmentRoots
import Handystats.Library.Ramp
import Handystats.ExactRoots
import Handystats.ExactQuantile
import Handystats.TagIndependence
import Handystats.Timer
import Handystats.TimerSweep
import Handystats.TimerLifetime
import Handystats.Library.Fifo
import Handystats.Library.LinkedChain
import Handystats.MessageQueue
import Handystats.MessageQueueFifo
import Handystats.MessageQueuePop
import Handystats.MessageQueueSize
import Handystats.MessageQueueAccounting
import Handystats.MessageQueueDrain
import Handystats.Core
import Handystats.CoreInvariants
import Handystats.CoreShutdown
import Handystats.CoreSteps
import Handystats.Library.Weighting
import Handystats.Library.Keyed
import Handystats.Library.FirstInsert
import Handystats.Library.Effect
import Handystats.Json
import Handystats.Config
import Handystats.Pattern
import Handystats.PatternGrammar
import Handystats.PatternExpansion
import Handystats.ConfigJson
import Handystats.Metrics
import Handystats.Events
import Handystats.Internal
import Handystats.QueueStats
import Handystats.MetricsDump
import Handystats.Processor
import Handystats.MetricsFacts
import Handystats.HistogramBounds
import Handystats.HistogramMoment
import Handystats.EmptyStretches
import Handystats.CounterLaw
import Handystats.InternalFacts
import Handystats.SectionFacts
import Handystats.DocumentBins
import Handystats.OptionsPatch
import Handystats.AllOrNothing
import Handystats.ConfigLayers
import Handystats.EventExceptions
import Handystats.EventReturns
import Handystats.EventKinds
import Handystats.EffectiveOptions
import Handystats.ConfiguredDurations
import Handystats.ProcessorFacts
import Handystats.DumpRun
import Handystats.OwnStatistics
import Handystats.MetricRelation
import Handystats.DumpIndependence
import Handystats.MessageOrder
import Handystats.MessageQueueLifetime
import Handystats.MetricHistory
import Handystats.Delivery
import Handystats.Counting
import Handystats.JsonDumpFacts
