import MetricsMonitor.Machine
import MetricsMonitor.FormattedInput
import MetricsMonitor.FormatMatching
import MetricsMonitor.FormattedOutput
import MetricsMonitor.FloatingPoint
import MetricsMonitor.Columns
import MetricsMonitor.ScanLoop
import MetricsMonitor.PlacedTokens
import MetricsMonitor.Metrics
import MetricsMonitor.CpuUsage
import MetricsMonitor.MemoryUsage
import MetricsMonitor.NetDev
import MetricsMonitor.DiskStats
import MetricsMonitor.HashTable
import MetricsMonitor.PromMap
import MetricsMonitor.MemoryBlock
import MetricsMonitor.Heap
import MetricsMonitor.LinkedList
import MetricsMonitor.MapMemory
import MetricsMonitor.StringBuilder
import MetricsMonitor.MetricFormatter
import MetricsMonitor.PromMetric
import MetricsMonitor.CasLoop
import MetricsMonitor.SharedMetric
import MetricsMonitor.Histogram
import MetricsMonitor.Exposition
import MetricsMonitor.HistogramText
import MetricsMonitor.CollectorRegistry
import MetricsMonitor.ScrapeText
import MetricsMonitor.Prom
import MetricsMonitor.ExposeMetrics
import MetricsMonitor.SetConfiguration
import MetricsMonitor.ConfigFile
import MetricsMonitor.Startup
import MetricsMonitor.InitMetrics
import MetricsMonitor.Sampling
import MetricsMonitor.LibpromRefinement
import MetricsMonitor.StatusReply
import MetricsMonitor.StatusRequests
import MetricsMonitor.Scrape
import MetricsMonitor.Child
import MetricsMonitor.Process
import MetricsMonitor.ProcessCounts
import MetricsMonitor.SignalSampling
import MetricsMonitor.TermHandler
import MetricsMonitor.UpdateRuns
import MetricsMonitor.InitFailure
import MetricsMonitor.MutexDestroy
import MetricsMonitor.FirstMatch
import MetricsMonitor.IntExpr
import MetricsMonitor.ReplyRange
import MetricsMonitor.ConfigLayout
import MetricsMonitor.TempFileRemoval
