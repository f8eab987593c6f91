import TimeFence.Common.Ends
import TimeFence.Core.AntiRebase
import TimeFence.Core.Baseline
import TimeFence.Core.ChunkedWhole
import TimeFence.Core.Chunker
import TimeFence.Core.EventFault
import TimeFence.Core.Incident
import TimeFence.Core.Localization
import TimeFence.Core.Masking
import TimeFence.Core.Parameters
import TimeFence.Core.Report
import TimeFence.Core.Rolling
import TimeFence.Core.Tiling
import TimeFence.Epbf.Binding
import TimeFence.Epbf.Collector
import TimeFence.Epbf.Ipv4
import TimeFence.Epbf.Pipeline
import TimeFence.Implementations
import TimeFence.Json.Reader
import TimeFence.Json.Writer
import TimeFence.Metrics.Localization
import TimeFence.Metrics.Rolling
import TimeFence.Metrics.Search
import TimeFence.Trace.Run
import TimeFence.Trace.Strace
import TimeFence.Verus.Bounded
import TimeFence.Verus.Exponents
import TimeFence.Verus.Mismatch
import TimeFence.Verus.RootCount
import TimeFence.Verus.Streaming
import TimeFence.Verus.Trusted
