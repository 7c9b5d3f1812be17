import NodeAgent.Dogstatsd.Spool.Fifo
import NodeAgent.Dogstatsd.Spool.Quota
import NodeAgent.Dogstatsd.Safeguards.ActiveSeries
import NodeAgent.Dogstatsd.Parser.RoundTrip
import NodeAgent.Dogstatsd.Parser.Reasons
import NodeAgent.Dogstatsd.Safeguards.TagFilter
import NodeAgent.Dogstatsd.Aggregator.Refusal
import NodeAgent.Dogstatsd.Aggregator.Baselines
import NodeAgent.Dogstatsd.Aggregator.Reported
import NodeAgent.Dogstatsd.Pipeline.Quarantine
import NodeAgent.Dogstatsd.Pipeline.Health
import NodeAgent.Dogstatsd.Pipeline.Batches
import NodeAgent.Dogstatsd.Receiver.Distinct
import NodeAgent.Dogstatsd.Receiver.GaugeOrder
import NodeAgent.Dogstatsd.Receiver.Shutdown
import NodeAgent.Ebpf.Noninterference
import NodeAgent.Ebpf.Runs
import NodeAgent.Ebpf.GoTls
import NodeAgent.Containers.Traffic
import NodeAgent.Containers.Liveness
import NodeAgent.Containers.Processes
import NodeAgent.Containers.Cmdline
import NodeAgent.Containers.Naming
import NodeAgent.Containers.LogParsers
import NodeAgent.Containers.Delays
import NodeAgent.Containers.Gpu
import NodeAgent.Containers.Listens
import NodeAgent.Containers.Statistics
import NodeAgent.Containers.Sockets
import NodeAgent.Common.Strings
import NodeAgent.L7.Http2.Timing
import NodeAgent.L7.Redis
import NodeAgent.L7.Memcached
import NodeAgent.L7.NoPanic
import NodeAgent.L7.TruncatedSql
import NodeAgent.L7.TruncatedZookeeper
import NodeAgent.Prom.Scrape
import NodeAgent.Prom.SpoolSize
import NodeAgent.Prom.Survival
import NodeAgent.Prom.WriteRequest
