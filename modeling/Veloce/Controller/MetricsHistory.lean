import Mathlib.Data.Prod.Lex
import Mathlib.Data.String.Basic
import Veloce.Collections.BTreeMap
import Veloce.Collections.HashMap
import Veloce.Collections.Overflow

/-! The history of the node metrics: the samples of a range of time in buckets of equal
width, for each node and for the cluster. -/

namespace Veloce

open Collections

/-- The fields of a sample that the history and the export read. -/
structure NodeMetrics where
  nodeId : String
  timestamp : Nat
  runningJobs : Nat := 0
  cpuLoad : Float32 := 0
  memoryUsage : Nat := 0
  memoryTotal : Nat := 0
  loadAvg : Float32 × Float32 × Float32 := (0, 0, 0)
  netRxRate : Nat := 0
  netTxRate : Nat := 0
  diskReadRate : Nat := 0
  diskWriteRate : Nat := 0
  swapUsage : Nat := 0
  processCount : Nat := 0
  uptime : Nat := 0
  gpuUsage : Option Float32 := none

structure NodeMetricsBucket where
  timestamp : Nat
  sampleCount : Nat
  cpuAvg : Float32
  cpuMax : Float32
  memoryUsedAvg : Nat
  memoryTotalMax : Nat
  memoryPctAvg : Float32
  memoryPctMax : Float32
  runningJobsAvg : Float32
  runningJobsMax : Nat
  netRxAvg : Nat
  netTxAvg : Nat
  diskReadAvg : Nat
  diskWriteAvg : Nat
  swapUsageAvg : Nat
  processCountAvg : Nat
  load1Avg : Float32
  gpuAvg : Option Float32

structure ClusterMetricsBucket where
  timestamp : Nat
  nodeCount : Nat
  cpuAvg : Float32
  cpuPeak : Float32
  memoryPctAvg : Float32
  memoryPctPeak : Float32
  runningJobsAvg : Float32
  netRxAvg : Nat
  netTxAvg : Nat
  diskReadAvg : Nat
  diskWriteAvg : Nat

structure NodeMetricsNodeSeries where
  nodeId : String
  hostname : Option String
  online : Option Bool
  sampleCount : Nat
  samples : List NodeMetricsBucket

structure NodeMetricsHistoryResponse where
  startTime : Nat
  endTime : Nat
  bucketSeconds : Nat
  nodeCount : Nat
  sampleCount : Nat
  managementNodeHistory : Bool
  coverageNote : String
  nodes : List NodeMetricsNodeSeries
  cluster : List ClusterMetricsBucket

def maxF32 (left right : Float32) : Float32 :=
  if left.isNaN then right else if right.isNaN then left else if left < right then right else left

def clampPercent (value : Float32) : Float32 := if value < 0 then 0 else if 100 < value then 100 else value

structure NodeBucketAccumulator where
  count : Nat := 0
  cpuSum : Float := 0
  cpuMax : Float32 := 0
  memorySum : Nat := 0
  memoryTotalMax : Nat := 0
  memoryPctSum : Float := 0
  memoryPctMax : Float32 := 0
  runningJobsSum : Nat := 0
  runningJobsMax : Nat := 0
  netRxSum : Nat := 0
  netTxSum : Nat := 0
  diskReadSum : Nat := 0
  diskWriteSum : Nat := 0
  swapSum : Nat := 0
  processCountSum : Nat := 0
  load1Sum : Float := 0
  gpuSum : Float := 0
  gpuCount : Nat := 0

namespace NodeBucketAccumulator

/-- `count` is a `u32`. The sums hold 2 ^ 32 samples, so that it is always the first to
overflow, and they wrap after it has wrapped. -/
def add (build : Build) (accumulator : NodeBucketAccumulator) (metric : NodeMetrics) : Option NodeBucketAccumulator := do
  let count ← build.fit 32 (accumulator.count + 1)
  let memoryPct := if metric.memoryTotal > 0 then
      clampPercent (Float32.ofNat metric.memoryUsage / Float32.ofNat metric.memoryTotal * 100)
    else 0
  return {
    count := count
    cpuSum := accumulator.cpuSum + metric.cpuLoad.toFloat
    cpuMax := maxF32 accumulator.cpuMax metric.cpuLoad
    memorySum := (accumulator.memorySum + metric.memoryUsage) % 2 ^ 128
    memoryTotalMax := max accumulator.memoryTotalMax metric.memoryTotal
    memoryPctSum := accumulator.memoryPctSum + memoryPct.toFloat
    memoryPctMax := maxF32 accumulator.memoryPctMax memoryPct
    runningJobsSum := (accumulator.runningJobsSum + metric.runningJobs) % 2 ^ 64
    runningJobsMax := max accumulator.runningJobsMax metric.runningJobs
    netRxSum := (accumulator.netRxSum + metric.netRxRate) % 2 ^ 128
    netTxSum := (accumulator.netTxSum + metric.netTxRate) % 2 ^ 128
    diskReadSum := (accumulator.diskReadSum + metric.diskReadRate) % 2 ^ 128
    diskWriteSum := (accumulator.diskWriteSum + metric.diskWriteRate) % 2 ^ 128
    swapSum := (accumulator.swapSum + metric.swapUsage) % 2 ^ 128
    processCountSum := (accumulator.processCountSum + metric.processCount) % 2 ^ 64
    load1Sum := accumulator.load1Sum + metric.loadAvg.1.toFloat
    gpuSum := match metric.gpuUsage with
      | some gpu => accumulator.gpuSum + gpu.toFloat
      | none => accumulator.gpuSum
    gpuCount := match metric.gpuUsage with
      | some _ => (accumulator.gpuCount + 1) % 2 ^ 32
      | none => accumulator.gpuCount }

def finish (accumulator : NodeBucketAccumulator) (timestamp : Nat) : NodeMetricsBucket :=
  let samples := max accumulator.count 1
  let count := Float.ofNat samples
  { timestamp := timestamp
    sampleCount := accumulator.count
    cpuAvg := (accumulator.cpuSum / count).toFloat32
    cpuMax := accumulator.cpuMax
    memoryUsedAvg := accumulator.memorySum / samples % 2 ^ 64
    memoryTotalMax := accumulator.memoryTotalMax
    memoryPctAvg := (accumulator.memoryPctSum / count).toFloat32
    memoryPctMax := accumulator.memoryPctMax
    runningJobsAvg := (Float.ofNat accumulator.runningJobsSum / count).toFloat32
    runningJobsMax := accumulator.runningJobsMax
    netRxAvg := accumulator.netRxSum / samples % 2 ^ 64
    netTxAvg := accumulator.netTxSum / samples % 2 ^ 64
    diskReadAvg := accumulator.diskReadSum / samples % 2 ^ 64
    diskWriteAvg := accumulator.diskWriteSum / samples % 2 ^ 64
    swapUsageAvg := accumulator.swapSum / samples % 2 ^ 64
    processCountAvg := accumulator.processCountSum / samples % 2 ^ 32
    load1Avg := (accumulator.load1Sum / count).toFloat32
    gpuAvg := if accumulator.gpuCount > 0 then
        some (accumulator.gpuSum / Float.ofNat accumulator.gpuCount).toFloat32
      else none }

end NodeBucketAccumulator

structure ClusterBucketAccumulator where
  nodeCount : Nat := 0
  cpuSum : Float := 0
  cpuPeak : Float32 := 0
  memoryPctSum : Float := 0
  memoryPctPeak : Float32 := 0
  runningJobsSum : Float := 0
  netRxSum : Nat := 0
  netTxSum : Nat := 0
  diskReadSum : Nat := 0
  diskWriteSum : Nat := 0

namespace ClusterBucketAccumulator

def add (build : Build) (accumulator : ClusterBucketAccumulator) (bucket : NodeMetricsBucket) :
    Option ClusterBucketAccumulator := do
  let nodeCount ← build.fit 32 (accumulator.nodeCount + 1)
  return {
    nodeCount := nodeCount
    cpuSum := accumulator.cpuSum + bucket.cpuAvg.toFloat
    cpuPeak := maxF32 accumulator.cpuPeak bucket.cpuMax
    memoryPctSum := accumulator.memoryPctSum + bucket.memoryPctAvg.toFloat
    memoryPctPeak := maxF32 accumulator.memoryPctPeak bucket.memoryPctMax
    runningJobsSum := accumulator.runningJobsSum + bucket.runningJobsAvg.toFloat
    netRxSum := (accumulator.netRxSum + bucket.netRxAvg) % 2 ^ 128
    netTxSum := (accumulator.netTxSum + bucket.netTxAvg) % 2 ^ 128
    diskReadSum := (accumulator.diskReadSum + bucket.diskReadAvg) % 2 ^ 128
    diskWriteSum := (accumulator.diskWriteSum + bucket.diskWriteAvg) % 2 ^ 128 }

def finish (accumulator : ClusterBucketAccumulator) (timestamp : Nat) : ClusterMetricsBucket :=
  let count := max accumulator.nodeCount 1
  let nodes := Float.ofNat count
  { timestamp := timestamp
    nodeCount := accumulator.nodeCount
    cpuAvg := (accumulator.cpuSum / nodes).toFloat32
    cpuPeak := accumulator.cpuPeak
    memoryPctAvg := (accumulator.memoryPctSum / nodes).toFloat32
    memoryPctPeak := accumulator.memoryPctPeak
    runningJobsAvg := (accumulator.runningJobsSum / nodes).toFloat32
    netRxAvg := accumulator.netRxSum / count % 2 ^ 64
    netTxAvg := accumulator.netTxSum / count % 2 ^ 64
    diskReadAvg := accumulator.diskReadSum / count % 2 ^ 64
    diskWriteAvg := accumulator.diskWriteSum / count % 2 ^ 64 }

end ClusterBucketAccumulator

/-- A node and the start of a bucket, in the order of the map. -/
abbrev BucketKey := String ×ₗ Nat

structure HistoryRange where
  startTime : Nat
  endTime : Nat
  bucketSeconds : Nat

namespace HistoryRange

def bucketStart (range : HistoryRange) (timestamp : Nat) : Nat :=
  range.startTime + (timestamp - range.startTime) / range.bucketSeconds * range.bucketSeconds

def key (range : HistoryRange) (metric : NodeMetrics) : BucketKey :=
  toLex (metric.nodeId, range.bucketStart metric.timestamp)

/-- The first loop; `none` is a panic, also from a division by zero. -/
def collect (build : Build) (range : HistoryRange) (metrics : List NodeMetrics) :
    Option (BTreeMap BucketKey NodeBucketAccumulator) :=
  metrics.foldlM (fun buckets metric =>
    if metric.timestamp < range.startTime ∨ range.endTime < metric.timestamp then some buckets
    else if range.bucketSeconds = 0 then none
    else do
      let accumulator ← ((buckets.get? (range.key metric)).getD {}).add build metric
      return buckets.insert (range.key metric) accumulator) {}

end HistoryRange

structure HistoryMaps where
  byNode : BTreeMap String (List NodeMetricsBucket) := {}
  clusterAccumulators : BTreeMap Nat ClusterBucketAccumulator := {}

def entryBucket (entry : BucketKey × NodeBucketAccumulator) : NodeMetricsBucket := entry.2.finish (ofLex entry.1).2

def HistoryMaps.add (build : Build) (maps : HistoryMaps) (entry : BucketKey × NodeBucketAccumulator) : Option HistoryMaps := do
  let (nodeId, timestamp) := ofLex entry.1
  let bucket := entryBucket entry
  let accumulator ← ((maps.clusterAccumulators.get? timestamp).getD {}).add build bucket
  return {
    byNode := maps.byNode.insert nodeId ((maps.byNode.get? nodeId).getD [] ++ [bucket])
    clusterAccumulators := maps.clusterAccumulators.insert timestamp accumulator }

def nodeSeries (nodeMeta : HashMap String (String × Bool)) (nodeId : String) (samples : List NodeMetricsBucket) :
    NodeMetricsNodeSeries :=
  let samples := samples.mergeSort fun left right => left.timestamp ≤ right.timestamp
  { nodeId := nodeId
    hostname := (nodeMeta.get? nodeId).map Prod.fst
    online := (nodeMeta.get? nodeId).map Prod.snd
    sampleCount := (samples.map NodeMetricsBucket.sampleCount).sum
    samples := samples }

def buildNodeMetricsHistoryResponse (build : Build) (metrics : List NodeMetrics) (range : HistoryRange)
    (nodeMeta : HashMap String (String × Bool)) : Option NodeMetricsHistoryResponse := do
  let buckets ← range.collect build metrics
  let maps ← buckets.entries.foldlM (HistoryMaps.add build) {}
  let nodes := maps.byNode.entries.map fun (nodeId, samples) => nodeSeries nodeMeta nodeId samples
  let cluster := maps.clusterAccumulators.entries.map fun (timestamp, accumulator) => accumulator.finish timestamp
  return {
    startTime := range.startTime
    endTime := range.endTime
    bucketSeconds := range.bucketSeconds
    nodeCount := nodes.length
    sampleCount := metrics.length
    managementNodeHistory := false
    coverageNote := "Historical host metrics are recorded for worker-emitted NodeMetrics only. Controllers and other management hosts need a telemetry-only worker or host exporter for full load, memory, disk, and network history."
    nodes := nodes
    cluster := cluster }

end Veloce
