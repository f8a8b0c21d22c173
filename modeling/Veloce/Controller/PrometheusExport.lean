import Veloce.Collections.MetricsText
import Veloce.Controller.MetricsHistory
import Veloce.Controller.QueueGap

/-! The metrics of the controller as text: a line for each number, and for each node and
each cached job a line that describes it in its labels. -/

namespace Veloce

open Collections

/-- What `Display` writes for a float: it has no exponent. -/
inductive FloatText where
  | nan
  | infinite (negative : Bool)
  | decimal (negative : Bool) (whole : Nat) (decimals : List (Fin 10))

def FloatText.text : FloatText → String
  | .nan => "NaN"
  | .infinite negative => if negative then "-inf" else "inf"
  | .decimal negative whole decimals =>
    (if negative then "-" else "") ++ toString whole ++
      (if decimals.isEmpty then "" else "." ++ String.ofList (decimals.map fun digit => digit.val.digitChar))

/-- What the standard library knows about characters and how it displays floats. -/
structure TextRules where
  isAlphanumeric : Char → Bool
  isAlphanumeric_ascii : ∀ char : Char, char.toNat < 128 → isAlphanumeric char = char.isAlphanum
  displayF32 : Float32 → FloatText
  displayF64 : Float → FloatText

structure MpiStats where
  sendCalls : Nat
  sendBytes : Nat
  sendTimeSecs : Float

/-- A job of the cache, with what its MPI processes have reported. -/
structure ActiveJob extends JobInfo where
  mpiStats : Option MpiStats := none

/-- The resources of a worker, with the fields that the export reads. -/
structure HostResources extends Resources where
  hostName : String
  version : String
  osName : String
  diskTotal : Nat := 0
  diskFree : Nat := 0
  bootTime : Nat := 0

/-- What the export reads of the controller. The maps are visited in any order. -/
structure ExportContext where
  /-- The resources of a worker, and whether it is draining. -/
  workerResources : HashMap WorkerId (HostResources × Bool) := ∅
  activeJobs : HashMap JobId ActiveJob := ∅
  metricsStore : HashMap WorkerId NodeMetrics := ∅
  completedJobs : Nat := 0
  failedJobs : Nat := 0

structure JobTotals where
  running : Int := 0
  pending : Int := 0
  sendCalls : Nat := 0
  sendBytes : Nat := 0
  sendTime : Float := 0

def JobTotals.add (build : Build) (totals : JobTotals) (job : ActiveJob) : Option JobTotals := do
  let running ← if job.status = .running then build.fitI32 (totals.running + 1) else some totals.running
  let pending ← if job.status = .pending then build.fitI32 (totals.pending + 1) else some totals.pending
  match job.mpiStats with
  | some stats =>
    let sendCalls ← build.fit 64 (totals.sendCalls + stats.sendCalls)
    let sendBytes ← build.fit 64 (totals.sendBytes + stats.sendBytes)
    return ⟨running, pending, sendCalls, sendBytes, totals.sendTime + stats.sendTimeSecs⟩
  | none => return { totals with running := running, pending := pending }

def replaceQuotes (text : String) : String :=
  String.ofList (text.toList.flatMap fun char => if char = '"' then ['\\', '"'] else [char])

structure MetricLabel where
  name : String
  value : String
  quotesReplaced : Bool := false

def MetricLabel.text (label : MetricLabel) : String :=
  label.name ++ "=\"" ++ (if label.quotesReplaced then replaceQuotes label.value else label.value) ++ "\""

structure MetricLine where
  name : String
  labels : List MetricLabel := []
  value : String

def MetricLine.text (line : MetricLine) : String :=
  line.name ++ (if line.labels.isEmpty then "" else "\x7b" ++ ", ".intercalate (line.labels.map MetricLabel.text) ++ "\x7d") ++
    " " ++ line.value ++ "\n"

def gapLines (gap : ExportedGap) : List MetricLine :=
  [{ name := "veloce_queue_gap_cores", value := toString gap.queueGapCores },
    { name := "veloce_queue_gap_nodes", value := toString gap.queueGapNodes },
    { name := "veloce_queue_gap_memory_bytes", value := toString gap.queueGapMemoryBytes }]

section Lines

variable (rules : TextRules)

def safeId (nodeId : WorkerId) : String :=
  String.ofList (nodeId.toList.map fun char => if rules.isAlphanumeric char then char else '_')

def nodeLabels (nodeId : WorkerId) (res : Option HostResources) : List MetricLabel :=
  [{ name := "node", value := safeId rules nodeId }, { name := "name", value := (res.map HostResources.hostName).getD "unknown" }]

def measureLines (labels : List MetricLabel) (metrics : NodeMetrics) : List MetricLine :=
  [⟨"veloce_node_cpu_load", labels, (rules.displayF32 metrics.cpuLoad).text⟩,
    ⟨"veloce_node_memory_usage_bytes", labels, toString metrics.memoryUsage⟩,
    ⟨"veloce_node_memory_total_bytes", labels, toString metrics.memoryTotal⟩,
    ⟨"veloce_node_swap_usage_bytes", labels, toString metrics.swapUsage⟩,
    ⟨"veloce_node_process_count", labels, toString metrics.processCount⟩,
    ⟨"veloce_node_uptime_seconds", labels, toString metrics.uptime⟩,
    ⟨"veloce_node_running_jobs", labels, toString metrics.runningJobs⟩,
    ⟨"veloce_node_network_rx_bytes", labels, toString metrics.netRxRate⟩,
    ⟨"veloce_node_network_tx_bytes", labels, toString metrics.netTxRate⟩,
    ⟨"veloce_node_disk_read_bytes", labels, toString metrics.diskReadRate⟩,
    ⟨"veloce_node_disk_write_bytes", labels, toString metrics.diskWriteRate⟩]

def diskLines (labels : List MetricLabel) (res : HostResources) : List MetricLine :=
  [⟨"veloce_node_disk_total_bytes", labels, toString res.diskTotal⟩,
    ⟨"veloce_node_disk_free_bytes", labels, toString res.diskFree⟩,
    ⟨"veloce_node_boot_timestamp_seconds", labels, toString res.bootTime⟩]

def nodeInfoLine (labels : List MetricLabel) (res : HostResources) : MetricLine :=
  { name := "veloce_node_info"
    labels := labels ++ [{ name := "version", value := res.version }, { name := "arch", value := res.arch },
      { name := "os", value := res.osName }]
    value := "1" }

def nodeLines (ctx : ExportContext) (node : WorkerId × NodeMetrics) : List MetricLine :=
  let res := (ctx.workerResources.get? node.1).map Prod.fst
  let labels := nodeLabels rules node.1 res
  measureLines rules labels node.2 ++
    match res with
    | some res => diskLines labels res ++ [nodeInfoLine labels res]
    | none => []

def totalLines (ctx : ExportContext) (totals : JobTotals) (draining : Int) : List MetricLine :=
  [⟨"veloce_jobs_total", [{ name := "state", value := "running" }], toString totals.running⟩,
    ⟨"veloce_jobs_total", [{ name := "state", value := "pending" }], toString totals.pending⟩,
    ⟨"veloce_jobs_total", [{ name := "state", value := "completed" }], toString ctx.completedJobs⟩,
    { name := "veloce_cluster_jobs_failed", value := toString ctx.failedJobs },
    { name := "veloce_cluster_workers_draining", value := toString draining },
    { name := "veloce_cluster_mpi_send_calls_total", value := toString totals.sendCalls },
    { name := "veloce_cluster_mpi_send_bytes_total", value := toString totals.sendBytes },
    { name := "veloce_cluster_mpi_time_seconds_total", value := (rules.displayF64 totals.sendTime).text }]

def statusStr : JobStatus → String
  | .pending => "pending"
  | .running => "running"
  | .completed _ => "completed"
  | .failed _ => "failed"
  | .killed => "killed"

def jobInfoLine (job : ActiveJob) : MetricLine :=
  { name := "veloce_job_info"
    labels := [
      { name := "id", value := toString job.id },
      { name := "user", value := job.userId, quotesReplaced := true },
      { name := "status", value := statusStr job.status },
      { name := "binary", value := job.binary, quotesReplaced := true },
      { name := "array_id", value := (job.arrayId.map toString).getD "" },
      { name := "array_task_id", value := (job.arrayTaskId.map toString).getD "" },
      { name := "priority", value := toString job.priority },
      { name := "nodes", value := ",".intercalate job.assignedWorkers },
      { name := "req_cores", value := toString job.reqCores },
      { name := "req_memory_mb", value := toString job.reqMemory },
      { name := "used_cpu_ms", value := toString 0 },
      { name := "used_mem_mb", value := toString (job.currentMemoryUsage / 1024 / 1024) }]
    value := "1" }

/-- Every line, with the sums that the loops have made. -/
def exportLines (ctx : ExportContext) (gap : ExportedGap) (totals : JobTotals) (draining : Int) : List MetricLine :=
  gapLines gap ++ ctx.metricsStore.toList.flatMap (nodeLines rules ctx) ++ totalLines rules ctx totals draining ++
    ctx.activeJobs.values.map jobInfoLine

def generatePrometheusMetrics (build : Build) (ctx : ExportContext) : Option String := do
  let draining ← ctx.workerResources.values.foldlM (fun draining worker =>
    if worker.2 then build.fitI32 (draining + 1) else some draining) 0
  let totals ← ctx.activeJobs.values.foldlM (JobTotals.add build) {}
  let gap ← exportedGap build (ctx.activeJobs.values.map ActiveJob.toJobInfo)
  return String.join ((exportLines rules ctx gap totals draining).map MetricLine.text)

end Lines

end Veloce
