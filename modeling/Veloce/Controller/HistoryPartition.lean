import Mathlib.Data.List.Dedup
import Veloce.Controller.HistoryBuckets

/-! The buckets of the history partition the samples of the range, as long as no counter of
a bucket overflows. -/

namespace Veloce

open Collections

/-- What the history says about the samples. -/
structure HistoryExact (range : HistoryRange) (metrics : List NodeMetrics) (response : NodeMetricsHistoryResponse) : Prop where
  /-- The nodes are those with a sample in the range, each once. -/
  nodes : ∀ nodeId, (∃ series ∈ response.nodes, series.nodeId = nodeId) ↔
    ∃ metric ∈ metrics, range.Contains metric ∧ metric.nodeId = nodeId
  distinct : (response.nodes.map NodeMetricsNodeSeries.nodeId).Nodup
  /-- A sample of the range is in one bucket of its node. -/
  placed : ∀ metric ∈ metrics, range.Contains metric → ∀ series ∈ response.nodes, series.nodeId = metric.nodeId →
    ∃ bucket ∈ series.samples, range.Covers bucket.timestamp metric ∧
      ∀ other ∈ series.samples, range.Covers other.timestamp metric → other = bucket
  aligned : ∀ series ∈ response.nodes, ∀ bucket ∈ series.samples,
    ∃ slot, bucket.timestamp = range.startTime + slot * range.bucketSeconds
  /-- A bucket counts its samples and has one. -/
  counted : ∀ series ∈ response.nodes, ∀ bucket ∈ series.samples, 0 < bucket.sampleCount ∧
    bucket.sampleCount = metrics.countP fun metric =>
      range.Contains metric ∧ metric.nodeId = series.nodeId ∧ range.Covers bucket.timestamp metric
  total : ∀ series ∈ response.nodes, series.sampleCount =
    metrics.countP fun metric => range.Contains metric ∧ metric.nodeId = series.nodeId
  increasing : ∀ series ∈ response.nodes, series.samples.Pairwise fun a b => a.timestamp < b.timestamp
  /-- The times of the cluster are those of the nodes. -/
  clusterTimes : ∀ time, (∃ bucket ∈ response.cluster, bucket.timestamp = time) ↔
    ∃ series ∈ response.nodes, ∃ bucket ∈ series.samples, bucket.timestamp = time
  clusterIncreasing : response.cluster.Pairwise fun a b => a.timestamp < b.timestamp
  nodeCounts : ∀ bucket ∈ response.cluster, bucket.nodeCount =
    (response.nodes.filter fun series => ∃ sample ∈ series.samples, sample.timestamp = bucket.timestamp).length

def NodeMetricsHistoryResponse.timeline (response : NodeMetricsHistoryResponse) :
    List (String × Nat × List (Nat × Nat)) × List (Nat × Nat) :=
  (response.nodes.map fun series => (series.nodeId, series.sampleCount,
      series.samples.map fun bucket => (bucket.timestamp, bucket.sampleCount)),
    response.cluster.map fun bucket => (bucket.timestamp, bucket.nodeCount))

/-- There is a history, it partitions the samples, and their order does not matter. -/
structure Partitions (build : Build) (range : HistoryRange) (metrics : List NodeMetrics)
    (nodeMeta : HashMap String (String × Bool)) : Prop where
  exact : ∃ response, buildNodeMetricsHistoryResponse build metrics range nodeMeta = some response ∧
    HistoryExact range metrics response ∧ ∀ metrics', metrics.Perm metrics' →
      ∃ response', buildNodeMetricsHistoryResponse build metrics' range nodeMeta = some response' ∧
        response'.timeline = response.timeline

/-- No bucket of a node has 2 ^ 32 samples, and none of the cluster as many nodes. -/
structure HistoryFits (range : HistoryRange) (metrics : List NodeMetrics) : Prop where
  samples : ∀ nodeId slot, (metrics.countP fun metric => range.Contains metric ∧ metric.nodeId = nodeId ∧
    range.Covers (range.startTime + slot * range.bucketSeconds) metric) < 2 ^ 32
  nodes : ∀ slot, ((metrics.filter fun metric => range.Contains metric ∧
    range.Covers (range.startTime + slot * range.bucketSeconds) metric).map NodeMetrics.nodeId).dedup.length < 2 ^ 32

structure HistoryGroups.Counts {build : Build} {range : HistoryRange} {metrics : List NodeMetrics}
    (groups : HistoryGroups build range metrics) : Prop where
  bucket : ∀ {key accumulator}, groups.buckets.get? key = some accumulator → accumulator.count = keyCount range metrics key
  cluster : ∀ {time accumulator}, groups.clusters.get? time = some accumulator →
    accumulator.nodeCount = (groups.buckets.entries.filter fun entry => timeOf entry = time).length

section Fits

variable {build : Build} {range : HistoryRange} {metrics : List NodeMetrics}

theorem HistoryFits.keyCount_lt (fits : HistoryFits range metrics) (positive : 0 < range.bucketSeconds) (key : BucketKey) :
    keyCount range metrics key < 2 ^ 32 := by
  rcases Nat.eq_zero_or_pos (keyCount range metrics key) with none | some
  · omega
  · obtain ⟨metric, -, own⟩ := List.countP_pos_iff.mp some
    obtain ⟨slot, aligned⟩ := key_aligned range metric
    rw [← (of_decide_eq_true own).2, aligned, keyCount_slot positive]
    exact fits.samples _ slot

/-- Entries of one time are of different nodes. -/
theorem nodup_nodes (buckets : BTreeMap BucketKey NodeBucketAccumulator) (time : Nat) :
    ((buckets.entries.filter fun entry => timeOf entry = time).map nodeOf).Nodup := by
  refine List.pairwise_map.mpr (List.Pairwise.imp_of_mem ?_ (buckets.sorted.filter _))
  intro first second member member' less same
  have own := of_decide_eq_true (List.mem_filter.mp member).2
  have own' := of_decide_eq_true (List.mem_filter.mp member').2
  exact less.ne (Prod.ext same (own.trans own'.symm))

/-- The buckets that a group of the cluster counts are one for each node with a sample there. -/
theorem filter_time_length {buckets : BTreeMap BucketKey NodeBucketAccumulator} (positive : 0 < range.bucketSeconds)
    (collected : BTreeMap.group range.key (addSample build) (metrics.filter fun metric => range.Contains metric) = some buckets)
    (slot : Nat) :
    (buckets.entries.filter fun entry => timeOf entry = range.startTime + slot * range.bucketSeconds).length =
      ((metrics.filter fun metric => range.Contains metric ∧
        range.Covers (range.startTime + slot * range.bucketSeconds) metric).map NodeMetrics.nodeId).dedup.length := by
  rw [← List.length_map nodeOf]
  refine ((List.perm_ext_iff_of_nodup (nodup_nodes buckets _) (List.nodup_dedup _)).mpr fun node => ?_).length_eq
  have present (key : BucketKey) : (∃ entry ∈ buckets.entries, entry.1 = key) ↔
      ∃ metric ∈ metrics, range.Contains metric ∧ range.key metric = key := by
    rw [← List.mem_map, ← BTreeMap.keys, BTreeMap.mem_keys_of_group collected]
    exact exists_contained key
  simp only [List.mem_map, List.mem_filter, List.mem_dedup, decide_eq_true_eq]
  constructor
  · rintro ⟨entry, ⟨member, timed⟩, rfl⟩
    obtain ⟨metric, sampled, contained, own⟩ := (present entry.1).mp ⟨entry, member, rfl⟩
    refine ⟨metric, ⟨sampled, contained, (covers_iff positive contained slot).mpr ?_⟩, ?_⟩
    · rw [← timed, timeOf, ← own]
      rfl
    · rw [nodeOf, ← own]
      rfl
  · rintro ⟨metric, ⟨sampled, contained, covered⟩, rfl⟩
    obtain ⟨entry, member, own⟩ := (present (range.key metric)).mpr ⟨metric, sampled, contained, rfl⟩
    refine ⟨entry, ⟨member, ?_⟩, ?_⟩
    · rw [timeOf, own]
      exact (covers_iff positive contained slot).mp covered
    · rw [nodeOf, own]
      rfl

theorem HistoryFits.filter_time_lt {buckets : BTreeMap BucketKey NodeBucketAccumulator} (fits : HistoryFits range metrics)
    (positive : 0 < range.bucketSeconds)
    (collected : BTreeMap.group range.key (addSample build) (metrics.filter fun metric => range.Contains metric) = some buckets)
    (time : Nat) : (buckets.entries.filter fun entry => timeOf entry = time).length < 2 ^ 32 := by
  rcases Nat.eq_zero_or_pos (buckets.entries.filter fun entry => timeOf entry = time).length with none | some
  · omega
  · obtain ⟨entry, member⟩ := List.exists_mem_of_length_pos some
    obtain ⟨stored, timed⟩ := List.mem_filter.mp member
    obtain ⟨metric, -, own⟩ := (BTreeMap.mem_keys_of_group collected).mp (List.mem_map_of_mem stored)
    obtain ⟨slot, aligned⟩ := key_aligned range metric
    rw [← of_decide_eq_true timed, timeOf, ← own, aligned, ofLex_toLex, filter_time_length positive collected]
    exact fits.nodes slot

theorem HistoryFits.exists_groups (fits : HistoryFits range metrics) (positive : 0 < range.bucketSeconds) (build : Build) :
    ∃ groups : HistoryGroups build range metrics, groups.Counts := by
  have short (key : BucketKey) :
      ((metrics.filter fun metric => range.Contains metric).filter fun metric => range.key metric = key).length < 2 ^ 32 := by
    rw [HistoryGroups.filter_key_length]
    exact fits.keyCount_lt positive key
  obtain ⟨buckets, collected⟩ := exists_group_of_short (NodeBucketAccumulator.add_counts build) short
  have few := fits.filter_time_lt positive collected
  have counts (stored : Option ClusterBucketAccumulator) (entry : BucketEntry) :=
    ClusterBucketAccumulator.add_counts build stored (entryBucket entry)
  obtain ⟨clusters, clustered⟩ := exists_group_of_short counts few
  obtain ⟨byNode, noded⟩ : ∃ map, BTreeMap.group nodeOf pushBucket buckets.entries = some map :=
    BTreeMap.exists_group fun name => ⟨_, total_pushBucket _⟩
  refine ⟨⟨buckets, byNode, clusters, collected, noded, clustered⟩, fun stored => ?_, fun stored => ?_⟩
  · rw [count_of_group (NodeBucketAccumulator.add_counts build) (short _) collected stored, HistoryGroups.filter_key_length]
  · exact count_of_group counts (few _) clustered stored

end Fits

@[simp] theorem NodeBucketAccumulator.finish_timestamp (accumulator : NodeBucketAccumulator) (timestamp : Nat) :
    (accumulator.finish timestamp).timestamp = timestamp := rfl

@[simp] theorem NodeBucketAccumulator.finish_sampleCount (accumulator : NodeBucketAccumulator) (timestamp : Nat) :
    (accumulator.finish timestamp).sampleCount = accumulator.count := rfl

@[simp] theorem ClusterBucketAccumulator.finish_timestamp (accumulator : ClusterBucketAccumulator) (timestamp : Nat) :
    (accumulator.finish timestamp).timestamp = timestamp := rfl

@[simp] theorem ClusterBucketAccumulator.finish_nodeCount (accumulator : ClusterBucketAccumulator) (timestamp : Nat) :
    (accumulator.finish timestamp).nodeCount = accumulator.nodeCount := rfl

namespace HistoryGroups.Makes

variable {build : Build} {range : HistoryRange} {metrics : List NodeMetrics} {groups : HistoryGroups build range metrics}
  {nodeMeta : HashMap String (String × Bool)} {response : NodeMetricsHistoryResponse} {series : NodeMetricsNodeSeries}

theorem series_samples (makes : groups.Makes nodeMeta response) (listed : series ∈ response.nodes) :
    series.samples = (groups.buckets.entries.filter fun entry => nodeOf entry = series.nodeId).map entryBucket ∧
      series.sampleCount = (series.samples.map NodeMetricsBucket.sampleCount).sum := by
  rw [makes.nodes, List.mem_map] at listed
  obtain ⟨⟨node, samples⟩, member, rfl⟩ := listed
  have stored := BTreeMap.mem_entries.mp member
  exact ⟨(groups.mergeSort_samples stored).trans (groups.samples_of_get? stored), rfl⟩

theorem map_nodeId (makes : groups.Makes nodeMeta response) : response.nodes.map NodeMetricsNodeSeries.nodeId = groups.byNode.keys := by
  rw [makes.nodes, List.map_map]
  rfl

theorem mem_samples (makes : groups.Makes nodeMeta response) (listed : series ∈ response.nodes) {bucket : NodeMetricsBucket} :
    bucket ∈ series.samples ↔ ∃ time accumulator,
      groups.buckets.get? (toLex (series.nodeId, time)) = some accumulator ∧ accumulator.finish time = bucket := by
  rw [(makes.series_samples listed).1, List.mem_map]
  constructor
  · rintro ⟨⟨key, accumulator⟩, member, rfl⟩
    obtain ⟨stored, own⟩ := List.mem_filter.mp member
    refine ⟨(ofLex key).2, accumulator, BTreeMap.mem_entries.mp ?_, rfl⟩
    rw [← of_decide_eq_true own]
    exact stored
  · rintro ⟨time, accumulator, stored, rfl⟩
    exact ⟨_, List.mem_filter.mpr ⟨BTreeMap.mem_entries.mpr stored, decide_eq_true rfl⟩, rfl⟩

theorem exists_series (makes : groups.Makes nodeMeta response) (node : String) :
    (∃ series ∈ response.nodes, series.nodeId = node) ↔ ∃ metric ∈ metrics, range.Contains metric ∧ metric.nodeId = node := by
  rw [← List.mem_map, makes.map_nodeId, groups.mem_byNode]
  constructor
  · rintro ⟨entry, member, rfl⟩
    obtain ⟨metric, sampled, contained, own⟩ := groups.mem_keys.mp (List.mem_map_of_mem member)
    refine ⟨metric, sampled, contained, ?_⟩
    rw [nodeOf, ← own]
    rfl
  · rintro ⟨metric, sampled, contained, rfl⟩
    obtain ⟨entry, member, own⟩ := groups.exists_entry.mpr (groups.mem_keys.mpr ⟨metric, sampled, contained, rfl⟩)
    refine ⟨entry, member, ?_⟩
    rw [nodeOf, own]
    rfl

theorem exists_sample (makes : groups.Makes nodeMeta response) (listed : series ∈ response.nodes) (time : Nat) :
    (∃ bucket ∈ series.samples, bucket.timestamp = time) ↔ toLex (series.nodeId, time) ∈ groups.buckets.keys := by
  rw [BTreeMap.mem_keys]
  constructor
  · rintro ⟨bucket, member, rfl⟩
    obtain ⟨time, accumulator, stored, rfl⟩ := (makes.mem_samples listed).mp member
    exact ⟨accumulator, stored⟩
  · rintro ⟨accumulator, stored⟩
    exact ⟨_, (makes.mem_samples listed).mpr ⟨time, accumulator, stored, rfl⟩, rfl⟩

theorem exists_cluster (makes : groups.Makes nodeMeta response) (time : Nat) :
    (∃ bucket ∈ response.cluster, bucket.timestamp = time) ↔ time ∈ groups.clusters.keys := by
  rw [makes.cluster, BTreeMap.mem_keys]
  constructor
  · rintro ⟨bucket, member, rfl⟩
    obtain ⟨⟨time, accumulator⟩, stored, rfl⟩ := List.mem_map.mp member
    exact ⟨accumulator, BTreeMap.mem_entries.mp stored⟩
  · rintro ⟨accumulator, stored⟩
    exact ⟨_, List.mem_map_of_mem (BTreeMap.mem_entries.mpr stored), rfl⟩

/-- A node has an entry at a time if and only if its series has a bucket there. -/
theorem mem_nodes_at (makes : groups.Makes nodeMeta response) (time : Nat) (node : String) :
    (∃ series ∈ response.nodes, (∃ bucket ∈ series.samples, bucket.timestamp = time) ∧ series.nodeId = node) ↔
      toLex (node, time) ∈ groups.buckets.keys := by
  constructor
  · rintro ⟨series, listed, sampled, rfl⟩
    exact (makes.exists_sample listed time).mp sampled
  · intro member
    obtain ⟨metric, sampled, contained, own⟩ := groups.mem_keys.mp member
    have node_eq : metric.nodeId = node := congrArg (fun key => (ofLex key).1) own
    obtain ⟨series, listed, rfl⟩ := (makes.exists_series node).mpr ⟨metric, sampled, contained, node_eq⟩
    exact ⟨series, listed, (makes.exists_sample listed time).mpr member, rfl⟩

/-- The nodes with a bucket at a time are as many as the entries of that time. -/
theorem nodes_at_length (makes : groups.Makes nodeMeta response) (time : Nat) :
    (groups.buckets.entries.filter fun entry => timeOf entry = time).length =
      (response.nodes.filter fun series => ∃ sample ∈ series.samples, sample.timestamp = time).length := by
  have nodup : ((response.nodes.filter fun series => ∃ sample ∈ series.samples, sample.timestamp = time).map
      NodeMetricsNodeSeries.nodeId).Nodup := by
    refine List.Nodup.sublist (List.filter_sublist.map _) ?_
    rw [makes.map_nodeId]
    exact groups.byNode.keys_nodup
  rw [← List.length_map nodeOf, ← List.length_map NodeMetricsNodeSeries.nodeId]
  refine ((List.perm_ext_iff_of_nodup (nodup_nodes groups.buckets time) nodup).mpr fun node => ?_).length_eq
  simp only [List.mem_map, List.mem_filter, decide_eq_true_eq, and_assoc]
  rw [makes.mem_nodes_at, ← groups.exists_entry]
  constructor
  · rintro ⟨entry, member, rfl, rfl⟩
    exact ⟨entry, member, rfl⟩
  · rintro ⟨entry, member, own⟩
    refine ⟨entry, member, ?_, ?_⟩
    · rw [timeOf, own, ofLex_toLex]
    · rw [nodeOf, own, ofLex_toLex]

end HistoryGroups.Makes

section Sums

variable {range : HistoryRange} {metrics : List NodeMetrics}

theorem sum_keyCount {keys : List BucketKey} (nodup : keys.Nodup)
    (present : ∀ key, key ∈ keys ↔ ∃ metric ∈ metrics, range.Contains metric ∧ range.key metric = key) (node : String) :
    ((keys.filter fun key => (ofLex key).1 = node).map (keyCount range metrics)).sum =
      metrics.countP fun metric => range.Contains metric ∧ metric.nodeId = node := by
  have own := sum_countP_fibers range.key (fun key => (ofLex key).1 = node) nodup
    (fun key => (present key).trans (exists_contained key).symm)
  simp only [List.countP_filter] at own
  calc ((keys.filter fun key => (ofLex key).1 = node).map (keyCount range metrics)).sum
    _ = ((keys.filter fun key => (ofLex key).1 = node).map fun key =>
          metrics.countP fun metric => decide (range.key metric = key) && decide (range.Contains metric)).sum := by
      refine congrArg List.sum (List.map_congr_left fun key _ => List.countP_congr fun metric _ => ?_)
      simp [and_comm]
    _ = metrics.countP fun metric => range.Contains metric ∧ metric.nodeId = node := by
      rw [own]
      refine List.countP_congr fun metric _ => ?_
      rw [Bool.and_eq_true, decide_eq_true_eq, decide_eq_true_eq, decide_eq_true_eq]
      exact and_comm

end Sums

namespace HistoryGroups

variable {build : Build} {range : HistoryRange} {metrics : List NodeMetrics} {groups : HistoryGroups build range metrics}
  {nodeMeta : HashMap String (String × Bool)} {response : NodeMetricsHistoryResponse}

theorem mem_clusters_keys (groups : HistoryGroups build range metrics) {time : Nat} :
    time ∈ groups.clusters.keys ↔ ∃ key ∈ groups.buckets.keys, (ofLex key).2 = time := by
  rw [groups.mem_clusters]
  simp only [BTreeMap.keys, List.mem_map, exists_exists_and_eq_and]
  rfl

theorem keyCount_pos {key : BucketKey} (member : key ∈ groups.buckets.keys) : 0 < keyCount range metrics key := by
  obtain ⟨metric, sampled, contained, own⟩ := groups.mem_keys.mp member
  exact List.countP_pos_iff.mpr ⟨metric, sampled, decide_eq_true ⟨contained, own⟩⟩

theorem aligned_of_mem {node : String} {time : Nat} (member : toLex (node, time) ∈ groups.buckets.keys) :
    ∃ slot, time = range.startTime + slot * range.bucketSeconds := by
  obtain ⟨metric, -, -, own⟩ := groups.mem_keys.mp member
  obtain ⟨slot, aligned⟩ := key_aligned range metric
  exact ⟨slot, congrArg (fun key => (ofLex key).2) (own.symm.trans aligned)⟩

theorem Counts.count_of_mem (counts : groups.Counts) {entry : BucketEntry} (member : entry ∈ groups.buckets.entries) :
    entry.2.count = keyCount range metrics entry.1 :=
  counts.bucket (BTreeMap.mem_entries.mp member)

theorem Counts.sampleCounts (counts : groups.Counts) (node : String) :
    ((groups.buckets.entries.filter fun entry => nodeOf entry = node).map entryBucket).map NodeMetricsBucket.sampleCount =
      (groups.buckets.keys.filter fun key => (ofLex key).1 = node).map (keyCount range metrics) := by
  rw [BTreeMap.keys, List.filter_map, List.map_map, List.map_map]
  exact List.map_congr_left fun entry member => counts.count_of_mem (List.mem_of_mem_filter member)

theorem Counts.rows (counts : groups.Counts) (node : String) :
    ((groups.buckets.entries.filter fun entry => nodeOf entry = node).map entryBucket).map
        (fun bucket => (bucket.timestamp, bucket.sampleCount)) =
      (groups.buckets.keys.filter fun key => (ofLex key).1 = node).map fun key => ((ofLex key).2, keyCount range metrics key) := by
  rw [BTreeMap.keys, List.filter_map, List.map_map, List.map_map]
  exact List.map_congr_left fun entry member => congrArg _ (counts.count_of_mem (List.mem_of_mem_filter member))

theorem Makes.exact (makes : groups.Makes nodeMeta response) (positive : 0 < range.bucketSeconds) (counts : groups.Counts) :
    HistoryExact range metrics response where
  nodes := makes.exists_series
  distinct := makes.map_nodeId ▸ groups.byNode.keys_nodup
  placed := by
    intro metric sampled contained series listed own
    have key_eq : range.key metric = toLex (series.nodeId, range.bucketStart metric.timestamp) := own ▸ rfl
    have member := groups.mem_keys.mpr ⟨metric, sampled, contained, key_eq⟩
    obtain ⟨accumulator, stored⟩ := BTreeMap.mem_keys.mp member
    refine ⟨_, (makes.mem_samples listed).mpr ⟨_, accumulator, stored, rfl⟩, covers_bucketStart positive contained, ?_⟩
    intro other member' covered
    obtain ⟨time, accumulator', stored', rfl⟩ := (makes.mem_samples listed).mp member'
    obtain ⟨slot, aligned⟩ := aligned_of_mem (BTreeMap.mem_keys.mpr ⟨accumulator', stored'⟩)
    rw [NodeBucketAccumulator.finish_timestamp, aligned, covers_iff positive contained, ← aligned] at covered
    subst covered
    rw [stored, Option.some.injEq] at stored'
    rw [stored']
  aligned := by
    intro series listed bucket member
    obtain ⟨time, accumulator, stored, rfl⟩ := (makes.mem_samples listed).mp member
    exact aligned_of_mem (BTreeMap.mem_keys.mpr ⟨accumulator, stored⟩)
  counted := by
    intro series listed bucket member
    obtain ⟨time, accumulator, stored, rfl⟩ := (makes.mem_samples listed).mp member
    have present := BTreeMap.mem_keys.mpr ⟨accumulator, stored⟩
    obtain ⟨slot, aligned⟩ := aligned_of_mem present
    subst aligned
    rw [NodeBucketAccumulator.finish_sampleCount, NodeBucketAccumulator.finish_timestamp, counts.bucket stored,
      ← keyCount_slot positive]
    exact ⟨keyCount_pos present, rfl⟩
  total := by
    intro series listed
    obtain ⟨samples, summed⟩ := makes.series_samples listed
    rw [summed, samples, counts.sampleCounts, sum_keyCount groups.buckets.keys_nodup fun _ => groups.mem_keys]
  increasing := by
    intro series listed
    rw [(makes.series_samples listed).1]
    exact groups.increasing_entries _
  clusterTimes := by
    intro time
    rw [makes.exists_cluster, groups.mem_clusters]
    constructor
    · rintro ⟨entry, member, rfl⟩
      obtain ⟨series, listed, sampled, -⟩ := (makes.mem_nodes_at (timeOf entry) (nodeOf entry)).mpr (List.mem_map_of_mem member)
      exact ⟨series, listed, sampled⟩
    · rintro ⟨series, listed, sampled⟩
      obtain ⟨entry, member, own⟩ := groups.exists_entry.mpr ((makes.exists_sample listed time).mp sampled)
      exact ⟨entry, member, congrArg (fun key => (ofLex key).2) own⟩
  clusterIncreasing := by
    rw [makes.cluster]
    exact List.pairwise_map.mpr groups.clusters.sorted
  nodeCounts := by
    intro bucket member
    rw [makes.cluster] at member
    obtain ⟨⟨time, accumulator⟩, stored, rfl⟩ := List.mem_map.mp member
    exact (counts.cluster (BTreeMap.mem_entries.mp stored)).trans (makes.nodes_at_length time)

theorem Makes.timeline_eq (makes : groups.Makes nodeMeta response) (counts : groups.Counts) : response.timeline =
    (groups.byNode.keys.map fun node =>
        (node, ((groups.buckets.keys.filter fun key => (ofLex key).1 = node).map (keyCount range metrics)).sum,
          (groups.buckets.keys.filter fun key => (ofLex key).1 = node).map fun key => ((ofLex key).2, keyCount range metrics key)),
      groups.clusters.keys.map fun time => (time, (groups.buckets.keys.filter fun key => (ofLex key).2 = time).length)) := by
  rw [NodeMetricsHistoryResponse.timeline, makes.nodes, makes.cluster, List.map_map, List.map_map]
  refine Prod.ext (BTreeMap.map_entries fun node samples stored => ?_) (BTreeMap.map_entries fun time accumulator stored => ?_)
  · have own : (nodeSeries nodeMeta node samples).samples =
        (groups.buckets.entries.filter fun entry => nodeOf entry = node).map entryBucket :=
      (groups.mergeSort_samples stored).trans (groups.samples_of_get? stored)
    have summed : (nodeSeries nodeMeta node samples).sampleCount =
        ((nodeSeries nodeMeta node samples).samples.map NodeMetricsBucket.sampleCount).sum := rfl
    rw [own, counts.sampleCounts] at summed
    rw [Function.comp_apply, summed, own, counts.rows]
    rfl
  · rw [Function.comp_apply, ClusterBucketAccumulator.finish_timestamp, ClusterBucketAccumulator.finish_nodeCount,
      counts.cluster stored, BTreeMap.keys, List.filter_map, List.length_map]
    rfl

end HistoryGroups

section Order

variable {build : Build} {range : HistoryRange} {metrics metrics' : List NodeMetrics}
  {nodeMeta : HashMap String (String × Bool)} {response response' : NodeMetricsHistoryResponse}

theorem keyCount_perm (same : metrics.Perm metrics') (key : BucketKey) : keyCount range metrics key = keyCount range metrics' key :=
  same.countP_eq _

theorem HistoryFits.perm (fits : HistoryFits range metrics) (same : metrics.Perm metrics') : HistoryFits range metrics' where
  samples node slot := same.countP_eq _ ▸ fits.samples node slot
  nodes slot := ((same.filter _).map NodeMetrics.nodeId).dedup.length_eq ▸ fits.nodes slot

theorem timeline_perm {groups : HistoryGroups build range metrics} {groups' : HistoryGroups build range metrics'}
    (same : metrics.Perm metrics') (counts : groups.Counts) (counts' : groups'.Counts)
    (makes : groups.Makes nodeMeta response) (makes' : groups'.Makes nodeMeta response') : response'.timeline = response.timeline := by
  have keys : groups.buckets.keys = groups'.buckets.keys := BTreeMap.keys_eq fun key => by
    simp only [groups.mem_keys, groups'.mem_keys, same.mem_iff]
  have nodes : groups.byNode.keys = groups'.byNode.keys := BTreeMap.keys_eq fun node => by
    rw [← makes.map_nodeId, ← makes'.map_nodeId, List.mem_map, List.mem_map, makes.exists_series, makes'.exists_series]
    simp only [same.mem_iff]
  have times : groups.clusters.keys = groups'.clusters.keys := BTreeMap.keys_eq fun time => by
    rw [groups.mem_clusters_keys, groups'.mem_clusters_keys, keys]
  have counted : keyCount range metrics = keyCount range metrics' := funext (keyCount_perm same)
  rw [makes.timeline_eq counts, makes'.timeline_eq counts', keys, nodes, times, counted]

end Order

section Overflows

variable {build : Build} {range : HistoryRange} {metrics : List NodeMetrics}
  {nodeMeta : HashMap String (String × Bool)} {response : NodeMetricsHistoryResponse}

/-- A history that is exact has seen no overflow: its counters are of 32 bits. -/
theorem HistoryExact.fits (exact : HistoryExact range metrics response) (positive : 0 < range.bucketSeconds)
    {groups : HistoryGroups build range metrics} (makes : groups.Makes nodeMeta response) : HistoryFits range metrics where
  samples := by
    intro node slot
    rw [← keyCount_slot positive]
    rcases Nat.eq_zero_or_pos (keyCount range metrics (toLex (node, range.startTime + slot * range.bucketSeconds))) with none | some
    · omega
    · obtain ⟨metric, sampled, own⟩ := List.countP_pos_iff.mp some
      obtain ⟨contained, own⟩ := of_decide_eq_true own
      have member := groups.mem_keys.mpr ⟨metric, sampled, contained, own⟩
      obtain ⟨series, listed, -, rfl⟩ := (makes.mem_nodes_at _ node).mpr member
      obtain ⟨accumulator, stored⟩ := BTreeMap.mem_keys.mp member
      have counted := (exact.counted series listed _ ((makes.mem_samples listed).mpr ⟨_, accumulator, stored, rfl⟩)).2
      rw [NodeBucketAccumulator.finish_sampleCount, NodeBucketAccumulator.finish_timestamp, ← keyCount_slot positive] at counted
      exact counted ▸ groups.count_lt stored
  nodes := by
    intro slot
    rw [← filter_time_length positive groups.collected]
    rcases Nat.eq_zero_or_pos (groups.buckets.entries.filter fun entry =>
        timeOf entry = range.startTime + slot * range.bucketSeconds).length with none | some
    · omega
    · obtain ⟨entry, member⟩ := List.exists_mem_of_length_pos some
      obtain ⟨stored, timed⟩ := List.mem_filter.mp member
      obtain ⟨accumulator, present⟩ := BTreeMap.mem_keys.mp (groups.mem_clusters.mpr ⟨entry, stored, of_decide_eq_true timed⟩)
      have listed : accumulator.finish (range.startTime + slot * range.bucketSeconds) ∈ response.cluster := by
        rw [makes.cluster]
        exact List.mem_map_of_mem (BTreeMap.mem_entries.mpr present)
      have counted := exact.nodeCounts _ listed
      rw [ClusterBucketAccumulator.finish_timestamp, ClusterBucketAccumulator.finish_nodeCount, ← makes.nodes_at_length] at counted
      exact counted ▸ groups.nodeCount_lt present

/-- The buckets partition the samples, and their order does not matter, if and only if the
counters of the buckets can hold the numbers of their samples and of their nodes. -/
theorem history_partitions_iff (build : Build) (range : HistoryRange) (metrics : List NodeMetrics)
    (nodeMeta : HashMap String (String × Bool)) (positive : 1 ≤ range.bucketSeconds) :
    Partitions build range metrics nodeMeta ↔ HistoryFits range metrics := by
  constructor
  · rintro ⟨response, built, exact, -⟩
    obtain ⟨groups, makes⟩ := HistoryGroups.exists_of_response positive built
    exact exact.fits positive makes
  · intro fits
    obtain ⟨groups, counts⟩ := fits.exists_groups positive build
    obtain ⟨response, built, makes⟩ := groups.exists_response positive nodeMeta
    refine ⟨response, built, makes.exact positive counts, fun metrics' same => ?_⟩
    obtain ⟨groups', counts'⟩ := (fits.perm same).exists_groups positive build
    obtain ⟨response', built', makes'⟩ := groups'.exists_response positive nodeMeta
    exact ⟨response', built', timeline_perm same counts counts' makes makes'⟩

/-- A list of less than 2 ^ 32 samples overflows no counter. -/
theorem HistoryFits.of_length (range : HistoryRange) (short : metrics.length < 2 ^ 32) : HistoryFits range metrics where
  samples _ _ := List.countP_le_length.trans_lt short
  nodes slot := by
    refine ((List.dedup_sublist _).length_le.trans ?_).trans_lt short
    rw [List.length_map]
    exact List.length_filter_le _ _

theorem two_samples_partitioned : Partitions .debug ⟨100, 160, 30⟩
    [{ nodeId := "node-1", timestamp := 100 }, { nodeId := "node-1", timestamp := 131 }] {} :=
  (history_partitions_iff .debug ⟨100, 160, 30⟩ _ {} (by decide)).mpr (.of_length _ (by decide))

/-- Equal samples are all in one bucket. -/
theorem HistoryFits.replicate_lt {samples : Nat} {metric : NodeMetrics} (fits : HistoryFits range (List.replicate samples metric))
    (contained : range.Contains metric) (covered : range.Covers range.startTime metric) : samples < 2 ^ 32 := by
  have counted := fits.samples metric.nodeId 0
  rwa [Nat.zero_mul, Nat.add_zero, List.countP_replicate, if_pos (decide_eq_true ⟨contained, rfl, covered⟩)] at counted

/-- The bucket of 2 ^ 32 samples of one node does not count them. -/
theorem crowded_bucket_overflows :
    ¬ Partitions .release ⟨100, 100, 10⟩ (List.replicate (2 ^ 32) { nodeId := "node-1", timestamp := 100 }) {} := by
  rintro ⟨response, built, exact, -⟩
  obtain ⟨groups, makes⟩ := HistoryGroups.exists_of_response (by decide) built
  have fits := exact.fits (by decide) makes
  exact absurd (fits.replicate_lt (by decide) (by decide)) (lt_irrefl _)

end Overflows

end Veloce
