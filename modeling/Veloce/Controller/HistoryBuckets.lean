import Veloce.Controller.MetricsHistory

/-! The two loops of the history group the samples of the range by node and bucket, and the
buckets by node and by time. -/

namespace Veloce

open Collections

namespace HistoryRange

def Contains (range : HistoryRange) (metric : NodeMetrics) : Prop :=
  range.startTime ≤ metric.timestamp ∧ metric.timestamp ≤ range.endTime

instance (range : HistoryRange) : DecidablePred range.Contains := fun _ => inferInstanceAs (Decidable (_ ∧ _))

/-- The sample falls into the bucket that begins at this time. -/
def Covers (range : HistoryRange) (timestamp : Nat) (metric : NodeMetrics) : Prop :=
  timestamp ≤ metric.timestamp ∧ metric.timestamp < timestamp + range.bucketSeconds

instance (range : HistoryRange) (timestamp : Nat) : DecidablePred (range.Covers timestamp) :=
  fun _ => inferInstanceAs (Decidable (_ ∧ _))

end HistoryRange

section Counters

variable {V A : Type} {build : Build} {add : Option V → A → Option V} {count : V → Nat} {items : List A}

/-- A `u32` counter is exact up to 2 ^ 32 items. -/
theorem total_of_short (counts : ∀ stored item, (add stored item).map count = build.fit 32 ((stored.map count).getD 0 + 1))
    (short : items.length < 2 ^ 32) :
    ∃ value, BTreeMap.total add items = some value ∧ (value.map count).getD 0 = items.length := by
  induction items using List.reverseRecOn with
  | nil => exact ⟨none, rfl, rfl⟩
  | append_singleton items item ih =>
    rw [List.length_append, List.length_singleton] at short
    obtain ⟨before, whole, same⟩ := ih (by omega)
    have counted := counts before item
    rw [same, Build.fit_of_lt short, Option.map_eq_some_iff] at counted
    obtain ⟨value, added, exact⟩ := counted
    refine ⟨some value, ?_, ?_⟩
    · rw [BTreeMap.total_append, whole, Option.bind_some, added, Option.map_some]
    · rw [Option.map_some, Option.getD_some, exact, List.length_append, List.length_singleton]

theorem total_lt (counts : ∀ stored item, (add stored item).map count = build.fit 32 ((stored.map count).getD 0 + 1))
    {value : V} (whole : BTreeMap.total add items = some (some value)) : count value < 2 ^ 32 := by
  induction items using List.reverseRecOn with
  | nil => cases whole
  | append_singleton items item _ =>
    rw [BTreeMap.total_append] at whole
    obtain ⟨before, _, added⟩ := Option.bind_eq_some_iff.mp whole
    obtain ⟨last, stepped, same⟩ := Option.map_eq_some_iff.mp added
    cases same
    have counted := counts before item
    rw [stepped, Option.map_some] at counted
    exact Build.fit_lt counted.symm

variable {K : Type} [LinearOrder K] {key : A → K}

theorem exists_group_of_short (counts : ∀ stored item, (add stored item).map count = build.fit 32 ((stored.map count).getD 0 + 1))
    (short : ∀ name, (items.filter fun item => key item = name).length < 2 ^ 32) : ∃ map, BTreeMap.group key add items = some map := by
  refine BTreeMap.exists_group fun name => ?_
  obtain ⟨value, whole, -⟩ := total_of_short counts (short name)
  exact ⟨value, whole⟩

theorem count_of_group {map : BTreeMap K V} {name : K} {value : V}
    (counts : ∀ stored item, (add stored item).map count = build.fit 32 ((stored.map count).getD 0 + 1))
    (short : (items.filter fun item => key item = name).length < 2 ^ 32)
    (grouped : BTreeMap.group key add items = some map) (stored : map.get? name = some value) :
    count value = (items.filter fun item => key item = name).length := by
  obtain ⟨counted, whole, exact⟩ := total_of_short counts short
  have same := whole.symm.trans (BTreeMap.total_of_group grouped name)
  rw [Option.some.inj same, stored] at exact
  exact exact

theorem NodeBucketAccumulator.add_counts (build : Build) (stored : Option NodeBucketAccumulator) (metric : NodeMetrics) :
    ((stored.getD {}).add build metric).map NodeBucketAccumulator.count =
      build.fit 32 ((stored.map NodeBucketAccumulator.count).getD 0 + 1) := by
  have base : (stored.map NodeBucketAccumulator.count).getD 0 = (stored.getD {}).count := by cases stored <;> rfl
  rw [NodeBucketAccumulator.add, base]
  cases build.fit 32 ((stored.getD {}).count + 1) <;> rfl

theorem ClusterBucketAccumulator.add_counts (build : Build) (stored : Option ClusterBucketAccumulator)
    (bucket : NodeMetricsBucket) : ((stored.getD {}).add build bucket).map ClusterBucketAccumulator.nodeCount =
      build.fit 32 ((stored.map ClusterBucketAccumulator.nodeCount).getD 0 + 1) := by
  have base : (stored.map ClusterBucketAccumulator.nodeCount).getD 0 = (stored.getD {}).nodeCount := by cases stored <;> rfl
  rw [ClusterBucketAccumulator.add, base]
  cases build.fit 32 ((stored.getD {}).nodeCount + 1) <;> rfl

end Counters

abbrev BucketEntry := BucketKey × NodeBucketAccumulator

def nodeOf (entry : BucketEntry) : String := (ofLex entry.1).1

def timeOf (entry : BucketEntry) : Nat := (ofLex entry.1).2

def pushBucket (stored : Option (List NodeMetricsBucket)) (entry : BucketEntry) : Option (List NodeMetricsBucket) :=
  some (stored.getD [] ++ [entryBucket entry])

def addNode (build : Build) (stored : Option ClusterBucketAccumulator) (entry : BucketEntry) : Option ClusterBucketAccumulator :=
  (stored.getD {}).add build (entryBucket entry)

def addSample (build : Build) (stored : Option NodeBucketAccumulator) (metric : NodeMetrics) : Option NodeBucketAccumulator :=
  (stored.getD {}).add build metric

section Loops

variable {build : Build} {range : HistoryRange} {metrics : List NodeMetrics} {entries : List BucketEntry}
  {maps : HistoryMaps}

/-- The first loop groups the samples of the range by node and bucket. -/
theorem collect_eq (positive : 0 < range.bucketSeconds) (metrics : List NodeMetrics) :
    range.collect build metrics = BTreeMap.group range.key (addSample build) (metrics.filter fun metric => range.Contains metric) := by
  rw [HistoryRange.collect, BTreeMap.group]
  generalize ({} : BTreeMap BucketKey NodeBucketAccumulator) = start
  induction metrics generalizing start with
  | nil => rfl
  | cons metric rest ih =>
    rw [List.foldlM_cons]
    by_cases inside : range.Contains metric
    · have inside' : ¬ (metric.timestamp < range.startTime ∨ range.endTime < metric.timestamp) :=
        not_or.mpr ⟨Nat.not_lt.mpr inside.1, Nat.not_lt.mpr inside.2⟩
      rw [List.filter_cons_of_pos (by simpa using inside), List.foldlM_cons, if_neg inside', if_neg (Nat.ne_of_gt positive)]
      exact bind_congr ih
    · have outside : metric.timestamp < range.startTime ∨ range.endTime < metric.timestamp := by
        rw [HistoryRange.Contains] at inside
        omega
      rw [List.filter_cons_of_neg (by simpa using inside), if_pos outside]
      exact ih start

theorem HistoryMaps.add_iff {start : HistoryMaps} {entry : BucketEntry} : start.add build entry = some maps ↔
    BTreeMap.groupStep nodeOf pushBucket start.byNode entry = some maps.byNode ∧
      BTreeMap.groupStep timeOf (addNode build) start.clusterAccumulators entry = some maps.clusterAccumulators := by
  obtain ⟨byNode, clusters⟩ := maps
  simp only [HistoryMaps.add, BTreeMap.groupStep, pushBucket, addNode, nodeOf, timeOf, Option.bind_eq_bind, Option.bind_some]
  cases ((start.clusterAccumulators.get? (ofLex entry.1).2).getD {}).add build (entryBucket entry) with
  | none => simp
  | some accumulator => simp [pure]

/-- The second loop groups the buckets by node and by time. -/
theorem maps_loop_iff (entries : List BucketEntry) : ∀ start : HistoryMaps,
    entries.foldlM (HistoryMaps.add build) start = some maps ↔
      entries.foldlM (BTreeMap.groupStep nodeOf pushBucket) start.byNode = some maps.byNode ∧
        entries.foldlM (BTreeMap.groupStep timeOf (addNode build)) start.clusterAccumulators = some maps.clusterAccumulators := by
  induction entries with
  | nil =>
    intro start
    obtain ⟨byNode, clusters⟩ := maps
    obtain ⟨byNode', clusters'⟩ := start
    simp [pure]
  | cons entry rest ih =>
    intro start
    simp only [List.foldlM_cons, Option.bind_eq_bind, Option.bind_eq_some_iff]
    constructor
    · rintro ⟨next, taken, later⟩
      obtain ⟨byNode, clusters⟩ := HistoryMaps.add_iff.mp taken
      obtain ⟨byNode', clusters'⟩ := (ih next).mp later
      exact ⟨⟨_, byNode, byNode'⟩, ⟨_, clusters, clusters'⟩⟩
    · rintro ⟨⟨byNode, pushed, byNode'⟩, ⟨clusters, added, clusters'⟩⟩
      exact ⟨⟨byNode, clusters⟩, HistoryMaps.add_iff.mpr ⟨pushed, added⟩, (ih ⟨byNode, clusters⟩).mpr ⟨byNode', clusters'⟩⟩

theorem total_pushBucket (entries : List BucketEntry) :
    BTreeMap.total pushBucket entries = some (if entries = [] then none else some (entries.map entryBucket)) := by
  induction entries using List.reverseRecOn with
  | nil => rfl
  | append_singleton entries entry ih =>
    rw [BTreeMap.total_append, ih]
    by_cases empty : entries = []
    · simp [empty, pushBucket]
    · simp [empty, pushBucket]

end Loops

/-- The maps of the two loops over the samples. -/
structure HistoryGroups (build : Build) (range : HistoryRange) (metrics : List NodeMetrics) where
  buckets : BTreeMap BucketKey NodeBucketAccumulator
  byNode : BTreeMap String (List NodeMetricsBucket)
  clusters : BTreeMap Nat ClusterBucketAccumulator
  collected : BTreeMap.group range.key (addSample build) (metrics.filter fun metric => range.Contains metric) = some buckets
  noded : BTreeMap.group nodeOf pushBucket buckets.entries = some byNode
  clustered : BTreeMap.group timeOf (addNode build) buckets.entries = some clusters

/-- How many samples of the range have the key. -/
def keyCount (range : HistoryRange) (metrics : List NodeMetrics) (key : BucketKey) : Nat :=
  metrics.countP fun metric => range.Contains metric ∧ range.key metric = key

theorem exists_contained {range : HistoryRange} {metrics : List NodeMetrics} (key : BucketKey) : (∃ metric ∈ metrics.filter fun metric => range.Contains metric, range.key metric = key) ↔
    ∃ metric ∈ metrics, range.Contains metric ∧ range.key metric = key := by
  simp [and_assoc]

namespace HistoryGroups

variable {build : Build} {range : HistoryRange} {metrics : List NodeMetrics}

structure Makes (groups : HistoryGroups build range metrics) (nodeMeta : HashMap String (String × Bool))
    (response : NodeMetricsHistoryResponse) : Prop where
  nodes : response.nodes = groups.byNode.entries.map fun (nodeId, samples) => nodeSeries nodeMeta nodeId samples
  cluster : response.cluster = groups.clusters.entries.map fun (timestamp, accumulator) => accumulator.finish timestamp

theorem exists_of_response {nodeMeta : HashMap String (String × Bool)} {response : NodeMetricsHistoryResponse}
    (positive : 0 < range.bucketSeconds)
    (built : buildNodeMetricsHistoryResponse build metrics range nodeMeta = some response) :
    ∃ groups : HistoryGroups build range metrics, groups.Makes nodeMeta response := by
  simp only [buildNodeMetricsHistoryResponse, Option.bind_eq_bind, Option.bind_eq_some_iff] at built
  obtain ⟨buckets, collected, maps, looped, same⟩ := built
  obtain ⟨noded, clustered⟩ := (maps_loop_iff buckets.entries {}).mp looped
  cases same
  exact ⟨⟨buckets, maps.byNode, maps.clusterAccumulators, collect_eq positive metrics ▸ collected, noded, clustered⟩, rfl, rfl⟩

theorem exists_response (groups : HistoryGroups build range metrics) (positive : 0 < range.bucketSeconds)
    (nodeMeta : HashMap String (String × Bool)) :
    ∃ response, buildNodeMetricsHistoryResponse build metrics range nodeMeta = some response ∧ groups.Makes nodeMeta response := by
  have looped := (@maps_loop_iff build ⟨groups.byNode, groups.clusters⟩ groups.buckets.entries {}).mpr
    ⟨groups.noded, groups.clustered⟩
  have collected := (collect_eq positive metrics).trans groups.collected
  rw [buildNodeMetricsHistoryResponse, collected, Option.bind_eq_bind, Option.bind_some, looped, Option.bind_eq_bind,
    Option.bind_some]
  exact ⟨_, rfl, rfl, rfl⟩

section Facts

variable (groups : HistoryGroups build range metrics) {node : String} {time : Nat} {key : BucketKey}

theorem mem_keys : key ∈ groups.buckets.keys ↔ ∃ metric ∈ metrics, range.Contains metric ∧ range.key metric = key := by
  rw [BTreeMap.mem_keys_of_group groups.collected]
  exact exists_contained key

theorem exists_entry : (∃ entry ∈ groups.buckets.entries, entry.1 = key) ↔ key ∈ groups.buckets.keys := by
  rw [BTreeMap.keys, List.mem_map]

theorem filter_key_length : ((metrics.filter fun metric => range.Contains metric).filter fun metric => range.key metric = key).length =
    keyCount range metrics key := by
  rw [keyCount, List.filter_filter, List.countP_eq_length_filter]
  simp only [Bool.decide_and, Bool.and_comm]

theorem count_lt {accumulator : NodeBucketAccumulator} (stored : groups.buckets.get? key = some accumulator) :
    accumulator.count < 2 ^ 32 := by
  have whole := BTreeMap.total_of_group groups.collected key
  rw [stored] at whole
  exact total_lt (NodeBucketAccumulator.add_counts build) whole

theorem nodeCount_lt {accumulator : ClusterBucketAccumulator} (stored : groups.clusters.get? time = some accumulator) :
    accumulator.nodeCount < 2 ^ 32 := by
  have whole := BTreeMap.total_of_group groups.clustered time
  rw [stored] at whole
  exact total_lt (fun stored entry => ClusterBucketAccumulator.add_counts build stored (entryBucket entry)) whole

theorem samples_of_get? {samples : List NodeMetricsBucket} (stored : groups.byNode.get? node = some samples) :
    samples = (groups.buckets.entries.filter fun entry => nodeOf entry = node).map entryBucket := by
  have whole := BTreeMap.total_of_group groups.noded node
  rw [stored, total_pushBucket, Option.some.injEq] at whole
  split at whole
  · cases whole
  · exact (Option.some.inj whole).symm

theorem mem_byNode : node ∈ groups.byNode.keys ↔ ∃ entry ∈ groups.buckets.entries, nodeOf entry = node :=
  BTreeMap.mem_keys_of_group groups.noded

theorem mem_clusters : time ∈ groups.clusters.keys ↔ ∃ entry ∈ groups.buckets.entries, timeOf entry = time :=
  BTreeMap.mem_keys_of_group groups.clustered

theorem increasing_entries (node : String) : ((groups.buckets.entries.filter fun entry => nodeOf entry = node).map entryBucket).Pairwise
    fun a b => a.timestamp < b.timestamp := by
  refine List.pairwise_map.mpr (List.Pairwise.imp_of_mem ?_ (groups.buckets.sorted.filter _))
  intro first second member member' less
  have own := of_decide_eq_true (List.mem_filter.mp member).2
  have own' := of_decide_eq_true (List.mem_filter.mp member').2
  rcases Prod.Lex.lt_iff.mp less with earlier | ⟨_, earlier⟩
  · rw [nodeOf] at own own'
    rw [own, own'] at earlier
    exact absurd earlier (lt_irrefl _)
  · exact earlier

theorem mergeSort_samples {samples : List NodeMetricsBucket} (stored : groups.byNode.get? node = some samples) :
    samples.mergeSort (fun left right => left.timestamp ≤ right.timestamp) = samples := by
  refine List.mergeSort_of_pairwise ?_
  rw [groups.samples_of_get? stored]
  exact (groups.increasing_entries node).imp fun less => decide_eq_true (Nat.le_of_lt less)

end Facts

end HistoryGroups

section Slots

variable {range : HistoryRange} {metric : NodeMetrics} {metrics : List NodeMetrics}

/-- A sample of the range is covered by the one bucket in which it is put. -/
theorem covers_iff (positive : 0 < range.bucketSeconds) (contained : range.Contains metric) (slot : Nat) :
    range.Covers (range.startTime + slot * range.bucketSeconds) metric ↔
      range.bucketStart metric.timestamp = range.startTime + slot * range.bucketSeconds := by
  have early := contained.1
  have division : (metric.timestamp - range.startTime) / range.bucketSeconds = slot ↔
      slot * range.bucketSeconds ≤ metric.timestamp - range.startTime ∧
        metric.timestamp - range.startTime < slot * range.bucketSeconds + range.bucketSeconds := by
    rw [Nat.div_eq_iff positive]
    omega
  rw [HistoryRange.bucketStart, Nat.add_left_cancel_iff, Nat.mul_left_inj (Nat.ne_of_gt positive), division, HistoryRange.Covers]
  omega

theorem covers_bucketStart (positive : 0 < range.bucketSeconds) (contained : range.Contains metric) :
    range.Covers (range.bucketStart metric.timestamp) metric :=
  (covers_iff positive contained _).mpr rfl

theorem keyCount_slot (positive : 0 < range.bucketSeconds) (metrics : List NodeMetrics) (node : String) (slot : Nat) :
    keyCount range metrics (toLex (node, range.startTime + slot * range.bucketSeconds)) =
      metrics.countP fun metric => range.Contains metric ∧ metric.nodeId = node ∧
        range.Covers (range.startTime + slot * range.bucketSeconds) metric := by
  refine List.countP_congr fun metric _ => ?_
  simp only [decide_eq_true_eq]
  refine and_congr_right fun contained => ?_
  rw [covers_iff positive contained, HistoryRange.key, EmbeddingLike.apply_eq_iff_eq, Prod.mk.injEq]

/-- A bucket starts a whole number of widths after the range does. -/
theorem key_aligned (range : HistoryRange) (metric : NodeMetrics) :
    ∃ slot, range.key metric = toLex (metric.nodeId, range.startTime + slot * range.bucketSeconds) :=
  ⟨_, rfl⟩

end Slots

end Veloce
