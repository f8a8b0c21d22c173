import Veloce.Controller.PrometheusExport

/-! When the exported text can be read and gives back the labels of jobs and nodes: the
export replaces the quotes of some values and escapes nothing else. -/

namespace Veloce

open Collections MetricsText

def ExportContext.described (ctx : ExportContext) : List HostResources :=
  ctx.metricsStore.toList.filterMap fun node => (ctx.workerResources.get? node.1).map Prod.fst

def jobFields (sample : Sample) : Option (List Char) × Option (List Char) × Option (List Char) :=
  (sample.label "binary".toList, sample.label "user".toList, sample.label "nodes".toList)

def nodeFields (sample : Sample) : Option (List Char) × Option (List Char) × Option (List Char) × Option (List Char) :=
  (sample.label "name".toList, sample.label "version".toList, sample.label "arch".toList, sample.label "os".toList)

def describedJob (job : ActiveJob) : Option (List Char) × Option (List Char) × Option (List Char) :=
  (some job.binary.toList, some job.userId.toList, some (",".intercalate job.assignedWorkers).toList)

def describedNode (res : HostResources) : Option (List Char) × Option (List Char) × Option (List Char) × Option (List Char) :=
  (some res.hostName.toList, some res.version.toList, some res.arch.toList, some res.osName.toList)

/-- Every line of the text parses, and the lines that describe jobs and nodes give back what
they are about. -/
structure ExportFaithful (ctx : ExportContext) (text : String) : Prop where
  readable : Parses text.toList
  jobs : (samplesOf "veloce_job_info".toList text.toList).map jobFields = ctx.activeJobs.values.map describedJob
  nodes : (samplesOf "veloce_node_info".toList text.toList).map nodeFields = ctx.described.map describedNode

/-- Nothing stands in the labels of the job that the export would have to escape: in its
binary and its user only the quotes are. -/
def ActiveJob.CleanLabels (job : ActiveJob) : Prop :=
  Clean true job.binary.toList ∧ Clean true job.userId.toList ∧ Clean false (",".intercalate job.assignedWorkers).toList

/-- The same for a node, of which nothing is escaped. -/
def HostResources.CleanLabels (res : HostResources) : Prop :=
  Clean false res.hostName.toList ∧ Clean false res.version.toList ∧ Clean false res.arch.toList ∧ Clean false res.osName.toList

instance (job : ActiveJob) : Decidable job.CleanLabels := inferInstanceAs (Decidable (_ ∧ _ ∧ _))

instance (res : HostResources) : Decidable res.CleanLabels := inferInstanceAs (Decidable (_ ∧ _ ∧ _ ∧ _))

/-- No value that the export writes as it is has a quote, a backslash or a newline, and none
whose quotes it replaces has one of the other two. -/
structure ExportContext.CleanLabels (ctx : ExportContext) : Prop where
  jobs : ∀ job ∈ ctx.activeJobs.values, job.CleanLabels
  nodes : ∀ res ∈ ctx.described, res.CleanLabels

def MetricLabel.field (label : MetricLabel) : Field := ⟨label.name.toList, label.value.toList, label.quotesReplaced⟩

def MetricLine.entry (line : MetricLine) : MetricEntry := ⟨line.name.toList, line.labels.map MetricLabel.field, line.value.toList⟩

section Texts

private theorem MetricLabel.toList_text (label : MetricLabel) : label.text.toList = label.field.text := by
  obtain ⟨name, value, replaced⟩ := label
  cases replaced with
  | false => simp [MetricLabel.text, MetricLabel.field, Field.text, encode]
  | true => simp [MetricLabel.text, MetricLabel.field, Field.text, encode, replaceQuotes]

private theorem MetricLine.toList_text (line : MetricLine) : line.text.toList = line.entry.text ++ ['\n'] := by
  obtain ⟨name, labels, value⟩ := line
  cases labels with
  | nil => simp [MetricLine.text, MetricLine.entry, MetricEntry.text, lineText]
  | cons label labels =>
    simp [MetricLine.text, MetricLine.entry, MetricEntry.text, lineText, fieldsText, String.toList_intercalate, Function.comp_def,
      MetricLabel.toList_text]

private theorem toList_join_text (lines : List MetricLine) :
    (String.join (lines.map MetricLine.text)).toList = document (lines.map MetricLine.entry) := by
  rw [String.toList_join, document, List.flatMap_map, List.flatMap_map]
  exact List.flatMap_congr fun line _ => line.toList_text

end Texts

/-- A text that may stand as the value of a sample. -/
structure IsValue (text : String) : Prop where
  number : isNumber text.toList = true
  visible : ∀ char ∈ text.toList, isBlank char = false ∧ char ≠ '\n' ∧ char ≠ '"'

section Values

private theorem isDigit_toString (number : Nat) : (toString number).toList ≠ [] ∧ ∀ char ∈ (toString number).toList, char.isDigit = true := by
  rw [Nat.toString_eq_ofList_toDigits, String.toList_ofList]
  exact ⟨Nat.toDigits_ne_nil, fun char member => Nat.isDigit_of_mem_toDigits (by decide) (by decide) member⟩

private theorem IsValue.of_numberText {text : String} {negative : Bool} {whole decimals : List Char} (same : text.toList = numberText negative whole decimals)
    (filled : whole ≠ []) (digits : ∀ char ∈ whole, char.isDigit = true) (digits' : ∀ char ∈ decimals, char.isDigit = true) :
    IsValue text where
  number := same ▸ isNumber_numberText negative filled digits digits'
  visible _ member := visible_of_mem_numberText digits digits' (same ▸ member)

private theorem isValue_of_all {text : String} (number : isNumber text.toList = true)
    (visible : (text.toList.all fun char => !isBlank char && char != '\n' && char != '"') = true) : IsValue text where
  number := number
  visible char member := by
    have seen := List.all_eq_true.mp visible char member
    simpa [and_assoc] using seen

private theorem isValue_nat (number : Nat) : IsValue (toString number) := by
  obtain ⟨filled, digits⟩ := isDigit_toString number
  have same : (toString number).toList = numberText false (toString number).toList [] := by simp [numberText]
  exact .of_numberText same filled digits (List.forall_mem_nil _)

private theorem isValue_int (number : Int) : IsValue (toString number) := by
  cases number with
  | ofNat number => exact isValue_nat number
  | negSucc number =>
    obtain ⟨filled, digits⟩ := isDigit_toString (number + 1)
    have shown : toString (Int.negSucc number) = "-" ++ toString (number + 1) := rfl
    have same : (toString (Int.negSucc number)).toList = numberText true (toString (number + 1)).toList [] := by
      rw [shown, String.toList_append]
      simp [numberText]
    exact .of_numberText same filled digits (List.forall_mem_nil _)

private theorem isValue_float (float : FloatText) : IsValue float.text := by
  cases float with
  | nan => exact isValue_of_all (by decide) (by decide)
  | infinite negative => cases negative <;> exact isValue_of_all (by decide) (by decide)
  | decimal negative whole decimals =>
    obtain ⟨filled, digits⟩ := isDigit_toString whole
    have digits' : ∀ char ∈ decimals.map fun digit => digit.val.digitChar, char.isDigit = true := by
      intro char member
      obtain ⟨digit, -, rfl⟩ := List.mem_map.mp member
      have all : ∀ digit : Fin 10, digit.val.digitChar.isDigit = true := by decide
      exact all digit
    have same : (FloatText.decimal negative whole decimals).text.toList =
        numberText negative (toString whole).toList (decimals.map fun digit => digit.val.digitChar) := by
      cases negative <;> cases decimals <;> simp [FloatText.text, numberText]
    exact .of_numberText same filled digits digits'

private theorem isValue_one : IsValue "1" := isValue_of_all (by decide) (by decide)

private theorem clean_nat (number : Nat) : Clean false (toString number).toList := by
  intro char member
  have digit := (isDigit_toString number).2 char member
  refine ⟨?_, ?_, ?_⟩ <;> rintro rfl <;> cases digit

private theorem clean_optional_nat (number : Option Nat) : Clean false ((number.map toString).getD "").toList := by
  cases number with
  | none => decide
  | some number => exact clean_nat number

private theorem clean_statusStr (status : JobStatus) : Clean false (statusStr status).toList := by
  have all : ∀ word ∈ ["pending", "running", "completed", "failed", "killed"], Clean false word.toList := by decide
  apply all
  cases status <;> simp [statusStr]

private theorem clean_safeId (rules : TextRules) (nodeId : WorkerId) : Clean false (safeId rules nodeId).toList := by
  intro char member
  rw [safeId, String.toList_ofList] at member
  obtain ⟨origin, -, rfl⟩ := List.mem_map.mp member
  split_ifs with alphanumeric
  · refine ⟨?_, ?_, ?_⟩ <;>
    · rintro rfl
      rw [rules.isAlphanumeric_ascii _ (by decide)] at alphanumeric
      exact absurd alphanumeric (by decide)
  · decide

end Values

/-- The metrics whose labels describe a job or a node. -/
def infoNames : List String := ["veloce_job_info", "veloce_node_info"]

structure Plain (line : MetricLine) : Prop where
  formed : line.entry.WellFormed
  other : line.name ∉ infoNames

section Lines

variable {rules : TextRules} {line : MetricLine} {labels : List MetricLabel} {res : HostResources} {nodeId : WorkerId}

private theorem wellFormed_of (value : IsValue line.value) (named : IsName true line.name.toList) (names : List String)
    (same : line.labels.map MetricLabel.name = names) (valid : names.Nodup ∧ ∀ name ∈ names, IsName false name.toList) :
    line.entry.WellFormed where
  named := named
  names field member := by
    obtain ⟨label, labelled, rfl⟩ := List.mem_map.mp member
    exact valid.2 label.name (same ▸ List.mem_map_of_mem labelled)
  distinct := by
    have shown : (line.labels.map MetricLabel.field).map Field.name = names.map String.toList := by
      rw [← same, List.map_map, List.map_map]
      rfl
    rw [MetricLine.entry, shown]
    exact valid.1.map fun _ _ => String.toList_inj.mp
  number := value.number
  visible := value.visible

theorem Plain.of (value : IsValue line.value) (named : IsName true line.name.toList ∧ line.name ∉ infoNames) (names : List String)
    (same : line.labels.map MetricLabel.name = names) (valid : names.Nodup ∧ ∀ name ∈ names, IsName false name.toList) :
    Plain line :=
  ⟨wellFormed_of value named.1 names same valid, named.2⟩

theorem Plain.ne (plain : Plain line) {metric : String} (info : metric ∈ infoNames) : line.entry.name ≠ metric.toList :=
  fun same => plain.other (String.toList_inj.mp same ▸ info)

private theorem gapLines_plain (gap : ExportedGap) : ∀ line ∈ gapLines gap, Plain line ∧ line.entry.Clean := by
  intro line member
  simp only [gapLines, List.mem_cons, List.not_mem_nil, or_false] at member
  rcases member with rfl | rfl | rfl <;>
    exact ⟨.of (isValue_nat _) (by dsimp only; decide) [] rfl (by decide), List.forall_mem_nil _⟩

private theorem totalLines_plain (rules : TextRules) (ctx : ExportContext) (totals : JobTotals) (draining : Int) :
    ∀ line ∈ totalLines rules ctx totals draining, Plain line ∧ line.entry.Clean := by
  have state : ∀ word ∈ ["running", "pending", "completed"], Clean false word.toList := by decide
  intro line member
  simp only [totalLines, List.mem_cons, List.not_mem_nil, or_false] at member
  rcases member with rfl | rfl | rfl | rfl | rfl | rfl | rfl | rfl
  · exact ⟨.of (isValue_int _) (by dsimp only; decide) ["state"] rfl (by decide), List.forall_mem_singleton.mpr (state _ (by decide))⟩
  · exact ⟨.of (isValue_int _) (by dsimp only; decide) ["state"] rfl (by decide), List.forall_mem_singleton.mpr (state _ (by decide))⟩
  · exact ⟨.of (isValue_nat _) (by dsimp only; decide) ["state"] rfl (by decide), List.forall_mem_singleton.mpr (state _ (by decide))⟩
  · exact ⟨.of (isValue_nat _) (by dsimp only; decide) [] rfl (by decide), List.forall_mem_nil _⟩
  · exact ⟨.of (isValue_int _) (by dsimp only; decide) [] rfl (by decide), List.forall_mem_nil _⟩
  · exact ⟨.of (isValue_nat _) (by dsimp only; decide) [] rfl (by decide), List.forall_mem_nil _⟩
  · exact ⟨.of (isValue_nat _) (by dsimp only; decide) [] rfl (by decide), List.forall_mem_nil _⟩
  · exact ⟨.of (isValue_float _) (by dsimp only; decide) [] rfl (by decide), List.forall_mem_nil _⟩

private theorem measureLines_plain (metrics : NodeMetrics) (nodeId : WorkerId) (res : Option HostResources) :
    ∀ line ∈ measureLines rules (nodeLabels rules nodeId res) metrics,
      Plain line ∧ line.labels = nodeLabels rules nodeId res := by
  intro line member
  simp only [measureLines, List.mem_cons, List.not_mem_nil, or_false] at member
  rcases member with rfl | rfl | rfl | rfl | rfl | rfl | rfl | rfl | rfl | rfl | rfl
  · exact ⟨.of (isValue_float _) (by dsimp only; decide) ["node", "name"] rfl (by decide), rfl⟩
  all_goals exact ⟨.of (isValue_nat _) (by dsimp only; decide) ["node", "name"] rfl (by decide), rfl⟩

private theorem diskLines_plain (nodeId : WorkerId) (res : HostResources) :
    ∀ line ∈ diskLines (nodeLabels rules nodeId (some res)) res,
      Plain line ∧ line.labels = nodeLabels rules nodeId (some res) := by
  intro line member
  simp only [diskLines, List.mem_cons, List.not_mem_nil, or_false] at member
  rcases member with rfl | rfl | rfl <;>
    exact ⟨.of (isValue_nat _) (by dsimp only; decide) ["node", "name"] rfl (by decide), rfl⟩

private theorem nodeInfoLine_formed (rules : TextRules) (nodeId : WorkerId) (res : HostResources) :
    (nodeInfoLine (nodeLabels rules nodeId (some res)) res).entry.WellFormed :=
  wellFormed_of isValue_one (by dsimp only [nodeInfoLine]; decide) ["node", "name", "version", "arch", "os"] rfl (by decide)

private theorem jobInfoLine_formed (job : ActiveJob) : (jobInfoLine job).entry.WellFormed :=
  wellFormed_of isValue_one (by dsimp only [jobInfoLine]; decide) ["id", "user", "status", "binary", "array_id", "array_task_id",
    "priority", "nodes", "req_cores", "req_memory_mb", "used_cpu_ms", "used_mem_mb"] rfl (by decide)

end Lines

section Nodes

variable {rules : TextRules} {nodeId : WorkerId} {res : HostResources} {lines : List MetricLine} {more : List Char}

private theorem nodeInfoLine_clean_iff (rules : TextRules) (nodeId : WorkerId) : (nodeInfoLine (nodeLabels rules nodeId (some res)) res).entry.Clean ↔ res.CleanLabels := by
  simp [MetricEntry.Clean, nodeInfoLine, nodeLabels, MetricLine.entry, MetricLabel.field, Field.Clean, HostResources.CleanLabels, clean_safeId]

private theorem nodeFields_eq_iff {sample : Sample} : nodeFields sample = describedNode res ↔
    sample.label "name".toList = some res.hostName.toList ∧ sample.label "version".toList = some res.version.toList ∧
      sample.label "arch".toList = some res.arch.toList ∧ sample.label "os".toList = some res.osName.toList := by
  simp only [nodeFields, describedNode, Prod.mk.injEq]

/-- A sample that another line of a node forges does not have its host name, which is longer
than what such a line can say. -/
private theorem forged_ne {line : MetricLine} {sample : Sample} (plain : Plain line) (labelled : line.labels = nodeLabels rules nodeId (some res))
    (forged : sample ∈ samplesOf "veloce_node_info".toList line.entry.text) : nodeFields sample ≠ describedNode res := by
  intro same
  have fields : line.entry.fields = [⟨"node".toList, (safeId rules nodeId).toList, false⟩] ++ [⟨"name".toList, res.hostName.toList, false⟩] := by
    rw [MetricLine.entry, labelled]
    rfl
  have short := short_of_forged plain.formed fields (List.forall_mem_singleton.mpr (clean_safeId rules nodeId))
    (plain.ne (by decide)) forged
  obtain ⟨before, after, split, -⟩ := List.lookup_eq_some_iff.mp (nodeFields_eq_iff.mp same).1
  have own := short ("name".toList, res.hostName.toList) (split ▸ List.mem_append_right _ List.mem_cons_self)
  rw [encode_false] at own
  exact absurd own (lt_irrefl _)

/-- If the first sample that describes a node is as the node is, then its labels are clean. -/
private theorem nodeInfoLine_clean {rest : List _} (plain : ∀ line ∈ lines, Plain line ∧ line.labels = nodeLabels rules nodeId (some res))
    (readable : Parses (document ((lines ++ [nodeInfoLine (nodeLabels rules nodeId (some res)) res]).map MetricLine.entry) ++ more))
    (first : (samplesOf "veloce_node_info".toList
      (document ((lines ++ [nodeInfoLine (nodeLabels rules nodeId (some res)) res]).map MetricLine.entry) ++ more)).map nodeFields =
        describedNode res :: rest) : (nodeInfoLine (nodeLabels rules nodeId (some res)) res).entry.Clean := by
  rw [List.map_append, document_append, List.append_assoc, List.map_singleton] at readable first
  rw [samplesOf_document_append, List.map_append] at first
  have readable := ((parses_document_append _ _).mp readable).2
  rw [document_cons] at readable first
  rcases forged : (lines.map MetricLine.entry).flatMap fun entry => samplesOf "veloce_node_info".toList entry.text with _ | ⟨sample, others⟩
  · rw [forged, List.map_nil, List.nil_append] at first
    obtain ⟨sample, later, samples, faithful⟩ := exists_first_sample (nodeInfoLine_formed rules nodeId res) (List.cons_ne_nil _ _) readable
    have named : (nodeInfoLine (nodeLabels rules nodeId (some res)) res).entry.name = "veloce_node_info".toList :=
      congrArg String.toList rfl
    rw [named] at samples
    rw [samples, List.map_cons, List.cons.injEq] at first
    obtain ⟨name, version, arch, os⟩ := nodeFields_eq_iff.mp first.1
    refine faithful ?_
    simp only [nodeInfoLine, nodeLabels, MetricLine.entry, MetricLabel.field, Option.map_some, Option.getD_some, List.map_cons,
      List.map_nil, List.cons_append, List.nil_append, List.forall_mem_cons]
    exact ⟨.inl (clean_safeId rules nodeId), .inr name, .inr version, .inr arch, .inr os, List.forall_mem_nil _⟩
  · have member : sample ∈ (lines.map MetricLine.entry).flatMap fun entry => samplesOf "veloce_node_info".toList entry.text :=
      forged ▸ List.mem_cons_self
    obtain ⟨entry, listed, member⟩ := List.mem_flatMap.mp member
    obtain ⟨line, own, rfl⟩ := List.mem_map.mp listed
    rw [forged, List.map_cons, List.cons_append, List.cons.injEq] at first
    exact absurd first.1 (forged_ne (plain line own).1 (plain line own).2 member)

end Nodes

def linesText (lines : List MetricLine) (more : List Char) : List Char := document (lines.map MetricLine.entry) ++ more

section Samples

variable {rules : TextRules} {ctx : ExportContext} {lines : List MetricLine} {line : MetricLine} {more : List Char} {metric : String}
  {node : WorkerId × NodeMetrics} {res : HostResources}

private theorem linesText_append (lines lines' : List MetricLine) (more : List Char) :
    linesText (lines ++ lines') more = linesText lines (linesText lines' more) := by
  rw [linesText, List.map_append, document_append, List.append_assoc]
  rfl

private theorem samplesOf_plain (plain : ∀ line ∈ lines, Plain line ∧ line.entry.Clean) (info : metric ∈ infoNames) :
    samplesOf metric.toList (linesText lines more) = samplesOf metric.toList more := by
  rw [linesText, samplesOf_document]
  · rw [List.filter_eq_nil_iff.mpr, List.map_nil, List.nil_append]
    intro entry member
    obtain ⟨line, listed, rfl⟩ := List.mem_map.mp member
    simpa using (plain line listed).1.ne info
  · exact List.forall_mem_map.mpr fun line listed => (plain line listed).1.formed
  · exact List.forall_mem_map.mpr fun line listed => (plain line listed).2

private theorem parses_lines (formed : ∀ line ∈ lines, line.entry.WellFormed ∧ line.entry.Clean) :
    Parses (linesText lines more) ↔ Parses more :=
  parses_document (List.forall_mem_map.mpr fun line listed => (formed line listed).1)
    (List.forall_mem_map.mpr fun line listed => (formed line listed).2)

private theorem samplesOf_line (formed : line.entry.WellFormed) (clean : line.entry.Clean) (metric : String) :
    samplesOf metric.toList (linesText [line] more) =
      (if line.name = metric then [line.entry.sample] else []) ++ samplesOf metric.toList more := by
  rw [linesText, List.map_singleton, samplesOf_document (List.forall_mem_singleton.mpr formed) (List.forall_mem_singleton.mpr clean)]
  have named : line.entry.name = metric.toList ↔ line.name = metric := String.toList_inj
  by_cases same : line.name = metric
  · rw [List.filter_cons_of_pos (by simpa using named.mpr same), if_pos same]
    rfl
  · rw [List.filter_cons_of_neg (by simpa using mt named.mp same), if_neg same]
    rfl

private theorem nodeLines_none (unknown : (ctx.workerResources.get? node.1).map Prod.fst = none) :
    nodeLines rules ctx node = measureLines rules (nodeLabels rules node.1 none) node.2 := by
  rw [nodeLines, unknown]
  exact List.append_nil _

private theorem nodeLines_some (rules : TextRules) (known : (ctx.workerResources.get? node.1).map Prod.fst = some res) : nodeLines rules ctx node =
    (measureLines rules (nodeLabels rules node.1 (some res)) node.2 ++ diskLines (nodeLabels rules node.1 (some res)) res) ++
      [nodeInfoLine (nodeLabels rules node.1 (some res)) res] := by
  rw [nodeLines, known]
  exact (List.append_assoc _ _ _).symm

private theorem nodeLines_plain (rules : TextRules) (unknown : (ctx.workerResources.get? node.1).map Prod.fst = none) :
    ∀ line ∈ nodeLines rules ctx node, Plain line ∧ line.entry.Clean := by
  rw [nodeLines_none unknown]
  intro line member
  obtain ⟨plain, labelled⟩ := measureLines_plain node.2 node.1 none line member
  refine ⟨plain, ?_⟩
  rw [MetricEntry.Clean, MetricLine.entry, labelled]
  have name : Clean false "unknown".toList := by decide
  exact List.forall_mem_cons.mpr ⟨clean_safeId rules node.1, List.forall_mem_singleton.mpr name⟩

private theorem otherLines_plain (node : WorkerId × NodeMetrics) (res : HostResources) :
    ∀ line ∈ measureLines rules (nodeLabels rules node.1 (some res)) node.2 ++ diskLines (nodeLabels rules node.1 (some res)) res,
      Plain line ∧ line.labels = nodeLabels rules node.1 (some res) :=
  List.forall_mem_append.mpr ⟨measureLines_plain node.2 node.1 (some res), diskLines_plain node.1 res⟩

private theorem otherLines_clean (rules : TextRules) (node : WorkerId × NodeMetrics) (clean : res.CleanLabels) :
    ∀ line ∈ measureLines rules (nodeLabels rules node.1 (some res)) node.2 ++ diskLines (nodeLabels rules node.1 (some res)) res,
      Plain line ∧ line.entry.Clean := by
  intro line member
  obtain ⟨plain, labelled⟩ := otherLines_plain node res line member
  refine ⟨plain, ?_⟩
  rw [MetricEntry.Clean, MetricLine.entry, labelled]
  exact List.forall_mem_cons.mpr ⟨clean_safeId rules node.1, List.forall_mem_singleton.mpr clean.1⟩

private theorem nodeFields_sample (nodeId : WorkerId) (res : HostResources) :
    nodeFields (nodeInfoLine (nodeLabels rules nodeId (some res)) res).entry.sample = describedNode res := by
  simp [nodeFields_eq_iff, MetricEntry.sample, Sample.label, nodeInfoLine, nodeLabels, MetricLine.entry, MetricLabel.field, List.lookup_cons]

private theorem jobFields_sample (job : ActiveJob) : jobFields (jobInfoLine job).entry.sample = describedJob job := by
  simp [jobFields, describedJob, MetricEntry.sample, Sample.label, jobInfoLine, MetricLine.entry, MetricLabel.field, List.lookup_cons]

private theorem samplesOf_node (rules : TextRules) (known : (ctx.workerResources.get? node.1).map Prod.fst = some res) (clean : res.CleanLabels)
    (more : List Char) :
    (samplesOf "veloce_node_info".toList (linesText (nodeLines rules ctx node) more)).map nodeFields =
        describedNode res :: (samplesOf "veloce_node_info".toList more).map nodeFields ∧
      samplesOf "veloce_job_info".toList (linesText (nodeLines rules ctx node) more) = samplesOf "veloce_job_info".toList more ∧
      (Parses (linesText (nodeLines rules ctx node) more) ↔ Parses more) := by
  have formed := nodeInfoLine_formed rules node.1 res
  have clean' := (nodeInfoLine_clean_iff rules node.1).mpr clean
  have others := otherLines_clean rules node clean
  rw [nodeLines_some rules known, linesText_append, samplesOf_plain others (by decide), samplesOf_plain others (by decide),
    samplesOf_line formed clean', samplesOf_line formed clean']
  refine ⟨?_, ?_, ?_⟩
  · have own : (nodeInfoLine (nodeLabels rules node.1 (some res)) res).name = "veloce_node_info" := rfl
    rw [if_pos own, List.map_append, List.map_singleton, nodeFields_sample]
    rfl
  · rw [if_neg (by simp [nodeInfoLine]), List.nil_append]
  · rw [parses_lines fun line listed => ⟨(others line listed).1.formed, (others line listed).2⟩,
      parses_lines (List.forall_mem_singleton.mpr ⟨formed, clean'⟩)]

private theorem jobInfoLine_clean_iff (job : ActiveJob) : (jobInfoLine job).entry.Clean ↔ job.CleanLabels := by
  simp only [MetricEntry.Clean, jobInfoLine, MetricLine.entry, MetricLabel.field, Field.Clean, List.map_cons, List.map_nil,
    List.forall_mem_cons, clean_nat, clean_optional_nat, clean_statusStr, true_and, ActiveJob.CleanLabels]
  have none : ∀ field ∈ ([] : List Field), Clean field.quotes field.value := List.forall_mem_nil _
  tauto

private theorem samplesOf_job {job : ActiveJob} (clean : job.CleanLabels) (more : List Char) :
    (samplesOf "veloce_job_info".toList (linesText [jobInfoLine job] more)).map jobFields =
        describedJob job :: (samplesOf "veloce_job_info".toList more).map jobFields ∧
      samplesOf "veloce_node_info".toList (linesText [jobInfoLine job] more) = samplesOf "veloce_node_info".toList more ∧
      (Parses (linesText [jobInfoLine job] more) ↔ Parses more) := by
  have formed := jobInfoLine_formed job
  have clean' := (jobInfoLine_clean_iff job).mpr clean
  rw [samplesOf_line formed clean', samplesOf_line formed clean']
  refine ⟨?_, ?_, ?_⟩
  · have own : (jobInfoLine job).name = "veloce_job_info" := rfl
    rw [if_pos own, List.map_append, List.map_singleton, jobFields_sample]
    rfl
  · rw [if_neg (by simp [jobInfoLine]), List.nil_append]
  · exact parses_lines (List.forall_mem_singleton.mpr ⟨formed, clean'⟩)

/-- If the first sample that describes a job is as the job is, then its labels are clean. -/
private theorem job_clean {job : ActiveJob} {rest : List _} (readable : Parses (linesText [jobInfoLine job] more))
    (first : (samplesOf "veloce_job_info".toList (linesText [jobInfoLine job] more)).map jobFields = describedJob job :: rest) :
    job.CleanLabels := by
  rw [linesText, List.map_singleton, document_cons] at readable first
  obtain ⟨sample, later, samples, faithful⟩ := exists_first_sample (jobInfoLine_formed job) (List.cons_ne_nil _ _) readable
  have named : (jobInfoLine job).entry.name = "veloce_job_info".toList := congrArg String.toList rfl
  rw [named] at samples
  rw [samples, List.map_cons, List.cons.injEq] at first
  obtain ⟨same, -⟩ := first
  simp only [jobFields, describedJob, Prod.mk.injEq] at same
  obtain ⟨binary, user, nodes⟩ := same
  refine (jobInfoLine_clean_iff job).mp (faithful ?_)
  simp only [jobInfoLine, MetricLine.entry, MetricLabel.field, List.map_cons, List.map_nil, List.forall_mem_cons]
  exact ⟨.inl (clean_nat _), .inr user, .inl (clean_statusStr _), .inr binary, .inl (clean_optional_nat _),
    .inl (clean_optional_nat _), .inl (clean_nat _), .inr nodes, .inl (clean_nat _), .inl (clean_nat _), .inl (clean_nat _),
    .inl (clean_nat _), List.forall_mem_nil _⟩

end Samples

section Loops

variable {rules : TextRules} {ctx : ExportContext} {more : List Char}

def ExportContext.resources (ctx : ExportContext) (node : WorkerId × NodeMetrics) : Option HostResources :=
  (ctx.workerResources.get? node.1).map Prod.fst

private theorem samplesOf_nodes (rules : TextRules) (nodes : List (WorkerId × NodeMetrics)) (clean : ∀ res ∈ nodes.filterMap ctx.resources, res.CleanLabels)
    (more : List Char) :
    (samplesOf "veloce_node_info".toList (linesText (nodes.flatMap (nodeLines rules ctx)) more)).map nodeFields =
        (nodes.filterMap ctx.resources).map describedNode ++ (samplesOf "veloce_node_info".toList more).map nodeFields ∧
      samplesOf "veloce_job_info".toList (linesText (nodes.flatMap (nodeLines rules ctx)) more) =
        samplesOf "veloce_job_info".toList more ∧
      (Parses (linesText (nodes.flatMap (nodeLines rules ctx)) more) ↔ Parses more) := by
  induction nodes with
  | nil => exact ⟨rfl, rfl, Iff.rfl⟩
  | cons node nodes ih =>
    rw [List.flatMap_cons, linesText_append]
    cases known : ctx.resources node with
    | none =>
      rw [List.filterMap_cons_none known] at clean ⊢
      obtain ⟨infos, jobs, readable⟩ := ih clean
      have plain := nodeLines_plain rules known
      rw [samplesOf_plain plain (by decide), samplesOf_plain plain (by decide),
        parses_lines fun line listed => ⟨(plain line listed).1.formed, (plain line listed).2⟩]
      exact ⟨infos, jobs, readable⟩
    | some res =>
      rw [List.filterMap_cons_some known] at clean ⊢
      obtain ⟨own, clean⟩ := List.forall_mem_cons.mp clean
      obtain ⟨infos, jobs, readable⟩ := ih clean
      obtain ⟨infos', jobs', readable'⟩ := samplesOf_node rules known own (linesText (nodes.flatMap (nodeLines rules ctx)) more)
      rw [infos', jobs', readable', infos]
      exact ⟨rfl, jobs, readable⟩

private theorem nodes_clean (nodes : List (WorkerId × NodeMetrics))
    (readable : Parses (linesText (nodes.flatMap (nodeLines rules ctx)) more))
    (described : (samplesOf "veloce_node_info".toList (linesText (nodes.flatMap (nodeLines rules ctx)) more)).map nodeFields =
      (nodes.filterMap ctx.resources).map describedNode) : ∀ res ∈ nodes.filterMap ctx.resources, res.CleanLabels := by
  induction nodes with
  | nil => exact List.forall_mem_nil _
  | cons node nodes ih =>
    rw [List.flatMap_cons, linesText_append] at readable described
    cases known : ctx.resources node with
    | none =>
      rw [List.filterMap_cons_none known] at described ⊢
      have plain := nodeLines_plain rules known
      rw [samplesOf_plain plain (by decide)] at described
      rw [parses_lines fun line listed => ⟨(plain line listed).1.formed, (plain line listed).2⟩] at readable
      exact ih readable described
    | some res =>
      rw [List.filterMap_cons_some known] at described ⊢
      have lines := nodeLines_some rules known
      have own : res.CleanLabels := (nodeInfoLine_clean_iff rules node.1).mp
        (nodeInfoLine_clean (otherLines_plain node res) (lines ▸ readable) (lines ▸ described))
      obtain ⟨infos, -, readable'⟩ := samplesOf_node rules known own (linesText (nodes.flatMap (nodeLines rules ctx)) more)
      rw [infos, List.map_cons, List.cons.injEq] at described
      exact List.forall_mem_cons.mpr ⟨own, ih (readable'.mp readable) described.2⟩

private theorem samplesOf_jobs (jobs : List ActiveJob) (clean : ∀ job ∈ jobs, job.CleanLabels) (more : List Char) :
    (samplesOf "veloce_job_info".toList (linesText (jobs.map jobInfoLine) more)).map jobFields =
        jobs.map describedJob ++ (samplesOf "veloce_job_info".toList more).map jobFields ∧
      samplesOf "veloce_node_info".toList (linesText (jobs.map jobInfoLine) more) = samplesOf "veloce_node_info".toList more ∧
      (Parses (linesText (jobs.map jobInfoLine) more) ↔ Parses more) := by
  induction jobs with
  | nil => exact ⟨rfl, rfl, Iff.rfl⟩
  | cons job jobs ih =>
    obtain ⟨own, clean⟩ := List.forall_mem_cons.mp clean
    obtain ⟨infos, nodes, readable⟩ := ih clean
    obtain ⟨infos', nodes', readable'⟩ := samplesOf_job own (linesText (jobs.map jobInfoLine) more)
    rw [List.map_cons, ← List.singleton_append, linesText_append, infos', nodes', readable', infos]
    exact ⟨rfl, nodes, readable⟩

private theorem jobs_clean (jobs : List ActiveJob) (readable : Parses (linesText (jobs.map jobInfoLine) more))
    (described : (samplesOf "veloce_job_info".toList (linesText (jobs.map jobInfoLine) more)).map jobFields = jobs.map describedJob) :
    ∀ job ∈ jobs, job.CleanLabels := by
  induction jobs with
  | nil => exact List.forall_mem_nil _
  | cons job jobs ih =>
    rw [List.map_cons, ← List.singleton_append, linesText_append] at readable
    rw [List.map_cons, ← List.singleton_append, linesText_append, List.map_cons] at described
    have own := job_clean readable described
    obtain ⟨infos, -, readable'⟩ := samplesOf_job own (linesText (jobs.map jobInfoLine) more)
    rw [infos, List.cons.injEq] at described
    exact List.forall_mem_cons.mpr ⟨own, ih (readable'.mp readable) described.2⟩

end Loops

section Export

variable {rules : TextRules} {ctx : ExportContext}

private theorem toList_exportLines (rules : TextRules) (ctx : ExportContext) (gap : ExportedGap) (totals : JobTotals) (draining : Int) :
    (String.join ((exportLines rules ctx gap totals draining).map MetricLine.text)).toList =
      linesText (gapLines gap) (linesText (ctx.metricsStore.toList.flatMap (nodeLines rules ctx))
        (linesText (totalLines rules ctx totals draining) (linesText (ctx.activeJobs.values.map jobInfoLine) []))) := by
  rw [toList_join_text, exportLines, List.map_append, List.map_append, List.map_append, document_append, document_append,
    document_append]
  simp only [linesText, List.append_nil, List.append_assoc]

private theorem exportLines_faithful_iff (gap : ExportedGap) (totals : JobTotals) (draining : Int) :
    ExportFaithful ctx (String.join ((exportLines rules ctx gap totals draining).map MetricLine.text)) ↔ ctx.CleanLabels := by
  have gaps := gapLines_plain gap
  have sums := totalLines_plain rules ctx totals draining
  have formed {lines : List MetricLine} (plain : ∀ line ∈ lines, Plain line ∧ line.entry.Clean) :
      ∀ line ∈ lines, line.entry.WellFormed ∧ line.entry.Clean :=
    fun line listed => ⟨(plain line listed).1.formed, (plain line listed).2⟩
  have text := toList_exportLines rules ctx gap totals draining
  constructor
  · rintro ⟨readable, jobs, nodes⟩
    rw [text, parses_lines (formed gaps)] at readable
    rw [text, samplesOf_plain gaps (by decide)] at jobs nodes
    have clean := nodes_clean _ readable nodes
    obtain ⟨-, jobs', readable'⟩ := samplesOf_nodes rules ctx.metricsStore.toList clean
      (linesText (totalLines rules ctx totals draining) (linesText (ctx.activeJobs.values.map jobInfoLine) []))
    rw [readable', parses_lines (formed sums)] at readable
    rw [jobs', samplesOf_plain sums (by decide)] at jobs
    exact ⟨jobs_clean _ readable jobs, clean⟩
  · rintro ⟨cleanJobs, cleanNodes⟩
    obtain ⟨infos, jobs, readable⟩ := samplesOf_nodes rules ctx.metricsStore.toList cleanNodes
      (linesText (totalLines rules ctx totals draining) (linesText (ctx.activeJobs.values.map jobInfoLine) []))
    obtain ⟨infos', nodes', readable'⟩ := samplesOf_jobs ctx.activeJobs.values cleanJobs []
    have none : Parses [] := List.forall_mem_singleton.mpr ⟨.blank, rfl⟩
    refine ⟨?_, ?_, ?_⟩
    · rw [text, parses_lines (formed gaps), readable, parses_lines (formed sums), readable']
      exact none
    · rw [text, samplesOf_plain gaps (by decide), jobs, samplesOf_plain sums (by decide), infos']
      exact List.append_nil _
    · rw [text, samplesOf_plain gaps (by decide), infos, samplesOf_plain sums (by decide), nodes']
      exact List.append_nil _

/-- The export can be read and says what jobs and nodes are if and only if no label has a
character that it should have escaped. -/
theorem prometheus_faithful_iff (rules : TextRules) (build : Build) (ctx : ExportContext) {text : String}
    (generated : generatePrometheusMetrics rules build ctx = some text) : ExportFaithful ctx text ↔ ctx.CleanLabels := by
  simp only [generatePrometheusMetrics, Option.bind_eq_bind, Option.bind_eq_some_iff] at generated
  obtain ⟨draining, -, totals, -, gap, -, same⟩ := generated
  cases same
  exact exportLines_faithful_iff gap totals draining

/-- A display that is right for zero and for ASCII. -/
def zeroRules : TextRules where
  isAlphanumeric := Char.isAlphanum
  isAlphanumeric_ascii _ _ := rfl
  displayF32 _ := .decimal false 0 []
  displayF64 _ := .decimal false 0 []

def smallJob (userId : String) : JobInfo where
  id := 1
  binary := "/bin/true"
  status := .running
  reqNodes := 1
  reqCores := 1
  reqMemory := 1
  userId := userId
  assignedWorkers := ["node-1"]

def smallCluster (userId : String) : ExportContext where
  workerResources := HashMap.ofList [("node-1", (⟨⟨4, 0, "", "x86_64", ∅, false⟩, "node-1.cluster", "0.1.0", "Linux", 0, 0, 0⟩, false))]
  activeJobs := HashMap.ofList [(1, ⟨smallJob userId, none⟩)]
  metricsStore := HashMap.ofList [("node-1", { nodeId := "node-1", timestamp := 0 })]

theorem small_cluster_exported : ∃ text, generatePrometheusMetrics zeroRules .debug (smallCluster "alice") = some text ∧
    ExportFaithful (smallCluster "alice") text :=
  ⟨_, rfl, (prometheus_faithful_iff zeroRules .debug (smallCluster "alice") rfl).mpr ⟨by decide, by decide⟩⟩

/-- A user of a Windows domain makes the text unreadable. -/
theorem domain_user_not_exported : ∃ text, generatePrometheusMetrics zeroRules .debug (smallCluster "CORP\\alice") = some text ∧
    ¬ ExportFaithful (smallCluster "CORP\\alice") text := by
  refine ⟨_, rfl, fun faithful => ?_⟩
  have clean := (exportLines_faithful_iff _ _ _).mp faithful
  exact absurd clean.jobs (by decide)

end Export

end Veloce
