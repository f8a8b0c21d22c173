import Veloce.Collections.LexicalPath
import Veloce.Common.Types

/-! The inputs of a job are fetched before it starts, with the rights of the worker. -/

namespace Veloce

open Collections

/-- What the file service and the disk answer while an input is fetched and put in its place. -/
structure InputAnswers where
  served : Bool := true
  created : Bool := true
  streamed : Bool := true
  opened : Bool := true
  unpacked : Bool := true
  removed : Bool := true
  statted : Bool := true
  modeSet : Bool := true

inductive FileTouch where
  | create (path : String)
  | unpack (target : String)
  | remove (path : String)
  | setMode (path : String) (mode : Nat)
deriving DecidableEq

def FileTouch.path : FileTouch → String
  | .create path => path
  | .unpack target => target
  | .remove path => path
  | .setMode path _ => path

/-- No system creates a file whose path has a NUL or does not end in a name. -/
def Creatable (path : String) : Prop :=
  Char.ofNat 0 ∉ path.toList ∧ ∃ name, (Path.pieces path).getLast? = some name ∧ IsName name

instance (path : String) : Decidable (Creatable path) :=
  inferInstanceAs (Decidable (_ ∧ _))

def downloadFile (answers : InputAnswers) (destination : String) : List FileTouch × Bool :=
  if !answers.served then ([], false)
  else if !(answers.created && decide (Creatable destination)) then ([], false)
  else ([.create destination], answers.streamed)

/-- What `process_inputs` does with a file that it has downloaded. -/
def placeInput (workingDir : String) (answers : InputAnswers) (input : FileHandle) (dest : String) : List FileTouch × Bool :=
  if input.isArchive then
    if !answers.opened then ([], false)
    else if !answers.unpacked then ([.unpack workingDir], false)
    else if !answers.removed then ([.unpack workingDir], false)
    else ([.unpack workingDir, .remove dest], true)
  else if input.isExecutable then
    if !answers.statted then ([], false)
    else if !answers.modeSet then ([], false)
    else ([.setMode dest 0o755], true)
  else ([], true)

def processInputs (workingDir : String) : (inputs : List (FileHandle × InputAnswers)) → List FileTouch × Bool
  | [] => ([], true)
  | (input, answers) :: rest =>
    let dest := Path.join workingDir input.originalName
    let (downloaded, complete) := downloadFile answers dest
    if !complete then (downloaded, false)
    else
      let (placed, complete) := placeInput workingDir answers input dest
      if !complete then (downloaded ++ placed, false)
      else
        let (later, complete) := processInputs workingDir rest
        (downloaded ++ placed ++ later, complete)

/-- Whatever is answered, every path that is touched is the working directory or lies in it. -/
def InputsContained (cwd : Location) (workingDir : String) (inputs : List FileHandle) : Prop :=
  ∀ answered : List (FileHandle × InputAnswers), answered.map Prod.fst = inputs →
    ∀ touch ∈ (processInputs workingDir answered).1,
      Path.Under (Path.resolve cwd.names workingDir) (Path.resolve cwd.names touch.path)

/-- An absolute name is one of a place in the working directory, and a relative one comes
back on all the names that it goes up by. -/
def NameStays (root : List String) (name : String) : Prop :=
  if Path.isAbsolute name then Path.Under root (Path.walk [] (Path.pieces name))
  else Path.Under (root.drop (root.length - (Path.reduce (Path.pieces name)).1)) (Path.reduce (Path.pieces name)).2

instance (root : List String) (name : String) : Decidable (NameStays root name) :=
  inferInstanceAs (Decidable (ite _ _ _))

/-- All names stay, up to the first one under which no file can be created. -/
def NamesStay (root : List String) (workingDir : String) : List FileHandle → Prop
  | [] => True
  | input :: rest => Creatable (Path.join workingDir input.originalName) →
    NameStays root input.originalName ∧ NamesStay root workingDir rest

section Containment

variable {cwd : Location} {workingDir : String} {input : FileHandle} {inputs : List FileHandle} {answers : InputAnswers}

theorem nameStays_iff (cwd : Location) (workingDir name : String) :
    Path.Under (Path.resolve cwd.names workingDir) (Path.resolve cwd.names (Path.join workingDir name)) ↔
      NameStays (Path.resolve cwd.names workingDir) name := by
  rw [NameStays]
  cases absolute : Path.isAbsolute name with
  | true => rw [Path.join, absolute, if_pos rfl, if_pos rfl, Path.resolve, Path.resolve, absolute, if_pos rfl]
  | false => rw [Path.resolve_join cwd.names workingDir absolute, if_neg Bool.false_ne_true, Path.under_walk_iff]

/-- A download that succeeds or fails touches at most its destination. -/
theorem mem_downloadFile {dest : String} {touch : FileTouch} (member : touch ∈ (downloadFile answers dest).1) :
    touch.path = dest ∧ Creatable dest := by
  unfold downloadFile at member
  split at member
  · cases member
  · split at member
    · cases member
    · rename_i made
      cases List.mem_singleton.mp member
      refine ⟨rfl, ?_⟩
      simp only [Bool.not_eq_true', Bool.not_eq_false, Bool.and_eq_true, decide_eq_true_eq] at made
      exact made.2

theorem creatable_of_downloadFile {dest : String} (complete : (downloadFile answers dest).2 = true) : Creatable dest := by
  unfold downloadFile at complete
  split at complete
  · cases complete
  · split at complete
    · cases complete
    · rename_i made
      simp only [Bool.not_eq_true', Bool.not_eq_false, Bool.and_eq_true, decide_eq_true_eq] at made
      exact made.2

theorem mem_placeInput {dest : String} {touch : FileTouch} (member : touch ∈ (placeInput workingDir answers input dest).1) :
    touch.path = workingDir ∨ touch.path = dest := by
  unfold placeInput at member
  split at member
  · split at member
    · cases member
    · split at member
      · cases List.mem_singleton.mp member
        exact .inl rfl
      · split at member
        · cases List.mem_singleton.mp member
          exact .inl rfl
        · simp only [List.mem_cons, List.not_mem_nil, or_false] at member
          rcases member with rfl | rfl
          · exact .inl rfl
          · exact .inr rfl
  · split at member
    · split at member
      · cases member
      · split at member
        · cases member
        · cases List.mem_singleton.mp member
          exact .inr rfl
    · cases member

theorem mem_processInputs {rest : List (FileHandle × InputAnswers)} {touch : FileTouch}
    (member : touch ∈ (processInputs workingDir ((input, answers) :: rest)).1) :
    Creatable (Path.join workingDir input.originalName) ∧
      (touch.path = workingDir ∨ touch.path = Path.join workingDir input.originalName ∨
        touch ∈ (processInputs workingDir rest).1) := by
  have first := @mem_downloadFile answers (Path.join workingDir input.originalName)
  have made := @creatable_of_downloadFile answers (Path.join workingDir input.originalName)
  have second := @mem_placeInput workingDir input answers (Path.join workingDir input.originalName)
  rw [processInputs] at member
  generalize downloadFile answers (Path.join workingDir input.originalName) = result at member first made
  obtain ⟨touches, complete⟩ := result
  cases complete with
  | false => exact ⟨(first member).2, .inr (.inl (first member).1)⟩
  | true =>
    refine ⟨made rfl, ?_⟩
    generalize placeInput workingDir answers input (Path.join workingDir input.originalName) = result at member second
    obtain ⟨touches', complete⟩ := result
    cases complete with
    | false =>
      rcases List.mem_append.mp member with early | late
      · exact .inr (.inl (first early).1)
      · exact (second late).imp_right .inl
    | true =>
      rcases List.mem_append.mp member with early | late
      · rcases List.mem_append.mp early with early | late
        · exact .inr (.inl (first early).1)
        · exact (second late).imp_right .inl
      · exact .inr (.inr late)

theorem placeInput_granted (workingDir : String) (input : FileHandle) (dest : String) :
    ∃ touches, placeInput workingDir {} input dest = (touches, true) := by
  rw [placeInput]
  cases input.isArchive with
  | true => exact ⟨_, rfl⟩
  | false => cases input.isExecutable with
    | true => exact ⟨_, rfl⟩
    | false => exact ⟨_, rfl⟩

theorem processInputs_granted (creatable : Creatable (Path.join workingDir input.originalName))
    (rest : List (FileHandle × InputAnswers)) :
    .create (Path.join workingDir input.originalName) ∈ (processInputs workingDir ((input, {}) :: rest)).1 ∧
      ∀ touch ∈ (processInputs workingDir rest).1, touch ∈ (processInputs workingDir ((input, {}) :: rest)).1 := by
  have downloaded : downloadFile {} (Path.join workingDir input.originalName) =
      ([.create (Path.join workingDir input.originalName)], true) := by
    simp [downloadFile, creatable]
  obtain ⟨touches, placed⟩ := placeInput_granted workingDir input (Path.join workingDir input.originalName)
  have whole : (processInputs workingDir ((input, {}) :: rest)).1 =
      [.create (Path.join workingDir input.originalName)] ++ touches ++ (processInputs workingDir rest).1 := by
    rw [processInputs, downloaded, placed]
    rfl
  rw [whole]
  exact ⟨by simp, fun touch member => List.mem_append_right _ member⟩

/-- The inputs stay in the working directory if and only if their names do. -/
theorem inputs_contained_iff (cwd : Location) (workingDir : String) : ∀ inputs : List FileHandle,
    InputsContained cwd workingDir inputs ↔ NamesStay (Path.resolve cwd.names workingDir) workingDir inputs := by
  intro inputs
  induction inputs with
  | nil =>
    refine iff_of_true (fun answered same touch member => ?_) trivial
    rw [List.map_eq_nil_iff.mp same] at member
    cases member
  | cons input rest ih =>
    constructor
    · intro contained creatable
      have granted := processInputs_granted creatable (rest.map fun input => (input, {}))
      have alone : ((input, ({} : InputAnswers)) :: rest.map fun input => (input, {})).map Prod.fst = input :: rest := by
        simp [Function.comp_def]
      have created := contained _ alone _ granted.1
      refine ⟨(nameStays_iff cwd workingDir input.originalName).mp created, ih.mp fun answered same touch member => ?_⟩
      exact contained ((input, {}) :: answered) (by rw [List.map_cons, same]) touch
        ((processInputs_granted creatable answered).2 touch member)
    · intro stay answered same touch member
      cases answered with
      | nil => cases same
      | cons first answered =>
        obtain ⟨other, answers⟩ := first
        obtain ⟨own, rest'⟩ := List.cons.inj same
        cases own
        obtain ⟨creatable, touched⟩ := mem_processInputs member
        obtain ⟨stays, later⟩ := stay creatable
        rcases touched with whole | dest | further
        · rw [whole]
          exact List.prefix_refl _
        · rw [dest]
          exact (nameStays_iff cwd workingDir _).mpr stays
        · exact ih.mpr later answered rest' touch further

/-- A name with two dots and an absolute name are written elsewhere. -/
theorem inputs_escape :
    ¬ InputsContained ⟨[], by decide⟩ "/work/job_1" [⟨"f", "../../etc/cron.d/job", false, false⟩] ∧
    ¬ InputsContained ⟨[], by decide⟩ "/work/job_1" [⟨"f", "/etc/passwd", true, false⟩] := by
  constructor
  · intro contained
    have outside := contained [(⟨"f", "../../etc/cron.d/job", false, false⟩, {})] rfl
      (.create (Path.join "/work/job_1" "../../etc/cron.d/job")) (by decide +kernel)
    exact absurd outside (by decide +kernel)
  · intro contained
    have outside := contained [(⟨"f", "/etc/passwd", true, false⟩, {})] rfl
      (.create (Path.join "/work/job_1" "/etc/passwd")) (by decide +kernel)
    exact absurd outside (by decide +kernel)

end Containment

end Veloce
