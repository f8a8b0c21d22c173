import Mathlib.Init

/-! Runs of a labelled transition system. -/

namespace Collections

variable {S L : Type}

/-- The states that labelled steps reach from a starting state. -/
inductive Reach (start : S → Prop) (step : S → L → S → Prop) : S → Prop where
  | start {state : S} (starts : start state) : Reach start step state
  | step {state next : S} {label : L} (reached : Reach start step state) (taken : step state label next) :
      Reach start step next

variable {apply : L → S → Option S} {allowed : S → L → Prop} {start : S → Prop} {labels : List L}

/-- What holds at the start and is kept by every step holds in every reached state. -/
theorem Reach.invariant {step : S → L → S → Prop} {state : S} (Inv : S → Prop)
    (base : ∀ state, start state → Inv state)
    (keeps : ∀ state label next, Inv state → step state label next → Inv next) (reached : Reach start step state) :
    Inv state := by
  induction reached with
  | start starts => exact base _ starts
  | step _ taken valid => exact keeps _ _ _ valid taken

theorem Reach.mono {step step' : S → L → S → Prop} {state : S}
    (more : ∀ state label next, step state label next → step' state label next) (reached : Reach start step state) :
    Reach start step' state := by
  induction reached with
  | start starts => exact .start starts
  | step _ taken before => exact .step before (more _ _ _ taken)

theorem Reach.append {step : S → L → S → Prop} {middle final : S} (first : Reach start step middle)
    (second : Reach (· = middle) step final) : Reach start step final := by
  induction second with
  | start same => exact same ▸ first
  | step _ taken before => exact .step before taken

/-- Take a list of labels in order. -/
def runLabels (apply : L → S → Option S) : List L → S → Option S
  | [], state => some state
  | label :: rest, state =>
    match apply label state with
    | none => none
    | some next => runLabels apply rest next

theorem runLabels_cons (apply : L → S → Option S) (label : L) (rest : List L) (state : S) :
    runLabels apply (label :: rest) state = (apply label state).bind (runLabels apply rest) := by
  rw [runLabels]
  cases apply label state with
  | none => rfl
  | some next => rfl

theorem runLabels_append (apply : L → S → Option S) : ∀ (first second : List L) (state : S),
    runLabels apply (first ++ second) state = (runLabels apply first state).bind (runLabels apply second) := by
  intro first
  induction first with
  | nil => intro second state; rfl
  | cons label rest ih =>
    intro second state
    rw [List.cons_append, runLabels_cons, runLabels_cons, Option.bind_assoc]
    exact congrArg (apply label state).bind (funext (ih second))

theorem runLabels_invariant {Inv : S → Prop}
    (step : ∀ {state : S} {label : L} {next : S}, Inv state → apply label state = some next → Inv next) :
    ∀ {labels : List L} {state final : S}, Inv state → runLabels apply labels state = some final → Inv final := by
  intro labels
  induction labels with
  | nil =>
    intro state final valid ran
    cases ran
    exact valid
  | cons label rest ih =>
    intro state final valid ran
    rw [runLabels_cons] at ran
    obtain ⟨next, taken, ran⟩ := Option.bind_eq_some_iff.mp ran
    exact ih (step valid taken) ran

/-- What every good step keeps holds at the end of a list of good labels. -/
theorem runLabels_invariant_of_good {Inv : S → Prop} {good : L → Prop}
    (step : ∀ {state : S} {label : L} {next : S}, Inv state → good label → apply label state = some next → Inv next)
    {state final : S} (all : ∀ label ∈ labels, good label) (valid : Inv state)
    (ran : runLabels apply labels state = some final) : Inv final := by
  induction labels generalizing state with
  | nil =>
    cases ran
    exact valid
  | cons label rest ih =>
    rw [runLabels_cons] at ran
    obtain ⟨next, taken, ran⟩ := Option.bind_eq_some_iff.mp ran
    exact ih (fun other member => all other (List.mem_cons_of_mem _ member)) (step valid (all label List.mem_cons_self) taken) ran

def AllowedRun (allowed : S → L → Prop) (apply : L → S → Option S) : List L → S → Prop
  | [], _ => True
  | label :: rest, state =>
    allowed state label ∧ ∀ next, apply label state = some next → AllowedRun allowed apply rest next

instance AllowedRun.decidable {allowed : S → L → Prop} {apply : L → S → Option S}
    [∀ state label, Decidable (allowed state label)] :
    ∀ (labels : List L) (state : S), Decidable (AllowedRun allowed apply labels state)
  | [], _ => isTrue trivial
  | label :: rest, state =>
    match taken : apply label state with
    | none => decidable_of_iff (allowed state label)
      ⟨fun permitted => ⟨permitted, fun next same => by rw [taken] at same; cases same⟩, And.left⟩
    | some next =>
      have : Decidable (AllowedRun allowed apply rest next) := AllowedRun.decidable rest next
      decidable_of_iff (allowed state label ∧ AllowedRun allowed apply rest next)
        ⟨fun both => ⟨both.1, fun next' same => by rw [taken] at same; cases same; exact both.2⟩,
          fun both => ⟨both.1, both.2 next taken⟩⟩

theorem allowedRun_of_forall (all : ∀ label ∈ labels, ∀ state, allowed state label) :
    ∀ state, AllowedRun allowed apply labels state := by
  induction labels with
  | nil => intro state; trivial
  | cons label rest ih =>
    intro state
    exact ⟨all label List.mem_cons_self state,
      fun next _ => ih (fun other member => all other (List.mem_cons_of_mem _ member)) next⟩

/-- Labels that are good in every state may be required to be so. -/
theorem AllowedRun.and_labels {good : L → Prop} :
    ∀ {state : S}, (∀ label ∈ labels, good label) → AllowedRun allowed apply labels state →
      AllowedRun (fun state label => good label ∧ allowed state label) apply labels state := by
  induction labels with
  | nil => intro state _ _; trivial
  | cons label rest ih =>
    intro state all permitted
    refine ⟨⟨all label List.mem_cons_self, permitted.1⟩, fun next taken => ?_⟩
    exact ih (fun other member => all other (List.mem_cons_of_mem _ member)) (permitted.2 next taken)

theorem runLabels_reach :
    ∀ {labels : List L} {state final : S},
    Reach start (fun state label next => allowed state label ∧ apply label state = some next) state →
    AllowedRun allowed apply labels state → runLabels apply labels state = some final →
    Reach start (fun state label next => allowed state label ∧ apply label state = some next) final := by
  intro labels
  induction labels with
  | nil =>
    intro state final reached _ ran
    cases ran
    exact reached
  | cons label rest ih =>
    intro state final reached permitted ran
    rw [runLabels_cons] at ran
    obtain ⟨next, taken, ran⟩ := Option.bind_eq_some_iff.mp ran
    exact ih (.step reached ⟨permitted.1, taken⟩) (permitted.2 next taken) ran

section Exists

variable {allowed : S → L → Prop} {apply : L → S → Option S} {start : S → Prop} {labels : List L} {state : S}

/-- An allowed list of labels that is taken reaches a state, of which this is read. -/
theorem exists_reach {β : Type _} {read : S → β} {seen : β} (starts : start state)
    (permitted : AllowedRun allowed apply labels state) (facts : (runLabels apply labels state).map read = some seen) :
    ∃ final, Reach start (fun state label next => allowed state label ∧ apply label state = some next) final ∧
      runLabels apply labels state = some final ∧ read final = seen := by
  obtain ⟨final, ran, reads⟩ := Option.map_eq_some_iff.mp facts
  exact ⟨final, runLabels_reach (.start starts) permitted ran, ran, reads⟩

theorem exists_reach_of_bind {β : Type _} {read : S → Option β} {seen : β} (starts : start state)
    (permitted : AllowedRun allowed apply labels state) (facts : (runLabels apply labels state).bind read = some seen) :
    ∃ final, Reach start (fun state label next => allowed state label ∧ apply label state = some next) final ∧
      runLabels apply labels state = some final ∧ read final = some seen := by
  obtain ⟨final, ran, reads⟩ := Option.bind_eq_some_iff.mp facts
  exact ⟨final, runLabels_reach (.start starts) permitted ran, ran, reads⟩

end Exists

/-- If every step keeps a good state good exactly when it is allowed, and none mends a bad
state, a run ends in a good state exactly when all its steps are allowed. -/
theorem runLabels_iff {Inv Good : S → Prop}
    (step : ∀ {state : S} {label : L} {next : S}, Inv state → apply label state = some next →
      Inv next ∧ (Good next ↔ Good state ∧ allowed state label)) :
    ∀ {labels : List L} {state final : S}, Inv state → runLabels apply labels state = some final →
      (Good final ↔ Good state ∧ AllowedRun allowed apply labels state) := by
  intro labels
  induction labels with
  | nil =>
    intro state final _ ran
    cases ran
    exact (and_iff_left trivial).symm
  | cons label rest ih =>
    intro state final valid ran
    rw [runLabels_cons] at ran
    obtain ⟨next, taken, ran⟩ := Option.bind_eq_some_iff.mp ran
    obtain ⟨valid', good⟩ := step valid taken
    rw [ih valid' ran, good, AllowedRun, and_assoc]
    simp [taken]

end Collections
