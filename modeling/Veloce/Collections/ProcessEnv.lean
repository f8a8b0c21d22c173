import Veloce.Collections.HashMap

/-! The environment of a child process. -/

namespace Collections

/-- A command that does not clear the environment of its parent. -/
structure Command where
  vars : HashMap String String := ∅

theorem HashMap.get?_extend {K V : Type} [DecidableEq K] (map : HashMap K V) (pairs : List (K × V)) (key : K) :
    (map.extend pairs).get? key = (((∅ : HashMap K V).extend pairs).get? key).or (map.get? key) := by
  by_cases present : ∃ value, (key, value) ∈ pairs
  · obtain ⟨value, member⟩ := present
    induction pairs using List.reverseRecOn with
    | nil => cases member
    | append_singleton front pair ih =>
      have last (map : HashMap K V) : map.extend (front ++ [pair]) = (map.extend front).insert pair.1 pair.2 :=
        List.foldl_concat ..
      rw [last, last, HashMap.get?_insert, HashMap.get?_insert]
      split
      · rfl
      · rename_i other
        have earlier : (key, value) ∈ front := by
          refine (List.mem_append.mp member).resolve_right fun last => other ?_
          rw [← List.mem_singleton.mp last]
        exact ih earlier
  · have absent : ∀ value, (key, value) ∉ pairs := fun value member => present ⟨value, member⟩
    rw [HashMap.get?_extend_of_notMem absent, HashMap.get?_extend_of_notMem absent, HashMap.get?_empty, Option.none_or]

theorem HashMap.get?_extend_toList {K V : Type} [DecidableEq K] (map upper : HashMap K V) (key : K) :
    (map.extend upper.toList).get? key = (upper.get? key).or (map.get? key) := by
  rw [HashMap.get?_extend]
  congr 1
  cases found : upper.get? key with
  | none => exact HashMap.get?_extend_of_notMem fun value member => by rw [HashMap.mem_toList.mp member] at found; cases found
  | some value =>
    obtain ⟨last, member, there⟩ := HashMap.exists_get?_extend (∅ : HashMap K V) (HashMap.mem_toList.mpr found)
    rw [there, ← HashMap.mem_toList.mp member, found]

namespace Command

def env (command : Command) (name value : String) : Command := ⟨command.vars.insert name value⟩

def envs (command : Command) (vars : List (String × String)) : Command := ⟨command.vars.extend vars⟩

/-- What a child of a process with these variables gets. -/
def childEnv (command : Command) (parent : List (String × String)) : HashMap String String :=
  ((∅ : HashMap String String).extend parent).extend command.vars.toList

variable {command : Command} {parent vars : List (String × String)} {name value name' value' : String}

def Sets (command : Command) (name : String) : Prop := ∃ value, command.vars.get? name = some value

theorem sets_envs : (command.envs vars).Sets name ↔ (∃ value, (name, value) ∈ vars) ∨ command.Sets name := by
  constructor
  · rintro ⟨value, found⟩
    rcases HashMap.get?_extend_cases found with member | ⟨_, found⟩
    · exact .inl ⟨value, member⟩
    · exact .inr ⟨value, found⟩
  · intro set
    by_cases present : ∃ value, (name, value) ∈ vars
    · obtain ⟨value, member⟩ := present
      obtain ⟨last, _, found⟩ := HashMap.exists_get?_extend command.vars member
      exact ⟨last, found⟩
    · obtain ⟨value, found⟩ := set.resolve_left present
      exact ⟨value, (HashMap.get?_extend_of_notMem fun value member => present ⟨value, member⟩).trans found⟩

theorem sets_layers (layers : List (List (String × String))) : (layers.foldl envs command).Sets name ↔
    (∃ layer ∈ layers, ∃ value, (name, value) ∈ layer) ∨ command.Sets name := by
  induction layers generalizing command with
  | nil => simp
  | cons layer rest ih =>
    rw [List.foldl_cons, ih, sets_envs]
    simp only [List.mem_cons, exists_eq_or_imp]
    rw [or_assoc, or_left_comm]

theorem vars_layers {layers : List (List (String × String))} (found : (layers.foldl envs command).vars.get? name = some value) :
    (∃ layer ∈ layers, (name, value) ∈ layer) ∨ command.vars.get? name = some value := by
  induction layers generalizing command with
  | nil => exact .inr found
  | cons layer rest ih =>
    rcases ih found with ⟨later, member, inside⟩ | earlier
    · exact .inl ⟨later, List.mem_cons_of_mem _ member, inside⟩
    · rcases HashMap.get?_extend_cases earlier with inside | ⟨_, found⟩
      · exact .inl ⟨layer, List.mem_cons_self, inside⟩
      · exact .inr found

/-- A variable of the child was set on the command, or is the parent's and was not set. -/
theorem childEnv_cases (found : (command.childEnv parent).get? name = some value) :
    command.vars.get? name = some value ∨ ¬ command.Sets name ∧ (name, value) ∈ parent := by
  rcases HashMap.get?_extend_cases found with member | ⟨absent, found⟩
  · exact .inl (HashMap.mem_toList.mp member)
  · refine .inr ⟨fun ⟨value, found⟩ => absent value (HashMap.mem_toList.mpr found), ?_⟩
    rcases HashMap.get?_extend_cases found with member | ⟨_, found⟩
    · exact member
    · cases found

theorem get?_childEnv : (command.childEnv parent).get? name =
    (command.vars.get? name).or (((∅ : HashMap String String).extend parent).get? name) :=
  HashMap.get?_extend_toList _ _ _

theorem childEnv_of_set (set : command.vars.get? name = some value) : (command.childEnv parent).get? name = some value := by
  obtain ⟨last, member, found⟩ := HashMap.exists_get?_extend ((∅ : HashMap String String).extend parent)
    (HashMap.mem_toList.mpr set)
  rw [childEnv, found, ← HashMap.mem_toList.mp member, set]

theorem childEnv_of_parent (inherited : (name, value) ∈ parent) (unset : ¬ command.Sets name) :
    ∃ last, (command.childEnv parent).get? name = some last := by
  obtain ⟨last, _, found⟩ := HashMap.exists_get?_extend (∅ : HashMap String String) inherited
  refine ⟨last, (HashMap.get?_extend_of_notMem fun value member => unset ⟨value, ?_⟩).trans found⟩
  exact HashMap.mem_toList.mp member

end Command

end Collections
