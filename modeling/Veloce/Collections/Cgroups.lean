import Mathlib.Data.List.Infix
import Veloce.Collections.HashMap

/-! A hierarchy of control groups. -/

namespace Collections

/-- The groups there are, with the program attached to each, and the group of every process. -/
structure Cgroups (Name Pid Program : Type) [DecidableEq Name] [DecidableEq Pid] where
  programs : HashMap (List Name) (Option Program)
  placed : HashMap Pid (List Name)
  closed : ∀ name path, programs.contains (name :: path) = true → programs.contains path = true
  inside : ∀ pid path, placed.get? pid = some path → programs.contains path = true

namespace Cgroups

variable {Name Pid Program : Type} [DecidableEq Name] [DecidableEq Pid]

def contains (groups : Cgroups Name Pid Program) (path : List Name) : Bool := groups.programs.contains path

/-- A group is kept by its processes and by the groups right below it. -/
def busy (groups : Cgroups Name Pid Program) (path : List Name) : Bool :=
  groups.placed.values.any (· = path) || groups.programs.keys.any fun other => decide (other ≠ [] ∧ other.tail = path)

/-- The programs that bind the processes of a group. -/
def effective (groups : Cgroups Name Pid Program) (path : List Name) : List Program :=
  path.tails.filterMap fun above => (groups.programs.get? above).join

def root : Cgroups Name Pid Program where
  programs := (∅ : HashMap (List Name) (Option Program)).insert [] none
  placed := ∅
  closed := by
    intro name path present
    rw [HashMap.contains_iff, HashMap.get?_insert, if_neg (List.cons_ne_nil name path)] at present
    simp at present
  inside := by simp

section Operations

variable (groups : Cgroups Name Pid Program)

def mkdir (name : Name) (parent : List Name) : Option (Cgroups Name Pid Program) :=
  if present : groups.contains parent = true then
    if groups.contains (name :: parent) then none
    else some
      { groups with
        programs := groups.programs.insert (name :: parent) none
        closed := by
          intro other path made
          rw [HashMap.contains_iff, HashMap.get?_insert] at made
          split at made
          · rename_i same
            cases same
            exact HashMap.contains_insert present
          · exact HashMap.contains_insert (groups.closed other path (HashMap.contains_iff.mpr made))
        inside := fun pid path here => HashMap.contains_insert (groups.inside pid path here) }
  else none

theorem notBusy_placed {groups : Cgroups Name Pid Program} {path : List Name} (free : groups.busy path = false) {pid : Pid} :
    groups.placed.get? pid ≠ some path := by
  intro here
  rw [busy, Bool.or_eq_false_iff] at free
  exact List.any_eq_false.mp free.1 path (HashMap.mem_values.mpr ⟨pid, here⟩) (decide_eq_true rfl)

theorem notBusy_below {groups : Cgroups Name Pid Program} {path : List Name} (free : groups.busy path = false) (name : Name) :
    groups.contains (name :: path) = false := by
  rw [busy, Bool.or_eq_false_iff] at free
  refine Bool.eq_false_iff.mpr fun present => ?_
  have member := HashMap.mem_keys.mpr (HashMap.contains_iff.mp present)
  simpa using List.any_eq_false.mp free.2 _ member

def rmdir (path : List Name) : Option (Cgroups Name Pid Program) :=
  if free : groups.busy path = false then
    if groups.contains path then
      some
        { groups with
          programs := groups.programs.remove path
          closed := by
            intro name other present
            rw [HashMap.contains_iff, HashMap.get?_remove] at present
            split at present
            · obtain ⟨_, none⟩ := present
              cases none
            · have below := HashMap.contains_iff.mpr present
              rw [HashMap.contains_iff, HashMap.get?_remove, if_neg]
              · exact HashMap.contains_iff.mp (groups.closed name other below)
              · intro same
                subst same
                exact absurd below (Bool.eq_false_iff.mp (notBusy_below free name))
          inside := by
            intro pid other here
            rw [HashMap.contains_iff, HashMap.get?_remove, if_neg]
            · exact HashMap.contains_iff.mp (groups.inside pid other here)
            · intro same
              exact notBusy_placed free (same ▸ here) }
    else none
  else none

/-- Attached without flags, a program takes the place of the one before it. -/
def attach (path : List Name) (program : Program) : Option (Cgroups Name Pid Program) :=
  if here : groups.contains path = true then
    some
      { groups with
        programs := groups.programs.insert path (some program)
        closed := by
          intro name other present
          rw [HashMap.contains_iff, HashMap.get?_insert] at present
          split at present
          · rename_i same
            subst same
            exact HashMap.contains_insert (groups.closed name other here)
          · exact HashMap.contains_insert (groups.closed name other (HashMap.contains_iff.mpr present))
        inside := fun pid other here => HashMap.contains_insert (groups.inside pid other here) }
  else none

/-- A process is moved to a group, or starts in one. -/
def place (pid : Pid) (path : List Name) : Option (Cgroups Name Pid Program) :=
  if present : groups.contains path = true then
    some
      { groups with
        placed := groups.placed.insert pid path
        inside := by
          intro other path' here
          rw [HashMap.get?_insert] at here
          split at here
          · cases here
            exact present
          · exact groups.inside other path' here }
  else none

def leave (pid : Pid) : Cgroups Name Pid Program :=
  { groups with
    placed := groups.placed.remove pid
    inside := by
      intro other path here
      rw [HashMap.get?_remove] at here
      split at here
      · cases here
      · exact groups.inside other path here }

end Operations

section Lemmas

variable {groups groups' : Cgroups Name Pid Program} {path other : List Name} {name : Name} {pid : Pid} {program : Program}

theorem contains_of_suffix (above : other <:+ path) (present : groups.contains path = true) : groups.contains other = true := by
  obtain ⟨front, rfl⟩ := above
  induction front with
  | nil => exact present
  | cons head rest ih => exact ih (groups.closed head (rest ++ other) present)

theorem mem_effective (above : other <:+ path) (bound : groups.programs.get? other = some (some program)) :
    program ∈ groups.effective path :=
  List.mem_filterMap.mpr ⟨other, (List.mem_tails other path).mpr above, by rw [bound]; rfl⟩

theorem mkdir_cases (made : groups.mkdir name path = some groups') :
    groups.contains (name :: path) = false ∧ groups'.placed = groups.placed ∧
      groups'.programs = groups.programs.insert (name :: path) none := by
  unfold mkdir at made
  split at made
  · split at made
    · cases made
    · rename_i fresh
      cases made
      exact ⟨Bool.eq_false_iff.mpr fresh, rfl, rfl⟩
  · cases made

theorem rmdir_cases (removed : groups.rmdir path = some groups') :
    groups.busy path = false ∧ groups'.placed = groups.placed ∧ groups'.programs = groups.programs.remove path := by
  unfold rmdir at removed
  split at removed
  · rename_i free
    split at removed
    · cases removed
      exact ⟨free, rfl, rfl⟩
    · cases removed
  · cases removed

theorem attach_cases (attached : groups.attach path program = some groups') :
    groups'.placed = groups.placed ∧ groups'.programs = groups.programs.insert path (some program) := by
  unfold attach at attached
  split at attached
  · cases attached
    exact ⟨rfl, rfl⟩
  · cases attached

theorem place_cases (moved : groups.place pid path = some groups') :
    groups.contains path = true ∧ groups'.placed = groups.placed.insert pid path ∧ groups'.programs = groups.programs := by
  unfold place at moved
  split at moved
  · rename_i present
    cases moved
    exact ⟨present, rfl, rfl⟩
  · cases moved

end Lemmas

end Cgroups

end Collections
