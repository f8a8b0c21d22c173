import Veloce.Collections.Pieces
import Veloce.Controller.SqlStore
import Veloce.Scheduler.Dependencies

/-! The registry of components: one row for each component, with the hash of its token and its
roles as one text. -/

namespace Veloce

open Collections

inductive ComponentType where
  | worker
  | client
  | peer
deriving DecidableEq, Repr

def ComponentType.toText : ComponentType → String
  | .worker => "worker"
  | .client => "client"
  | .peer => "peer"

def ComponentType.fromStr (text : String) : Option ComponentType :=
  match String.ofList (text.toList.map lowerAscii) with
  | "worker" => some .worker
  | "client" => some .client
  | "peer" => some .peer
  | _ => none

structure RegisteredComponent where
  componentId : String
  componentType : ComponentType
  roles : List String
  createdAt : Nat
  lastSeenAt : Option Nat
  revoked : Bool
deriving DecidableEq, Repr

structure ComponentRow where
  componentType : String
  tokenHash : String
  roles : String
  createdAt : Int
  lastSeenAt : Option Int
  revoked : Int
deriving DecidableEq, Repr

abbrev ComponentRegistry := HashMap String ComponentRow

def joinRoles (roles : List String) : String := String.intercalate "," roles

def splitRoles (text : String) : List String :=
  if text = "" then [] else (text.toList.splitOn ',').map String.ofList

/-- A call to the registry, with the token that it generates and the time. -/
inductive RegistryCall where
  | issueToken (componentId : String) (componentType : ComponentType) (roles : List String) (token : String) (now : Nat)
  | validate (componentId : String) (componentType : ComponentType) (presented : String) (now : Nat)
  | revoke (componentId : String)
  | rotate (componentId token : String) (now : Nat)

namespace ComponentRegistry

section Calls

variable (hashToken : String → String)

/-- The upsert leaves `component_type` out of what it updates. -/
def issueToken (registry : ComponentRegistry) (componentId : String) (componentType : ComponentType)
    (roles : List String) (token : String) (now : Nat) : ComponentRegistry :=
  match registry.get? componentId with
  | none => registry.insert componentId {
      componentType := componentType.toText
      tokenHash := hashToken token
      roles := joinRoles roles
      createdAt := asI64 now
      lastSeenAt := none
      revoked := 0 }
  | some row => registry.insert componentId { row with
      tokenHash := hashToken token
      roles := joinRoles roles
      createdAt := asI64 now
      lastSeenAt := none
      revoked := 0 }

/-- The answer of `validate`, from the row as it was found. -/
def check (registry : ComponentRegistry) (componentId : String) (componentType : ComponentType) (presented : String) :
    Option RegisteredComponent :=
  match registry.get? componentId with
  | none => none
  | some row =>
    match ComponentType.fromStr row.componentType with
    | none => none
    | some rowType =>
      if rowType ≠ componentType then none
      else if row.revoked ≠ 0 then none
      else if row.tokenHash = hashToken presented then some {
        componentId := componentId
        componentType := componentType
        roles := splitRoles row.roles
        createdAt := asU64 row.createdAt
        lastSeenAt := row.lastSeenAt.map asU64
        revoked := false }
      else none

/-- A token that is accepted also updates the time its component was seen at. -/
def validate (registry : ComponentRegistry) (componentId : String) (componentType : ComponentType) (presented : String)
    (now : Nat) : Option RegisteredComponent × ComponentRegistry :=
  match registry.check hashToken componentId componentType presented with
  | none => (none, registry)
  | some component => (some component,
      registry.modify componentId fun row => { row with lastSeenAt := some (asI64 now) })

/-- An error for a component that has no row. -/
def revoke (registry : ComponentRegistry) (componentId : String) : Except String ComponentRegistry :=
  match registry.get? componentId with
  | none => .error "Component not found in registry"
  | some row => .ok (registry.insert componentId { row with revoked := 1 })

/-- Issue again what the columns of the row say. -/
def rotate (registry : ComponentRegistry) (componentId token : String) (now : Nat) : Except String ComponentRegistry :=
  match registry.get? componentId with
  | none => .error "Component not found in registry"
  | some row =>
    match ComponentType.fromStr row.componentType with
    | none => .error s!"Invalid component type: {row.componentType}"
    | some componentType =>
      .ok (registry.issueToken hashToken componentId componentType (splitRoles row.roles) token now)

def apply (registry : ComponentRegistry) : RegistryCall → ComponentRegistry
  | .issueToken componentId componentType roles token now =>
    registry.issueToken hashToken componentId componentType roles token now
  | .validate componentId componentType presented now =>
    (registry.validate hashToken componentId componentType presented now).2
  | .revoke componentId => ((registry.revoke componentId).toOption).getD registry
  | .rotate componentId token now => ((registry.rotate hashToken componentId token now).toOption).getD registry

def run (calls : List RegistryCall) : ComponentRegistry := calls.foldl (apply hashToken) ∅

end Calls

end ComponentRegistry

/-- What a component may present: the token of its last issue or rotation, with the type
and the roles of its last issue, unless it was revoked after that. -/
structure Standing where
  token : String
  componentType : ComponentType
  roles : List String
  revoked : Bool
  /-- The type of its first issue. -/
  firstType : ComponentType
deriving DecidableEq

def RegistryCall.affect (componentId : String) (standing : Option Standing) : RegistryCall → Option Standing
  | .issueToken other componentType roles token _ =>
    if other = componentId then
      some ⟨token, componentType, roles, false, (standing.map Standing.firstType).getD componentType⟩
    else standing
  | .validate .. => standing
  | .revoke other =>
    if other = componentId then standing.map fun last => { last with revoked := true } else standing
  | .rotate other token _ =>
    if other = componentId then standing.map fun last => { last with token := token, revoked := false } else standing

def standing (calls : List RegistryCall) (componentId : String) : Option Standing :=
  calls.foldl (fun last call => call.affect componentId last) none

/-- The roles that the last issue grants to whoever presents this. -/
def granted (last : Option Standing) (componentType : ComponentType) (presented : String) : Option (List String) :=
  last.bind fun standing =>
    if standing.revoked = false ∧ componentType = standing.componentType ∧ presented = standing.token then
      some standing.roles
    else none

/-- Roles that are read back from their text as they were written. -/
def Joinable (roles : List String) : Prop := roles ≠ [""] ∧ ∀ role ∈ roles, ',' ∉ role.toList

instance (roles : List String) : Decidable (Joinable roles) := inferInstanceAs (Decidable (_ ∧ _))

section Roles

variable {roles : List String}

theorem map_toList_ofList (lists : List (List Char)) : (lists.map String.ofList).map String.toList = lists := by
  simp [List.map_map, Function.comp_def]

theorem map_ofList_toList (texts : List String) : (texts.map String.toList).map String.ofList = texts := by
  simp [List.map_map, Function.comp_def]

theorem toList_joinRoles (roles : List String) : (joinRoles roles).toList = [','].intercalate (roles.map String.toList) := by
  rw [joinRoles, String.toList_intercalate]
  rfl

theorem joinRoles_eq_empty : joinRoles roles = "" ↔ roles = [] ∨ roles = [""] := by
  rw [← String.toList_inj, toList_joinRoles]
  cases roles with
  | nil => simp
  | cons first rest =>
    cases rest with
    | nil => simp
    | cons second rest => simp

/-- Only a comma, or a single empty role, is lost. -/
theorem splitRoles_joinRoles_iff : splitRoles (joinRoles roles) = roles ↔ Joinable roles := by
  unfold splitRoles
  split
  · rename_i empty
    rcases joinRoles_eq_empty.mp empty with none | blank
    · simp [none, Joinable]
    · simp [blank, Joinable]
  · rename_i filled
    rw [joinRoles_eq_empty, not_or] at filled
    have chars : (((joinRoles roles).toList.splitOn ',').map String.ofList = roles) ↔
        ([','].intercalate (roles.map String.toList)).splitOn ',' = roles.map String.toList := by
      rw [toList_joinRoles]
      constructor
      · intro back
        have lists := congrArg (List.map String.toList) back
        rwa [map_toList_ofList] at lists
      · intro back
        rw [back, map_ofList_toList]
    rw [chars, splitOn_intercalate_iff, List.forall_mem_map]
    simp [Joinable, filled]

theorem joinRoles_splitRoles (text : String) : joinRoles (splitRoles text) = text := by
  unfold splitRoles
  split
  · rename_i empty
    rw [empty]
    rfl
  · rw [← String.toList_inj, toList_joinRoles, map_toList_ofList]
    exact List.intercalate_splitOn ','

end Roles

/-- The row of a component records its standing, except that it has the first type. -/
structure RowRecords (hashToken : String → String) (row : ComponentRow) (last : Standing) : Prop where
  componentType : row.componentType = last.firstType.toText
  tokenHash : row.tokenHash = hashToken last.token
  roles : row.roles = joinRoles last.roles
  revoked : row.revoked ≠ 0 ↔ last.revoked = true

inductive Recorded (hashToken : String → String) : Option ComponentRow → Option Standing → Prop where
  | absent : Recorded hashToken none none
  | present {row : ComponentRow} {last : Standing} (records : RowRecords hashToken row last) :
      Recorded hashToken (some row) (some last)

theorem fromStr_toText (componentType : ComponentType) :
    ComponentType.fromStr componentType.toText = some componentType := by
  cases componentType <;> decide

section Runs

variable {hashToken : String → String} {registry : ComponentRegistry} {componentId : String} {last : Option Standing}

/-- An issue with the type that the row has, or with any type if there is no row. -/
theorem issueToken_recorded (recorded : Recorded hashToken (registry.get? componentId) last)
    (componentType : ComponentType) (roles : List String) (token : String) (now : Nat) :
    Recorded hashToken ((registry.issueToken hashToken componentId componentType roles token now).get? componentId)
      (some ⟨token, componentType, roles, false, (last.map Standing.firstType).getD componentType⟩) := by
  unfold ComponentRegistry.issueToken
  generalize registry.get? componentId = found at recorded
  cases recorded with
  | absent =>
    rw [HashMap.get?_insert_self]
    exact .present ⟨rfl, rfl, rfl, by simp⟩
  | present records =>
    rw [HashMap.get?_insert_self]
    exact .present ⟨records.componentType, rfl, rfl, by simp⟩

theorem get?_issueToken_other {other : String} (different : other ≠ componentId) (componentType : ComponentType)
    (roles : List String) (token : String) (now : Nat) :
    (registry.issueToken hashToken componentId componentType roles token now).get? other = registry.get? other := by
  unfold ComponentRegistry.issueToken
  split <;> rw [HashMap.get?_insert, if_neg different]

theorem validate_recorded (recorded : Recorded hashToken (registry.get? componentId) last) (other : String)
    (componentType : ComponentType) (presented : String) (now : Nat) :
    Recorded hashToken ((registry.validate hashToken other componentType presented now).2.get? componentId) last := by
  unfold ComponentRegistry.validate
  split
  · exact recorded
  · rw [HashMap.get?_modify]
    split
    · rename_i same
      rw [same] at recorded
      generalize registry.get? other = found at recorded
      cases recorded with
      | absent => exact .absent
      | present records => exact .present ⟨records.componentType, records.tokenHash, records.roles, records.revoked⟩
    · exact recorded

theorem revoke_recorded (recorded : Recorded hashToken (registry.get? componentId) last) :
    Recorded hashToken ((((registry.revoke componentId).toOption).getD registry).get? componentId)
      (last.map fun last => { last with revoked := true }) := by
  unfold ComponentRegistry.revoke
  generalize found : registry.get? componentId = row at recorded
  cases recorded with
  | absent =>
    simp only [Except.toOption, Option.getD_none, found]
    exact .absent
  | present records =>
    simp only [Except.toOption, Option.getD_some, HashMap.get?_insert_self]
    exact .present ⟨records.componentType, records.tokenHash, records.roles, by simp⟩

/-- A rotation reads the roles from the row and writes the same text again. -/
theorem rotate_recorded (recorded : Recorded hashToken (registry.get? componentId) last) (token : String) (now : Nat) :
    Recorded hashToken ((((registry.rotate hashToken componentId token now).toOption).getD registry).get? componentId)
      (last.map fun last => { last with token := token, revoked := false }) := by
  unfold ComponentRegistry.rotate
  generalize found : registry.get? componentId = row at recorded
  cases recorded with
  | absent =>
    simp only [Except.toOption, Option.getD_none, found]
    exact .absent
  | present records =>
    rename_i row last
    have known : ComponentType.fromStr row.componentType = some last.firstType := by
      rw [records.componentType, fromStr_toText]
    simp only [known, Except.toOption, Option.getD_some, ComponentRegistry.issueToken, found,
      HashMap.get?_insert_self, joinRoles_splitRoles]
    exact .present ⟨records.componentType, rfl, records.roles, by simp⟩

theorem apply_recorded (recorded : Recorded hashToken (registry.get? componentId) last) (call : RegistryCall) :
    Recorded hashToken ((registry.apply hashToken call).get? componentId) (call.affect componentId last) := by
  cases call with
  | issueToken other componentType roles token now =>
    simp only [ComponentRegistry.apply, RegistryCall.affect]
    split
    · rename_i same
      subst same
      exact issueToken_recorded recorded componentType roles token now
    · rename_i different
      rw [get?_issueToken_other (Ne.symm different)]
      exact recorded
  | validate other componentType presented now =>
    exact validate_recorded recorded other componentType presented now
  | revoke other =>
    simp only [ComponentRegistry.apply, RegistryCall.affect]
    split
    · rename_i same
      subst same
      exact revoke_recorded recorded
    · rename_i different
      unfold ComponentRegistry.revoke
      split
      · exact recorded
      · simp only [Except.toOption, Option.getD_some, HashMap.get?_insert, if_neg (Ne.symm different)]
        exact recorded
  | rotate other token now =>
    simp only [ComponentRegistry.apply, RegistryCall.affect]
    split
    · rename_i same
      subst same
      exact rotate_recorded recorded token now
    · rename_i different
      unfold ComponentRegistry.rotate
      split
      · exact recorded
      · split
        · exact recorded
        · simp only [Except.toOption, Option.getD_some, get?_issueToken_other (Ne.symm different)]
          exact recorded

theorem run_recorded (calls : List RegistryCall) (componentId : String) :
    Recorded hashToken ((ComponentRegistry.run hashToken calls).get? componentId) (standing calls componentId) := by
  induction calls using List.reverseRecOn with
  | nil => exact .absent
  | append_singleton earlier call ih =>
    simp only [ComponentRegistry.run, standing, List.foldl_append, List.foldl_cons, List.foldl_nil]
    exact apply_recorded ih call

/-- What the registry answers: it compares the first type, and reads the roles back from
their text. -/
theorem check_roles (fresh : Function.Injective hashToken)
    (recorded : Recorded hashToken (registry.get? componentId) last) (componentType : ComponentType)
    (presented : String) : (registry.check hashToken componentId componentType presented).map RegisteredComponent.roles =
      last.bind fun last =>
        if last.revoked = false ∧ componentType = last.firstType ∧ presented = last.token then
          some (splitRoles (joinRoles last.roles))
        else none := by
  unfold ComponentRegistry.check
  generalize registry.get? componentId = found at recorded
  cases recorded with
  | absent => rfl
  | present records =>
    rename_i row last
    have known : ComponentType.fromStr row.componentType = some last.firstType := by
      rw [records.componentType, fromStr_toText]
    have active : row.revoked ≠ 0 ↔ ¬ last.revoked = false := by
      rw [Bool.not_eq_false]
      exact records.revoked
    simp only [known, records.tokenHash, fresh.eq_iff, records.roles, Option.bind_some, active, ne_eq, ite_not,
      eq_comm (a := last.firstType)]
    by_cases revoked : last.revoked = false
    · by_cases type : componentType = last.firstType
      · by_cases token : last.token = presented
        · simp [revoked, type, token]
        · simp [revoked, type, token, Ne.symm token]
      · simp [revoked, type]
    · simp [revoked]

end Runs

/-- A component can present its last token with the type and the roles of its last issue,
and nobody can present anything else, if and only if it is revoked, or the type is that
of its first issue and the roles have no comma and are not a single empty one. -/
theorem validate_follows_last_issue {hashToken : String → String} (fresh : Function.Injective hashToken)
    (calls : List RegistryCall) (componentId : String) :
    (∀ componentType presented now, ((ComponentRegistry.run hashToken calls).validate hashToken componentId componentType
        presented now).1.map RegisteredComponent.roles =
      granted (standing calls componentId) componentType presented) ↔
    ∀ last ∈ standing calls componentId, last.revoked = false →
      last.componentType = last.firstType ∧ Joinable last.roles := by
  have answer (componentType : ComponentType) (presented : String) (now : Nat) :
      ((ComponentRegistry.run hashToken calls).validate hashToken componentId componentType presented now).1 =
        (ComponentRegistry.run hashToken calls).check hashToken componentId componentType presented := by
    unfold ComponentRegistry.validate
    split
    · rename_i refused
      exact refused.symm
    · rename_i accepted
      exact accepted.symm
  simp only [answer, check_roles fresh (run_recorded calls componentId)]
  cases standing calls componentId with
  | none => simp [granted]
  | some last =>
    simp only [granted, Option.bind_some, Option.mem_some_iff, forall_eq']
    constructor
    · intro follows active
      have own := follows last.componentType last.token 0
      simp only [active, true_and, and_true, ↓reduceIte] at own
      split at own
      · rename_i type
        exact ⟨type, splitRoles_joinRoles_iff.mp (Option.some.inj own)⟩
      · cases own
    · intro keeps componentType presented now
      by_cases active : last.revoked = false
      · obtain ⟨type, joinable⟩ := keeps active
        rw [type, splitRoles_joinRoles_iff.mpr joinable]
      · simp [active]

section Sample

def firstToken : String := "veloce_tok_00000000000040008000000000000001_00000000000040008000000000000002"

def secondToken : String := "veloce_tok_00000000000040008000000000000003_00000000000040008000000000000004"

/-- SHA-256 in base64 on these two tokens; a digest has no colon. -/
def sampleHash (token : String) : String :=
  if token = firstToken then "rr8Z88eiF+nhC5z3d50uPINLy2CQ8LYsUL2l05VLEJw="
  else if token = secondToken then "n52aFKNLQPzKzADDJO9OsGzcct5oNMwg41AH6wKM6HE="
  else ":" ++ token

theorem sampleHash_injective : Function.Injective sampleHash := by
  have colon (digest token : String) (plain : digest.toList.head? ≠ some ':') : digest ≠ ":" ++ token := by
    rintro rfl
    simp at plain
  intro left right same
  unfold sampleHash at same
  split at same
  · rename_i first
    split at same
    · rename_i first'
      exact first.trans first'.symm
    · split at same
      · exact absurd same (by decide)
      · exact absurd same (colon _ right (by decide))
  · split at same
    · rename_i second
      split at same
      · exact absurd same (by decide)
      · split at same
        · rename_i second'
          exact second.trans second'.symm
        · exact absurd same (colon _ right (by decide))
    · split at same
      · exact absurd same.symm (colon _ left (by decide))
      · split at same
        · exact absurd same.symm (colon _ left (by decide))
        · exact (String.append_right_inj ":").mp same

theorem validate_follows_last_issue_rotated :
    standing [.issueToken "w1" .worker ["worker", "viewer"] firstToken 10, .rotate "w1" secondToken 20] "w1" =
      some ⟨secondToken, .worker, ["worker", "viewer"], false, .worker⟩ ∧
    ∀ componentType presented now, ((ComponentRegistry.run sampleHash
        [.issueToken "w1" .worker ["worker", "viewer"] firstToken 10, .rotate "w1" secondToken 20]).validate sampleHash
          "w1" componentType presented now).1.map RegisteredComponent.roles =
      granted (standing [.issueToken "w1" .worker ["worker", "viewer"] firstToken 10, .rotate "w1" secondToken 20] "w1")
        componentType presented := by
  refine ⟨by decide, (validate_follows_last_issue sampleHash_injective _ _).mpr fun last known _ => ?_⟩
  have same : some (⟨secondToken, .worker, ["worker", "viewer"], false, .worker⟩ : Standing) = some last := known
  cases same
  exact ⟨rfl, by decide⟩

/-- A component that is issued a token of another type cannot present it, and a role with
a comma comes back as two roles. -/
theorem validate_loses_last_issue :
    ((ComponentRegistry.run sampleHash [.issueToken "w1" .worker ["worker"] firstToken 10,
      .issueToken "w1" .client ["cli"] secondToken 20]).validate sampleHash "w1" .client secondToken 30).1 = none ∧
    granted (standing [.issueToken "w1" .worker ["worker"] firstToken 10,
      .issueToken "w1" .client ["cli"] secondToken 20] "w1") .client secondToken = some ["cli"] ∧
    ((ComponentRegistry.run sampleHash [.issueToken "w1" .worker ["a,b"] firstToken 10]).validate sampleHash "w1" .worker
      firstToken 30).1.map RegisteredComponent.roles = some ["a", "b"] ∧
    granted (standing [.issueToken "w1" .worker ["a,b"] firstToken 10] "w1") .worker firstToken = some ["a,b"] := by
  refine ⟨?_, ?_, ?_, ?_⟩
  · decide +kernel
  · decide +kernel
  · decide +kernel
  · decide +kernel

end Sample

end Veloce
