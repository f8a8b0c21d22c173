import Mathlib.Data.String.Basic
import Mathlib.Logic.Function.Basic
import Veloce.Collections.Run
import Veloce.Ha.Peer

/-! Which leader yields. -/

namespace Veloce

open Collections

def announcedId (hostname : Option String) : String := hostname.getD "unknown"

def comparedId (hostname : Option String) : String := hostname.getD ""

structure Seat where
  hostname : Option String
  state : GlobalState

namespace Seat

def announced (seat : Seat) : String := announcedId seat.hostname

def leads (seat : Seat) : Bool := seat.state.role = .leader

/-- A heartbeat of the leader `leaderId` from the peer `peerId`. -/
def receive (seat : Seat) (peerId leaderId : String) : Seat :=
  { seat with state := (seat.state.receiveHeartbeat (comparedId seat.hostname) peerId leaderId).1 }

def promote (seat : Seat) : Seat := { seat with state := seat.state.promote.1 }

end Seat

/-- A heartbeat on its way. -/
structure Beat (K : Type) where
  sender : K
  target : K
  leaderId : String

/-- Any set of controllers and the heartbeats between them. -/
structure Election (K : Type) where
  seats : K → Seat
  wire : List (Beat K) := []

inductive ElectionEvent (K : Type) where
  | beat (sender target : K)
  | deliver (index : Nat)
  | lose (index : Nat)
  | promote (key : K)

namespace Election

variable {K : Type} [DecidableEq K]

def withSeat (election : Election K) (key : K) (seat : Seat) : Election K :=
  { election with seats := Function.update election.seats key seat }

def process (election : Election K) (beat : Beat K) : Election K :=
  election.withSeat beat.target
    ((election.seats beat.target).receive (election.seats beat.sender).announced beat.leaderId)

/-- One step; `none` if it cannot happen. -/
def apply (event : ElectionEvent K) (election : Election K) : Option (Election K) :=
  match event with
  | .beat sender target =>
    if (election.seats sender).leads then
      some { election with wire := election.wire ++ [⟨sender, target, (election.seats sender).announced⟩] }
    else none
  | .deliver index =>
    election.wire[index]?.map fun beat => { election.process beat with wire := election.wire.eraseIdx index }
  | .lose index => some { election with wire := election.wire.eraseIdx index }
  | .promote key =>
    if (election.seats key).leads then none else some (election.withSeat key (election.seats key).promote)

/-- The announced ids are distinct and nothing is on its way; any of the controllers
may be leaders. -/
structure Start (election : Election K) : Prop where
  distinct : Function.Injective fun key => (election.seats key).announced
  wire : election.wire = []

abbrev Run : Election K → Prop :=
  Reach Start fun election event next => election.apply event = some next

/-- The leader with the lowest announced id. -/
structure Lowest (election : Election K) (key : K) : Prop where
  leads : (election.seats key).leads = true
  lowest : ∀ other, (election.seats other).leads = true →
    (election.seats key).announced ≤ (election.seats other).announced

end Election

theorem GlobalState.receiveHeartbeat_leads (state : GlobalState) (myId peerId leaderId : String) :
    (state.receiveHeartbeat myId peerId leaderId).1.role = .leader ↔ state.role = .leader ∧ ¬ leaderId < myId := by
  unfold receiveHeartbeat
  by_cases own : leaderId = myId
  · rw [if_pos own, own]
    exact ⟨fun lead => ⟨lead, lt_irrefl _⟩, And.left⟩
  · rw [if_neg own]
    cases role : state.role with
    | leader =>
      by_cases below : leaderId < myId
      · simp only [if_pos below]
        exact ⟨ControllerRole.noConfusion, fun stays => absurd below stays.2⟩
      · simp [below]
    | follower =>
      simp only [retainDirect]
      exact ⟨ControllerRole.noConfusion, fun stays => absurd stays.1 ControllerRole.noConfusion⟩

/-- A heartbeat ends the leadership of a controller exactly when its `HOSTNAME` is set
and above the id of the heartbeat. -/
theorem Seat.receive_leads (seat : Seat) (peerId leaderId : String) :
    (seat.receive peerId leaderId).leads = true ↔
      seat.leads = true ∧ ∀ hostname, seat.hostname = some hostname → ¬ leaderId < hostname := by
  simp only [leads, receive, GlobalState.receiveHeartbeat_leads, decide_eq_true_eq, and_congr_right_iff]
  intro _
  cases seat.hostname with
  | none =>
    refine ⟨fun _ hostname named => (Option.some_ne_none _ named.symm).elim, fun _ below => ?_⟩
    exact List.not_lt_nil _ (String.lt_iff_toList_lt.mp below)
  | some hostname => exact ⟨fun above _ named => Option.some.inj named ▸ above, fun above => above hostname rfl⟩

namespace Election

variable {K : Type} [DecidableEq K] {election next : Election K}

theorem process_announced (election : Election K) (beat : Beat K) (key : K) :
    ((election.process beat).seats key).announced = (election.seats key).announced := by
  simp only [process, withSeat, Function.update_apply]
  split
  · rename_i same
    rw [same]
    rfl
  · rfl

/-- For every heartbeat on its way there is a leader with an id that is no higher. -/
def Backed (election : Election K) : Prop :=
  ∀ beat ∈ election.wire, ∃ key, (election.seats key).leads = true ∧ (election.seats key).announced ≤ beat.leaderId

theorem Backed.process (backed : election.Backed) {beat : Beat K} (sent : beat ∈ election.wire) {key : K}
    (lead : (election.seats key).leads = true) : ∃ other, ((election.process beat).seats other).leads = true ∧
      ((election.process beat).seats other).announced ≤ (election.seats key).announced := by
  simp only [process_announced]
  have untouched {other : K} (elsewhere : other ≠ beat.target) :
      (election.process beat).seats other = election.seats other := Function.update_of_ne elsewhere _ _
  have touched : (election.process beat).seats beat.target =
      (election.seats beat.target).receive (election.seats beat.sender).announced beat.leaderId :=
    Function.update_self _ _ _
  by_cases target : key = beat.target
  · subst target
    by_cases stays : ((election.process beat).seats beat.target).leads = true
    · exact ⟨beat.target, stays, le_refl _⟩
    · rw [touched, Seat.receive_leads] at stays
      obtain ⟨hostname, named, below⟩ : ∃ hostname, (election.seats beat.target).hostname = some hostname ∧
          beat.leaderId < hostname := by
        by_contra none
        exact stays ⟨lead, fun hostname named below => none ⟨hostname, named, below⟩⟩
      have own : (election.seats beat.target).announced = hostname := by
        rw [Seat.announced, named]
        rfl
      obtain ⟨other, leads, lower⟩ := backed beat sent
      have lower : (election.seats other).announced < (election.seats beat.target).announced :=
        own ▸ lt_of_le_of_lt lower below
      have elsewhere : other ≠ beat.target := by
        rintro rfl
        exact lt_irrefl _ lower
      exact ⟨other, untouched elsewhere ▸ leads, le_of_lt lower⟩
  · exact ⟨key, untouched target ▸ lead, le_refl _⟩

theorem Backed.apply (backed : election.Backed) {event : ElectionEvent K}
    (taken : election.apply event = some next) : next.Backed := by
  cases event with
  | beat sender target =>
    obtain ⟨lead, same⟩ := Option.ite_none_right_eq_some.mp taken
    cases same
    intro beat member
    rcases List.mem_append.mp member with old | new
    · exact backed beat old
    · cases List.mem_singleton.mp new
      exact ⟨sender, lead, le_refl _⟩
  | deliver index =>
    obtain ⟨beat, found, same⟩ := Option.map_eq_some_iff.mp taken
    subst same
    intro other member
    obtain ⟨key, lead, below⟩ := backed other ((List.eraseIdx_sublist _ _).subset member)
    obtain ⟨witness, leads, lower⟩ := backed.process (List.mem_of_getElem? found) lead
    exact ⟨witness, leads, le_trans lower below⟩
  | lose index =>
    cases taken
    intro beat member
    exact backed beat ((List.eraseIdx_sublist _ _).subset member)
  | promote promoted =>
    simp only [Election.apply] at taken
    split at taken
    · cases taken
    · rename_i follows
      cases taken
      intro beat member
      obtain ⟨key, lead, below⟩ := backed beat member
      have different : key ≠ promoted := by
        rintro rfl
        exact follows lead
      refine ⟨key, ?_, ?_⟩ <;> simp only [withSeat, Function.update_of_ne different]
      · exact lead
      · exact below

theorem apply_announced {event : ElectionEvent K} (taken : election.apply event = some next) (key : K) :
    (next.seats key).announced = (election.seats key).announced := by
  cases event with
  | beat sender target =>
    simp only [Election.apply] at taken
    split at taken <;> cases taken
    rfl
  | deliver index =>
    obtain ⟨beat, found, same⟩ := Option.map_eq_some_iff.mp taken
    subst same
    exact process_announced election beat key
  | lose index =>
    cases taken
    rfl
  | promote promoted =>
    simp only [Election.apply] at taken
    split at taken <;> cases taken
    simp only [withSeat, Function.update_apply]
    split
    · rename_i same
      rw [same]
      rfl
    · rfl

/-- In every run the leader with the lowest announced id leads on whatever heartbeat
reaches it, and every other leader yields to its heartbeats if and only if these other
leaders have their `HOSTNAME` set. -/
theorem leader_conflict_resolves_iff (reached : Run election) {key : K} (lowest : election.Lowest key) :
    ((∀ beat ∈ election.wire, beat.target = key → ((election.process beat).seats key).leads = true) ∧
      ∀ other, other ≠ key → (election.seats other).leads = true →
        ((election.seats other).receive (election.seats key).announced (election.seats key).announced).leads = false) ↔
    ∀ other, other ≠ key → (election.seats other).leads = true → (election.seats other).hostname ≠ none := by
  have valid : election.Backed ∧ Function.Injective fun key => (election.seats key).announced := by
    refine reached.invariant (fun election => election.Backed ∧
      Function.Injective fun key => (election.seats key).announced) ?_ ?_
    · rintro election ⟨distinct, wire⟩
      refine ⟨fun beat member => ?_, distinct⟩
      rw [wire] at member
      cases member
    · rintro election event next ⟨backed, distinct⟩ taken
      refine ⟨backed.apply taken, ?_⟩
      simpa only [apply_announced taken] using distinct
  obtain ⟨backed, distinct⟩ := valid
  have safe (beat : Beat K) (sent : beat ∈ election.wire) (target : beat.target = key) :
      ((election.process beat).seats key).leads = true := by
    obtain ⟨other, leads, below⟩ := backed beat sent
    have least := le_trans (lowest.lowest other leads) below
    subst target
    simp only [Election.process, withSeat, Function.update_self, Seat.receive_leads]
    refine ⟨lowest.leads, fun hostname named under => ?_⟩
    rw [Seat.announced, named] at least
    exact absurd under (not_lt.mpr least)
  constructor
  · rintro ⟨_, yields⟩ other different leads unset
    have gone := yields other different leads
    have stays := (Seat.receive_leads (election.seats other) (election.seats key).announced
      (election.seats key).announced).mpr ⟨leads, fun hostname named => by rw [unset] at named; cases named⟩
    rw [gone] at stays
    cases stays
  · intro named
    refine ⟨safe, fun other different leads => ?_⟩
    obtain ⟨hostname, set⟩ := Option.ne_none_iff_exists'.mp (named other different leads)
    have own : (election.seats other).announced = hostname := by
      rw [Seat.announced, set]
      rfl
    have below : (election.seats key).announced < hostname := by
      rw [← own]
      exact lt_of_le_of_ne (lowest.lowest other leads) fun same => different (distinct same.symm)
    rw [Bool.eq_false_iff, ne_eq, Seat.receive_leads]
    exact fun stays => stays.2 hostname set below

/-- Two leaders, the first of which is called `a`. -/
def splitBrain (hostname : Option String) : Election Bool where
  seats first := { hostname := if first then some "a" else hostname, state := { role := .leader } }

theorem splitBrain_run {hostname : Option String} (different : announcedId hostname ≠ "a") :
    Run (splitBrain hostname) := by
  refine .start ⟨?_, rfl⟩
  rintro (_ | _) (_ | _) same
  · rfl
  · exact absurd same different
  · exact absurd same.symm different
  · rfl

theorem splitBrain_lowest {hostname : Option String} (above : "a" ≤ announcedId hostname) :
    (splitBrain hostname).Lowest true := by
  refine ⟨rfl, ?_⟩
  rintro (_ | _) _
  · exact above
  · exact le_refl "a"

/-- The leader `b` yields to the leader `a`. -/
theorem leader_conflict_resolves_named : (splitBrain (some "b")).Lowest true ∧
    (((splitBrain (some "b")).seats false).receive "a" "a").leads = false := by
  have lowest : (splitBrain (some "b")).Lowest true := splitBrain_lowest (by decide)
  refine ⟨lowest, ((leader_conflict_resolves_iff (splitBrain_run (by decide)) lowest).mpr ?_).2 false (by decide) rfl⟩
  rintro (_ | _) _ _ unset <;> cases unset

/-- A leader without a `HOSTNAME` announces `unknown` and never yields to `a`. -/
theorem unnamed_leader_never_yields : Run (splitBrain none) ∧ (splitBrain none).Lowest true ∧
    ((splitBrain none).seats false).announced = "unknown" ∧ ((splitBrain none).seats false).leads = true ∧
    (((splitBrain none).seats false).receive "a" "a").leads = true :=
  ⟨splitBrain_run (by decide), splitBrain_lowest (by decide), rfl, rfl, by decide⟩

end Election

end Veloce
