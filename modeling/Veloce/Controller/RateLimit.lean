import Veloce.Handlers.Submission

/-! The rate limiter of the API: one bucket for each principal and class of requests, which is
emptied when the minute changes. -/

namespace Veloce

open Collections

inductive RequestClass where
  | read
  | mutation
  | admin
deriving DecidableEq

def RequestClass.number : RequestClass → Nat
  | .read => 0
  | .mutation => 1
  | .admin => 2

/-- `windowStart` is in minutes. -/
structure RateBucket where
  windowStart : Nat
  count : Nat

structure ApiRateLimiter where
  buckets : HashMap String RateBucket := ∅
  readLimit : Nat
  mutationLimit : Nat
  adminLimit : Nat

structure RateCall where
  principal : String
  method : String
  path : String
  caller : AuthenticatedPrincipal
  now : Nat

def classify (method path : String) (principal : AuthenticatedPrincipal) : RequestClass :=
  if beginsWith path "/api/v1/admin" || (principal.isAdminOrOperator && decide ("/admin".toList <:+: path.toList)) then .admin
  else if method ∈ ["POST", "PUT", "DELETE", "PATCH"] then .mutation
  else .read

def RateCall.class (call : RateCall) : RequestClass := classify call.method call.path call.caller

def RateCall.minute (call : RateCall) : Nat := call.now / 60

def bucketKey (principal : String) (cls : RequestClass) : String := principal ++ ":" ++ toString cls.number

namespace RateBucket

/-- The window that is not the current minute is replaced by it. -/
def advance (bucket : RateBucket) (minute : Nat) : RateBucket :=
  if bucket.windowStart ≠ minute then ⟨minute, 0⟩ else bucket

def fetchAdd (bucket : RateBucket) : RateBucket := { bucket with count := (bucket.count + 1) % 2 ^ 32 }

def fetchSub (bucket : RateBucket) : RateBucket := { bucket with count := (bucket.count + (2 ^ 32 - 1)) % 2 ^ 32 }

end RateBucket

namespace ApiRateLimiter

def new (read mutation admin : Nat) : ApiRateLimiter where
  readLimit := read
  mutationLimit := mutation
  adminLimit := admin

def limitFor (limiter : ApiRateLimiter) : RequestClass → Nat
  | .admin => limiter.adminLimit
  | .mutation => limiter.mutationLimit
  | .read => limiter.readLimit

/-- The error is the number of seconds after which to try again. -/
def check (limiter : ApiRateLimiter) (call : RateCall) : Except Nat Unit × ApiRateLimiter :=
  let limit := limiter.limitFor call.class
  if limit = 0 then (.ok (), limiter)
  else
    let key := bucketKey call.principal call.class
    let minute := call.now / 60
    let bucket := ((limiter.buckets.get? key).getD ⟨minute, 0⟩).advance minute
    let prev := bucket.count
    let bucket := bucket.fetchAdd
    if limit ≤ prev then
      (.error (60 - call.now % 60), { limiter with buckets := limiter.buckets.insert key bucket.fetchSub })
    else (.ok (), { limiter with buckets := limiter.buckets.insert key bucket })

def run (limiter : ApiRateLimiter) (calls : List RateCall) : ApiRateLimiter :=
  calls.foldl (fun limiter call => (limiter.check call).2) limiter

end ApiRateLimiter

def RateCall.IsOf (principal : String) (cls : RequestClass) (call : RateCall) : Prop :=
  call.principal = principal ∧ call.class = cls

instance (principal : String) (cls : RequestClass) : DecidablePred (RateCall.IsOf principal cls) :=
  fun _ => inferInstanceAs (Decidable (_ ∧ _))

def callsIn (principal : String) (cls : RequestClass) (minute : Nat) (calls : List RateCall) : Nat :=
  calls.countP fun call => call.IsOf principal cls ∧ call.minute = minute

section Keys

theorem RequestClass.number_inj {cls cls' : RequestClass} (same : cls.number = cls'.number) : cls = cls' := by
  cases cls <;> cases cls' <;> first | rfl | cases same

theorem RequestClass.toString_number (cls : RequestClass) : ∃ digit, toString cls.number = String.singleton digit := by
  cases cls
  · exact ⟨'0', rfl⟩
  · exact ⟨'1', rfl⟩
  · exact ⟨'2', rfl⟩

/-- Only calls of one principal in one class share a bucket, whatever the principal is called. -/
theorem bucketKey_inj {principal principal' : String} {cls cls' : RequestClass}
    (same : bucketKey principal cls = bucketKey principal' cls') : principal = principal' ∧ cls = cls' := by
  obtain ⟨digit, number⟩ := cls.toString_number
  obtain ⟨digit', number'⟩ := cls'.toString_number
  have chars := congrArg String.toList same
  rw [bucketKey, bucketKey, number, number', String.toList_append, String.toList_append, String.toList_append,
    String.toList_append, String.toList_singleton, String.toList_singleton] at chars
  obtain ⟨front, last⟩ := List.append_inj' chars rfl
  obtain ⟨name, -⟩ := List.append_inj' front rfl
  refine ⟨String.toList_injective name, RequestClass.number_inj (toString_inj.mp ?_)⟩
  rw [number, number', List.singleton_inj.mp last]

end Keys

section Buckets

variable {principal : String} {cls : RequestClass} {calls : List RateCall} {call : RateCall} {limiter : ApiRateLimiter}

theorem callsIn_append (calls : List RateCall) (call : RateCall) (minute : Nat) :
    callsIn principal cls minute (calls ++ [call]) =
      callsIn principal cls minute calls + if call.IsOf principal cls ∧ call.minute = minute then 1 else 0 := by
  rw [callsIn, List.countP_append, List.countP_singleton, callsIn]
  simp only [decide_eq_true_eq]

theorem callsIn_eq_zero {minute : Nat} (apart : ∀ call ∈ calls, call.IsOf principal cls → call.minute ≠ minute) :
    callsIn principal cls minute calls = 0 := by
  rw [callsIn, List.countP_eq_zero]
  intro call member both
  obtain ⟨own, same⟩ := of_decide_eq_true both
  exact apart call member own same

/-- A bucket has the last minute in which there was a call, and the calls in it up to the
limit. -/
structure RateBucket.Tracks (limit : Nat) (principal : String) (cls : RequestClass) (calls : List RateCall)
    (bucket : RateBucket) : Prop where
  reached : ∃ call ∈ calls, call.IsOf principal cls ∧ call.minute = bucket.windowStart
  latest : ∀ call ∈ calls, call.IsOf principal cls → call.minute ≤ bucket.windowStart
  count : bucket.count = min limit (callsIn principal cls bucket.windowStart calls)

def ApiRateLimiter.Tracks (limiter : ApiRateLimiter) (principal : String) (cls : RequestClass) (calls : List RateCall) : Prop :=
  match limiter.buckets.get? (bucketKey principal cls) with
  | some bucket => bucket.Tracks (limiter.limitFor cls) principal cls calls
  | none => ∀ call ∈ calls, ¬ call.IsOf principal cls

theorem ApiRateLimiter.Tracks.current {minute : Nat} (tracks : limiter.Tracks principal cls calls)
    (past : ∀ call ∈ calls, call.IsOf principal cls → call.minute ≤ minute) :
    ((limiter.buckets.get? (bucketKey principal cls)).getD ⟨minute, 0⟩).advance minute =
      ⟨minute, min (limiter.limitFor cls) (callsIn principal cls minute calls)⟩ := by
  rw [ApiRateLimiter.Tracks] at tracks
  cases stored : limiter.buckets.get? (bucketKey principal cls) with
  | none =>
    rw [stored] at tracks
    rw [callsIn_eq_zero fun call member own => absurd own (tracks call member)]
    simp [RateBucket.advance]
  | some bucket =>
    rw [stored] at tracks
    rw [Option.getD_some, RateBucket.advance]
    split
    · rename_i other
      obtain ⟨last, member, own, same⟩ := tracks.reached
      have bound := past last member own
      have none : callsIn principal cls minute calls = 0 := callsIn_eq_zero fun call member own same => by
        have bound := tracks.latest call member own
        omega
      rw [none, Nat.min_zero]
    · rename_i same
      rw [not_not] at same
      subst same
      rw [← tracks.count]

theorem RateBucket.fetchSub_fetchAdd {bucket : RateBucket} (small : bucket.count < 2 ^ 32) :
    bucket.fetchAdd.fetchSub = bucket := by
  obtain ⟨window, count⟩ := bucket
  simp only [fetchAdd, fetchSub, mk.injEq, true_and] at small ⊢
  omega

/-- What `check` answers and what it leaves in the bucket, by the number of earlier calls. -/
theorem ApiRateLimiter.Tracks.check (tracks : limiter.Tracks call.principal call.class calls)
    (past : ∀ other ∈ calls, other.IsOf call.principal call.class → other.minute ≤ call.minute)
    (positive : 0 < limiter.limitFor call.class) (bounded : limiter.limitFor call.class < 2 ^ 32) :
    limiter.check call =
      (if callsIn call.principal call.class call.minute calls < limiter.limitFor call.class then .ok ()
        else .error (60 - call.now % 60),
      { limiter with
        buckets := limiter.buckets.insert (bucketKey call.principal call.class)
          ⟨call.minute, min (limiter.limitFor call.class) (callsIn call.principal call.class call.minute calls + 1)⟩ }) := by
  have current := @ApiRateLimiter.Tracks.current _ _ _ _ call.minute tracks past
  rw [RateCall.minute] at current ⊢
  simp only [ApiRateLimiter.check, if_neg (Nat.ne_of_gt positive), current]
  generalize callsIn call.principal call.class (call.now / 60) calls = earlier
  by_cases full : limiter.limitFor call.class ≤ earlier
  · rw [Nat.min_eq_left full, if_pos le_rfl, if_neg (Nat.not_lt.mpr full), Nat.min_eq_left (by omega),
      RateBucket.fetchSub_fetchAdd bounded]
  · rw [Nat.min_eq_right (by omega), if_neg full, if_pos (by omega), Nat.min_eq_right (by omega)]
    simp only [RateBucket.fetchAdd, Nat.mod_eq_of_lt (show earlier + 1 < 2 ^ 32 by omega)]

theorem ApiRateLimiter.limitFor_check (limiter : ApiRateLimiter) (call : RateCall) :
    (limiter.check call).2.limitFor = limiter.limitFor := by
  funext cls
  rw [ApiRateLimiter.check]
  split
  · rfl
  · dsimp only
    split <;> cases cls <;> rfl

theorem ApiRateLimiter.get?_check_other {key : String} (other : key ≠ bucketKey call.principal call.class) :
    (limiter.check call).2.buckets.get? key = limiter.buckets.get? key := by
  rw [ApiRateLimiter.check]
  split
  · rfl
  · dsimp only
    split <;> exact (HashMap.get?_insert _ _ _ _).trans (if_neg other)

/-- A call of another principal or class counts for nothing. -/
theorem RateBucket.Tracks.other {limit : Nat} {bucket : RateBucket} (tracks : bucket.Tracks limit principal cls calls)
    (apart : ¬ call.IsOf principal cls) : bucket.Tracks limit principal cls (calls ++ [call]) where
  reached := by
    obtain ⟨last, member, own⟩ := tracks.reached
    exact ⟨last, List.mem_append_left _ member, own⟩
  latest later member own := by
    rcases List.mem_append.mp member with earlier | same
    · exact tracks.latest later earlier own
    · cases List.mem_singleton.mp same
      exact absurd own apart
  count := by rw [callsIn_append, if_neg fun both => apart both.1, Nat.add_zero, tracks.count]

theorem ApiRateLimiter.Tracks.next (tracks : limiter.Tracks principal cls calls)
    (past : ∀ other ∈ calls, other.minute ≤ call.minute) (positive : 0 < limiter.limitFor cls)
    (bounded : limiter.limitFor cls < 2 ^ 32) : (limiter.check call).2.Tracks principal cls (calls ++ [call]) := by
  by_cases own : call.IsOf principal cls
  · obtain ⟨rfl, rfl⟩ := own
    have checked := tracks.check (fun other member _ => past other member) positive bounded
    rw [ApiRateLimiter.Tracks, limiter.limitFor_check, checked, HashMap.get?_insert_self]
    refine ⟨⟨call, by simp, ⟨rfl, rfl⟩, rfl⟩, fun other member _ => ?_, ?_⟩
    · rcases List.mem_append.mp member with earlier | same
      · exact past other earlier
      · cases List.mem_singleton.mp same
        exact le_rfl
    · rw [callsIn_append, if_pos ⟨⟨rfl, rfl⟩, rfl⟩]
  · have apart : bucketKey principal cls ≠ bucketKey call.principal call.class := fun same => by
      obtain ⟨name, same'⟩ := bucketKey_inj same
      exact own ⟨name.symm, same'.symm⟩
    rw [ApiRateLimiter.Tracks, limiter.limitFor_check, ApiRateLimiter.get?_check_other apart]
    rw [ApiRateLimiter.Tracks] at tracks
    cases stored : limiter.buckets.get? (bucketKey principal cls) with
    | none =>
      rw [stored] at tracks
      intro other member
      rcases List.mem_append.mp member with earlier | same
      · exact tracks other earlier
      · cases List.mem_singleton.mp same
        exact own
    | some bucket =>
      rw [stored] at tracks
      exact tracks.other own

theorem ApiRateLimiter.limitFor_run (calls : List RateCall) (limiter : ApiRateLimiter) :
    (limiter.run calls).limitFor = limiter.limitFor := by
  induction calls generalizing limiter with
  | nil => rfl
  | cons call rest ih => exact (ih _).trans (limiter.limitFor_check call)

theorem ApiRateLimiter.tracks_run {read mutation admin : Nat} (ordered : calls.Pairwise fun a b => a.now ≤ b.now)
    (positive : 0 < (ApiRateLimiter.new read mutation admin).limitFor cls)
    (bounded : (ApiRateLimiter.new read mutation admin).limitFor cls < 2 ^ 32) :
    ((ApiRateLimiter.new read mutation admin).run calls).Tracks principal cls calls := by
  induction calls using List.reverseRecOn with
  | nil => exact fun call member => nomatch member
  | append_singleton calls call ih =>
    obtain ⟨before, -, past⟩ := List.pairwise_append.mp ordered
    rw [ApiRateLimiter.run, List.foldl_append]
    refine (ih before).next (fun other member => ?_) ?_ ?_
    · exact Nat.div_le_div_right (past other member call (List.mem_singleton_self _))
    · rwa [ApiRateLimiter.limitFor_run]
    · rwa [ApiRateLimiter.limitFor_run]

/-- In every sequence of calls with clocks that do not go back, a call in a class with a
positive limit is admitted if and only if fewer calls than the limit came before it from the
same principal in the same class and minute. A rejection says how long the minute lasts. -/
theorem check_admits_limit (read mutation admin : Nat) (bounded : read < 2 ^ 32 ∧ mutation < 2 ^ 32 ∧ admin < 2 ^ 32)
    (before : List RateCall) (call : RateCall) (after : List RateCall)
    (ordered : (before ++ call :: after).Pairwise fun a b => a.now ≤ b.now)
    (positive : 0 < (ApiRateLimiter.new read mutation admin).limitFor call.class) :
    let answer := (((ApiRateLimiter.new read mutation admin).run before).check call).1
    (answer = .ok () ↔ before.countP (fun other => other.principal = call.principal ∧ other.class = call.class ∧
      other.now / 60 = call.now / 60) < (ApiRateLimiter.new read mutation admin).limitFor call.class) ∧
    ∀ retryAfter, answer = .error retryAfter →
      1 ≤ retryAfter ∧ retryAfter ≤ 60 ∧ call.now + retryAfter = (call.now / 60 + 1) * 60 := by
  obtain ⟨earlier, -, past⟩ := List.pairwise_append.mp ordered
  have small : (ApiRateLimiter.new read mutation admin).limitFor call.class < 2 ^ 32 := by
    cases call.class
    · exact bounded.1
    · exact bounded.2.1
    · exact bounded.2.2
  have tracks : ((ApiRateLimiter.new read mutation admin).run before).Tracks call.principal call.class before :=
    ApiRateLimiter.tracks_run earlier positive small
  have limit := ApiRateLimiter.limitFor_run before (ApiRateLimiter.new read mutation admin)
  have checked := tracks.check (fun other member _ => Nat.div_le_div_right (past other member call List.mem_cons_self))
    (by rwa [limit]) (by rwa [limit])
  have count : callsIn call.principal call.class call.minute before = before.countP fun other =>
      other.principal = call.principal ∧ other.class = call.class ∧ other.now / 60 = call.now / 60 := by
    simp only [callsIn, RateCall.IsOf, RateCall.minute, and_assoc]
  dsimp only
  rw [checked, limit, ← count]
  split
  · rename_i admitted
    exact ⟨iff_of_true rfl admitted, fun _ refused => nomatch refused⟩
  · rename_i full
    refine ⟨iff_of_false (fun admitted => nomatch admitted) full, fun retryAfter refused => ?_⟩
    cases refused
    omega

def postAt (now : Nat) : RateCall := ⟨"u1", "POST", "/api/v1/jobs", ⟨"u1", ["submitter"]⟩, now⟩

theorem postAt_class (now : Nat) : (postAt now).class = .mutation := by
  simp [RateCall.class, classify, postAt, beginsWith, AuthenticatedPrincipal.isAdminOrOperator]

/-- Of three posts in one minute the third is over a limit of two. -/
theorem third_post_refused :
    (((ApiRateLimiter.new 1000 2 1000).run [postAt 60, postAt 61]).check (postAt 119)).1 ≠ .ok () := by
  have admits := check_admits_limit 1000 2 1000 (by decide) [postAt 60, postAt 61] (postAt 119) []
    (by simp [postAt]) (by rw [postAt_class]; decide)
  intro admitted
  have below := admits.1.mp admitted
  simp only [postAt_class] at below
  exact absurd below (by decide)

end Buckets

end Veloce
