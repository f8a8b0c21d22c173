import Veloce.Common.JobPolicy
import Veloce.Handlers.Submission
import Veloce.Handlers.Worker

/-! The interactive entry points of a job: its terminal, its VNC display, the tickets for
both, and the HTTP proxy to its port. -/

namespace Veloce

open Collections

/-- The shared state with what only these handlers read of it. -/
structure InteractiveState extends GlobalState where
  leaderAddr : Option String := none
  /-- The `interactive_port` of each job. -/
  interactivePort : JobId → Option Nat := fun _ => none

structure WsTicket where
  scope : String
  jobId : Option JobId
  expiresAt : Nat
  userId : String
  roles : List String
deriving DecidableEq, Repr

namespace AuthenticatedPrincipal

variable (principal : AuthenticatedPrincipal)

def hasRole (names : List String) : Bool := principal.roles.any (· ∈ names)

/-- Submitters without a higher role, and viewers without any other one. -/
def isRestricted : Bool :=
  let hasElevated := principal.hasRole ["admin", "operator"]
  ("submitter" ∈ principal.roles && !hasElevated) ||
    ("viewer" ∈ principal.roles && !principal.hasRole ["admin", "operator", "submitter"])

/-- The check that a restricted user owns the job. -/
def mayEnter (state : GlobalState) (jobId : JobId) : Except Refusal Unit :=
  if principal.isRestricted then
    match state.jobs.get? jobId with
    | some job => if job.userId ≠ principal.userId then .error (403, "Forbidden: not the job owner") else .ok ()
    | none => .error (404, "Job not found")
  else .ok ()

end AuthenticatedPrincipal

def validateAndRedeemTicket (tickets : HashMap String WsTicket) (params : HashMap String String)
    (expectedScope : String) (expectedJobId : Option JobId) (now : Nat) :
    HashMap String WsTicket × Except Refusal Unit :=
  match params.get? "ticket" with
  | some ticketStr =>
    match tickets.get? ticketStr with
    | none => (tickets, .error (401, "Invalid or already redeemed ticket"))
    | some ticket =>
      (tickets.remove ticketStr,
        if ticket.expiresAt < now then .error (401, "Ticket expired")
        else if ticket.scope ≠ expectedScope then .error (401, "Ticket scope mismatch")
        else if ticket.jobId ≠ expectedJobId then .error (401, "Ticket job ID mismatch")
        else .ok ())
  | none => (tickets, .ok ())

structure CreateWsTicketRequest where
  scope : String
  jobId : Option JobId

/-- A ticket for its creator, good for 90 seconds. -/
def CreateWsTicketRequest.ticket (payload : CreateWsTicketRequest) (principal : AuthenticatedPrincipal)
    (state : GlobalState) (now : Nat) : Except Refusal WsTicket :=
  let ticket : WsTicket := {
    scope := payload.scope
    jobId := payload.jobId
    expiresAt := now + 90
    userId := principal.userId
    roles := principal.roles }
  if payload.scope = "events" then
    if !principal.hasRole ["admin", "operator", "submitter", "viewer"] then
      .error (403, "Forbidden: insufficient role")
    else .ok ticket
  else if payload.scope = "terminal" ∨ payload.scope = "vnc" then
    if !principal.hasRole ["admin", "operator", "submitter", "viewer"] then
      .error (403, "Forbidden: insufficient role")
    else if principal.isRestricted then
      match payload.jobId with
      | some jid => (principal.mayEnter state jid).map fun _ => ticket
      | none => .error (400, "Job ID required for terminal/vnc tickets")
    else .ok ticket
  else .error (400, "Invalid ticket scope")

/-- The answer is the id of the ticket, from `Uuid::new_v4`, and its expiry. -/
def apiCreateWsTicket (principal : AuthenticatedPrincipal) (payload : CreateWsTicketRequest) (ticketStr : String)
    (state : GlobalState) (now : Nat) (tickets : HashMap String WsTicket) :
    HashMap String WsTicket × Except Refusal (String × Nat) :=
  match payload.ticket principal state now with
  | .ok ticket => (tickets.insert ticketStr ticket, .ok (ticketStr, ticket.expiresAt))
  | .error refusal => (tickets, .error refusal)

inductive WorkerSender where
  | direct (channel : Channel)
  | gateway (workerId : WorkerId) (peer : Channel)
deriving DecidableEq, Repr

def normalizeComponentId (localHostname componentId : String) : String :=
  if componentId = "controller" then "controller"
  else if beginsWith localHostname "veloce-" && !beginsWith componentId "veloce-" then s!"veloce-{componentId}"
  else if !beginsWith localHostname "veloce-" && beginsWith componentId "veloce-" then
    String.ofList (componentId.toList.drop 7)
  else componentId

/-- The route to a worker by its id, or to the first one that goes by that name. -/
def getWorkerSender (order : IterOrder Unit) (localHostname : String) (state : GlobalState) (workerId : WorkerId) :
    Option WorkerSender :=
  let route (id : WorkerId) (worker : WorkerHandle) : Option WorkerSender :=
    match worker.routing with
    | .direct channel => some (.direct channel)
    | .gateway peerId => (state.peers.get? peerId).map fun peer => .gateway id peer
  match state.workers.get? workerId with
  | some worker => route workerId worker
  | none =>
    let normalized := normalizeComponentId localHostname workerId
    let found := (order.shuffle () state.workers.toList).find? fun (id, worker) =>
      id = workerId || worker.hostname = workerId || id = normalized || worker.hostname = normalized
    found.bind fun (id, worker) => route id worker

inductive Passage where
  | events
  /-- A follower forwards the WebSocket to the leader. -/
  | forwarded (leader endpoint token ticket : String)
  | session (jobId : JobId) (sender : WorkerSender)
  | upstream (url : String)
deriving DecidableEq, Repr

/-- What a handler of a WebSocket sees: the state at each of its locks, the clock when it
redeems, and the host that it runs on. -/
structure SessionSite where
  ownership : InteractiveState
  leadership : InteractiveState
  job : InteractiveState
  now : Nat
  localHostname : String := "controller"
  order : IterOrder Unit := .stored

/-- The last part of both handlers: the job runs, and its head worker can be reached. -/
def SessionSite.openJob (site : SessionSite) (objection : JobInfo → Option String) (id : JobId) :
    Except Refusal Passage :=
  match site.job.jobs.get? id with
  | none => .error (404, "Job not found")
  | some job =>
    if job.status ≠ .running then .error (400, "Job is not running")
    else
      match objection job with
      | some reason => .error (400, reason)
      | none =>
        match job.assignedWorkers.head? with
        | none => .error (400, "No assigned worker for job")
        | some headWorkerId =>
          match getWorkerSender site.order site.localHostname site.job.toGlobalState headWorkerId with
          | some sender => .ok (.session id sender)
          | none => .error (502, "Head worker connection path not found")

/-- The handlers of the terminal and of VNC differ in their name and in what else they ask
of a running job. -/
def openSession (endpoint : String) (objection : JobInfo → Option String) (site : SessionSite)
    (principal : AuthenticatedPrincipal) (id : JobId) (params : HashMap String String)
    (tickets : HashMap String WsTicket) : HashMap String WsTicket × Except Refusal Passage :=
  if !principal.hasRole ["admin", "operator", "submitter", "viewer"] then
    (tickets, .error (403, "Forbidden: insufficient role"))
  else
    match principal.mayEnter site.ownership.toGlobalState id with
    | .error refusal => (tickets, .error refusal)
    | .ok () =>
      if site.leadership.role ≠ .leader then
        match site.leadership.leaderAddr with
        | some leader =>
          (tickets, .ok (.forwarded leader endpoint (params.getD "token" "") (params.getD "ticket" "")))
        | none => (tickets, .error (503, "No leader controller available"))
      else
        let (tickets, redeemed) := validateAndRedeemTicket tickets params endpoint (some id) site.now
        (tickets, redeemed.bind fun _ => site.openJob objection id)

def apiJobTerminal : SessionSite → AuthenticatedPrincipal → JobId → HashMap String String → HashMap String WsTicket →
    HashMap String WsTicket × Except Refusal Passage :=
  openSession "terminal" fun _ => none

def apiJobVnc : SessionSite → AuthenticatedPrincipal → JobId → HashMap String String → HashMap String WsTicket →
    HashMap String WsTicket × Except Refusal Passage :=
  openSession "vnc" fun job => if !job.vncEnabled then some "VNC is not enabled for this job" else none

/-- `SocketAddr::ip` of an address in its text form. -/
def socketIp (addr : String) : String :=
  let host := ((addr.toList.reverse.dropWhile (· ≠ ':')).drop 1).reverse
  String.ofList (host.filter fun char => char ≠ '[' ∧ char ≠ ']')

def apiJobInteractiveProxy (state : InteractiveState) (principal : AuthenticatedPrincipal) (jobId : JobId)
    (path : String) (query : Option String) (body : Except String (List UInt8)) : Except Refusal Passage :=
  if !principal.hasRole ["admin", "operator", "submitter"] then .error (403, "Forbidden: insufficient role")
  else
    match state.jobs.get? jobId with
    | none => .error (404, "Job not found")
    | some job =>
      if job.status ≠ .running then .error (400, "Job is not running")
      else
        match state.interactivePort jobId with
        | none => .error (404, "No interactive port registered for this job")
        | some port =>
          match job.assignedWorkers.head? with
          | none => .error (400, "No assigned worker for job")
          | some workerId =>
            match state.workers.get? workerId with
            | none => .error (502, "Assigned worker not connected")
            | some worker =>
              let query := (query.map fun q => s!"?{q}").getD ""
              let path := trimStartMatches path "/"
              let upstream := s!"http://{socketIp worker.addr}:{port}/{path}{query}"
              match body with
              | .error err => .error (400, s!"Failed to read proxy request body: {err}")
              | .ok _ => .ok (.upstream upstream)

section Owners

variable {principal : AuthenticatedPrincipal} {jobId : JobId}

theorem hasRole_iff {names : List String} : principal.hasRole names = true ↔ ∃ role ∈ names, role ∈ principal.roles := by
  simp only [AuthenticatedPrincipal.hasRole, List.any_eq_true, decide_eq_true_eq]
  exact ⟨fun ⟨role, held, named⟩ => ⟨role, named, held⟩, fun ⟨role, named, held⟩ => ⟨role, held, named⟩⟩

theorem isRestricted_of_plain (admin : "admin" ∉ principal.roles) (operator : "operator" ∉ principal.roles)
    (allowed : principal.hasRole ["admin", "operator", "submitter", "viewer"] = true) :
    principal.isRestricted = true := by
  have plain : principal.hasRole ["admin", "operator"] = false := by
    rw [Bool.eq_false_iff, ne_eq, hasRole_iff]
    simp [admin, operator]
  obtain ⟨role, named, held⟩ := hasRole_iff.mp allowed
  simp only [AuthenticatedPrincipal.isRestricted, plain, Bool.or_eq_true, Bool.and_eq_true, decide_eq_true_eq]
  by_cases submitter : "submitter" ∈ principal.roles
  · exact .inl ⟨submitter, rfl⟩
  · have none : principal.hasRole ["admin", "operator", "submitter"] = false := by
      rw [Bool.eq_false_iff, ne_eq, hasRole_iff]
      simp [admin, operator, submitter]
    simp only [List.mem_cons, List.not_mem_nil, or_false] at named
    rcases named with rfl | rfl | rfl | rfl
    · exact absurd held admin
    · exact absurd held operator
    · exact absurd held submitter
    · exact .inr ⟨held, by rw [none]; rfl⟩

/-- The job is in the table and belongs to the user. -/
def AuthenticatedPrincipal.Owns (principal : AuthenticatedPrincipal) (state : GlobalState) (jobId : JobId) : Prop :=
  ∃ job, state.jobs.get? jobId = some job ∧ job.userId = principal.userId

instance (principal : AuthenticatedPrincipal) (state : GlobalState) (jobId : JobId) :
    Decidable (principal.Owns state jobId) :=
  inferInstanceAs (Decidable (∃ job ∈ state.jobs.get? jobId, job.userId = principal.userId))

theorem mayEnter_eq_ok_iff {state : GlobalState} :
    principal.mayEnter state jobId = .ok () ↔ (principal.isRestricted = true → principal.Owns state jobId) := by
  rw [AuthenticatedPrincipal.mayEnter]
  split
  · rename_i restricted
    constructor
    · intro entered _
      split at entered
      · rename_i job found
        split at entered
        · cases entered
        · rename_i own
          exact ⟨job, found, not_not.mp own⟩
      · cases entered
    · intro owns
      obtain ⟨job, found, own⟩ := owns restricted
      simp only [found, own, ne_eq, not_true, if_false]
  · rename_i free
    exact ⟨fun _ restricted => absurd restricted free, fun _ => rfl⟩

theorem openSession_enters {endpoint : String} {objection : JobInfo → Option String} {site : SessionSite}
    {params : HashMap String String} {tickets : HashMap String WsTicket} {passage : Passage}
    (passed : (openSession endpoint objection site principal jobId params tickets).2 = .ok passage) :
    principal.hasRole ["admin", "operator", "submitter", "viewer"] = true ∧
      principal.mayEnter site.ownership.toGlobalState jobId = .ok () := by
  unfold openSession at passed
  split at passed
  · cases passed
  · rename_i allowed
    split at passed
    · cases passed
    · rename_i entered
      exact ⟨by simpa using allowed, entered⟩

theorem ticket_enters {payload : CreateWsTicketRequest} {state : GlobalState} {now : Nat} {ticket : WsTicket}
    (scope : payload.scope = "terminal" ∨ payload.scope = "vnc") (job : payload.jobId = some jobId)
    (made : payload.ticket principal state now = .ok ticket) :
    principal.hasRole ["admin", "operator", "submitter", "viewer"] = true ∧ principal.mayEnter state jobId = .ok () := by
  have other : payload.scope ≠ "events" := by
    rcases scope with scope | scope <;> rw [scope] <;> decide
  simp only [CreateWsTicketRequest.ticket, if_neg other, if_pos scope, job] at made
  split at made
  · cases made
  · rename_i allowed
    refine ⟨by simpa using allowed, ?_⟩
    split at made
    · cases entered : principal.mayEnter state jobId with
      | error refusal =>
        rw [entered] at made
        cases made
      | ok _ => rfl
    · rename_i free
      exact mayEnter_eq_ok_iff.mpr fun restricted => absurd restricted free

theorem ticket_allowed {payload : CreateWsTicketRequest} {state : GlobalState} {now : Nat} {ticket : WsTicket}
    (made : payload.ticket principal state now = .ok ticket) :
    AuthenticatedPrincipal.hasRole ⟨ticket.userId, ticket.roles⟩ ["admin", "operator", "submitter", "viewer"] = true := by
  unfold CreateWsTicketRequest.ticket at made
  split at made
  · split at made
    · cases made
    · rename_i allowed
      cases made
      simpa using allowed
  · split at made
    · split at made
      · cases made
      · rename_i allowed
        split at made
        · split at made
          · cases entered : principal.mayEnter state _ with
            | error refusal =>
              rw [entered] at made
              cases made
            | ok _ =>
              rw [entered] at made
              cases made
              simpa using allowed
          · cases made
        · cases made
          simpa using allowed
    · cases made

structure Proxies (state : InteractiveState) (principal : AuthenticatedPrincipal) (job : JobInfo) (jobId : JobId)
    (body : Except String (List UInt8)) : Prop where
  role : principal.hasRole ["admin", "operator", "submitter"] = true
  found : state.jobs.get? jobId = some job
  running : job.status = .running
  port : (state.interactivePort jobId).isSome
  worker : (job.assignedWorkers.head?.bind state.workers.get?).isSome
  read : body.toOption.isSome

/-- The proxy sends a request on exactly if it asks for no more than that; it never asks
whose job it is. -/
theorem apiJobInteractiveProxy_passes_iff {state : InteractiveState} {path : String} {query : Option String}
    {body : Except String (List UInt8)} :
    (∃ passage, apiJobInteractiveProxy state principal jobId path query body = .ok passage) ↔
      ∃ job, Proxies state principal job jobId body := by
  unfold apiJobInteractiveProxy
  constructor
  · rintro ⟨passage, passed⟩
    split at passed
    · cases passed
    · rename_i role
      split at passed
      · cases passed
      · rename_i job found
        split at passed
        · cases passed
        · rename_i running
          split at passed
          · cases passed
          · rename_i port registered
            split at passed
            · cases passed
            · rename_i workerId first
              split at passed
              · cases passed
              · rename_i worker connected
                refine ⟨job, by simpa using role, found, not_not.mp running, ?_, ?_, ?_⟩
                · rw [registered]
                  rfl
                · rw [first, Option.bind_some, connected]
                  rfl
                · cases body with
                  | error err => cases passed
                  | ok bytes => rfl
  · rintro ⟨job, asks⟩
    obtain ⟨port, registered⟩ := Option.isSome_iff_exists.mp asks.port
    obtain ⟨worker, workers⟩ := Option.isSome_iff_exists.mp asks.worker
    obtain ⟨workerId, first, connected⟩ := Option.bind_eq_some_iff.mp workers
    have read := asks.read
    cases body with
    | error err => cases read
    | ok bytes =>
      simp only [asks.role, asks.found, asks.running, registered, first, connected, Bool.not_true, Bool.false_eq_true,
        if_false, ne_eq, not_true]
      exact ⟨_, rfl⟩

end Owners

/-- A request to an interactive entry point of a job. -/
inductive InteractiveRequest where
  | terminal (site : SessionSite) (params : HashMap String String) (tickets : HashMap String WsTicket)
  | vnc (site : SessionSite) (params : HashMap String String) (tickets : HashMap String WsTicket)
  | terminalTicket (state : InteractiveState) (now : Nat)
  | vncTicket (state : InteractiveState) (now : Nat)
  | proxy (state : InteractiveState) (path : String) (query : Option String) (body : Except String (List UInt8))

namespace InteractiveRequest

def passes (request : InteractiveRequest) (principal : AuthenticatedPrincipal) (jobId : JobId) : Prop :=
  match request with
  | .terminal site params tickets => ∃ passage, (apiJobTerminal site principal jobId params tickets).2 = .ok passage
  | .vnc site params tickets => ∃ passage, (apiJobVnc site principal jobId params tickets).2 = .ok passage
  | .terminalTicket state now =>
    ∃ ticket, CreateWsTicketRequest.ticket ⟨"terminal", some jobId⟩ principal state.toGlobalState now = .ok ticket
  | .vncTicket state now =>
    ∃ ticket, CreateWsTicketRequest.ticket ⟨"vnc", some jobId⟩ principal state.toGlobalState now = .ok ticket
  | .proxy state path query body => ∃ passage, apiJobInteractiveProxy state principal jobId path query body = .ok passage

/-- The state in which the entry point first looks for the job. -/
def state : InteractiveRequest → InteractiveState
  | .terminal site _ _ | .vnc site _ _ => site.ownership
  | .terminalTicket state _ | .vncTicket state _ | .proxy state _ _ _ => state

/-- The request does not ask the proxy for the running job of another user that has a port
and a connected worker. -/
def Guarded (request : InteractiveRequest) (principal : AuthenticatedPrincipal) (jobId : JobId) : Prop :=
  match request with
  | .proxy state _ _ body => ∀ job, Proxies state principal job jobId body → job.userId = principal.userId
  | _ => True

end InteractiveRequest

section Entry

variable {principal : AuthenticatedPrincipal}

/-- Where ownership is checked, it keeps out whoever has none of the higher roles and does
not own the job. -/
theorem owns_of_enters {state : GlobalState} {jobId : JobId} (admin : "admin" ∉ principal.roles)
    (operator : "operator" ∉ principal.roles)
    (enters : principal.hasRole ["admin", "operator", "submitter", "viewer"] = true ∧
      principal.mayEnter state jobId = .ok ()) : principal.Owns state jobId :=
  mayEnter_eq_ok_iff.mp enters.2 (isRestricted_of_plain admin operator enters.1)

/-- A user without the roles of an operator gets only to his own jobs, exactly if the
request is no such use of the proxy. -/
theorem interactive_owner_iff (admin : "admin" ∉ principal.roles) (operator : "operator" ∉ principal.roles)
    (request : InteractiveRequest) (jobId : JobId) :
    (request.passes principal jobId → principal.Owns request.state.toGlobalState jobId) ↔
      request.Guarded principal jobId := by
  cases request with
  | terminal site params tickets =>
    refine ⟨fun _ => trivial, fun _ passes => ?_⟩
    obtain ⟨passage, passed⟩ := passes
    exact owns_of_enters admin operator (openSession_enters passed)
  | vnc site params tickets =>
    refine ⟨fun _ => trivial, fun _ passes => ?_⟩
    obtain ⟨passage, passed⟩ := passes
    exact owns_of_enters admin operator (openSession_enters passed)
  | terminalTicket state now =>
    refine ⟨fun _ => trivial, fun _ passes => ?_⟩
    obtain ⟨ticket, made⟩ := passes
    exact owns_of_enters admin operator (ticket_enters (.inl rfl) rfl made)
  | vncTicket state now =>
    refine ⟨fun _ => trivial, fun _ passes => ?_⟩
    obtain ⟨ticket, made⟩ := passes
    exact owns_of_enters admin operator (ticket_enters (.inr rfl) rfl made)
  | proxy state path query body =>
    constructor
    · intro owner job asks
      obtain ⟨job', found, own⟩ := owner (apiJobInteractiveProxy_passes_iff.mpr ⟨job, asks⟩)
      cases found.symm.trans asks.found
      exact own
    · intro guarded passes
      obtain ⟨job, asks⟩ := apiJobInteractiveProxy_passes_iff.mp passes
      exact ⟨job, asks.found, guarded job asks⟩

def annsJob : JobInfo where
  id := 1
  binary := "jupyter"
  status := .running
  reqNodes := 1
  reqCores := 1
  reqMemory := 1
  assignedWorkers := ["w1"]
  userId := "ann"

def annsNotebook : InteractiveState where
  role := .leader
  workers := (({} : GlobalState).registerWorker { sampleRegistration "w1" with addr := "10.0.0.5:9000" } 100).workers
  jobs := HashMap.ofList [(1, annsJob)]
  interactivePort := fun jobId => if jobId = 1 then some 8888 else none

theorem interactive_owner_iff_annsNotebook :
    InteractiveRequest.passes (.proxy annsNotebook "lab" none (.ok [])) ⟨"ann", ["submitter"]⟩ 1 ∧
    (InteractiveRequest.passes (.proxy annsNotebook "lab" none (.ok [])) ⟨"ann", ["submitter"]⟩ 1 →
      AuthenticatedPrincipal.Owns ⟨"ann", ["submitter"]⟩ annsNotebook.toGlobalState 1) := by
  refine ⟨⟨.upstream "http://10.0.0.5:8888/lab", by decide +kernel⟩, ?_⟩
  refine (interactive_owner_iff (by decide) (by decide) (.proxy annsNotebook "lab" none (.ok [])) 1).mpr fun job asks => ?_
  cases asks.found
  rfl

/-- Another submitter is kept out of the terminal, but not from the page. -/
theorem proxy_passes_stranger :
    apiJobInteractiveProxy annsNotebook ⟨"bob", ["submitter"]⟩ 1 "lab" none (.ok []) =
      .ok (.upstream "http://10.0.0.5:8888/lab") ∧
    ¬ AuthenticatedPrincipal.Owns ⟨"bob", ["submitter"]⟩ annsNotebook.toGlobalState 1 ∧
    (apiJobTerminal { ownership := annsNotebook, leadership := annsNotebook, job := annsNotebook, now := 100 } ⟨"bob", ["submitter"]⟩ 1 ∅ ∅).2 =
      .error (403, "Forbidden: not the job owner") := by
  refine ⟨by decide +kernel, ?_, by decide +kernel⟩
  rintro ⟨job, found, own⟩
  cases found
  exact absurd own (by decide)

end Entry

end Veloce
