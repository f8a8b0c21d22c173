import Veloce.Collections.Run
import Veloce.Collections.Vouchers
import Veloce.Controller.Interactive
import Veloce.Handlers.Launch

/-! The API of a leader: the middleware finds out who makes a request, and the handler runs later.
-/

namespace Veloce

open Collections

structure HttpRequest where
  method : String := "GET"
  path : String
  query : Option String := none
  upgrade : Option String := none
  authorization : Option String := none
  cookie : Option String := none
  apiKey : Option String := none
  /-- The body, if it reads as the request for a ticket. -/
  ticketRequest : Option CreateWsTicketRequest := none

inductive AuthMethod where
  | jwt
  | apiKey
  | wsTicket
deriving DecidableEq, Repr

structure StaticApiKey where
  id : String
  keyHash : String
  roles : List String
  linkedComponentId : Option String

/-- What the middleware reads besides the request and the tickets. -/
structure AuthSite where
  role : ControllerRole := .leader
  clusterSecret : Option String := none
  allowInsecure : Bool := false
  globalKey : Option String := none
  apiKeys : List StaticApiKey := []
  insecureQueryAuth : Bool := false
  hashToken : String → String := id
  /-- The identity provider and the component registry; an error reads as no user. -/
  verifyJwt : String → Option AuthenticatedPrincipal := fun _ => none
  validateToken : String → Option AuthenticatedPrincipal := fun _ => none

/-- What the web framework makes of the parts of a request: `urlencoding::decode`, the query
extractor, a path segment as a number, and whether a WebSocket can be opened. -/
structure Extractors where
  decode : String → Option String
  params : String → Option (HashMap String String)
  pathId : String → Option JobId
  upgrades : HttpRequest → Bool

section Middleware

/-- The value of the first query parameter that starts with one of the names. -/
def Extractors.queryValue (axum : Extractors) (names : List String) (query : String) : Option String :=
  let parameter := (splitChar '&' query).find? fun p => names.any fun name => beginsWith p name
  (parameter.bind fun p => (splitChar '=' p)[1]?).map fun s => (axum.decode s).getD s

def Extractors.queryTicket (axum : Extractors) (request : HttpRequest) : Option String :=
  request.query.bind (axum.queryValue ["ticket="])

def getCookie (request : HttpRequest) (name : String) : Option String :=
  request.cookie.bind fun s =>
    (((splitChar ';' s).map trimWhitespace).find? fun p => beginsWith p s!"{name}=").map fun p =>
      String.ofList (p.toList.drop (name.length + 1))

def bearer (request : HttpRequest) : Option String :=
  request.authorization.bind fun s =>
    if beginsWith s "Bearer " then some (trimWhitespace (String.ofList (s.toList.drop 7))) else none

namespace AuthSite

variable (site : AuthSite)

/-- The owner of an API key. The secret of the cluster is refused unless that is allowed. -/
def keyOwner (key : String) : Except Refusal (Option AuthenticatedPrincipal) :=
  if site.clusterSecret = some key && !site.allowInsecure then .error (401, "Unauthorized")
  else if site.globalKey = some key then .ok (some ⟨"admin", ["admin"]⟩)
  else
    match site.apiKeys.find? fun staticKey => staticKey.keyHash = site.hashToken key with
    | some staticKey => .ok (some ⟨staticKey.linkedComponentId.getD staticKey.id, staticKey.roles⟩)
    | none => .ok (site.validateToken key)

def queryKeyOwner (axum : Extractors) (request : HttpRequest) : Except Refusal (Option AuthenticatedPrincipal) :=
  if site.insecureQueryAuth then
    (request.query.bind (axum.queryValue ["token=", "api_key=", "X-API-KEY="])).elim (.ok none) site.keyOwner
  else .ok none

def otherPrincipal (axum : Extractors) (request : HttpRequest) :
    Except Refusal (Option (AuthenticatedPrincipal × AuthMethod)) :=
  match ((bearer request).or (getCookie request "veloce_session_token")).bind site.verifyJwt with
  | some principal => .ok (some (principal, .jwt))
  | none =>
    match request.apiKey.elim (.ok none) site.keyOwner with
    | .error refusal => .error refusal
    | .ok (some principal) => .ok (some (principal, .apiKey))
    | .ok none =>
      match site.queryKeyOwner axum request with
      | .error refusal => .error refusal
      | .ok (some principal) => .ok (some (principal, .apiKey))
      | .ok none => .ok (if site.globalKey.isNone then some (⟨"anonymous", ["admin"]⟩, .apiKey) else none)

/-- The user of a live ticket; the ticket stays where it is. -/
def ticketPrincipal (axum : Extractors) (tickets : HashMap String WsTicket) (request : HttpRequest) (now : Nat) :
    Option AuthenticatedPrincipal :=
  ((axum.queryTicket request).bind tickets.get?).bind fun ticket =>
    if ticket.expiresAt ≥ now then some ⟨ticket.userId, ticket.roles⟩ else none

/-- A request goes on to the next layer, with its user if it has to have one. -/
def authMiddleware (axum : Extractors) (tickets : HashMap String WsTicket) (request : HttpRequest) (now : Nat) :
    Except Refusal (Option (AuthenticatedPrincipal × AuthMethod)) :=
  if request.path = "/api/v1/internal/launch" then .ok none
  else if site.role = .follower && (request.upgrade.map String.toLower) = some "websocket" then .ok none
  else
    match ticketPrincipal axum tickets request now with
    | some principal => .ok (some (principal, .wsTicket))
    | none =>
      match site.otherPrincipal axum request with
      | .ok (some user) => .ok (some user)
      | .ok none => .error (401, "Unauthorized")
      | .error refusal => .error refusal

def leaderOnlyMiddleware : Except Refusal Unit :=
  if site.role ≠ .leader then .error (503, "Not a leader, retry against leader") else .ok ()

variable {site : AuthSite} {axum : Extractors} {request : HttpRequest}

/-- Only a ticket gives a user by a ticket. -/
theorem otherPrincipal_method {principal : AuthenticatedPrincipal} {method : AuthMethod}
    (found : site.otherPrincipal axum request = .ok (some (principal, method))) : method ≠ .wsTicket := by
  unfold otherPrincipal at found
  split at found
  · cases found
    decide
  · split at found
    · cases found
    · cases found
      decide
    · split at found
      · cases found
      · cases found
        decide
      · split at found
        · cases found
          decide
        · cases found

end AuthSite

end Middleware

section Router

/-- The handlers that look at tickets, and all others. -/
inductive Endpoint where
  | events
  | terminal
  | vnc
  | ticket
  | plain
deriving DecidableEq, Repr

/-- The routes behind the middleware, with their methods. -/
def apiRoutes : List (String × List String × Endpoint) :=
  [("/api/v1/jobs", ["POST", "GET"], .plain),
    ("/api/v1/jobs/cwl", ["POST"], .plain),
    ("/api/v1/jobs/:id", ["GET", "DELETE"], .plain),
    ("/api/v1/jobs/:id/steps", ["GET", "POST"], .plain),
    ("/api/v1/jobs/:id/logs", ["GET"], .plain),
    ("/api/v1/jobs/:id/outputs", ["GET"], .plain),
    ("/api/v1/jobs/:id/outputs/content", ["GET"], .plain),
    ("/api/v1/jobs/:id/metrics/stream", ["GET"], .plain),
    ("/api/v1/jobs/:id/terminal", ["GET"], .terminal),
    ("/api/v1/jobs/:id/vnc", ["GET"], .vnc),
    ("/api/v1/jobs/:id/proxy/*path", ["any"], .plain),
    ("/api/v1/ws/events", ["GET"], .events),
    ("/api/v1/ws/ticket", ["POST"], .ticket),
    ("/api/v1/reservations", ["POST", "GET"], .plain),
    ("/api/v1/reservations/:id", ["DELETE"], .plain),
    ("/api/v1/nodes", ["GET"], .plain),
    ("/api/v1/metrics/nodes", ["GET"], .plain),
    ("/api/v1/controllers", ["GET"], .plain),
    ("/api/v1/queue/gap", ["GET"], .plain),
    ("/api/v1/containers", ["GET"], .plain),
    ("/api/v1/containers/register", ["POST"], .plain),
    ("/api/v1/containers/:name", ["DELETE"], .plain),
    ("/api/v1/admin/components", ["POST", "GET"], .plain),
    ("/api/v1/admin/components/:id/rotate", ["POST"], .plain),
    ("/api/v1/admin/components/:id", ["DELETE"], .plain),
    ("/api/v1/audit/events", ["GET"], .plain),
    ("/api/v1/internal/launch", ["POST"], .plain),
    ("/api/v1/system/restart", ["POST"], .plain),
    ("/api/v1/fileserver/restart", ["POST"], .plain),
    ("/api/v1/files", ["POST"], .plain),
    ("/api/v1/files/:id", ["GET", "DELETE"], .plain),
    ("/api/v1/solvers", ["GET"], .plain),
    ("/api/v1/solvers/register", ["POST"], .plain)]

/-- The parameters of a path, if it is of the pattern. -/
def pathParams : (pattern path : List String) → Option (List String)
  | [], [] => some []
  | part :: pattern, segment :: path =>
    if beginsWith part "*" then
      if path = [] ∧ segment = "" then none else some [String.intercalate "/" (segment :: path)]
    else if beginsWith part ":" then
      if segment = "" then none else (pathParams pattern path).map (segment :: ·)
    else if part = segment then pathParams pattern path
    else none
  | _, _ => none

/-- The handler of a request and the parameters of its path. A route for GET takes HEAD, too. -/
def HttpRequest.route (request : HttpRequest) : Option (Endpoint × List String) :=
  let found := apiRoutes.findSome? fun (pattern, methods, endpoint) =>
    (pathParams (splitChar '/' pattern) (splitChar '/' request.path)).map fun params => (methods, endpoint, params)
  found.bind fun (methods, endpoint, params) =>
    if "any" ∈ methods ∨ request.method ∈ methods ∨ request.method = "HEAD" ∧ "GET" ∈ methods then
      some (endpoint, params)
    else none

inductive Call where
  | events (params : HashMap String String)
  | terminal (jobId : JobId) (params : HashMap String String)
  | vnc (jobId : JobId) (params : HashMap String String)
  | createTicket (payload : CreateWsTicketRequest)
  | plain (path : String)

/-- The handler that runs for a request, unless an extractor refuses it. -/
def Extractors.call (axum : Extractors) (request : HttpRequest) : Option Call :=
  request.route.bind fun (endpoint, parts) =>
    let jobId := parts.head?.bind axum.pathId
    let params := if axum.upgrades request then axum.params (request.query.getD "") else none
    match endpoint with
    | .events => params.map .events
    | .terminal => jobId.bind fun jobId => params.map (.terminal jobId)
    | .vnc => jobId.bind fun jobId => params.map (.vnc jobId)
    | .ticket => request.ticketRequest.map .createTicket
    | .plain => some (.plain request.path)

end Router

def apiWsEvents (site : SessionSite) (params : HashMap String String) (tickets : HashMap String WsTicket) :
    HashMap String WsTicket × Except Refusal Passage :=
  if site.leadership.role ≠ .leader then
    match site.leadership.leaderAddr with
    | some leader => (tickets, .ok (.forwarded leader "events" (params.getD "token" "") (params.getD "ticket" "")))
    | none => (tickets, .error (503, "No leader controller available"))
  else
    let (tickets, redeemed) := validateAndRedeemTicket tickets params "events" none site.now
    (tickets, redeemed.map fun _ => .events)

def Call.run (site : SessionSite) (principal : AuthenticatedPrincipal) (ticketStr : String)
    (tickets : HashMap String WsTicket) : Call → HashMap String WsTicket × Except Refusal Unit
  | .events params =>
    let (tickets, answer) := apiWsEvents site params tickets
    (tickets, answer.map fun _ => ())
  | .terminal jobId params =>
    let (tickets, answer) := apiJobTerminal site principal jobId params tickets
    (tickets, answer.map fun _ => ())
  | .vnc jobId params =>
    let (tickets, answer) := apiJobVnc site principal jobId params tickets
    (tickets, answer.map fun _ => ())
  | .createTicket payload =>
    let (tickets, answer) :=
      apiCreateWsTicket principal payload ticketStr site.ownership.toGlobalState site.now tickets
    (tickets, answer.map fun _ => ())
  | .plain _ => (tickets, .ok ())

def Call.made (site : SessionSite) (principal : AuthenticatedPrincipal) : Call → Option WsTicket
  | .createTicket payload => (payload.ticket principal site.ownership.toGlobalState site.now).toOption
  | _ => none

def refusesTicket {α : Type} : Except Refusal α → Bool
  | .error (status, _) => status = 401
  | .ok _ => false

/-- A request between the middleware and its handler, with the ticket that let it in. -/
structure PendingRequest where
  request : HttpRequest
  principal : Option AuthenticatedPrincipal
  ticket : Option String
  admittedAt : Nat

/-- A handler has run for a request as the user of a ticket, and has not refused the ticket. -/
structure TicketUse where
  ticketStr : String
  call : Call
  admittedAt : Nat
  answeredAt : Nat

/-- The tickets and the requests of a leader. `issued` and `uses` remember every ticket that
was made and every use of one. -/
structure ApiServer where
  tickets : HashMap String WsTicket := ∅
  inFlight : List PendingRequest := []
  issued : HashMap String WsTicket := ∅
  uses : List TicketUse := []

/-- The middleware takes a request in; a layer below it or an extractor refuses it; or its
handler runs. -/
inductive ApiEvent where
  | arrive (site : AuthSite) (request : HttpRequest) (now : Nat)
  | drop (index : Nat)
  | handle (index : Nat) (site : SessionSite) (ticketStr : String)

namespace ApiServer

variable (axum : Extractors)

def arrive (site : AuthSite) (request : HttpRequest) (now : Nat) (api : ApiServer) : ApiServer :=
  match site.authMiddleware axum api.tickets request now, site.leaderOnlyMiddleware with
  | .ok user, .ok () =>
    let ticket := if user.map Prod.snd = some .wsTicket then axum.queryTicket request else none
    { api with inFlight := api.inFlight ++ [⟨request, user.map Prod.fst, ticket, now⟩] }
  | _, _ => api

def handle (index : Nat) (site : SessionSite) (ticketStr : String) (api : ApiServer) : Option ApiServer :=
  api.inFlight[index]?.map fun pending =>
    let rest := { api with inFlight := api.inFlight.eraseIdx index }
    match pending.principal, axum.call pending.request with
    | some principal, some call =>
      let (tickets, answer) := call.run site principal ticketStr api.tickets
      { rest with
        tickets
        issued := (call.made site principal).elim api.issued (api.issued.insert ticketStr)
        uses := match pending.ticket with
          | some used => if refusesTicket answer then api.uses else ⟨used, call, pending.admittedAt, site.now⟩ :: api.uses
          | none => api.uses }
    | _, _ => rest

end ApiServer

/-- `none` if there is no such request. -/
def ApiEvent.apply (axum : Extractors) : ApiEvent → ApiServer → Option ApiServer
  | .arrive site request now, api => some (api.arrive axum site request now)
  | .drop index, api =>
    if index < api.inFlight.length then some { api with inFlight := api.inFlight.eraseIdx index } else none
  | .handle index site ticketStr, api => api.handle axum index site ticketStr

section Redemption

variable {site : SessionSite} {principal : AuthenticatedPrincipal} {tickets : HashMap String WsTicket}
  {params : HashMap String String} {used : String}

/-- The ticket was there, is not out of date and was made for this use. It is gone now. -/
structure Redeemed (tickets after : HashMap String WsTicket) (used : String) (ticket : WsTicket) (now : Nat) : Prop where
  there : tickets.get? used = some ticket
  lasts : now ≤ ticket.expiresAt
  gone : after.get? used = none

theorem refusesTicket_map {α β : Type} (answer : Except Refusal α) (next : α → β) :
    refusesTicket (answer.map next) = refusesTicket answer := by
  cases answer with
  | error refusal => rfl
  | ok value => rfl

theorem validateAndRedeemTicket_fewer {scope : String} {jobId : Option JobId} {now : Nat} {key : String}
    {ticket : WsTicket} (left : (validateAndRedeemTicket tickets params scope jobId now).1.get? key = some ticket) :
    tickets.get? key = some ticket := by
  unfold validateAndRedeemTicket at left
  split at left
  · split at left
    · exact left
    · rw [HashMap.get?_remove] at left
      split at left
      · cases left
      · exact left
  · exact left

theorem validateAndRedeemTicket_redeems {scope : String} {jobId : Option JobId} {now : Nat}
    (named : params.get? "ticket" = some used)
    (accepted : refusesTicket (validateAndRedeemTicket tickets params scope jobId now).2 = false) :
    (validateAndRedeemTicket tickets params scope jobId now).2 = .ok () ∧
    ∃ ticket, Redeemed tickets (validateAndRedeemTicket tickets params scope jobId now).1 used ticket now ∧
      ticket.scope = scope ∧ ticket.jobId = jobId := by
  simp only [validateAndRedeemTicket, named] at accepted ⊢
  cases found : tickets.get? used with
  | none =>
    rw [found] at accepted
    cases accepted
  | some ticket =>
    simp only [found] at accepted
    split at accepted
    · cases accepted
    · rename_i lasts
      split at accepted
      · cases accepted
      · rename_i matching
        split at accepted
        · cases accepted
        · rename_i placed
          simp only [if_neg lasts, if_neg matching, if_neg placed]
          exact ⟨trivial, ticket, ⟨found, Nat.le_of_not_lt lasts, HashMap.get?_remove_self ..⟩, not_not.mp matching,
            not_not.mp placed⟩

/-- On a leader a session that gets as far as the redemption redeems its ticket. -/
theorem openSession_redeems {endpoint : String} {objection : JobInfo → Option String} {jobId : JobId}
    (leader : site.leadership.role = .leader)
    (allowed : principal.hasRole ["admin", "operator", "submitter", "viewer"] = true)
    (entered : principal.isRestricted = true → principal.Owns site.ownership.toGlobalState jobId)
    (named : params.get? "ticket" = some used)
    (accepted : refusesTicket (openSession endpoint objection site principal jobId params tickets).2 = false) :
    ∃ ticket, Redeemed tickets (openSession endpoint objection site principal jobId params tickets).1 used ticket site.now ∧
      ticket.scope = endpoint ∧ ticket.jobId = some jobId := by
  simp only [openSession, allowed, Bool.not_true, Bool.false_eq_true, if_false, mayEnter_eq_ok_iff.mpr entered, leader,
    ne_eq, not_true] at accepted ⊢
  have redeemed : refusesTicket (validateAndRedeemTicket tickets params endpoint (some jobId) site.now).2 = false := by
    cases answer : (validateAndRedeemTicket tickets params endpoint (some jobId) site.now).2 with
    | error refusal =>
      rw [answer] at accepted
      exact accepted
    | ok value => rfl
  exact (validateAndRedeemTicket_redeems named redeemed).2

theorem openSession_fewer {endpoint : String} {objection : JobInfo → Option String} {jobId : JobId} {key : String}
    {ticket : WsTicket} (left : (openSession endpoint objection site principal jobId params tickets).1.get? key = some ticket) :
    tickets.get? key = some ticket := by
  unfold openSession at left
  split at left
  · exact left
  · split at left
    · exact left
    · split at left
      · split at left
        · exact left
        · exact left
      · exact validateAndRedeemTicket_fewer left

end Redemption

namespace Call

def InScope (ticket : WsTicket) : Call → Prop
  | .events _ => ticket.scope = "events"
  | .terminal jobId _ => ticket.scope = "terminal" ∧ ticket.jobId = some jobId
  | .vnc jobId _ => ticket.scope = "vnc" ∧ ticket.jobId = some jobId
  | .createTicket _ | .plain _ => False

def isPlain : Call → Bool
  | .plain _ => true
  | _ => false

variable {ticket : WsTicket}

theorem not_inScope_of_isPlain {call : Call} (plain : call.isPlain = true) :
    ¬ call.InScope ticket := by
  cases call with
  | plain path => exact id
  | createTicket payload => exact id
  | events params => cases plain
  | terminal jobId params => cases plain
  | vnc jobId params => cases plain

/-- The handler comes to redeem the ticket that let the request in: it is one of the three
that do, its parameters name that ticket, and a restricted user owns the job. -/
def Redeems (site : SessionSite) (principal : AuthenticatedPrincipal) (used : String) : Call → Prop
  | .events params => params.get? "ticket" = some used
  | .terminal jobId params | .vnc jobId params =>
    params.get? "ticket" = some used ∧
      (principal.isRestricted = true → principal.Owns site.ownership.toGlobalState jobId)
  | .createTicket _ | .plain _ => False

instance (site : SessionSite) (principal : AuthenticatedPrincipal) (used : String) (call : Call) :
    Decidable (call.Redeems site principal used) := by
  cases call with
  | events params => exact inferInstanceAs (Decidable (params.get? "ticket" = some used))
  | terminal jobId params | vnc jobId params =>
    exact inferInstanceAs (Decidable (params.get? "ticket" = some used ∧
      (principal.isRestricted = true → principal.Owns site.ownership.toGlobalState jobId)))
  | createTicket payload => exact inferInstanceAs (Decidable False)
  | plain path => exact inferInstanceAs (Decidable False)

variable {call : Call} {site : SessionSite} {principal : AuthenticatedPrincipal} {tickets : HashMap String WsTicket}
  {ticketStr used : String}

theorem run_redeems (leader : site.leadership.role = .leader)
    (allowed : principal.hasRole ["admin", "operator", "submitter", "viewer"] = true)
    (redeems : call.Redeems site principal used)
    (accepted : refusesTicket (call.run site principal ticketStr tickets).2 = false) :
    ∃ ticket, Redeemed tickets (call.run site principal ticketStr tickets).1 used ticket site.now ∧
      call.InScope ticket := by
  cases call with
  | events params =>
    simp only [run, apiWsEvents, leader, ne_eq, not_true, if_false, refusesTicket_map] at accepted ⊢
    obtain ⟨_, ticket, redeemed, scope, _⟩ := validateAndRedeemTicket_redeems redeems accepted
    exact ⟨ticket, redeemed, scope⟩
  | terminal jobId params =>
    simp only [run, apiJobTerminal, refusesTicket_map] at accepted ⊢
    exact openSession_redeems leader allowed redeems.2 redeems.1 accepted
  | vnc jobId params =>
    simp only [run, apiJobVnc, refusesTicket_map] at accepted ⊢
    exact openSession_redeems leader allowed redeems.2 redeems.1 accepted
  | createTicket payload => exact redeems.elim
  | plain path => exact redeems.elim

/-- A handler only takes tickets away, unless it makes one. -/
theorem run_fewer (unmade : call.made site principal = none) {key : String}
    (left : (call.run site principal ticketStr tickets).1.get? key = some ticket) : tickets.get? key = some ticket := by
  cases call with
  | events params =>
    simp only [run, apiWsEvents] at left
    split at left
    · split at left
      · exact left
      · exact left
    · exact validateAndRedeemTicket_fewer left
  | terminal jobId params => exact openSession_fewer left
  | vnc jobId params => exact openSession_fewer left
  | createTicket payload =>
    rw [made] at unmade
    simp only [run, apiCreateWsTicket] at left
    split at left
    · rename_i ticket' made
      rw [made] at unmade
      cases unmade
    · exact left
  | plain path => exact left

theorem not_redeems_of_made (made : call.made site principal = some ticket) :
    ¬ call.Redeems site principal used := by
  cases call with
  | createTicket payload => exact id
  | events params => cases made
  | terminal jobId params => cases made
  | vnc jobId params => cases made
  | plain path => cases made

theorem run_made (made : call.made site principal = some ticket) :
    (call.run site principal ticketStr tickets).1 = tickets.insert ticketStr ticket ∧
      AuthenticatedPrincipal.hasRole ⟨ticket.userId, ticket.roles⟩ ["admin", "operator", "submitter", "viewer"] = true := by
  cases call with
  | createTicket payload =>
    simp only [Call.made] at made
    cases answer : payload.ticket principal site.ownership.toGlobalState site.now with
    | error refusal =>
      rw [answer] at made
      cases made
    | ok ticket' =>
      rw [answer] at made
      cases made
      refine ⟨by simp only [run, apiCreateWsTicket, answer], ?_⟩
      exact ticket_allowed answer
  | events params => cases made
  | terminal jobId params => cases made
  | vnc jobId params => cases made
  | plain path => cases made

end Call

namespace ApiServer

/-- Every ticket has let at most one request in, before its expiry, and only one to the
endpoint and the job that it was made for. -/
structure Honoured (api : ApiServer) : Prop where
  once : (api.uses.map TicketUse.ticketStr).Nodup
  used : ∀ use ∈ api.uses, ∃ ticket, api.issued.get? use.ticketStr = some ticket ∧
    use.admittedAt ≤ ticket.expiresAt ∧ use.answeredAt ≤ ticket.expiresAt ∧ use.call.InScope ticket

/-- The tickets are vouchers, their users have a role, and each waiting request has the user
of the ticket that let it in. -/
structure Valid (api : ApiServer) : Prop where
  vouchers : Vouchers api.tickets.get? api.issued.get? (api.uses.map TicketUse.ticketStr)
  allowed : ∀ ticketStr ticket, api.issued.get? ticketStr = some ticket →
    AuthenticatedPrincipal.hasRole ⟨ticket.userId, ticket.roles⟩ ["admin", "operator", "submitter", "viewer"] = true
  admitted : ∀ pending ∈ api.inFlight, ∀ ticketStr, pending.ticket = some ticketStr →
    ∃ ticket, api.issued.get? ticketStr = some ticket ∧ pending.principal = some ⟨ticket.userId, ticket.roles⟩ ∧
      pending.admittedAt ≤ ticket.expiresAt
  used : ∀ use ∈ api.uses, ∃ ticket, api.issued.get? use.ticketStr = some ticket ∧
    use.admittedAt ≤ ticket.expiresAt ∧ use.answeredAt ≤ ticket.expiresAt ∧ use.call.InScope ticket

theorem Valid.honoured {api : ApiServer} (valid : api.Valid) : api.Honoured := ⟨valid.vouchers.once, valid.used⟩

end ApiServer

namespace ApiEvent

/-- The process leads, and an id of `Uuid::new_v4` has not been in use. -/
def OnLeader (api : ApiServer) : ApiEvent → Prop
  | .arrive site _ _ => site.role = .leader
  | .drop _ => True
  | .handle _ site ticketStr => site.leadership.role = .leader ∧ api.issued.get? ticketStr = none

def Redeems (axum : Extractors) (api : ApiServer) : ApiEvent → Prop
  | .handle index site _ => ∀ pending ∈ api.inFlight[index]?, ∀ used ∈ pending.ticket, ∀ principal ∈ pending.principal,
      ∀ call ∈ axum.call pending.request, call.Redeems site principal used
  | _ => True

instance (api : ApiServer) (event : ApiEvent) : Decidable (event.OnLeader api) := by
  cases event with
  | arrive site request now => exact inferInstanceAs (Decidable (site.role = .leader))
  | drop index => exact inferInstanceAs (Decidable True)
  | handle index site ticketStr =>
    exact inferInstanceAs (Decidable (site.leadership.role = .leader ∧ api.issued.get? ticketStr = none))

instance (axum : Extractors) (api : ApiServer) (event : ApiEvent) : Decidable (event.Redeems axum api) := by
  cases event with
  | arrive site request now => exact inferInstanceAs (Decidable True)
  | drop index => exact inferInstanceAs (Decidable True)
  | handle index site ticketStr =>
    exact inferInstanceAs (Decidable (∀ pending ∈ api.inFlight[index]?, ∀ used ∈ pending.ticket,
      ∀ principal ∈ pending.principal, ∀ call ∈ axum.call pending.request, call.Redeems site principal used))

def Step (axum : Extractors) (api : ApiServer) (event : ApiEvent) (next : ApiServer) : Prop :=
  event.OnLeader api ∧ event.apply axum api = some next

def CarefulStep (axum : Extractors) (api : ApiServer) (event : ApiEvent) (next : ApiServer) : Prop :=
  (event.OnLeader api ∧ event.Redeems axum api) ∧ event.apply axum api = some next

end ApiEvent

section Runs

variable {axum : Extractors} {api next : ApiServer} {site : AuthSite} {request : HttpRequest} {now : Nat}

/-- The middleware takes the user from a ticket that is in the table and not out of date. -/
theorem authMiddleware_wsTicket {tickets : HashMap String WsTicket} {principal : AuthenticatedPrincipal}
    (passed : site.authMiddleware axum tickets request now = .ok (some (principal, .wsTicket))) :
    ∃ ticketStr ticket, axum.queryTicket request = some ticketStr ∧ tickets.get? ticketStr = some ticket ∧
      principal = ⟨ticket.userId, ticket.roles⟩ ∧ now ≤ ticket.expiresAt := by
  unfold AuthSite.authMiddleware at passed
  split at passed
  · cases passed
  · split at passed
    · cases passed
    · split at passed
      · rename_i user fromTicket
        cases passed
        obtain ⟨ticket, found, lasts⟩ := Option.bind_eq_some_iff.mp fromTicket
        obtain ⟨ticketStr, named, there⟩ := Option.bind_eq_some_iff.mp found
        split at lasts
        · rename_i within
          cases lasts
          exact ⟨ticketStr, ticket, named, there, rfl, within⟩
        · cases lasts
      · split at passed
        · rename_i user other
          cases passed
          exact absurd rfl (AuthSite.otherPrincipal_method other)
        · cases passed
        · cases passed

namespace ApiServer

theorem Valid.leave (valid : api.Valid) {rest : List PendingRequest} (fewer : ∀ pending ∈ rest, pending ∈ api.inFlight) :
    ({ api with inFlight := rest } : ApiServer).Valid :=
  ⟨valid.vouchers, valid.allowed, fun pending member => valid.admitted pending (fewer pending member), valid.used⟩

theorem Valid.arrive (valid : api.Valid) : (api.arrive axum site request now).Valid := by
  unfold ApiServer.arrive
  split
  · rename_i user admitted _
    refine ⟨valid.vouchers, valid.allowed, fun pending member ticketStr named => ?_, valid.used⟩
    rcases List.mem_append.mp member with member | member
    · exact valid.admitted pending member ticketStr named
    · cases List.mem_singleton.mp member
      dsimp only at named
      split at named
      · rename_i byTicket
        obtain ⟨⟨principal, method⟩, same, rfl⟩ := Option.map_eq_some_iff.mp byTicket
        rw [same] at admitted
        obtain ⟨ticketStr', ticket, named', there, user, lasts⟩ := authMiddleware_wsTicket admitted
        cases named.symm.trans named'
        refine ⟨ticket, valid.vouchers.known ticketStr ticket there, ?_, lasts⟩
        rw [same, Option.map_some, user]
      · cases named
  · exact valid

theorem Valid.make (valid : api.Valid) {ticketStr : String} {ticket : WsTicket} (fresh : api.issued.get? ticketStr = none)
    (allowed : AuthenticatedPrincipal.hasRole ⟨ticket.userId, ticket.roles⟩
      ["admin", "operator", "submitter", "viewer"] = true) :
    ({ api with
      tickets := api.tickets.insert ticketStr ticket
      issued := api.issued.insert ticketStr ticket } : ApiServer).Valid := by
  have keeps (other : String) (ticket' : WsTicket) (found : api.issued.get? other = some ticket') :
      (api.issued.insert ticketStr ticket).get? other = some ticket' := by
    rw [HashMap.get?_insert, if_neg, found]
    intro same
    rw [same, fresh] at found
    cases found
  refine ⟨?_, fun other ticket' found => ?_, fun pending member other named => ?_, fun use member => ?_⟩
  · refine valid.vouchers.issue fresh (HashMap.get?_insert_self ..) (fun other different => ?_)
      (HashMap.get?_insert_self ..) fun other different => ?_
    · rw [HashMap.get?_insert, if_neg different]
    · rw [HashMap.get?_insert, if_neg different]
  · rw [HashMap.get?_insert] at found
    split at found
    · cases found
      exact allowed
    · exact valid.allowed other ticket' found
  · obtain ⟨ticket', found, rest⟩ := valid.admitted pending member other named
    exact ⟨ticket', keeps other ticket' found, rest⟩
  · obtain ⟨ticket', found, rest⟩ := valid.used use member
    exact ⟨ticket', keeps use.ticketStr ticket' found, rest⟩

/-- A handler that makes no ticket uses the one that let the request in, if it does not
refuse it. -/
theorem Valid.answer (valid : api.Valid) {site : SessionSite} {pending : PendingRequest} {principal : AuthenticatedPrincipal}
    {call : Call} (ticketStr : String) (leader : site.leadership.role = .leader) (waits : pending ∈ api.inFlight)
    (user : pending.principal = some principal) (unmade : call.made site principal = none)
    (redeems : ∀ used, pending.ticket = some used → call.Redeems site principal used) :
    ({ api with
      tickets := (call.run site principal ticketStr api.tickets).1
      uses := match pending.ticket with
        | some used =>
          if refusesTicket (call.run site principal ticketStr api.tickets).2 then api.uses
          else ⟨used, call, pending.admittedAt, site.now⟩ :: api.uses
        | none => api.uses } : ApiServer).Valid := by
  have lapses : Vouchers (call.run site principal ticketStr api.tickets).1.get? api.issued.get?
      (api.uses.map TicketUse.ticketStr) := valid.vouchers.restrict fun key ticket => Call.run_fewer unmade
  cases named : pending.ticket with
  | none => exact ⟨lapses, valid.allowed, valid.admitted, valid.used⟩
  | some used =>
    cases accepted : refusesTicket (call.run site principal ticketStr api.tickets).2 with
    | true => exact ⟨lapses, valid.allowed, valid.admitted, valid.used⟩
    | false =>
      obtain ⟨ticket, known, same, admittedAt⟩ := valid.admitted pending waits used named
      cases user.symm.trans same
      obtain ⟨ticket', redeemed, inScope⟩ :=
        Call.run_redeems leader (valid.allowed used ticket known) (redeems used named) accepted
      cases (valid.vouchers.known used ticket' redeemed.there).symm.trans known
      refine ⟨valid.vouchers.redeem redeemed.there redeemed.gone fun key ticket => Call.run_fewer unmade, valid.allowed,
        valid.admitted, fun use member => ?_⟩
      rcases List.mem_cons.mp member with rfl | member
      · exact ⟨ticket, known, admittedAt, redeemed.lasts, inScope⟩
      · exact valid.used use member

theorem Valid.handle (valid : api.Valid) {index : Nat} {site : SessionSite} {ticketStr : String}
    (leads : (ApiEvent.handle index site ticketStr).OnLeader api)
    (redeems : (ApiEvent.handle index site ticketStr).Redeems axum api)
    (taken : api.handle axum index site ticketStr = some next) : next.Valid := by
  obtain ⟨pending, found, same⟩ := Option.map_eq_some_iff.mp taken
  have waits : pending ∈ api.inFlight := List.mem_of_getElem? found
  have fewer : ∀ other ∈ api.inFlight.eraseIdx index, other ∈ api.inFlight := fun _ => List.mem_of_mem_eraseIdx
  dsimp only at same
  split at same
  · rename_i principal call user called
    cases same
    have redeems (used : String) (named : pending.ticket = some used) : call.Redeems site principal used :=
      redeems pending found used named principal user call called
    cases made : call.made site principal with
    | none => exact (valid.answer ticketStr leads.1 waits user made redeems).leave fewer
    | some ticket =>
      obtain ⟨inserted, allowed⟩ := Call.run_made made
      have unnamed : pending.ticket = none := by
        cases named : pending.ticket with
        | none => rfl
        | some used => exact (Call.not_redeems_of_made made (redeems used named)).elim
      rw [inserted, unnamed]
      exact (valid.make leads.2 allowed).leave fewer
  · cases same
    exact valid.leave fewer

end ApiServer

def FreshApi (api : ApiServer) : Prop := api = {}

/-- In every run of a leader in which a ticket lets a request in only where the handler
comes to redeem it, each ticket is good for one request of its scope. -/
theorem tickets_honoured (reached : Reach FreshApi (ApiEvent.CarefulStep axum) api) : api.Honoured := by
  have valid : api.Valid := by
    refine reached.invariant ApiServer.Valid (fun api empty => ?_) fun api event next valid step => ?_
    · cases empty
      exact ⟨.empty, fun _ _ found => (nomatch found), fun _ member => (nomatch member), fun _ member => (nomatch member)⟩
    · obtain ⟨⟨leads, redeems⟩, taken⟩ := step
      cases event with
      | arrive site request now =>
        cases taken
        exact valid.arrive
      | drop index =>
        obtain ⟨_, same⟩ := Option.ite_none_right_eq_some.mp taken
        cases same
        exact valid.leave fun _ => List.mem_of_mem_eraseIdx
      | handle index site ticketStr => exact valid.handle leads redeems taken
  exact valid.honoured

end Runs

section Sample

/-- How the framework reads requests without special characters. -/
def plainExtractors : Extractors where
  decode := some
  params query := some (HashMap.ofList ((splitChar '&' query).filterMap fun p =>
    match splitChar '=' p with
    | [name, value] => some (name, value)
    | _ => none))
  pathId := String.toNat?
  upgrades request := request.method = "GET" && request.upgrade = some "websocket"

def keyedSite : AuthSite := { globalKey := some "key" }

def leaderAt (now : Nat) : SessionSite :=
  let state : InteractiveState := { role := .leader }
  { ownership := state, leadership := state, job := state, now }

def ticketMade : List ApiEvent := [
  .arrive keyedSite { method := "POST", path := "/api/v1/ws/ticket", apiKey := some "key", ticketRequest := some ⟨"events", none⟩ } 100,
  .handle 0 (leaderAt 100) "t1"]

/-- The ticket is used, and cannot be used again. -/
theorem tickets_honoured_events : ∃ api : ApiServer,
    api.uses.map (fun use => (use.ticketStr, use.admittedAt)) = [("t1", 150)] ∧ api.inFlight.length = 0 ∧ api.Honoured := by
  let request : HttpRequest :=
    { path := "/api/v1/ws/events", query := some "ticket=t1", upgrade := some "websocket" }
  let events := ticketMade ++ [.arrive keyedSite request 150, .handle 0 (leaderAt 151) "t2", .arrive keyedSite request 152]
  have seen : (runLabels (ApiEvent.apply plainExtractors) events {}).map (fun api =>
      (api.uses.map fun use => (use.ticketStr, use.admittedAt), api.inFlight.length)) = some ([("t1", 150)], 0) := by
    decide +kernel
  have careful : AllowedRun (fun api event => event.OnLeader api ∧ event.Redeems plainExtractors api)
      (ApiEvent.apply plainExtractors) events {} := by decide +kernel
  obtain ⟨api, ran, same⟩ := Option.map_eq_some_iff.mp seen
  obtain ⟨uses, rest⟩ := Prod.mk.inj same
  exact ⟨api, uses, rest, tickets_honoured (runLabels_reach (.start rfl) careful ran)⟩

/-- The list of jobs takes a ticket for the events as often as it comes. -/
theorem ticket_used_twice : ∃ api : ApiServer,
    Reach FreshApi (ApiEvent.Step plainExtractors) api ∧ ¬ api.Honoured ∧
    api.uses.map TicketUse.ticketStr = ["t1", "t1"] ∧
    ∀ use ∈ api.uses, ∀ ticket, ¬ use.call.InScope ticket := by
  let request : HttpRequest := { path := "/api/v1/jobs", query := some "ticket=t1" }
  let events := ticketMade ++ [.arrive keyedSite request 150, .handle 0 (leaderAt 150) "t2", .arrive keyedSite request 151,
    .handle 0 (leaderAt 151) "t3"]
  have seen : (runLabels (ApiEvent.apply plainExtractors) events {}).map (fun api =>
      api.uses.map fun use => (use.ticketStr, use.admittedAt, use.call.isPlain)) =
        some [("t1", 151, true), ("t1", 150, true)] := by
    decide +kernel
  have leads : AllowedRun (fun api event => event.OnLeader api) (ApiEvent.apply plainExtractors) events {} := by
    decide +kernel
  obtain ⟨api, ran, uses⟩ := Option.map_eq_some_iff.mp seen
  have names : api.uses.map TicketUse.ticketStr = ["t1", "t1"] := by
    have first := congrArg (List.map Prod.fst) uses
    rw [List.map_map] at first
    exact first
  refine ⟨api, runLabels_reach (.start rfl) leads ran, fun honoured => ?_, names, fun use member ticket inScope => ?_⟩
  · exact absurd honoured.once (by rw [names]; decide)
  · have plain : (use.ticketStr, use.admittedAt, use.call.isPlain) ∈ [("t1", 151, true), ("t1", 150, true)] :=
      uses ▸ List.mem_map_of_mem member
    have plain : use.call.isPlain = true := by
      simp only [List.mem_cons, Prod.mk.injEq, List.not_mem_nil, or_false] at plain
      rcases plain with ⟨_, _, plain⟩ | ⟨_, _, plain⟩
      · exact plain
      · exact plain
    exact Call.not_inScope_of_isPlain plain inScope

end Sample

end Veloce
