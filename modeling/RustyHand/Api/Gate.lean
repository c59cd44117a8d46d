import RustyHand.Api.Middleware
import RustyHand.Kernel.Auth
import RustyHand.Runtime.AuditLog

/-!
# Who gets through to the API

`auth` and `authorize_http` of `rusty-hand-api/src/middleware.rs`, through which every request comes
before the rate limit and the handlers, and `authenticate_api_key` of
`rusty-hand-kernel/src/auth.rs`.  Argon2 and SHA-256 are parameters, and so is the
order in which the map of the key hashes is walked.

* `auth`, `authorizeHttp`, `routeRequirement`: the two middlewares;
* `serve`, `serve_passed_iff`: both, and the requests that they let through;
* `serve_change_iff`: who may change what;
* `trail_run`: the records that a run of requests leaves in the audit log.
-/

namespace RustyHand
namespace ApiGate

open Audit (AuditAction)
open Drivers (stripPrefix)
open Middleware (HeaderMap get toStr)
open Text (trimChars byteLength)

/-! ### Requests and users -/

/-- `Method`. -/
inductive Method
  | get
  | head
  | post
  | put
  | patch
  | delete
  | other (name : String)
  deriving DecidableEq

/-- The method as it displays. -/
def Method.display : Method → String
  | get => "GET"
  | head => "HEAD"
  | post => "POST"
  | put => "PUT"
  | patch => "PATCH"
  | delete => "DELETE"
  | other name => name

/-- A request with its method and URI. -/
structure Request extends Middleware.Request where
  method : Method
  path : List Char
  query : Option (List Char) := none

/-- `AuthSource`. -/
inductive AuthSource
  | localhost
  | globalApiKey
  | userApiKey
  deriving DecidableEq

/-- `AuthenticatedUser`. -/
structure AuthenticatedUser where
  userId : Option UserId
  name : String
  role : UserRole
  source : AuthSource
  deriving DecidableEq

/-- `AuthenticatedUser::implicit_owner`. -/
def implicitOwner (source : AuthSource) : AuthenticatedUser where
  userId := none
  name := match source with
    | .localhost => "localhost"
    | .globalApiKey => "global-api-key"
    | .userApiKey => "user-api-key"
  role := .owner
  source := source

/-! ### Keys -/

/-- The hash functions. -/
structure Hashes where
  /-- `PasswordHash::new` and `verify_password`. -/
  argon2 : List Char → List Char → Bool
  /-- `Sha256::digest`. -/
  sha256 : List Char → List UInt8

/-- `hex::encode`. -/
def hexEncode (bytes : List UInt8) : List Char :=
  bytes.flatMap fun b => [Json.hexDigit (b.toNat / 16), Json.hexDigit (b.toNat % 16)]

/-- `verify_api_key_hash`. -/
def verifyApiKeyHash (hashes : Hashes) (storedHash apiKey : List Char) : Bool :=
  let stored := trimChars storedHash
  if "$argon2".toList <+: stored then hashes.argon2 stored apiKey
  else
    let digest := hexEncode (hashes.sha256 apiKey)
    if byteLength digest ≠ byteLength stored then false
    else digest = stored.map Char.toLower

/-- The state that the middlewares read; `apiKeyHashes` in the order in which it is walked. -/
structure Server where
  hashes : Hashes
  apiKey : List Char := []
  users : AuthManager
  apiKeyHashes : List (UserId × List Char) := []

namespace Server

variable (server : Server)

/-- `authenticate_api_key`. -/
def authenticateApiKey (apiKey : List Char) : Option (UserId × UserIdentity) :=
  (server.apiKeyHashes.find? fun entry => verifyApiKeyHash server.hashes entry.2 apiKey).bind
    fun entry => (server.users.users[entry.1]?).map fun user => (entry.1, user)

/-- `authenticate_token`. -/
def authenticateToken (token : List Char) : Option AuthenticatedUser :=
  match server.authenticateApiKey token with
  | some (id, user) => some ⟨some id, user.name, user.role, .userApiKey⟩
  | none =>
    let apiKey := trimChars server.apiKey
    if apiKey = [] then none
    else if server.hashes.sha256 token = server.hashes.sha256 apiKey then
      some (implicitOwner .globalApiKey)
    else none

/-- `auth_enabled`. -/
def authEnabled : Bool := !(trimChars server.apiKey).isEmpty || !server.apiKeyHashes.isEmpty

end Server

/-- `bearer_token`. -/
def bearerToken (headers : HeaderMap) : Option (List Char) :=
  ((get "authorization" headers).bind toStr).bind (stripPrefix "Bearer ".toList)

/-- `query_token`. -/
def queryToken (query : Option (List Char)) : Option (List Char) :=
  query.bind fun q => (q.splitOn '&').findSome? (stripPrefix "token=".toList)

/-! ### Paths -/

/-- `path.starts_with(part)`. -/
def startsWith (path : List Char) (part : String) : Bool := decide (part.toList <+: path)

/-- `path.ends_with(part)`. -/
def endsWith (path : List Char) (part : String) : Bool := decide (part.toList <:+ path)

/-- `path.contains(part)`. -/
def contains (path : List Char) (part : String) : Bool := decide (part.toList <:+: path)

/-- `path == text`. -/
def isPath (path : List Char) (text : String) : Bool := path = text.toList

/-- `is_public_path`. -/
def isPublicPath (path : List Char) : Bool :=
  isPath path "/" || isPath path "/logo.svg" || isPath path "/logo.png" ||
    isPath path "/favicon.ico" || isPath path "/api/health" || isPath path "/api/status" ||
    isPath path "/api/version" || isPath path "/api/onboarding"

/-- `query_token_allowed`. -/
def queryTokenAllowed (path : List Char) : Bool :=
  isPath path "/api/logs/stream" || endsWith path "/message/stream" || endsWith path "/ws"

/-! ### Authentication -/

/-- An answer of a middleware: a status and the message of its body. -/
structure Refusal where
  status : ℕ
  message : String

/-- `unauthorized_response`. -/
def unauthorizedResponse (message : String) : Refusal := ⟨401, message⟩

/-- `auth`: the user that is put into the request, if it is passed on. -/
def auth (server : Server) (request : Request) : Except Refusal (Option AuthenticatedUser) :=
  if !server.authEnabled then
    if (request.peer.map Ssrf.IpAddr.isLoopback).getD false then
      .ok (some (implicitOwner .localhost))
    else
      .error ⟨403, "No API key configured. Remote access denied. " ++
        "Configure api_key in ~/.rustyhand/config.toml"⟩
  else if isPublicPath request.path then .ok none
  else
    let headerToken := bearerToken request.headers
    let rawQueryToken := queryToken request.query
    let allowQueryToken := queryTokenAllowed request.path
    let queryToken := if allowQueryToken then rawQueryToken else none
    if rawQueryToken.isSome && !allowQueryToken then
      .error (unauthorizedResponse
        "Query-string token auth is only supported for streaming endpoints")
    else
      match (headerToken.bind server.authenticateToken).or
          (queryToken.bind server.authenticateToken) with
      | some user => .ok (some user)
      | none =>
        if headerToken.isSome || rawQueryToken.isSome then
          .error (unauthorizedResponse "Invalid API key")
        else .error (unauthorizedResponse "Missing Authorization: Bearer <api_key> header")

/-! ### Authorization -/

/-- `RouteRequirement`. -/
structure RouteRequirement where
  minRole : UserRole
  auditAction : AuditAction
  auditOnSuccess : Bool

/-- `viewer_only`. -/
def viewerOnly : RouteRequirement := ⟨.viewer, .authAttempt, false⟩

/-- The paths that only the owner may change or, some of them, see. -/
def isOwnerPath (method : Method) (path : List Char) : Bool :=
  isPath path "/api/auth/users" || isPath path "/api/shutdown" ||
    isPath path "/api/memory/export" || isPath path "/api/memory/import" ||
    startsWith path "/api/bindings" || (startsWith path "/api/config" && method ≠ .get) ||
    (startsWith path "/api/providers/" && method ≠ .get) ||
    (startsWith path "/api/channels/" && method ≠ .get)

/-- The paths of usage and security. -/
def isOversightPath (path : List Char) : Bool :=
  startsWith path "/api/usage" || startsWith path "/api/budget" || startsWith path "/api/audit" ||
    isPath path "/api/logs/stream" || isPath path "/api/security" ||
    startsWith path "/api/pairing"

/-- The paths of what the daemon runs by itself. -/
def isAutomationPath (method : Method) (path : List Char) : Bool :=
  startsWith path "/api/skills/install" || startsWith path "/api/skills/uninstall" ||
    startsWith path "/api/skills/create" || startsWith path "/api/clawhub/install" ||
    (startsWith path "/api/workflows" && method ≠ .get) ||
    (startsWith path "/api/triggers" && method ≠ .get) ||
    (startsWith path "/api/cron" && method ≠ .get) || startsWith path "/api/approvals" ||
    (startsWith path "/api/integrations" && method ≠ .get) || startsWith path "/hooks/"

/-- The paths of a talk with an agent. -/
def isTalkPath (path : List Char) : Bool :=
  endsWith path "/message" || endsWith path "/message/stream" || endsWith path "/session" ||
    endsWith path "/session/reset" || endsWith path "/session/compact" ||
    endsWith path "/upload" || endsWith path "/ws" || contains path "/sessions/" ||
    endsWith path "/sessions" || endsWith path "/deliveries" || endsWith path "/files" ||
    contains path "/files/"

/-- The branch of `route_requirement` for the paths behind `/api/agents/`, if it is not left. -/
def agentRequirement (method : Method) (path : List Char) : Option RouteRequirement :=
  if isTalkPath path then
    some ⟨if contains path "/files/" && method ≠ .get then .admin else .user,
      if contains path "/files/" then .fileAccess else .agentMessage, method ≠ .get⟩
  else if method = .delete || endsWith path "/stop" then some ⟨.admin, .agentKill, true⟩
  else if method ≠ .get then some ⟨.admin, .configChange, true⟩
  else none

/-- The paths that give an agent a task from outside, and the configuration. -/
def isTaskPath (path : List Char) : Bool :=
  isPath path "/v1/chat/completions" || isPath path "/mcp" || isPath path "/api/a2a/send" ||
    isPath path "/a2a/tasks/send" || endsWith path "/cancel" || startsWith path "/api/config"

/-- The last branches of `route_requirement`. -/
def otherRequirement (method : Method) (path : List Char) : RouteRequirement :=
  if startsWith path "/api/memory/agents/" then
    ⟨if method = .get then .user else .admin, .memoryAccess, method ≠ .get⟩
  else if isTaskPath path then ⟨.user, .agentMessage, method ≠ .get⟩
  else if method = .get || method = .head then viewerOnly
  else ⟨.admin, .configChange, true⟩

/-- `route_requirement`. -/
def routeRequirement (method : Method) (path : List Char) : Option RouteRequirement :=
  if isPublicPath path then none
  else if isPath path "/api/auth/me" then some viewerOnly
  else if isOwnerPath method path then some ⟨.owner, .configChange, method ≠ .get⟩
  else if isOversightPath path then some ⟨.admin, .configChange, method ≠ .get⟩
  else if isAutomationPath method path then some ⟨.admin, .configChange, method ≠ .get⟩
  else if isPath path "/api/agents" && method = .post then some ⟨.admin, .agentSpawn, true⟩
  else if startsWith path "/api/agents/" then
    (agentRequirement method path).or (some (otherRequirement method path))
  else some (otherRequirement method path)

/-- What `record` of the audit log is called with. -/
structure AuditRecord where
  agentId : String
  action : AuditAction
  detail : String
  outcome : String

/-- `{method} {path}`. -/
def requestLine (request : Request) : String :=
  request.method.display ++ " " ++ String.ofList request.path

/-- What comes of a request: a refusal, or the status of what lies behind the gate. -/
inductive Answer
  | refused (refusal : Refusal)
  | passed (user : Option AuthenticatedUser) (status : ℕ)

/-- `authorize_http`, with the status that comes from behind it, and its audit records. -/
def authorizeHttp (request : Request) (principal : Option AuthenticatedUser) (status : ℕ) :
    Answer × List AuditRecord :=
  match principal, routeRequirement request.method request.path with
  | some user, some requirement =>
    if user.role.rank < requirement.minRole.rank then
      (.refused ⟨403, "Access denied: " ++ requirement.minRole.display ++
          " role required for this endpoint"⟩,
        [⟨user.name, .authAttempt, requestLine request,
          "denied: role " ++ user.role.display ++ " requires " ++ requirement.minRole.display⟩])
    else
      (.passed principal status,
        if requirement.auditOnSuccess then
          [⟨user.name, requirement.auditAction, requestLine request,
            "http " ++ toString status⟩]
        else [])
  | _, _ => (.passed principal status, [])

/-- Both middlewares, as `build_router` stacks them. -/
def serve (server : Server) (request : Request) (status : ℕ) : Answer × List AuditRecord :=
  match auth server request with
  | .error refusal => (.refused refusal, [])
  | .ok principal => authorizeHttp request principal status

variable {server : Server} {request : Request} {user : Option AuthenticatedUser}
  {principal : AuthenticatedUser} {status : ℕ} {method : Method} {path : List Char}

/-! ### The gate -/

/-- The token in the header stands for this user, or it stands for nobody, and the one in the query
does. -/
def Presents (server : Server) (request : Request) (principal : AuthenticatedUser) : Prop :=
  (bearerToken request.headers).bind server.authenticateToken = some principal ∨
    (bearerToken request.headers).bind server.authenticateToken = none ∧
      (queryToken request.query).bind server.authenticateToken = some principal

/-- The requests that come behind the gate, and with which user. -/
inductive Admitted (server : Server) (request : Request) : Option AuthenticatedUser → Prop
  | keyless (hoff : server.authEnabled = false)
      (hpeer : ∃ ip, request.peer = some ip ∧ ip.isLoopback = true) :
      Admitted server request (some (implicitOwner .localhost))
  | publicPath (hon : server.authEnabled = true) (hpath : isPublicPath request.path = true) :
      Admitted server request none
  | keyed (principal : AuthenticatedUser) (hon : server.authEnabled = true)
      (hpath : isPublicPath request.path = false)
      (hquery : (queryToken request.query).isSome = true → queryTokenAllowed request.path = true)
      (hkey : Presents server request principal)
      (hrole : ∀ requirement, routeRequirement request.method request.path = some requirement →
        requirement.minRole.rank ≤ principal.role.rank) :
      Admitted server request (some principal)

theorem rank_le_owner (role : UserRole) : role.rank ≤ UserRole.owner.rank := by
  cases role <;> decide

theorem authorizeHttp_passed_iff :
    (authorizeHttp request user status).1 = .passed user status ↔
      ∀ principal requirement, user = some principal →
        routeRequirement request.method request.path = some requirement →
          requirement.minRole.rank ≤ principal.role.rank := by
  unfold authorizeHttp
  cases user with
  | none => simp
  | some principal =>
    cases hreq : routeRequirement request.method request.path with
    | none => simp
    | some requirement =>
      by_cases hrole : principal.role.rank < requirement.minRole.rank
      · simp [hrole]
      · simp [hrole, not_lt.1 hrole]

theorem authorizeHttp_passed_user {user' : Option AuthenticatedUser} {s : ℕ}
    (h : (authorizeHttp request user status).1 = .passed user' s) : user = user' ∧ status = s := by
  unfold authorizeHttp at h
  split at h
  · split at h
    · cases h
    · exact Answer.passed.inj h
  · exact Answer.passed.inj h

theorem auth_keyless (hoff : server.authEnabled = false) : auth server request = .ok user ↔
    user = some (implicitOwner .localhost) ∧
      ∃ ip, request.peer = some ip ∧ ip.isLoopback = true := by
  have hloopback : (request.peer.map Ssrf.IpAddr.isLoopback).getD false = true ↔
      ∃ ip, request.peer = some ip ∧ ip.isLoopback = true := by
    cases request.peer <;> simp
  rw [auth, hoff, Bool.not_false, if_pos rfl, ← hloopback]
  by_cases hpeer : (request.peer.map Ssrf.IpAddr.isLoopback).getD false = true
  · rw [if_pos hpeer, Except.ok.injEq, eq_comm, and_iff_left hpeer]
  · rw [if_neg hpeer]
    exact ⟨fun h => (by cases h), fun h => absurd h.2 hpeer⟩

theorem auth_public (hon : server.authEnabled = true) (hpath : isPublicPath request.path = true) :
    auth server request = .ok user ↔ user = none := by
  rw [auth, hon, hpath]
  simp [eq_comm]

/-- The user of a request with a key. -/
theorem or_eq_some_iff_presents (hquery : (queryToken request.query).isSome = true →
    queryTokenAllowed request.path = true) :
    ((bearerToken request.headers).bind server.authenticateToken).or
        ((if queryTokenAllowed request.path then queryToken request.query else none).bind
          server.authenticateToken) = some principal ↔ Presents server request principal := by
  rw [Presents, Option.or_eq_some_iff]
  by_cases hallowed : queryTokenAllowed request.path = true
  · rw [if_pos hallowed]
  · have hnone : queryToken request.query = none := by
      rw [← Option.not_isSome_iff_eq_none]
      exact fun hsome => hallowed (hquery hsome)
    rw [hnone, ite_self]

theorem auth_keyed (hon : server.authEnabled = true) (hpath : isPublicPath request.path = false) :
    auth server request = .ok user ↔ ∃ principal, user = some principal ∧
      ((queryToken request.query).isSome = true → queryTokenAllowed request.path = true) ∧
        Presents server request principal := by
  rw [auth, hon, hpath, Bool.not_true, if_neg Bool.false_ne_true, if_neg Bool.false_ne_true]
  by_cases hquery : (queryToken request.query).isSome = true →
      queryTokenAllowed request.path = true
  · have hcond :
        ((queryToken request.query).isSome && !queryTokenAllowed request.path) = false := by
      cases hsome : (queryToken request.query).isSome with
      | false => rfl
      | true => simp [hquery hsome]
    simp only [hcond, Bool.false_eq_true, if_false]
    cases hor : ((bearerToken request.headers).bind server.authenticateToken).or
        ((if queryTokenAllowed request.path then queryToken request.query else none).bind
          server.authenticateToken) with
    | some p =>
      have hpresents := (or_eq_some_iff_presents hquery).1 hor
      constructor
      · rintro ⟨⟩
        exact ⟨p, rfl, hquery, hpresents⟩
      · rintro ⟨p', rfl, -, hp'⟩
        rw [← (or_eq_some_iff_presents hquery).2 hp', hor]
    | none =>
      constructor
      · intro h
        dsimp only at h
        split at h <;> cases h
      · rintro ⟨p', rfl, -, hp'⟩
        rw [(or_eq_some_iff_presents hquery).2 hp'] at hor
        cases hor
  · have hcond : ((queryToken request.query).isSome && !queryTokenAllowed request.path) = true := by
      rw [Classical.not_imp] at hquery
      simp [hquery.1, hquery.2]
    simp only [hcond, if_true]
    exact ⟨fun h => (by cases h), fun ⟨_, _, h, _⟩ => absurd h hquery⟩

/-- **The gate**: a request comes to the handlers, with a user or without, if and only if it is
admitted with this user. -/
theorem serve_passed_iff :
    (serve server request status).1 = .passed user status ↔ Admitted server request user := by
  have hserve : (serve server request status).1 = .passed user status ↔
      auth server request = .ok user ∧
        (authorizeHttp request user status).1 = .passed user status := by
    rw [serve]
    cases hauth : auth server request with
    | error refusal => simp
    | ok user' =>
      constructor
      · intro h
        obtain ⟨rfl, -⟩ := authorizeHttp_passed_user h
        exact ⟨rfl, h⟩
      · rintro ⟨h, hpassed⟩
        cases h
        exact hpassed
  rw [hserve, authorizeHttp_passed_iff]
  constructor
  · rintro ⟨hauth, hrole⟩
    cases hon : server.authEnabled with
    | false =>
      obtain ⟨rfl, hpeer⟩ := (auth_keyless hon).1 hauth
      exact .keyless hon hpeer
    | true =>
      cases hpath : isPublicPath request.path with
      | true =>
        obtain rfl := (auth_public hon hpath).1 hauth
        exact .publicPath hon hpath
      | false =>
        obtain ⟨principal, rfl, hquery, hkey⟩ := (auth_keyed hon hpath).1 hauth
        exact .keyed principal hon hpath hquery hkey fun requirement => hrole _ _ rfl
  · intro h
    cases h with
    | keyless hoff hpeer =>
      refine ⟨(auth_keyless hoff).2 ⟨rfl, hpeer⟩, fun principal requirement hp _ => ?_⟩
      cases hp
      exact rank_le_owner _
    | publicPath hon hpath =>
      exact ⟨(auth_public hon hpath).2 rfl, fun principal requirement hp => by cases hp⟩
    | keyed principal hon hpath hquery hkey hrole =>
      refine ⟨(auth_keyed hon hpath).2 ⟨principal, rfl, hquery, hkey⟩,
        fun p requirement hp hreq => ?_⟩
      cases hp
      exact hrole requirement hreq

/-! ### Roles -/

/-- The paths at which a user may change something: talks with agents, and their tasks. -/
def isOpenToUsers (method : Method) (path : List Char) : Bool :=
  !isOwnerPath method path && !isOversightPath path && !isAutomationPath method path &&
    if startsWith path "/api/agents/" then isTalkPath path && !contains path "/files/"
    else !startsWith path "/api/memory/agents/" && isTaskPath path

/-- Who may make changes at a path. -/
def mayChange (method : Method) (path : List Char) : UserRole → Bool
  | .viewer => false
  | .user => isOpenToUsers method path
  | .admin => !isOwnerPath method path
  | .owner => true

/-- The least role of those that may. -/
def leastRole (method : Method) (path : List Char) : UserRole :=
  if isOwnerPath method path then .owner
  else if isOpenToUsers method path then .user
  else .admin

theorem mayChange_iff (role : UserRole) : mayChange method path role = true ↔
    (leastRole method path).rank ≤ role.rank := by
  have hopen : isOwnerPath method path = true → isOpenToUsers method path = false := by
    intro howner
    simp [isOpenToUsers, howner]
  unfold leastRole
  by_cases howner : isOwnerPath method path = true
  · rw [if_pos howner]
    cases role <;> simp [mayChange, UserRole.rank, howner, hopen]
  · rw [if_neg howner]
    by_cases huser : isOpenToUsers method path = true
    · rw [if_pos huser]
      cases role <;> simp [mayChange, UserRole.rank, howner, huser]
    · rw [if_neg huser]
      cases role <;> simp [mayChange, UserRole.rank, howner, huser]

/-- A request that changes something. -/
def Changes (method : Method) (path : List Char) : Prop :=
  method ≠ .get ∧ method ≠ .head ∧ isPublicPath path = false ∧ isPath path "/api/auth/me" = false

/-- **Changes**: what `route_requirement` asks for them, on all its branches. -/
theorem routeRequirement_of_changes (hchanges : Changes method path) :
    ∃ action, routeRequirement method path = some ⟨leastRole method path, action, true⟩ := by
  obtain ⟨hget, hhead, hpublic, hme⟩ := hchanges
  have hget' : decide (method ≠ .get) = true := decide_eq_true hget
  have hother : isOwnerPath method path = false → isOversightPath path = false →
      isAutomationPath method path = false → startsWith path "/api/agents/" = false →
      ∃ action, otherRequirement method path = ⟨leastRole method path, action, true⟩ := by
    intro howner hoversight hautomation hagents
    unfold otherRequirement leastRole isOpenToUsers
    rw [howner, hoversight, hautomation, hagents]
    by_cases hmemory : startsWith path "/api/memory/agents/" = true
    · simp [hmemory, hget]
    · by_cases htask : isTaskPath path = true
      · simp [hmemory, htask, hget]
      · simp [hmemory, htask, hget, hhead]
  unfold routeRequirement
  rw [hpublic, hme, if_neg Bool.false_ne_true, if_neg Bool.false_ne_true]
  by_cases howner : isOwnerPath method path = true
  · rw [if_pos howner, hget', leastRole, if_pos howner]
    exact ⟨_, rfl⟩
  rw [if_neg howner]
  by_cases hoversight : isOversightPath path = true
  · rw [if_pos hoversight, hget']
    simp [leastRole, howner, isOpenToUsers, hoversight]
  rw [if_neg hoversight]
  by_cases hautomation : isAutomationPath method path = true
  · rw [if_pos hautomation, hget']
    simp [leastRole, howner, isOpenToUsers, hautomation]
  rw [if_neg hautomation]
  by_cases hspawn : (isPath path "/api/agents" && method = .post) = true
  · rw [if_pos hspawn]
    have hpath : path = "/api/agents".toList := by
      rw [Bool.and_eq_true, isPath, decide_eq_true_eq] at hspawn
      exact hspawn.1
    have htask : (isTaskPath path || startsWith path "/api/agents/") = false := by
      rw [hpath]
      unfold isTaskPath isPath startsWith endsWith
      repeat rw [String.toList_ofList]
      decide
    rw [Bool.or_eq_false_iff] at htask
    simp [leastRole, howner, isOpenToUsers, htask.1, htask.2]
  rw [if_neg hspawn]
  by_cases hagents : startsWith path "/api/agents/" = true
  · rw [if_pos hagents, agentRequirement]
    by_cases htalk : isTalkPath path = true
    · by_cases hfiles : contains path "/files/" = true
      · simp [htalk, hfiles, hget, leastRole, howner, isOpenToUsers, hagents]
      · simp [htalk, hfiles, hget, leastRole, howner, isOpenToUsers, hagents, hoversight,
          hautomation]
    · by_cases hstop : (method = .delete || endsWith path "/stop") = true
      · rw [if_neg htalk, if_pos hstop]
        simp [leastRole, howner, isOpenToUsers, hagents, htalk]
      · rw [if_neg htalk, if_neg hstop, if_pos hget]
        simp [leastRole, howner, isOpenToUsers, hagents, htalk]
  · rw [if_neg hagents]
    obtain ⟨action, haction⟩ := hother (by simpa using howner) (by simpa using hoversight)
      (by simpa using hautomation) (by simpa using hagents)
    exact ⟨action, by rw [haction]⟩

/-- **Who changes what**: a request that changes something comes to the handlers if and only if it
comes from the host itself and no key is set, or it shows the key of a principal whose role may make
changes at its path. -/
theorem serve_change_iff (hchanges : Changes request.method request.path) :
    (serve server request status).1 = .passed user status ↔
      (server.authEnabled = false ∧ user = some (implicitOwner .localhost) ∧
        ∃ ip, request.peer = some ip ∧ ip.isLoopback = true) ∨
      (server.authEnabled = true ∧ ∃ principal, user = some principal ∧
        ((queryToken request.query).isSome = true → queryTokenAllowed request.path = true) ∧
          Presents server request principal ∧
            mayChange request.method request.path principal.role = true) := by
  obtain ⟨action, hreq⟩ := routeRequirement_of_changes hchanges
  have hrole : ∀ p : AuthenticatedUser, (∀ requirement,
      routeRequirement request.method request.path = some requirement →
        requirement.minRole.rank ≤ p.role.rank) ↔
      mayChange request.method request.path p.role = true := by
    intro p
    rw [mayChange_iff, hreq]
    exact ⟨fun h => h _ rfl, fun h requirement hr => by cases hr; exact h⟩
  rw [serve_passed_iff]
  constructor
  · intro h
    cases h with
    | keyless hoff hpeer => exact .inl ⟨hoff, rfl, hpeer⟩
    | publicPath hon hpath =>
      rw [hchanges.2.2.1] at hpath
      cases hpath
    | keyed p hon hpath hquery hkey h => exact .inr ⟨hon, p, rfl, hquery, hkey, (hrole p).1 h⟩
  · rintro (⟨hoff, rfl, hpeer⟩ | ⟨hon, p, rfl, hquery, hkey, h⟩)
    · exact .keyless hoff hpeer
    · exact .keyed p hon hchanges.2.2.1 hquery hkey ((hrole p).2 h)

/-- A server with one user, whose key is `a`; as a digest it takes the key's own bytes. -/
def oneUser (role : UserRole) : Server where
  hashes := ⟨fun _ _ => false, Middleware.bytesOf⟩
  users := ⟨[⟨"ann", role⟩], []⟩
  apiKeyHashes := [(0, "61".toList)]

/-- A message to an agent, with the key. -/
def toAgent : Request where
  peer := none
  headers := [("authorization", Middleware.bytesOf "Bearer a".toList)]
  method := .post
  path := "/api/agents/1/message".toList

theorem isOpenToUsers_toAgent : isOpenToUsers .post toAgent.path = true := by
  rw [show toAgent.path = _ from String.toList_ofList]
  unfold isOpenToUsers isOwnerPath isOversightPath isAutomationPath isTalkPath isPath startsWith
    endsWith contains
  repeat rw [String.toList_ofList]
  decide

/-- A user may talk to an agent, a viewer may not. -/
theorem serve_change_talk :
    (serve (oneUser .user) toAgent 200).1 =
        .passed (some ⟨some 0, "ann", .user, .userApiKey⟩) 200 ∧
      ¬ (serve (oneUser .viewer) toAgent 200).1 =
        .passed (some ⟨some 0, "ann", .viewer, .userApiKey⟩) 200 := by
  have hchanges : Changes toAgent.method toAgent.path :=
    ⟨by decide, by decide, by decide, by decide⟩
  constructor
  · exact (serve_change_iff hchanges).2
      (.inr ⟨by decide, _, rfl, nofun, .inl (by decide), isOpenToUsers_toAgent⟩)
  · rw [serve_change_iff hchanges]
    rintro (⟨-, h, -⟩ | ⟨-, p, h, -, -, hmay⟩)
    · cases h
    · cases h
      revert hmay
      decide

/-! ### The audit trail -/

/-- The records in the audit log after a run of requests, each with the status from behind. -/
def trail (server : Server) (log : List AuditRecord) (requests : List (Request × ℕ)) :
    List AuditRecord :=
  requests.foldl (fun log r => log ++ (serve server r.1 r.2).2) log

/-- What the log says of one request. -/
structure Recorded (server : Server) (request : Request) (status : ℕ)
    (records : List AuditRecord) : Prop where
  atMostOne : records.length ≤ 1
  /-- A record names who was authenticated, and the request. -/
  names : ∀ record ∈ records, record.detail = requestLine request ∧
    ∃ principal, auth server request = .ok (some principal) ∧ record.agentId = principal.name
  /-- A refusal of the role is recorded. -/
  denied : ∀ principal requirement, auth server request = .ok (some principal) →
    routeRequirement request.method request.path = some requirement →
      principal.role.rank < requirement.minRole.rank →
        ∃ record, records = [record] ∧ record.action = .authAttempt ∧
          record.outcome = "denied: role " ++ principal.role.display ++ " requires " ++
            requirement.minRole.display
  /-- A change that is let through is recorded, with the status of its answer. -/
  changed : ∀ principal, auth server request = .ok (some principal) →
    Changes request.method request.path →
      mayChange request.method request.path principal.role = true →
        ∃ record, records = [record] ∧ record.outcome = "http " ++ toString status

theorem recorded_serve (server : Server) (request : Request) (status : ℕ) :
    Recorded server request status (serve server request status).2 := by
  unfold serve
  cases hauth : auth server request with
  | error refusal =>
    exact ⟨Nat.zero_le _, by simp, fun p r h => by simp [hauth] at h,
      fun p h => by simp [hauth] at h⟩
  | ok user =>
    cases user with
    | none =>
      exact ⟨Nat.zero_le _, by simp [authorizeHttp], fun p r h => by simp [hauth] at h,
        fun p h => by simp [hauth] at h⟩
    | some principal =>
      cases hreq : routeRequirement request.method request.path with
      | none =>
        refine ⟨by simp [authorizeHttp, hreq], by simp [authorizeHttp, hreq],
          fun p r _ h => by simp [hreq] at h, fun p _ h => ?_⟩
        obtain ⟨action, h'⟩ := routeRequirement_of_changes h
        rw [hreq] at h'
        cases h'
      | some requirement =>
        by_cases hrole : principal.role.rank < requirement.minRole.rank
        · have hrecords : (authorizeHttp request (some principal) status).2 =
              [⟨principal.name, .authAttempt, requestLine request, "denied: role " ++
                principal.role.display ++ " requires " ++ requirement.minRole.display⟩] := by
            simp only [authorizeHttp, hreq, hrole, if_true]
          rw [hrecords]
          refine ⟨le_rfl, fun record hr => ?_, fun p r hp hr _ => ?_, fun p hp hchanges hmay => ?_⟩
          · rw [List.mem_singleton.1 hr]
            exact ⟨rfl, principal, hauth, rfl⟩
          · rw [hauth] at hp
            cases hp
            rw [hreq] at hr
            cases hr
            exact ⟨_, rfl, rfl, rfl⟩
          · rw [hauth] at hp
            cases hp
            obtain ⟨action, h⟩ := routeRequirement_of_changes hchanges
            rw [hreq] at h
            cases h
            exact absurd ((mayChange_iff _).1 hmay) (not_le.2 hrole)
        · have hrecords : (authorizeHttp request (some principal) status).2 =
              if requirement.auditOnSuccess then
                [⟨principal.name, requirement.auditAction, requestLine request,
                  "http " ++ toString status⟩]
              else [] := by
            simp only [authorizeHttp, hreq, hrole, if_false]
          rw [hrecords]
          refine ⟨?_, fun record hr => ?_, fun p r hp hr hlt => ?_, fun p hp hchanges _ => ?_⟩
          · split
            · exact le_rfl
            · exact Nat.zero_le _
          · split at hr
            · rw [List.mem_singleton.1 hr]
              exact ⟨rfl, principal, hauth, rfl⟩
            · cases hr
          · rw [hauth] at hp
            cases hp
            rw [hreq] at hr
            cases hr
            exact absurd hlt hrole
          · obtain ⟨action, h⟩ := routeRequirement_of_changes hchanges
            rw [hreq] at h
            cases h
            exact ⟨_, rfl, rfl⟩

/-- **The audit trail** of a run: for each request, in order, what is recorded of it, and nothing
else; what the log held before stays. -/
theorem trail_run (server : Server) (log : List AuditRecord) (requests : List (Request × ℕ)) :
    ∃ blocks : List (List AuditRecord), trail server log requests = log ++ blocks.flatten ∧
      List.Forall₂ (fun r block => Recorded server r.1 r.2 block) requests blocks := by
  induction requests generalizing log with
  | nil => exact ⟨[], by simp [trail], .nil⟩
  | cons r requests ih =>
    obtain ⟨blocks, htrail, hblocks⟩ := ih (log ++ (serve server r.1 r.2).2)
    refine ⟨(serve server r.1 r.2).2 :: blocks, ?_, .cons (recorded_serve server r.1 r.2) hblocks⟩
    rw [trail, List.foldl_cons, ← trail, htrail, List.flatten_cons, List.append_assoc]

end ApiGate
end RustyHand
