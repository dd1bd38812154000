import Ironclaw.Lib.Run
import Ironclaw.Lib.Table
import Ironclaw.Network.Egress

/-! # The credential broker

`InMemoryCredentialBroker` of `ironclaw_secrets/src/lib.rs` with the sessions that `placeholder.rs`
mints on first use. All session state is under one lock, so that every operation is one step; the
accounts are under a lock of their own, which a mint takes once.

A `CredentialSessionLease` is a value that a caller holds. `Broker.leases` has every lease that was
handed out: dropping it and revoking it explicitly are the same call of `release_lease`, and only the
first of them has an effect. -/

namespace Ironclaw.Secrets

open Network (NetworkMethod)

structure CredentialAccountId where
  asStr : String
deriving DecidableEq

structure CredentialSessionId where
  asUuid : BitVec 128
deriving DecidableEq

structure CredentialPlaceholderToken where
  asStr : String
deriving DecidableEq

inductive CredentialAccountStatus where
  | active | expired | revoked

/-! ### Targets -/

/-- The `url` crate, with the path of a URL. -/
structure UrlCrate extends Network.UrlCrate where
  path : Url → String

inductive CredentialPathPolicy where
  | exact (path : String)
  | prefixed (head : String)

structure CredentialTargetPolicy where
  scheme : String
  host : String
  port : Option (BitVec 16)
  path : CredentialPathPolicy
  methods : List NetworkMethod

/-- `split_once`: what stands before and after the first `sep`. -/
def splitOnce (sep : List Char) : List Char → Option (List Char × List Char)
  | [] => if sep = [] then some ([], []) else none
  | c :: rest =>
    if sep.isPrefixOf (c :: rest) then some ([], (c :: rest).drop sep.length)
    else (splitOnce sep rest).map fun parts => (c :: parts.1, parts.2)

def rawUrlPath (url : String) : Option String := do
  let afterScheme ← splitOnce "://".toList url.toList
  let path := afterScheme.2.dropWhile (· ≠ '/')
  if path = [] then none
  else some (String.ofList (path.takeWhile fun c => c ≠ '?' ∧ c ≠ '#'))

def hexNibble (byte : UInt8) : Option UInt8 :=
  if 48 ≤ byte ∧ byte ≤ 57 then some (byte - 48)
  else if 97 ≤ byte ∧ byte ≤ 102 then some (byte - 97 + 10)
  else if 65 ≤ byte ∧ byte ≤ 70 then some (byte - 65 + 10)
  else none

def percentDecodeBytes : List UInt8 → List UInt8
  | [] => []
  | 37 :: high :: low :: rest =>
    match hexNibble high, hexNibble low with
    | some hi, some lo => (hi <<< 4 ||| lo) :: percentDecodeBytes rest
    | _, _ => 37 :: percentDecodeBytes (high :: low :: rest)
  | byte :: rest => byte :: percentDecodeBytes rest

/-- A segment that decodes to a dot segment, or to text with a slash or a percent sign. -/
def pathHasEncodedTraversal (path : String) : Bool :=
  (Text.split path '/').any fun segment =>
    let decoded := percentDecodeBytes (segment.toList.flatMap String.utf8EncodeChar)
    decoded = [46] || decoded = [46, 46] || decoded.contains 47 || decoded.contains 37

def pathMatchesPrefix (path head : String) : Bool :=
  if pathHasEncodedTraversal path then false
  else
    let path := (Text.stripLast path "/").getD path
    let head := (Text.stripLast head "/").getD head
    if path = head then true
    else
      match Text.stripHead path head with
      | some rest => rest.toList.head? = some '/'
      | none => false

def CredentialTargetPolicy.matches (crate : UrlCrate) (policy : CredentialTargetPolicy)
    (method : NetworkMethod) (url : String) : Bool :=
  match crate.parse url with
  | .error _ => false
  | .ok parsed =>
    if crate.username parsed ≠ "" ∨ (crate.password parsed).isSome then false
    else if (rawUrlPath url).any pathHasEncodedTraversal then false
    else if policy.scheme ≠ crate.scheme parsed then false
    else if !(crate.hostStr parsed).any (Text.eqIgnoreAsciiCase · policy.host) then false
    else if policy.port.any fun port => some port ≠ crate.portOrKnownDefault parsed then false
    else if !policy.methods.contains method then false
    else
      match policy.path with
      | .exact path => crate.path parsed = path
      | .prefixed head => pathMatchesPrefix (crate.path parsed) head

/-! ### Accounts and sessions -/

structure CredentialAccountKey where
  tenantId : TenantId
  userId : UserId
  agentId : Option AgentId
  projectId : Option ProjectId
  accountId : CredentialAccountId
deriving DecidableEq

def CredentialAccountKey.new (scope : ResourceScope) (accountId : CredentialAccountId) :
    CredentialAccountKey where
  tenantId := scope.tenantId
  userId := scope.userId
  agentId := scope.agentId
  projectId := scope.projectId
  accountId := accountId

structure CredentialAccount where
  scope : ResourceScope
  id : CredentialAccountId
  providerOrExtensionId : ExtensionId
  status : CredentialAccountStatus
  secretHandles : List SecretHandle
  allowedTargets : List CredentialTargetPolicy

def CredentialAccount.key (account : CredentialAccount) : CredentialAccountKey :=
  .new account.scope account.id

structure CredentialSession where
  scope : ResourceScope
  invocationId : InvocationId
  capabilityId : CapabilityId
  extensionId : ExtensionId
  accountId : CredentialAccountId
  secretHandles : List SecretHandle
  allowedTargets : List CredentialTargetPolicy
  expiresAt : Option Timestamp
  maxUses : Option ℕ
  correlationId : CredentialSessionId

structure CredentialSessionRequest where
  scope : ResourceScope
  invocationId : InvocationId
  capabilityId : CapabilityId
  extensionId : ExtensionId
  accountId : CredentialAccountId
  method : NetworkMethod
  url : String
  expiresAt : Option Timestamp
  maxUses : Option ℕ

inductive CredentialBrokerError where
  | missingCredential (accountId : CredentialAccountId)
  | credentialScopeMismatch (accountId : CredentialAccountId)
  | credentialInvocationMismatch (accountId : CredentialAccountId)
  | unknownSession (sessionId : CredentialSessionId)
  | sessionExpired (sessionId : CredentialSessionId)
  | sessionUseLimitExceeded (sessionId : CredentialSessionId)
  | credentialExpired (accountId : CredentialAccountId)
  | credentialRevoked (accountId : CredentialAccountId)
  | credentialExtensionMismatch (accountId : CredentialAccountId)
  | credentialPolicyMismatch (accountId : CredentialAccountId)
deriving DecidableEq

def seconds (n : ℕ) : Timestamp := n * 1000000000

def credentialSessionDefaultTtlSeconds : ℕ := 30 * 60

def credentialSessionMaxTtlSeconds : ℕ := 30 * 60

/-- Validate a request against its account; the session is not published. -/
def buildSession (crate : UrlCrate) (accounts : Table CredentialAccount.key)
    (request : CredentialSessionRequest) (now : Timestamp) (fresh : CredentialSessionId) :
    Except CredentialBrokerError CredentialSession :=
  if request.invocationId ≠ request.scope.invocationId then
    .error (.credentialInvocationMismatch request.accountId)
  else
    match accounts.get (.new request.scope request.accountId) with
    | none => .error (.missingCredential request.accountId)
    | some account =>
      if account.key ≠ .new request.scope request.accountId then
        .error (.credentialScopeMismatch request.accountId)
      else if account.providerOrExtensionId ≠ request.extensionId then
        .error (.credentialExtensionMismatch request.accountId)
      else
        match account.status with
        | .expired => .error (.credentialExpired request.accountId)
        | .revoked => .error (.credentialRevoked request.accountId)
        | .active =>
          if !account.allowedTargets.any fun target => target.matches crate request.method request.url then
            .error (.credentialPolicyMismatch request.accountId)
          else
            .ok
              { scope := request.scope
                invocationId := request.invocationId
                capabilityId := request.capabilityId
                extensionId := request.extensionId
                accountId := account.id
                secretHandles := account.secretHandles
                allowedTargets := account.allowedTargets
                expiresAt := some (min (request.expiresAt.getD
                  (now + seconds credentialSessionDefaultTtlSeconds))
                  (now + seconds credentialSessionMaxTtlSeconds))
                maxUses := request.maxUses
                correlationId := fresh }

structure CredentialSessionRecord where
  session : CredentialSession
  uses : ℕ
  leaseCount : ℕ

def CredentialSessionRecord.id (record : CredentialSessionRecord) : CredentialSessionId :=
  record.session.correlationId

def ensureCredentialSessionRecordUsable (record : CredentialSessionRecord)
    (sessionId : CredentialSessionId) (now : Timestamp) : Except CredentialBrokerError Unit :=
  if record.session.expiresAt.any fun expiresAt => expiresAt ≤ now then
    .error (.sessionExpired sessionId)
  else if record.session.maxUses.any fun maxUses => maxUses ≤ record.uses then
    .error (.sessionUseLimitExceeded sessionId)
  else .ok ()

structure JitMintKey where
  invocationId : InvocationId
  capabilityId : CapabilityId
  accountId : CredentialAccountId
deriving DecidableEq

def CredentialSessionRequest.key (request : CredentialSessionRequest) : JitMintKey where
  invocationId := request.invocationId
  capabilityId := request.capabilityId
  accountId := request.accountId

/-- Under one lock: the sessions, the index of the minted ones, and the sessions bound to a
placeholder. -/
structure SessionState where
  sessions : Table CredentialSessionRecord.id
  jitMinted : Table (Prod.fst : JitMintKey × CredentialSessionId → JitMintKey)
  sessionsByPlaceholder :
    Table (Prod.fst : CredentialPlaceholderToken × List CredentialSessionId → CredentialPlaceholderToken)

namespace SessionState

variable (state : SessionState)

variable (sessionId : CredentialSessionId)

def removeSessionAndIndices : SessionState where
  sessions := state.sessions.remove sessionId
  jitMinted := state.jitMinted.filter fun row => row.2 ≠ sessionId
  sessionsByPlaceholder :=
    (state.sessionsByPlaceholder.mapRows (fun row => (row.1, row.2.filter (· ≠ sessionId)))
      fun _ => rfl).filter fun row => row.2 ≠ []

def releaseLeaseInState : SessionState :=
  match state.sessions.get sessionId with
  | some record =>
    if 1 < record.leaseCount then
      { state with sessions := state.sessions.put { record with leaseCount := record.leaseCount - 1 } }
    else state.removeSessionAndIndices sessionId
  | none => state.removeSessionAndIndices sessionId

/-- Count one more lease first, then look whether the session is live, and give the lease back when it
is not. -/
def tryJoinLiveLease (now : Timestamp) : Except CredentialBrokerError Bool × SessionState :=
  match state.sessions.get sessionId with
  | none => (.ok false, state)
  | some record =>
    let record := { record with leaseCount := record.leaseCount + 1 }
    let joined := { state with sessions := state.sessions.put record }
    match ensureCredentialSessionRecordUsable record sessionId now with
    | .ok () => (.ok true, joined)
    | .error error =>
      (match error with
        | .unknownSession _ | .sessionExpired _ | .sessionUseLimitExceeded _ => .ok false
        | other => .error other, joined.releaseLeaseInState sessionId)

def bindPlaceholderToSession (placeholder : CredentialPlaceholderToken) (sessionId : CredentialSessionId) :
    SessionState :=
  let bound := ((state.sessionsByPlaceholder.get placeholder).map Prod.snd).getD []
  { state with
    sessionsByPlaceholder := state.sessionsByPlaceholder.put (placeholder, bound.insert sessionId) }

/-- The session already minted for a binding, when a lease on it could be joined. -/
def joinMinted (key : JitMintKey) (now : Timestamp) :
    Except CredentialBrokerError (Option CredentialSessionId) × SessionState :=
  match state.jitMinted.get key with
  | none => (.ok none, state)
  | some row =>
    match state.tryJoinLiveLease row.2 now with
    | (.error error, state') => (.error error, state')
    | (.ok true, state') => (.ok (some row.2), state')
    | (.ok false, state') => (.ok none, state')

def publish (key : JitMintKey) (session : CredentialSession) : SessionState :=
  { state with
    sessions := state.sessions.put ⟨session, 0, 1⟩
    jitMinted := state.jitMinted.put (key, session.correlationId) }

def consumeSessionUse (now : Timestamp) :
    Except CredentialBrokerError CredentialSession × SessionState :=
  match state.sessions.get sessionId with
  | none => (.error (.unknownSession sessionId), state)
  | some record =>
    match ensureCredentialSessionRecordUsable record sessionId now with
    | .error error => (.error error, state)
    | .ok () =>
      (.ok record.session,
        { state with sessions := state.sessions.put { record with uses := record.uses + 1 } })

end SessionState

/-! ### The broker and its callers -/

structure CredentialSessionLease where
  sessionId : CredentialSessionId
  revoked : Bool

/-- The broker with the leases its callers hold. `issued`, `minted` and `revoked` record what happened:
the ids generated so far, those of the sessions minted on first use, and those that `revoke_session` was
called with after that. -/
structure Broker where
  accounts : Table CredentialAccount.key
  state : SessionState
  leases : List CredentialSessionLease
  issued : List CredentialSessionId
  minted : List CredentialSessionId
  revoked : List CredentialSessionId

namespace Broker

def new : Broker := ⟨.empty, ⟨.empty, .empty, .empty⟩, [], [], [], []⟩

variable (crate : UrlCrate) (broker : Broker)

def createSession (request : CredentialSessionRequest) (now : Timestamp) (fresh : CredentialSessionId) :
    Except CredentialBrokerError CredentialSession × Broker :=
  match buildSession crate broker.accounts request now fresh with
  | .error error => (.error error, broker)
  | .ok session =>
    (.ok session,
      { broker with
        state := { broker.state with sessions := broker.state.sessions.put ⟨session, 0, 0⟩ }
        issued := fresh :: broker.issued })

/-- The lease on `sessionId` that a mint returns, with the placeholder bound to the session. -/
def lend (placeholder : CredentialPlaceholderToken) (sessionId : CredentialSessionId) :
    Except CredentialBrokerError CredentialSessionId × Broker :=
  (.ok sessionId,
    { broker with
      state := broker.state.bindPlaceholderToSession placeholder sessionId
      leases := broker.leases ++ [⟨sessionId, false⟩] })

/-- `now` and `later` are the two clock readings of the call. -/
def mintOnFirstUse (placeholder : CredentialPlaceholderToken) (request : CredentialSessionRequest)
    (now later : Timestamp) (fresh : CredentialSessionId) :
    Except CredentialBrokerError CredentialSessionId × Broker :=
  match broker.state.joinMinted request.key now with
  | (.error error, state) => (.error error, { broker with state := state })
  | (.ok (some sessionId), state) => lend { broker with state := state } placeholder sessionId
  | (.ok none, state) =>
    match buildSession crate broker.accounts request later fresh with
    | .error error => (.error error, { broker with state := state })
    | .ok session =>
      lend
        { broker with
          state := state.publish request.key session
          issued := fresh :: broker.issued
          minted := fresh :: broker.minted }
        placeholder session.correlationId

/-- `CredentialSessionLease::revoke_inner` of one of the leases. -/
def revokeInner (lease : ℕ) : Broker :=
  match broker.leases[lease]? with
  | none => broker
  | some held =>
    if held.revoked then broker
    else
      { broker with
        state := broker.state.releaseLeaseInState held.sessionId
        leases := broker.leases.set lease { held with revoked := true } }

def revokeSession (sessionId : CredentialSessionId) : Broker :=
  { broker with
    state := broker.state.removeSessionAndIndices sessionId
    revoked := if sessionId ∈ broker.minted then sessionId :: broker.revoked else broker.revoked }

end Broker

inductive BrokerOp where
  | putAccount (account : CredentialAccount)
  | createSession (request : CredentialSessionRequest) (now : Timestamp) (fresh : CredentialSessionId)
  | mintOnFirstUse (placeholder : CredentialPlaceholderToken) (request : CredentialSessionRequest)
      (now later : Timestamp) (fresh : CredentialSessionId)
  | dropLease (lease : ℕ)
  | revokeSession (sessionId : CredentialSessionId)
  | consumeSessionUse (sessionId : CredentialSessionId) (now : Timestamp)

namespace Broker

variable (crate : UrlCrate)

def next (broker : Broker) : BrokerOp → Broker
  | .putAccount account => { broker with accounts := broker.accounts.put account }
  | .createSession request now fresh => (broker.createSession crate request now fresh).2
  | .mintOnFirstUse placeholder request now later fresh =>
    (broker.mintOnFirstUse crate placeholder request now later fresh).2
  | .dropLease lease => broker.revokeInner lease
  | .revokeSession sessionId => broker.revokeSession sessionId
  | .consumeSessionUse sessionId now =>
    { broker with state := (broker.state.consumeSessionUse sessionId now).2 }

/-- The id that an operation generates is a new one. -/
def Fresh (broker : Broker) : BrokerOp → Prop
  | .createSession _ _ fresh => fresh ∉ broker.issued
  | .mintOnFirstUse _ _ _ _ fresh => fresh ∉ broker.issued
  | _ => True

end Broker

end Ironclaw.Secrets
