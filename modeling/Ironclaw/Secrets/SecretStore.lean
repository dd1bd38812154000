import Ironclaw.HostApi.Capability
import Ironclaw.Lib.Task

/-! # The secret store

`SecretStore` of `ironclaw_secrets/src/secret_store.rs`: the operations on secrets and on one-shot leases,
as programs whose requests go to the clock, to the generator of ids and to the filesystem. A secret is
written and deleted without a condition. The row of a lease is created once and changed by `cas_update`
only: read it, compute its new value, and write that on condition that the version is still the one that
was read.

A row is addressed by its directory and its last path segment; what `/secrets` resolves to for a scope is
the business of the mount view, as is the encryption that of `SecretsCrypto`. A call that runs out of time
is one that makes no more requests. -/

namespace Ironclaw.Secrets

/-- A generated id; that two of them differ is all that is used. -/
structure SecretLeaseId where
  asUuid : ℕ
deriving DecidableEq

inductive SecretLeaseStatus where
  | active | consumed | revoked | expired
deriving DecidableEq

structure SecretLease where
  id : SecretLeaseId
  scope : ResourceScope
  handle : SecretHandle
  status : SecretLeaseStatus

inductive SecretStoreError where
  | unknownSecret (scope : ResourceScope) (handle : SecretHandle)
  | unknownLease (scope : ResourceScope) (leaseId : SecretLeaseId)
  | leaseConsumed (leaseId : SecretLeaseId)
  | leaseRevoked (leaseId : SecretLeaseId)
  | leaseExpired (leaseId : SecretLeaseId)
  | secretExpired
  | secretMaterialUnreadable (reason : String)
  | backendMisconfigured (reason : String)
  | storeUnavailable (reason : String)

/-- The errors of the filesystem, by what the store makes of them. -/
inductive FsFault where
  | notFound
  | permissionDenied
  | versionMismatch
  | unsupported
  | other (kind : String)

def fsToSecretStoreError : FsFault → SecretStoreError
  | .notFound => .storeUnavailable "filesystem entry missing"
  | .permissionDenied => .storeUnavailable "filesystem permission denied"
  | .versionMismatch => .storeUnavailable "filesystem version mismatch"
  | .unsupported => .storeUnavailable "filesystem error: unsupported"
  | .other kind => .storeUnavailable ("filesystem error: " ++ kind)

/-- What an encryption is bound to. -/
structure SecretAad where
  tenantId : TenantId
  userId : UserId
  agentId : Option AgentId
  projectId : Option ProjectId
  handle : SecretHandle
deriving DecidableEq

def filesystemSecretAad (scope : ResourceScope) (handle : SecretHandle) : SecretAad where
  tenantId := scope.tenantId
  userId := scope.userId
  agentId := scope.agentId
  projectId := scope.projectId
  handle := handle

/-- Authenticated encryption. A sealed text is the ciphertext with its salt; the first argument of
`encrypt` is the random bytes of the call. -/
structure SecretsCrypto where
  Sealed : Type
  encrypt : ℕ → String → SecretAad → Except SecretStoreError Sealed
  decrypt : Sealed → SecretAad → Except SecretStoreError String
  decrypt_encrypt : ∀ {random text aad box}, encrypt random text aad = .ok box → decrypt box aad = .ok text

structure SecretStore where
  crypto : SecretsCrypto
  /-- The root of `/secrets` for a scope. -/
  mounted : ResourceScope → String
  leaseTtl : Timestamp

/-! ### Rows and paths -/

structure StoredSecret (Sealed : Type) where
  scope : ResourceScope
  handle : SecretHandle
  box : Sealed
  expiresAt : Option Timestamp

structure StoredLease where
  scope : ResourceScope
  handle : SecretHandle
  leaseId : SecretLeaseId
  status : SecretLeaseStatus
  leaseExpiresAt : Timestamp
  secretExpiresAt : Option Timestamp
deriving DecidableEq

structure SecretPath where
  root : String
  handle : SecretHandle
deriving DecidableEq

structure LeasePath where
  root : String
  leaseId : SecretLeaseId
deriving DecidableEq

def sameScopeOwner (left right : ResourceScope) : Bool :=
  left.tenantId = right.tenantId && left.userId = right.userId && left.agentId = right.agentId &&
    left.projectId = right.projectId

def sameScopeForLease (left right : ResourceScope) : Bool :=
  sameScopeOwner left right && left.missionId = right.missionId && left.threadId = right.threadId &&
    left.invocationId = right.invocationId

def StoredLease.toPublic (stored : StoredLease) : SecretLease where
  id := stored.leaseId
  scope := stored.scope
  handle := stored.handle
  status := stored.status

/-- An instant that has been reached. -/
def passed (expiresAt : Option Timestamp) (now : Timestamp) : Bool :=
  expiresAt.any fun expiresAt => expiresAt ≤ now

def StoredLease.effectiveStatus (stored : StoredLease) (now : Timestamp) : SecretLeaseStatus :=
  match stored.status with
  | .active =>
    if stored.leaseExpiresAt ≤ now || passed stored.secretExpiresAt now then .expired else .active
  | other => other

/-! ### Requests -/

inductive CasExpectation where
  | any
  | absent
  | version (version : ℕ)

inductive FileOp (Sealed : Type) where
  | getSecret (path : SecretPath)
  | putSecret (path : SecretPath) (secret : StoredSecret Sealed)
  | deleteSecret (path : SecretPath)
  | getLease (path : LeasePath)
  | putLease (path : LeasePath) (lease : StoredLease) (cas : CasExpectation)

@[reducible] def FileOp.Value {Sealed : Type} : FileOp Sealed → Type
  | .getSecret _ => Option (StoredSecret Sealed)
  | .getLease _ => Option (StoredLease × ℕ)
  | .putSecret _ _ | .deleteSecret _ | .putLease _ _ _ => Unit

inductive StoreRequest (Sealed : Type) where
  | now
  | newLeaseId
  | file (op : FileOp Sealed)

@[reducible] def StoreRequest.Answer {Sealed : Type} : StoreRequest Sealed → Type
  | .now => Timestamp
  | .newLeaseId => SecretLeaseId
  | .file op => Except FsFault op.Value

abbrev StoreTask (Sealed : Type) := Task (ρ := StoreRequest Sealed) StoreRequest.Answer

def now {Sealed : Type} : StoreTask Sealed Timestamp := Task.request StoreRequest.now

def newLeaseId {Sealed : Type} : StoreTask Sealed SecretLeaseId := Task.request StoreRequest.newLeaseId

def FileOp.make {Sealed : Type} (op : FileOp Sealed) : StoreTask Sealed (Except FsFault op.Value) :=
  Task.request (StoreRequest.file op)

/-! ### `cas_update` of a lease -/

/-- The errors of `cas_update`, other than those of the clock. -/
inductive CasUpdateError where
  | apply (error : SecretStoreError)
  | retriesExhausted
  | casUnsupported
  | backend (fault : FsFault)

def filesystemCasRetries : ℕ := 32

section cas
variable {Sealed T : Type} (path : LeasePath)
  (apply : Option StoredLease → StoreTask Sealed (Except SecretStoreError (StoredLease × T)))

/-- What follows a refused write. -/
def afterWrite (retry : StoreTask Sealed (Except CasUpdateError T)) (outcome : T) :
    Except FsFault Unit → StoreTask Sealed (Except CasUpdateError T)
  | .ok () => pure (.ok outcome)
  | .error .versionMismatch => retry
  | .error .unsupported => pure (.error .casUnsupported)
  | .error fault => pure (.error (.backend fault))

def expectation (current : Option (StoredLease × ℕ)) : CasExpectation :=
  match current with
  | some (_, version) => .version version
  | none => .absent

/-- One round: read the lease, apply the transform, and go on with `change` when it makes a difference. -/
def casRound (change : Option (StoredLease × ℕ) → StoredLease → T → StoreTask Sealed (Except CasUpdateError T)) :
    StoreTask Sealed (Except CasUpdateError T) := do
  match ← (FileOp.getLease path).make with
  | .error fault => pure (.error (.backend fault))
  | .ok current =>
    match ← apply (current.map Prod.fst) with
    | .error error => pure (.error (.apply error))
    | .ok (snapshot, outcome) =>
      if current.map Prod.fst = some snapshot then pure (.ok outcome)
      else change current snapshot outcome

/-- The loop, with the number of writes that may still be tried. -/
def casUpdateLoop : ℕ → StoreTask Sealed (Except CasUpdateError T)
  | 0 => casRound path apply fun _ _ _ => pure (.error .retriesExhausted)
  | attempts + 1 => casRound path apply fun current snapshot outcome => do
    let written ← (FileOp.putLease path snapshot (expectation current)).make
    afterWrite (casUpdateLoop attempts) outcome written

def mapCasErrorSecret (op : String) : CasUpdateError → SecretStoreError
  | .apply inner => inner
  | .retriesExhausted => .storeUnavailable ("secret lease " ++ op ++ " retry limit exceeded")
  | .casUnsupported => .storeUnavailable "backend does not support versioned compare-and-swap"
  | .backend fault => fsToSecretStoreError fault

def casUpdate (op : String) : StoreTask Sealed (Except SecretStoreError T) := do
  let result ← casUpdateLoop path apply filesystemCasRetries
  pure (result.mapError (mapCasErrorSecret op))

end cas

/-! ### The operations -/

namespace SecretStore

variable (store : SecretStore)

abbrev Task (α : Type) := StoreTask store.crypto.Sealed α

variable (scope : ResourceScope)

def secretOwnerAlias : String :=
  store.mounted scope ++ ((scope.agentId.map fun id => "/agents/" ++ id.asStr).getD "") ++
    ((scope.projectId.map fun id => "/projects/" ++ id.asStr).getD "")

def secretPath (handle : SecretHandle) : SecretPath :=
  ⟨store.secretOwnerAlias scope ++ "/secrets", handle⟩

def leasePath (leaseId : SecretLeaseId) : LeasePath :=
  ⟨store.secretOwnerAlias scope ++ "/secret-leases", leaseId⟩

def readSecret (handle : SecretHandle) :
    store.Task (Except SecretStoreError (Option (StoredSecret store.crypto.Sealed))) := do
  match ← (FileOp.getSecret (store.secretPath scope handle)).make with
  | .error fault => pure (.error (fsToSecretStoreError fault))
  | .ok none => pure (.ok none)
  | .ok (some stored) =>
    if !sameScopeOwner stored.scope scope || stored.handle ≠ handle then pure (.ok none)
    else pure (.ok (some stored))

def put (handle : SecretHandle) (material : String)
    (expiresAt : Option Timestamp) (random : ℕ) : store.Task (Except SecretStoreError Unit) :=
  match store.crypto.encrypt random material (filesystemSecretAad scope handle) with
  | .error error => pure (.error error)
  | .ok box => do
    let written ← (FileOp.putSecret (store.secretPath scope handle) ⟨scope, handle, box, expiresAt⟩).make
    pure (written.mapError fsToSecretStoreError)

def delete (handle : SecretHandle) : store.Task (Except SecretStoreError Bool) := do
  match ← (FileOp.deleteSecret (store.secretPath scope handle)).make with
  | .ok () => pure (.ok true)
  | .error .notFound => pure (.ok false)
  | .error fault => pure (.error (fsToSecretStoreError fault))

/-- Write the row of a new lease. -/
def issueLease (handle : SecretHandle) (secretExpiresAt : Option Timestamp) :
    store.Task (Except SecretStoreError SecretLease) := do
  let leaseId ← newLeaseId
  let issuedAt ← now
  let lease : StoredLease :=
    { scope := scope
      handle := handle
      leaseId := leaseId
      status := .active
      leaseExpiresAt := issuedAt + store.leaseTtl
      secretExpiresAt := secretExpiresAt }
  let written ← (FileOp.putLease (store.leasePath scope leaseId) lease .any).make
  pure (written.map (fun _ => lease.toPublic) |>.mapError fsToSecretStoreError)

def leaseOnce (handle : SecretHandle) : store.Task (Except SecretStoreError SecretLease) := do
  match ← store.readSecret scope handle with
  | .error error => pure (.error error)
  | .ok none => pure (.error (.unknownSecret scope handle))
  | .ok (some stored) =>
    match stored.expiresAt with
    | none => store.issueLease scope handle none
    | some expiresAt =>
      let readAt ← now
      if expiresAt ≤ readAt then pure (.error .secretExpired)
      else store.issueLease scope handle (some expiresAt)

/-- The material of the secret that is stored under the handle of a lease now, and the lease marked. -/
def takeMaterial (lease : StoredLease) :
    store.Task (Except SecretStoreError (StoredLease × Except SecretStoreError String)) := do
  match ← store.readSecret scope lease.handle with
  | .error error => pure (.error error)
  | .ok none => pure (.error (.unknownSecret scope lease.handle))
  | .ok (some stored) =>
    match store.crypto.decrypt stored.box (filesystemSecretAad scope lease.handle) with
    | .error error => pure (.error error)
    | .ok material => pure (.ok ({ lease with status := .consumed }, .ok material))

/-- One round of `consume`. The expiry of the secret is the one that the lease remembers. -/
def consumeApply (leaseId : SecretLeaseId) (current : Option StoredLease) :
    store.Task (Except SecretStoreError (StoredLease × Except SecretStoreError String)) :=
  match current with
  | none => pure (.error (.unknownLease scope leaseId))
  | some lease =>
    if !sameScopeForLease lease.scope scope then pure (.error (.unknownLease scope leaseId))
    else do
      let readAt ← now
      match lease.effectiveStatus readAt with
      | .consumed => pure (.error (.leaseConsumed leaseId))
      | .revoked => pure (.error (.leaseRevoked leaseId))
      | .expired =>
        if lease.status = .expired then pure (.error (.leaseExpired leaseId))
        else pure (.ok ({ lease with status := .expired }, .error (.leaseExpired leaseId)))
      | .active => store.takeMaterial scope lease

def consume (leaseId : SecretLeaseId) : store.Task (Except SecretStoreError String) := do
  let result ← casUpdate (store.leasePath scope leaseId) (store.consumeApply scope leaseId) "consume"
  pure (result.bind id)

/-- One round of `revoke`. -/
def revokeApply (leaseId : SecretLeaseId) (current : Option StoredLease) :
    store.Task (Except SecretStoreError (StoredLease × SecretLease)) :=
  match current with
  | none => pure (.error (.unknownLease scope leaseId))
  | some lease =>
    if !sameScopeForLease lease.scope scope then pure (.error (.unknownLease scope leaseId))
    else
      match lease.status with
      | .consumed | .revoked | .expired => pure (.ok (lease, lease.toPublic))
      | .active => do
        let readAt ← now
        let status := if lease.effectiveStatus readAt = .expired then .expired else .revoked
        let updated := { lease with status := status }
        pure (.ok (updated, updated.toPublic))

def revoke (leaseId : SecretLeaseId) : store.Task (Except SecretStoreError SecretLease) :=
  casUpdate (store.leasePath scope leaseId) (store.revokeApply scope leaseId) "revoke"

end SecretStore

/-! ### Calls -/

inductive SecretCall where
  | put (scope : ResourceScope) (handle : SecretHandle) (material : String) (expiresAt : Option Timestamp)
      (random : ℕ)
  | delete (scope : ResourceScope) (handle : SecretHandle)
  | leaseOnce (scope : ResourceScope) (handle : SecretHandle)
  | consume (scope : ResourceScope) (leaseId : SecretLeaseId)
  | revoke (scope : ResourceScope) (leaseId : SecretLeaseId)

inductive SecretResult where
  | stored (result : Except SecretStoreError Unit)
  | deleted (result : Except SecretStoreError Bool)
  | leased (result : Except SecretStoreError SecretLease)
  | consumed (result : Except SecretStoreError String)
  | revoked (result : Except SecretStoreError SecretLease)

def SecretCall.program (store : SecretStore) : SecretCall → store.Task SecretResult
  | .put scope handle material expiresAt random => do
    let result ← store.put scope handle material expiresAt random
    pure (.stored result)
  | .delete scope handle => do
    let result ← store.delete scope handle
    pure (.deleted result)
  | .leaseOnce scope handle => do
    let result ← store.leaseOnce scope handle
    pure (.leased result)
  | .consume scope leaseId => do
    let result ← store.consume scope leaseId
    pure (.consumed result)
  | .revoke scope leaseId => do
    let result ← store.revoke scope leaseId
    pure (.revoked result)

end Ironclaw.Secrets
