import Ironclaw.Hooks.Registry
import Mathlib.Algebra.Group.PUnit

/-! # The state of predicate hooks

The in-memory backend of `ironclaw_hooks/src/predicate_state.rs`: for each key the samples of a
sliding window, with the set of the event ids in it. Both histories hold the same kind of bucket;
an invocation counts its samples and carries no value, a value is summed up as it comes and goes.
Values are `rust_decimal` numbers, of which the backend uses zero, sum and difference.

`makeRoom` evicts for a new key, `sample` records into the bucket of a key. Which of several equally
old buckets is evicted depends on the order in which a map enumerates its keys. -/

namespace Ironclaw.Hooks

/-! ### Keys and samples -/

structure InvocationKey where
  hookId : HookId
  tenantId : TenantId
  capability : String
deriving DecidableEq

structure ValueKey where
  hookId : HookId
  tenantId : TenantId
  capability : String
  field : String
deriving DecidableEq

structure PredicateEventId where
  asStr : String
deriving DecidableEq

inductive PredicateBackendError where
  | unavailable (reason : String)
  | windowOverflow (key : String) (cap : ℕ)

structure Sample (V : Type) where
  timestamp : Timestamp
  value : V
  eventId : PredicateEventId

def maxHistoryKeys : ℕ := 8192
def maxKeysPerTenant : ℕ := maxHistoryKeys / 4
def maxSamplesPerKey : ℕ := 4096

/-! ### The window -/

/-- `chrono::Duration::MAX`, in nanoseconds: the largest number of milliseconds of an `i64`. -/
def maxDuration : ℤ := (2 ^ 63 - 1) * 1000000

/-- `DateTime::<Utc>::MIN_UTC`, in nanoseconds: the first instant of the year -262143. -/
def minUtc : ℤ := -8334601228800 * 1000000000

/-- Where the duration or the difference is out of range, the cutoff is `now`. -/
def windowCutoff (now : Timestamp) (window : ℤ) : Timestamp :=
  if window ≤ maxDuration then if minUtc ≤ now - window then now - window else now else now

/-! ### Buckets -/

/-- `InvocationBucket` and `ValueBucket`. -/
structure Bucket (V : Type) where
  entries : List (Sample V)
  dedupIds : Finset PredicateEventId
  runningSum : V

namespace Bucket

variable {V : Type} [Zero V] [Add V] [Sub V]

def empty : Bucket V := ⟨[], ∅, 0⟩

def popFront (bucket : Bucket V) : Bucket V :=
  match bucket.entries with
  | [] => bucket
  | front :: rest =>
    { entries := rest
      dedupIds := bucket.dedupIds.erase front.eventId
      runningSum := bucket.runningSum - front.value }

def pushBack (bucket : Bucket V) (sample : Sample V) : Bucket V where
  entries := bucket.entries ++ [sample]
  dedupIds := insert sample.eventId bucket.dedupIds
  runningSum := bucket.runningSum + sample.value

/-- The order of timestamps, named so that `argmin` runs with it. -/
instance : Preorder (WithBot Timestamp) :=
  (@WithBot.linearOrder Timestamp Int.instLinearOrder).toPreorder

instance : DecidableLT (WithBot Timestamp) :=
  (@WithBot.linearOrder Timestamp Int.instLinearOrder).toDecidableLT

instance : DecidableLE (WithBot Timestamp) :=
  (@WithBot.linearOrder Timestamp Int.instLinearOrder).toDecidableLE

/-- The timestamp of the oldest sample; an empty bucket is older than all others. -/
def oldest (bucket : Bucket V) : WithBot Timestamp := (bucket.entries.head?.map Sample.timestamp : Option _)

/-- The samples at the front that are older than the cutoff are dropped; a round drops one. -/
def trimRounds (cutoff : Timestamp) : ℕ → Bucket V → Bucket V
  | 0, bucket => bucket
  | rounds + 1, bucket =>
    match bucket.entries with
    | [] => bucket
    | front :: _ =>
      if front.timestamp < cutoff then trimRounds cutoff rounds bucket.popFront else bucket

def trim (cutoff : Timestamp) (bucket : Bucket V) : Bucket V :=
  bucket.trimRounds cutoff bucket.entries.length

end Bucket

/-! ### Histories -/

structure Row (K V : Type) where
  key : K
  bucket : Bucket V

/-- The buckets of a map by key. -/
abbrev History (K V : Type) := Table (Row.key : Row K V → K)

section Histories

variable {K V : Type} [DecidableEq K] [Zero V] [Add V] [Sub V]

def History.bucketOf (history : History K V) (key : K) : Bucket V :=
  match history.get key with
  | some row => row.bucket
  | none => .empty

/-- The key of `evict_lru_invocation` and `evict_lru_value`: an empty bucket, or else the bucket whose
oldest sample is the oldest of all. -/
def lruVictim (history : History K V) : Option K :=
  ((history.rows.find? fun row => row.bucket.entries.isEmpty).or
    ((history.rows.filter fun row => !row.bucket.entries.isEmpty).argmin
      fun row => row.bucket.oldest)).map Row.key

/-- `lru_invocation_candidate_for_tenant` and `lru_value_candidate_for_tenant`. -/
def lruCandidateForTenant (tenantOf : K → TenantId) (history : History K V) (tenantId : TenantId) :
    Option (Row K V) :=
  (history.rows.filter fun row => tenantOf row.key = tenantId).argmin fun row => row.bucket.oldest

/-- `tenant_invocation_key_count` and `tenant_value_key_count`. -/
def tenantKeyCount (tenantOf : K → TenantId) (history : History K V) (tenantId : TenantId) : ℕ :=
  history.count fun row => tenantOf row.key = tenantId

/-- Records a sample for a key: the window is trimmed, an event that is still in it is not counted
again, and a full window refuses. A bucket that is left empty is dropped. -/
def sample (history : History K V) (key : K) (label : String) (cutoff : Timestamp)
    (entry : Sample V) : Except PredicateBackendError (Bucket V) × History K V :=
  let trimmed := (history.bucketOf key).trim cutoff
  let keep (bucket : Bucket V) : History K V :=
    if bucket.entries.isEmpty = true then history.remove key else history.put ⟨key, bucket⟩
  if entry.eventId ∈ trimmed.dedupIds then (.ok trimmed, keep trimmed)
  else if maxSamplesPerKey ≤ trimmed.entries.length then
    (.error (.windowOverflow label maxSamplesPerKey), keep trimmed)
  else (.ok (trimmed.pushBack entry), keep (trimmed.pushBack entry))

end Histories

/-! ### The backend -/

structure InMemoryPredicateStateBackend (D : Type) where
  invocationHistory : History InvocationKey Unit
  valueHistory : History ValueKey D
  evictions : ℕ

namespace InMemoryPredicateStateBackend

variable {D : Type} [Zero D] [Add D] [Sub D]

def new : InMemoryPredicateStateBackend D := ⟨.empty, .empty, 0⟩

variable (s : InMemoryPredicateStateBackend D)

/-- `evict_lru_for_tenant`: the oldest bucket of a tenant in both maps. -/
def evictLruForTenant (tenantId : TenantId) : InMemoryPredicateStateBackend D :=
  let dropInvocation (row : Row InvocationKey Unit) : InMemoryPredicateStateBackend D :=
    { s with
      invocationHistory := s.invocationHistory.remove row.key
      evictions := s.evictions + 1 }
  let dropValue (row : Row ValueKey D) : InMemoryPredicateStateBackend D :=
    { s with
      valueHistory := s.valueHistory.remove row.key
      evictions := s.evictions + 1 }
  match lruCandidateForTenant InvocationKey.tenantId s.invocationHistory tenantId,
      lruCandidateForTenant ValueKey.tenantId s.valueHistory tenantId with
  | some invocation, some value =>
    if invocation.bucket.oldest ≤ value.bucket.oldest then dropInvocation invocation
    else dropValue value
  | some invocation, none => dropInvocation invocation
  | none, some value => dropValue value
  | none, none => s

def evictLruInvocation : InMemoryPredicateStateBackend D :=
  match lruVictim s.invocationHistory with
  | some key =>
    { s with
      invocationHistory := s.invocationHistory.remove key
      evictions := s.evictions + 1 }
  | none => s

def evictLruValue : InMemoryPredicateStateBackend D :=
  match lruVictim s.valueHistory with
  | some key =>
    { s with
      valueHistory := s.valueHistory.remove key
      evictions := s.evictions + 1 }
  | none => s

/-- The keys of a tenant in both maps. -/
def keysOfTenant (tenantId : TenantId) : ℕ :=
  tenantKeyCount InvocationKey.tenantId s.invocationHistory tenantId +
    tenantKeyCount ValueKey.tenantId s.valueHistory tenantId

/-- A new key evicts a bucket of its own tenant at the quota of the tenant, and otherwise a bucket of
the map it goes to where that is full. -/
def makeRoom (tenantId : TenantId) (known full : Bool)
    (evictLru : InMemoryPredicateStateBackend D → InMemoryPredicateStateBackend D) :
    InMemoryPredicateStateBackend D :=
  if known = true then s
  else if maxKeysPerTenant ≤ s.keysOfTenant tenantId then s.evictLruForTenant tenantId
  else if full = true then evictLru s
  else s

def recordInvocation (key : InvocationKey)
    (eventId : PredicateEventId) (now : Timestamp) (window : ℤ) :
    Except PredicateBackendError ℕ × InMemoryPredicateStateBackend D :=
  let room := s.makeRoom key.tenantId (s.invocationHistory.get key).isSome
    (decide (maxHistoryKeys ≤ s.invocationHistory.rows.length)) evictLruInvocation
  let (result, history) := sample room.invocationHistory key
    (key.tenantId.asStr ++ "/" ++ key.capability) (windowCutoff now window) ⟨now, (), eventId⟩
  (result.map fun bucket => bucket.entries.length,
    { room with
      invocationHistory := history })

def recordValue (key : ValueKey)
    (eventId : PredicateEventId) (now : Timestamp) (value : D) (window : ℤ) :
    Except PredicateBackendError D × InMemoryPredicateStateBackend D :=
  let room := s.makeRoom key.tenantId (s.valueHistory.get key).isSome
    (decide (maxHistoryKeys ≤ s.valueHistory.rows.length)) evictLruValue
  let (result, history) := sample room.valueHistory key
    (key.tenantId.asStr ++ "/" ++ key.capability ++ "#" ++ key.field) (windowCutoff now window)
    ⟨now, value, eventId⟩
  (result.map fun bucket => bucket.runningSum,
    { room with
      valueHistory := history })

end InMemoryPredicateStateBackend

end Ironclaw.Hooks
