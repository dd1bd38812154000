import Ironclaw.Authorization.Authorize
import Ironclaw.Lib.Versioned

/-! # Capability leases

The transitions of a lease in `ironclaw_authorization/src/lib.rs`, and `update_lease_cas`, which
applies one of them to the stored lease: read, validate, write under the version read, at most
`CAS_RETRY_ATTEMPTS` times. The loop is an instance of `Lib.Versioned`, so that a run of any
number of processes is a sequence of transitions of one lease, and the results are about that
sequence.

* `accounts_of_sequential` is the invariant: what the counter, the status and the fingerprint say
  about the transitions so far. -/

namespace Ironclaw.Authorization

open Resources (U64)

/-- Identifies the invocation that a lease is for. -/
structure InvocationFingerprint where
  asStr : String
deriving DecidableEq

/-- Where a lease stands. -/
inductive CapabilityLeaseStatus where
  | active | claimed | dispatching | consumed | revoked
deriving DecidableEq

/-- A grant that is lent for some invocations. -/
structure CapabilityLease where
  scope : ResourceScope
  grant : CapabilityGrant
  invocationFingerprint : Option InvocationFingerprint
  status : CapabilityLeaseStatus

/-- Why a transition is refused. -/
inductive CapabilityLeaseError where
  | unknownLease (leaseId : CapabilityGrantId)
  | expiredLease (leaseId : CapabilityGrantId)
  | exhaustedLease (leaseId : CapabilityGrantId)
  | unclaimedFingerprintLease (leaseId : CapabilityGrantId)
  | fingerprintMismatch (leaseId : CapabilityGrantId)
  | inactiveLease (leaseId : CapabilityGrantId) (status : CapabilityLeaseStatus)
  | persistence (reason : String)
  | versionMismatch
  | casExhausted

namespace CapabilityLease

def new (scope : ResourceScope) (grant : CapabilityGrant) : CapabilityLease where
  scope := scope
  grant := grant
  invocationFingerprint := none
  status := .active

/-- The invocations that are left, if they are limited. -/
def remaining (lease : CapabilityLease) : Option U64 := lease.grant.constraints.maxInvocations

def setStatus (lease : CapabilityLease) (status : CapabilityLeaseStatus) : CapabilityLease :=
  { lease with
    status := status }

def setRemaining (lease : CapabilityLease) (remaining : U64) : CapabilityLease :=
  { lease with
    grant := { lease.grant with
      constraints := { lease.grant.constraints with
        maxInvocations := some remaining } } }

end CapabilityLease

/-! ### Checks -/

def leaseIsExpired (lease : CapabilityLease) (now : Timestamp) : Bool :=
  match lease.grant.constraints.expiresAt with
  | some expiresAt => expiresAt ≤ now
  | none => false

/-- The lease counts among the grants of the context. -/
def leaseIsAuthorizing (lease : CapabilityLease) (context : ExecutionContext) (now : Timestamp) :
    Bool :=
  lease.status = .active && lease.scope.invocationId = context.invocationId &&
    !leaseIsExpired lease now && lease.remaining ≠ some .zero

def ensureNotExpiredOrExhausted (lease : CapabilityLease) (now : Timestamp) :
    Except CapabilityLeaseError Unit := do
  rejectIf (leaseIsExpired lease now = true) (.expiredLease lease.grant.id)
  rejectIf (lease.remaining = some .zero) (.exhaustedLease lease.grant.id)

/-- What a claim checks. -/
def ensureClaimable (lease : CapabilityLease) (invocationFingerprint : InvocationFingerprint)
    (now : Timestamp) : Except CapabilityLeaseError Unit := do
  rejectIf (lease.status ≠ .active) (.inactiveLease lease.grant.id lease.status)
  rejectIf (lease.invocationFingerprint ≠ some invocationFingerprint)
    (.fingerprintMismatch lease.grant.id)
  ensureNotExpiredOrExhausted lease now

/-- What a consumption checks. -/
def ensureConsumable (lease : CapabilityLease) (now : Timestamp) :
    Except CapabilityLeaseError Unit := do
  rejectIf (lease.status = .consumed) (.exhaustedLease lease.grant.id)
  rejectIf (lease.status = .revoked) (.inactiveLease lease.grant.id lease.status)
  rejectIf (lease.invocationFingerprint.isSome = true ∧
      ¬ (lease.status = .claimed ∨ lease.status = .dispatching))
    (.unclaimedFingerprintLease lease.grant.id)
  ensureNotExpiredOrExhausted lease now

/-! ### Transitions -/

def revoke (lease : CapabilityLease) : CapabilityLease := lease.setStatus .revoked

/-- The lease is claimed for an invocation. -/
def claim (lease : CapabilityLease) (invocationFingerprint : InvocationFingerprint)
    (now : Timestamp) : Except CapabilityLeaseError CapabilityLease := do
  ensureClaimable lease invocationFingerprint now
  return lease.setStatus .claimed

theorem one_le_maxUses : 1 ≤ 2 ^ 64 - 1 := by decide

/-- The lease after one invocation. -/
def consumed (lease : CapabilityLease) : CapabilityLease :=
  let wasClaimed := lease.status = .claimed ∨ lease.status = .dispatching
  if lease.invocationFingerprint.isSome then
    match lease.remaining with
    | some _ => (lease.setRemaining .zero).setStatus .consumed
    | none => lease.setStatus .consumed
  else
    match lease.remaining with
    | some remaining =>
      let left := remaining.sub ⟨1, one_le_maxUses⟩
      if left = .zero then (lease.setRemaining left).setStatus .consumed
      else if wasClaimed then (lease.setRemaining left).setStatus .active
      else lease.setRemaining left
    | none => if wasClaimed then lease.setStatus .active else lease

/-- One invocation is used up. -/
def consume (lease : CapabilityLease) (now : Timestamp) :
    Except CapabilityLeaseError CapabilityLease := do
  ensureConsumable lease now
  return consumed lease

/-- The claimed invocation is dispatched. -/
def applyBeginDispatchClaimedTransition (lease : CapabilityLease)
    (invocationFingerprint : InvocationFingerprint) (now : Timestamp) :
    Except CapabilityLeaseError CapabilityLease := do
  rejectIf (lease.status ≠ .claimed) (.inactiveLease lease.grant.id lease.status)
  rejectIf (lease.invocationFingerprint ≠ some invocationFingerprint)
    (.fingerprintMismatch lease.grant.id)
  ensureNotExpiredOrExhausted lease now
  return lease.setStatus .dispatching

/-- The dispatch has not happened after all. -/
def applyAbortDispatchClaimedTransition (lease : CapabilityLease) :
    Except CapabilityLeaseError CapabilityLease :=
  match lease.status with
  | .dispatching => .ok (lease.setStatus .claimed)
  | .claimed => .ok lease
  | status => .error (.inactiveLease lease.grant.id status)

/-- The operations of the store on one lease. -/
inductive LeaseOp where
  | revoke
  | claim (invocationFingerprint : InvocationFingerprint)
  | consume
  | beginDispatchClaimed (invocationFingerprint : InvocationFingerprint)
  | abortDispatchClaimed
deriving DecidableEq

/-- What an operation does to the lease it reads. -/
def LeaseOp.mutate (op : LeaseOp) (now : Timestamp) (lease : CapabilityLease) :
    Except CapabilityLeaseError CapabilityLease :=
  match op with
  | .revoke => .ok (Authorization.revoke lease)
  | .claim invocationFingerprint => Authorization.claim lease invocationFingerprint now
  | .consume => Authorization.consume lease now
  | .beginDispatchClaimed invocationFingerprint =>
    applyBeginDispatchClaimedTransition lease invocationFingerprint now
  | .abortDispatchClaimed => applyAbortDispatchClaimedTransition lease

def casRetryAttempts : ℕ := 3

/-- A step of `update_lease_cas` by one of the processes. -/
def leaseStep {ι : Type} [DecidableEq ι] (cell : Cell ι LeaseOp CapabilityLease)
    (action : CellAction ι LeaseOp Timestamp) : Cell ι LeaseOp CapabilityLease :=
  cell.next LeaseOp.mutate casRetryAttempts action

/-! ### What a transition does -/

namespace CapabilityLease

variable (lease : CapabilityLease)

/-- The lease has been used up or taken back. -/
def Ended : Prop := lease.status = .consumed ∨ lease.status = .revoked

end CapabilityLease

variable {lease : CapabilityLease} {now : Timestamp}

theorem ensureNotExpiredOrExhausted_eq_ok {u : Unit} :
    ensureNotExpiredOrExhausted lease now = .ok u ↔
      leaseIsExpired lease now = false ∧ lease.remaining ≠ some .zero := by
  simp [ensureNotExpiredOrExhausted, bind_eq_ok]

theorem ensureClaimable_eq_ok {fingerprint : InvocationFingerprint} {u : Unit} :
    ensureClaimable lease fingerprint now = .ok u ↔
      lease.status = .active ∧ lease.invocationFingerprint = some fingerprint ∧
        leaseIsExpired lease now = false ∧ lease.remaining ≠ some .zero := by
  simp [ensureClaimable, bind_eq_ok, ensureNotExpiredOrExhausted_eq_ok]

theorem ensureConsumable_eq_ok {u : Unit} :
    ensureConsumable lease now = .ok u ↔
      ¬ lease.Ended ∧ (lease.invocationFingerprint.isSome = true →
        lease.status = .claimed ∨ lease.status = .dispatching) ∧
        leaseIsExpired lease now = false ∧ lease.remaining ≠ some .zero := by
  simp only [ensureConsumable, bind_eq_ok, rejectIf_eq_ok, exists_const,
    ensureNotExpiredOrExhausted_eq_ok, CapabilityLease.Ended, not_or, not_and, not_not, and_assoc]
  simp only [or_iff_not_imp_left]

variable {before after : CapabilityLease}

theorem mutate_cases {op : LeaseOp} (h : op.mutate now before = .ok after) :
    (op = .revoke ∧ after = before.setStatus .revoked) ∨
      (∃ fingerprint, op = .claim fingerprint ∧ before.status = .active ∧
        before.invocationFingerprint = some fingerprint ∧ after = before.setStatus .claimed) ∨
      (op = .consume ∧ ¬ before.Ended ∧ (before.invocationFingerprint.isSome = true →
        before.status = .claimed ∨ before.status = .dispatching) ∧
        before.remaining ≠ some .zero ∧ after = consumed before) ∨
      (∃ fingerprint, op = .beginDispatchClaimed fingerprint ∧ before.status = .claimed ∧
        before.invocationFingerprint = some fingerprint ∧ after = before.setStatus .dispatching) ∨
      (op = .abortDispatchClaimed ∧ (before.status = .claimed ∨ before.status = .dispatching) ∧
        after = before.setStatus .claimed) := by
  cases op with
  | revoke =>
    cases h
    exact .inl ⟨rfl, rfl⟩
  | claim fingerprint =>
    obtain ⟨u, hok, h⟩ := bind_eq_ok.1 h
    obtain ⟨hstatus, hfingerprint, -⟩ := ensureClaimable_eq_ok.1 hok
    cases h
    exact .inr (.inl ⟨fingerprint, rfl, hstatus, hfingerprint, rfl⟩)
  | consume =>
    obtain ⟨u, hok, h⟩ := bind_eq_ok.1 h
    obtain ⟨hended, hclaimed, -, hremaining⟩ := ensureConsumable_eq_ok.1 hok
    cases h
    exact .inr (.inr (.inl ⟨rfl, hended, hclaimed, hremaining, rfl⟩))
  | beginDispatchClaimed fingerprint =>
    simp only [LeaseOp.mutate, applyBeginDispatchClaimedTransition, bind_eq_ok, rejectIf_eq_ok,
      exists_const, pure_eq_ok, not_not] at h
    obtain ⟨hstatus, hfingerprint, -, -, rfl⟩ := h
    exact .inr (.inr (.inr (.inl ⟨fingerprint, rfl, hstatus, hfingerprint, rfl⟩)))
  | abortDispatchClaimed =>
    rw [LeaseOp.mutate, applyAbortDispatchClaimedTransition] at h
    split at h
    · rename_i hstatus
      cases h
      exact .inr (.inr (.inr (.inr ⟨rfl, .inr hstatus, rfl⟩)))
    · rename_i hstatus
      cases h
      refine .inr (.inr (.inr (.inr ⟨rfl, .inl hstatus, ?_⟩)))
      cases before
      cases hstatus
      rfl
    · cases h

theorem status_consumed_of_fingerprint
    (h : lease.invocationFingerprint.isSome = true) : (consumed lease).status = .consumed := by
  rw [consumed, if_pos h]
  split <;> rfl

theorem invocationFingerprint_consumed (lease : CapabilityLease) :
    (consumed lease).invocationFingerprint = lease.invocationFingerprint := by
  rw [consumed]
  split
  · split <;> rfl
  · split
    · dsimp only
      split
      · rfl
      · split <;> rfl
    · split <;> rfl

theorem remaining_consumed {m : U64} (h : lease.remaining = some m)
    (hpos : lease.remaining ≠ some .zero) :
    ∃ left, (consumed lease).remaining = some left ∧ left.val + 1 ≤ m.val := by
  have hm : m.val ≠ 0 := fun hzero => hpos (h.trans (congrArg some (Saturating.ext hzero)))
  rw [consumed, h]
  split
  · exact ⟨.zero, rfl, Nat.pos_of_ne_zero hm⟩
  · dsimp only
    refine ⟨m.sub ⟨1, by decide⟩, ?_, ?_⟩
    · split
      · rfl
      · split <;> rfl
    · show m.val - 1 + 1 ≤ m.val
      omega

/-! ### The invariant -/

/-- Number of successful invocations. -/
def consumptions (done : List (Done LeaseOp CapabilityLease)) : ℕ :=
  done.countP fun d => d.op = .consume

/-- The operation starts a dispatch. -/
def LeaseOp.Begins (op : LeaseOp) : Prop := ∃ fingerprint, op = .beginDispatchClaimed fingerprint

/-- The operations since the last abort. -/
def sinceAbort (done : List (Done LeaseOp CapabilityLease)) : List (Done LeaseOp CapabilityLease) :=
  done.takeWhile fun d => d.op ≠ .abortDispatchClaimed

/-- What a lease says about the transitions that led to it. -/
structure Accounts (issued : CapabilityLease) (done : List (Done LeaseOp CapabilityLease))
    (lease : CapabilityLease) : Prop where
  fingerprint : lease.invocationFingerprint = issued.invocationFingerprint
  bound : ∀ n, issued.remaining = some n →
    ∃ left, lease.remaining = some left ∧ consumptions done + left.val ≤ n.val
  /-- The one invocation of a fingerprinted lease ends it. -/
  once : issued.invocationFingerprint.isSome = true →
    consumptions done = 0 ∨ (consumptions done = 1 ∧ lease.Ended)
  claimed : ∀ fingerprint, issued.invocationFingerprint = some fingerprint →
    lease.status = .claimed ∨ lease.status = .dispatching →
    ∃ d ∈ done, d.op = .claim fingerprint
  /-- A dispatch that was begun and not aborted is under way, or the lease has ended. -/
  begun : ∀ d ∈ sinceAbort done, d.op.Begins →
    issued.invocationFingerprint.isSome = true ∧ (lease.status = .dispatching ∨ lease.Ended)

theorem accounts_nil {issued : CapabilityLease} (h : issued.status = .active) :
    Accounts issued [] issued where
  fingerprint := rfl
  bound := fun n hn => ⟨n, hn, by simp [consumptions]⟩
  once := fun _ => .inl rfl
  claimed := fun _ _ hstatus => by
    rw [h] at hstatus
    exact hstatus.elim nofun nofun
  begun := fun _ hmem => absurd hmem List.not_mem_nil

section

variable {issued before after : CapabilityLease} {done : List (Done LeaseOp CapabilityLease)}

variable {op : LeaseOp}

theorem consumptions_cons_of_ne (h : op ≠ .consume) :
    consumptions (⟨op, before, after⟩ :: done) = consumptions done :=
  List.countP_cons_of_neg (by simpa using h)

theorem consumptions_cons_consume :
    consumptions (⟨.consume, before, after⟩ :: done) = consumptions done + 1 :=
  List.countP_cons_of_pos (by simp)

theorem sinceAbort_cons_of_ne (h : op ≠ .abortDispatchClaimed) :
    sinceAbort (⟨op, before, after⟩ :: done) = ⟨op, before, after⟩ :: sinceAbort done :=
  List.takeWhile_cons_of_pos (by simpa using h)

theorem sinceAbort_cons_abort : sinceAbort (⟨.abortDispatchClaimed, before, after⟩ :: done) = [] :=
  List.takeWhile_cons_of_neg (by simp)

variable (h : Accounts issued done before)
include h

/-- A transition other than a consumption changes nothing but the status. -/
theorem Accounts.setStatus {status : CapabilityLeaseStatus} (hconsume : op ≠ .consume)
    (hended : before.Ended → (before.setStatus status).Ended)
    (hclaimed : ∀ fingerprint, issued.invocationFingerprint = some fingerprint →
      status = .claimed ∨ status = .dispatching →
      op = .claim fingerprint ∨ ∃ d ∈ done, d.op = .claim fingerprint)
    (hbegun : ∀ d ∈ sinceAbort (⟨op, before, before.setStatus status⟩ :: done), d.op.Begins →
      issued.invocationFingerprint.isSome = true ∧
        (status = .dispatching ∨ (before.setStatus status).Ended)) :
    Accounts issued (⟨op, before, before.setStatus status⟩ :: done) (before.setStatus status) where
  fingerprint := h.fingerprint
  bound := by
    rw [consumptions_cons_of_ne hconsume]
    exact h.bound
  once := fun hsome => by
    rw [consumptions_cons_of_ne hconsume]
    exact (h.once hsome).imp_right fun hone => ⟨hone.1, hended hone.2⟩
  claimed := fun fingerprint hfingerprint hstatus => by
    rcases hclaimed fingerprint hfingerprint hstatus with heq | ⟨d, hmem, hd⟩
    · exact ⟨_, List.mem_cons_self, heq⟩
    · exact ⟨d, List.mem_cons_of_mem _ hmem, hd⟩
  begun := hbegun

theorem Accounts.begun_of_cons (hop : ¬ op.Begins) {d : Done LeaseOp CapabilityLease}
    (hmem : d ∈ sinceAbort (⟨op, before, after⟩ :: done)) (hd : d.op.Begins) :
    issued.invocationFingerprint.isSome = true ∧ (before.status = .dispatching ∨ before.Ended) := by
  by_cases habort : op = .abortDispatchClaimed
  · subst habort
    rw [sinceAbort_cons_abort] at hmem
    exact absurd hmem List.not_mem_nil
  · rw [sinceAbort_cons_of_ne habort] at hmem
    rcases List.mem_cons.1 hmem with rfl | hmem
    · exact absurd hd hop
    · exact h.begun d hmem hd

theorem Accounts.consume (hended : ¬ before.Ended) (hremaining : before.remaining ≠ some .zero) :
    Accounts issued (⟨.consume, before, consumed before⟩ :: done) (consumed before) where
  fingerprint := (invocationFingerprint_consumed before).trans h.fingerprint
  bound := fun n hn => by
    obtain ⟨m, hm, hle⟩ := h.bound n hn
    obtain ⟨left, hleft, hlt⟩ := remaining_consumed hm hremaining
    rw [consumptions_cons_consume]
    exact ⟨left, hleft, by omega⟩
  once := fun hsome => by
    have hfirst := (h.once hsome).resolve_right fun hone => hended hone.2
    rw [consumptions_cons_consume, hfirst]
    refine .inr ⟨rfl, .inl ?_⟩
    exact status_consumed_of_fingerprint (by rw [h.fingerprint, hsome])
  claimed := fun fingerprint hfingerprint hstatus => by
    have hsome : before.invocationFingerprint.isSome = true := by
      rw [h.fingerprint, hfingerprint]
      rfl
    rw [status_consumed_of_fingerprint hsome] at hstatus
    exact hstatus.elim nofun nofun
  begun := fun d hmem hd => by
    obtain ⟨hsome, -⟩ := h.begun_of_cons (fun ⟨_, heq⟩ => nomatch heq) hmem hd
    exact ⟨hsome, .inr (.inl (status_consumed_of_fingerprint (by rw [h.fingerprint, hsome])))⟩

theorem Accounts.mutate {now : Timestamp}
    (hop : op.mutate now before = .ok after) : Accounts issued (⟨op, before, after⟩ :: done) after := by
  rcases mutate_cases hop with ⟨rfl, rfl⟩ | ⟨fingerprint, rfl, hstatus, hfingerprint, rfl⟩ |
    ⟨rfl, hended, -, hremaining, rfl⟩ | ⟨fingerprint, rfl, hstatus, hfingerprint, rfl⟩ |
    ⟨rfl, hstatus, rfl⟩
  · refine h.setStatus nofun (fun _ => .inr rfl) (fun _ _ hstatus => hstatus.elim nofun nofun)
      fun d hmem hd => ?_
    obtain ⟨hsome, -⟩ := h.begun_of_cons (fun ⟨_, heq⟩ => nomatch heq) hmem hd
    exact ⟨hsome, .inr (.inr rfl)⟩
  · have hactive : ¬ before.Ended := by
      rw [CapabilityLease.Ended, hstatus]
      exact fun hended => hended.elim nofun nofun
    refine h.setStatus nofun (fun hended => absurd hended hactive) (fun other hother _ => ?_)
      fun d hmem hd => ?_
    · rw [h.fingerprint, hother] at hfingerprint
      rw [Option.some.inj hfingerprint]
      exact .inl rfl
    · obtain ⟨-, hdispatching | hended⟩ :=
        h.begun_of_cons (fun ⟨_, heq⟩ => nomatch heq) hmem hd
      · rw [hstatus] at hdispatching
        exact nomatch hdispatching
      · exact absurd hended hactive
  · exact h.consume hended hremaining
  · have hclaimed : ¬ before.Ended := by
      rw [CapabilityLease.Ended, hstatus]
      exact fun hended => hended.elim nofun nofun
    refine h.setStatus nofun (fun hended => absurd hended hclaimed) (fun other hother _ => ?_)
      fun d hmem hd => ⟨?_, .inl rfl⟩
    · exact .inr (h.claimed other hother (.inl hstatus))
    · rw [← h.fingerprint, hfingerprint]
      rfl
  · have hended : ¬ before.Ended := by
      rw [CapabilityLease.Ended]
      rcases hstatus with hstatus | hstatus <;> rw [hstatus] <;>
        exact fun hended => hended.elim nofun nofun
    refine h.setStatus nofun (fun h => absurd h hended) (fun other hother _ => ?_)
      fun d hmem hd => ?_
    · exact .inr (h.claimed other hother hstatus)
    · rw [sinceAbort_cons_abort] at hmem
      exact absurd hmem List.not_mem_nil

omit h

end

theorem accounts_of_sequential {issued lease : CapabilityLease}
    {done : List (Done LeaseOp CapabilityLease)} (hissued : issued.status = .active)
    (h : Sequential LeaseOp.mutate issued done lease) : Accounts issued done lease := by
  induction h with
  | nil => exact accounts_nil hissued
  | cons op now _ hop ih => exact ih.mutate hop

/-! ### The bound -/

theorem claimed_of_begin {fingerprint : InvocationFingerprint}
    (h : (LeaseOp.beginDispatchClaimed fingerprint).mutate now before = .ok after) :
    before.status = .claimed := by
  rcases mutate_cases h with ⟨hop, -⟩ | ⟨_, hop, -⟩ | ⟨hop, -⟩ | ⟨_, -, hstatus, -⟩ | ⟨hop, -⟩
  · exact nomatch hop
  · exact nomatch hop
  · exact nomatch hop
  · exact hstatus
  · exact nomatch hop

theorem ended_of_mutate {op : LeaseOp}
    (h : op.mutate now before = .ok after) (hended : before.Ended) : after.Ended := by
  rcases mutate_cases h with ⟨rfl, rfl⟩ | ⟨fingerprint, rfl, hstatus, -, rfl⟩ |
    ⟨rfl, hnot, -, -, rfl⟩ | ⟨fingerprint, rfl, hstatus, -, rfl⟩ | ⟨rfl, hstatus, rfl⟩
  · exact .inr rfl
  · rw [CapabilityLease.Ended, hstatus] at hended
    exact hended.elim nofun nofun
  · exact absurd hended hnot
  · rw [CapabilityLease.Ended, hstatus] at hended
    exact hended.elim nofun nofun
  · rw [CapabilityLease.Ended] at hended
    rcases hstatus with hstatus | hstatus <;> rw [hstatus] at hended <;>
      exact hended.elim nofun nofun

theorem useless_of_ended (h : lease.Ended) :
    (∀ context now, leaseIsAuthorizing lease context now = false) ∧
      (∀ fingerprint now, ensureClaimable lease fingerprint now ≠ .ok ()) ∧
      ∀ now, ensureConsumable lease now ≠ .ok () := by
  have hactive : lease.status ≠ .active := by
    rcases h with h | h <;> rw [h] <;> exact nofun
  refine ⟨fun context now => ?_, fun fingerprint now hok => ?_, fun now hok => ?_⟩
  · rw [leaseIsAuthorizing, decide_eq_false hactive]
    rfl
  · exact hactive (ensureClaimable_eq_ok.1 hok).1
  · exact (ensureConsumable_eq_ok.1 hok).1 h

/-- A lease as it is issued. -/
def issuedLease (scope : ResourceScope) (grant : CapabilityGrant)
    (fingerprint : Option InvocationFingerprint) : CapabilityLease :=
  { CapabilityLease.new scope grant with
    invocationFingerprint := fingerprint }

/-- The store of one issued lease after the given steps of any number of processes. -/
def leaseRun {ι : Type} [DecidableEq ι] (lease : CapabilityLease)
    (actions : List (CellAction ι LeaseOp Timestamp)) : Cell ι LeaseOp CapabilityLease :=
  actions.foldl leaseStep (.init lease)

/-- A lease is consumed at most as often as it was issued for; with a fingerprint at most once, and
after a claim; between two dispatches there is an abort; and an ended lease stays ended. -/
theorem lease_consumption_bound {ι : Type} [DecidableEq ι] (scope : ResourceScope)
    (grant : CapabilityGrant) (fingerprint : Option InvocationFingerprint)
    (actions : List (CellAction ι LeaseOp Timestamp)) :
    (∀ n, grant.constraints.maxInvocations = some n →
      consumptions (leaseRun (issuedLease scope grant fingerprint) actions).done ≤ n.val) ∧
    (∀ f, fingerprint = some f →
      consumptions (leaseRun (issuedLease scope grant fingerprint) actions).done ≤ 1 ∧
        ∀ d older, d :: older <:+ (leaseRun (issuedLease scope grant fingerprint) actions).done →
          d.op = .consume → ∃ c ∈ older, c.op = .claim f) ∧
    (∀ second between first older,
      second :: (between ++ first :: older) <:+
        (leaseRun (issuedLease scope grant fingerprint) actions).done →
      second.op.Begins → first.op.Begins → ∃ d ∈ between, d.op = .abortDispatchClaimed) ∧
    ((leaseRun (issuedLease scope grant fingerprint) actions).value.Ended →
      ∀ later, (∀ context now, leaseIsAuthorizing
          (leaseRun (issuedLease scope grant fingerprint) (actions ++ later)).value context now =
            false) ∧
        (∀ f now, ensureClaimable
          (leaseRun (issuedLease scope grant fingerprint) (actions ++ later)).value f now ≠ .ok ()) ∧
        ∀ now, ensureConsumable
          (leaseRun (issuedLease scope grant fingerprint) (actions ++ later)).value now ≠ .ok ()) := by
  have inv : Cell.Inv LeaseOp.mutate (issuedLease scope grant fingerprint)
      (leaseRun (issuedLease scope grant fingerprint) actions) := Cell.inv_init.run actions
  have accounts := accounts_of_sequential rfl inv.sequential
  refine ⟨fun n hn => ?_, fun f hf => ⟨?_, fun d older hsuffix hconsume => ?_⟩, ?_, ?_⟩
  · obtain ⟨left, -, hle⟩ := accounts.bound n hn
    omega
  · rcases accounts.once (by rw [show (issuedLease scope grant fingerprint).invocationFingerprint =
      fingerprint from rfl, hf]; rfl) with hnone | ⟨hone, -⟩
    · omega
    · omega
  · -- the lease that was consumed had been claimed
    obtain ⟨hbefore, now, hop⟩ := inv.sequential.of_suffix hsuffix
    have hearlier := accounts_of_sequential rfl hbefore
    rw [hconsume] at hop
    obtain ⟨u, hok, -⟩ := bind_eq_ok.1 hop
    refine hearlier.claimed f hf ((ensureConsumable_eq_ok.1 hok).2.1 ?_)
    rw [hearlier.fingerprint]
    exact hf ▸ rfl
  · -- a dispatch begins from a claimed lease, and one that was begun leaves none without an abort
    intro second between first older hsuffix ⟨f, hsecond⟩ hfirst
    by_contra hnone
    push Not at hnone
    obtain ⟨hbefore, now, hop⟩ := inv.sequential.of_suffix hsuffix
    have hearlier := accounts_of_sequential rfl hbefore
    have hmem : first ∈ sinceAbort (between ++ first :: older) := by
      obtain ⟨g, hg⟩ := hfirst
      rw [sinceAbort, List.takeWhile_append_of_pos (fun d hd => decide_eq_true (hnone d hd)),
        List.takeWhile_cons_of_pos (by rw [hg]; rfl)]
      exact List.mem_append_right _ List.mem_cons_self
    obtain ⟨-, hstatus⟩ := hearlier.begun first hmem hfirst
    rw [hsecond] at hop
    rw [CapabilityLease.Ended, claimed_of_begin hop] at hstatus
    exact hstatus.elim nofun fun hended => hended.elim nofun nofun
  · intro hended later
    refine useless_of_ended ?_
    rw [leaseRun, List.foldl_append]
    exact inv.value_run (fun op now before after h hended => ended_of_mutate h hended) hended later

/-- Two processes that both read the claimed lease: one consumes it, the other finds it used up. -/
theorem racing_consumers :
    let run : Cell Bool LeaseOp CapabilityLease :=
      leaseRun (issuedLease ⟨⟨"acme"⟩, ⟨"ada"⟩, none, none, none, none, ⟨7⟩⟩ networkGrant
          (some ⟨"f1"⟩))
        [.start true (.claim ⟨"f1"⟩), .read true 0, .write true, .start true .consume,
          .start false .consume, .read true 0, .read false 0, .write true, .write false,
          .read false 0]
    run.value.status = .consumed ∧ consumptions run.done ≤ 1 :=
  ⟨rfl, ((lease_consumption_bound _ _ _ _).2.1 ⟨"f1"⟩ rfl).1⟩

end Ironclaw.Authorization
