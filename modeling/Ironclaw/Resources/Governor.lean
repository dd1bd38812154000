import Ironclaw.Lib.Table
import Ironclaw.Resources.Period

/-! # The resource governor

The state of `ironclaw_resources/src/lib.rs` and the operations on it: `setLimitInState`,
`reserveWithOutcomeInState`, `reconcileInState`, `releaseInState` and `accountSnapshotInState`.

* The four maps keyed by account are held as one, from an account to the values the four maps
  have for it: `AccountParts`, the source's own view of an account. What an operation does to an
  account is a function on its parts, and `ResourceState.modifyAll` is the loop over a cascade.
* An operation answers and leaves a state also when it fails: a denied reservation has already
  rolled over the periods of its cascade. -/

namespace Ironclaw.Resources

variable {Tz : Type}

/-! ### Data -/

structure ResourceReservationId where
  asUuid : BitVec 128
deriving DecidableEq

structure ResourceLimits (Tz : Type) where
  maxUsd : Option Decimal
  maxInputTokens : Option U64
  maxOutputTokens : Option U64
  maxWallClockMs : Option U64
  maxOutputBytes : Option U64
  maxNetworkEgressBytes : Option U64
  maxProcessCount : Option U32
  maxConcurrencySlots : Option U32
  period : BudgetPeriod Tz
  thresholds : BudgetThresholds
deriving DecidableEq

/-- Comparable amount for denial details. -/
inductive ResourceValue where
  | decimal (value : Decimal)
  | integer (value : U64)

structure ResourceDenial where
  account : ResourceAccount
  dimension : ResourceDimension
  limit : ResourceValue
  currentUsage : ResourceValue
  activeReserved : ResourceValue
  requested : ResourceValue

structure ResourceApprovalNeeded where
  account : ResourceAccount
  dimension : ResourceDimension
  limit : ResourceValue
  currentUsage : ResourceValue
  activeReserved : ResourceValue
  requested : ResourceValue
  utilization : F64
  periodEnd : Option ℤ

structure BudgetWarning where
  account : ResourceAccount
  dimension : ResourceDimension
  utilization : F64
  limit : ResourceValue
  periodEnd : Option ℤ

inductive ReservationStatus where
  | active | reconciled | released
deriving DecidableEq

inductive ResourceError where
  | limitExceeded (denial : ResourceDenial) (warnings : List BudgetWarning)
  | requiresApproval (needed : ResourceApprovalNeeded) (warnings : List BudgetWarning)
  | reservationAlreadyExists (id : ResourceReservationId)
  | invalidEstimate (dimension : ResourceDimension) (reason : String)
  | unknownReservation (id : ResourceReservationId)
  | reservationClosed (id : ResourceReservationId) (status : ReservationStatus)
  | reservationMismatch (id : ResourceReservationId)
  | storage (reason : String)

structure ResourceReservation where
  id : ResourceReservationId
  scope : ResourceScope
  estimate : ResourceEstimate
deriving DecidableEq

structure ReservationRecord where
  reservation : ResourceReservation
  accounts : List ResourceAccount
  tally : ResourceTally
  status : ReservationStatus
  actual : Option ResourceUsage
  reservedAt : Option ℤ
deriving DecidableEq

def ReservationRecord.id (record : ReservationRecord) : ResourceReservationId :=
  record.reservation.id

structure ReservationOutcome where
  reservation : ResourceReservation
  warnings : List BudgetWarning

structure ResourceReceipt where
  id : ResourceReservationId
  scope : ResourceScope
  status : ReservationStatus
  estimate : ResourceEstimate
  actual : Option ResourceUsage

structure PeriodLedger where
  periodStart : ℤ
  periodEnd : ℤ
  spent : ResourceTally
  reserved : ResourceTally

structure AccountSnapshot (Tz : Type) where
  account : ResourceAccount
  limits : Option (ResourceLimits Tz)
  ledger : PeriodLedger

/-! ### State -/

/-- What the maps of the state have for one account. -/
structure AccountParts (Tz : Type) where
  limits : Option (ResourceLimits Tz)
  reserved : Option ResourceTally
  usage : Option ResourceTally
  periodAnchor : Option ℤ
deriving DecidableEq

/-- An account in none of the maps. -/
def AccountParts.empty : AccountParts Tz := ⟨none, none, none, none⟩

/-- `PartialEq` of the parts. -/
def AccountParts.same [DecidableEq Tz] (p q : AccountParts Tz) : Bool :=
  decide (p = q) && p.limits.all (·.thresholds.isReflexive)

theorem AccountParts.eq_of_same [DecidableEq Tz] {p q : AccountParts Tz} (h : p.same q = true) :
    p = q := by
  unfold same at h
  rw [Bool.and_eq_true, decide_eq_true_eq] at h
  exact h.1

/-- The reserved tally, as every reader takes it. -/
def AccountParts.reservedTally (p : AccountParts Tz) : ResourceTally := p.reserved.getD .zero

/-- The usage tally, as every reader takes it. -/
def AccountParts.usageTally (p : AccountParts Tz) : ResourceTally := p.usage.getD .zero

namespace AccountParts

variable [Platform Tz]

/-- Take a hold. -/
def hold (p : AccountParts Tz) (tally : ResourceTally) : AccountParts Tz :=
  { p with reserved := some (p.reservedTally.addAssign Tz tally) }

/-- Give a hold back. -/
def unhold (p : AccountParts Tz) (tally : ResourceTally) : AccountParts Tz :=
  { p with reserved := some (p.reservedTally.subAssign Tz tally) }

/-- Record spend. -/
def spend (p : AccountParts Tz) (tally : ResourceTally) : AccountParts Tz :=
  { p with usage := some (p.usageTally.addAssign Tz tally) }

variable {p : AccountParts Tz} {t : ResourceTally}

@[simp] theorem hold_reservedTally : (p.hold t).reservedTally = p.reservedTally.addAssign Tz t := rfl

@[simp] theorem hold_usageTally : (p.hold t).usageTally = p.usageTally := rfl

@[simp] theorem unhold_reservedTally :
    (p.unhold t).reservedTally = p.reservedTally.subAssign Tz t := rfl

@[simp] theorem unhold_usageTally : (p.unhold t).usageTally = p.usageTally := rfl

@[simp] theorem spend_reservedTally : (p.spend t).reservedTally = p.reservedTally := rfl

@[simp] theorem spend_usageTally : (p.spend t).usageTally = p.usageTally.addAssign Tz t := rfl

omit [Platform Tz] in
/-- The ledger of an account is not negative. -/
structure WellFormed (p : AccountParts Tz) : Prop where
  reserved : p.reservedTally.Nonneg
  usage : p.usageTally.Nonneg

theorem WellFormed.hold (h : p.WellFormed) (ht : t.Nonneg) : (p.hold t).WellFormed :=
  ⟨h.reserved.addAssign ht, h.usage⟩

theorem WellFormed.unhold (h : p.WellFormed) (t : ResourceTally) : (p.unhold t).WellFormed :=
  ⟨.subAssign _ t, h.usage⟩

theorem WellFormed.spend (h : p.WellFormed) (ht : t.Nonneg) : (p.spend t).WellFormed :=
  ⟨h.reserved, h.usage.addAssign ht⟩

end AccountParts

structure ResourceState (Tz : Type) where
  account : ResourceAccount → AccountParts Tz
  reservations : Table ReservationRecord.id

namespace ResourceState

/-- `ResourceState::default`. -/
def empty : ResourceState Tz := ⟨fun _ => .empty, .empty⟩

/-- Change one account. -/
def modify (s : ResourceState Tz) (account : ResourceAccount)
    (f : AccountParts Tz → AccountParts Tz) : ResourceState Tz :=
  { s with account := Function.update s.account account (f (s.account account)) }

/-- Change the accounts of a list, one after the other. -/
def modifyAll (s : ResourceState Tz) (accounts : List ResourceAccount)
    (f : AccountParts Tz → AccountParts Tz) : ResourceState Tz :=
  accounts.foldl (fun s account => s.modify account f) s

theorem modify_account (s : ResourceState Tz) (a b : ResourceAccount)
    (f : AccountParts Tz → AccountParts Tz) :
    (s.modify a f).account b = if b = a then f (s.account b) else s.account b := by
  show Function.update s.account a (f (s.account a)) b = _
  by_cases h : b = a
  · subst h
    rw [Function.update_self, if_pos rfl]
  · rw [Function.update_of_ne h, if_neg h]

@[simp] theorem modifyAll_reservations (accounts : List ResourceAccount)
    (f : AccountParts Tz → AccountParts Tz) : ∀ s : ResourceState Tz,
    (s.modifyAll accounts f).reservations = s.reservations := by
  induction accounts with
  | nil => exact fun _ => rfl
  | cons a accounts ih => exact fun s => ih (s.modify a f)

/-- A loop over distinct accounts changes each of them once and no other. -/
theorem modifyAll_account {accounts : List ResourceAccount} (hnd : accounts.Nodup)
    (f : AccountParts Tz → AccountParts Tz) (b : ResourceAccount) : ∀ s : ResourceState Tz,
    (s.modifyAll accounts f).account b =
      if b ∈ accounts then f (s.account b) else s.account b := by
  induction accounts with
  | nil => exact fun s => (if_neg List.not_mem_nil).symm
  | cons a accounts ih =>
    intro s
    rw [List.nodup_cons] at hnd
    refine (ih hnd.2 (s.modify a f)).trans ?_
    rw [modify_account]
    by_cases hba : b = a
    · subst hba
      rw [if_neg hnd.1, if_pos rfl, if_pos List.mem_cons_self]
    · by_cases hb : b ∈ accounts
      · rw [if_pos hb, if_neg hba, if_pos (List.mem_cons_of_mem a hb)]
      · rw [if_neg hb, if_neg hba, if_neg (by simp [hba, hb])]

end ResourceState

/-! ### Limits and thresholds -/

/-- One integer dimension: its limit and its value in a tally, both as `u64`. -/
structure IntegerDimension (Tz : Type) where
  dimension : ResourceDimension
  limit : ResourceLimits Tz → Option U64
  value : ResourceTally → U64

def integerDimensions : List (IntegerDimension Tz) :=
  [⟨.inputTokens, (·.maxInputTokens), (·.inputTokens)⟩,
    ⟨.outputTokens, (·.maxOutputTokens), (·.outputTokens)⟩,
    ⟨.wallClockMs, (·.maxWallClockMs), (·.wallClockMs)⟩,
    ⟨.outputBytes, (·.maxOutputBytes), (·.outputBytes)⟩,
    ⟨.networkEgressBytes, (·.maxNetworkEgressBytes), (·.networkEgressBytes)⟩,
    ⟨.processCount, (·.maxProcessCount.map U32.toU64), (·.processCount.toU64)⟩,
    ⟨.concurrencySlots, (·.maxConcurrencySlots.map U32.toU64), (·.concurrencySlots.toU64)⟩]

/-- A limit of zero or less is no limit; a total outside the range exceeds every limit. -/
def checkDecimal (Tz : Type) [Platform Tz] (account : ResourceAccount) (dimension : ResourceDimension)
    (limit : Option Decimal) (usage reserved requested : Decimal) : Option ResourceDenial := do
  let limit ← limit.filter (fun v => decide (0 < v.units))
  let exceeds :=
    match (Platform.checkedAdd Tz usage reserved).bind (Platform.checkedAdd Tz · requested) with
    | some total => decide (limit.units < total.units)
    | none => true
  if exceeds then
    some ⟨account, dimension, .decimal limit, .decimal usage, .decimal reserved, .decimal requested⟩
  else none

/-- A limit of zero is no limit; the total saturates. -/
def checkInteger (account : ResourceAccount) (dimension : ResourceDimension)
    (limit : Option U64) (usage reserved requested : U64) : Option ResourceDenial := do
  let limit ← limit.filter (fun v => decide (0 < v.val))
  if limit.val < ((usage.add reserved).add requested).val then
    some ⟨account, dimension, .integer limit, .integer usage, .integer reserved, .integer requested⟩
  else none

variable [Platform Tz]

/-- The first denied dimension, in canonical order. -/
def checkLimitsFirstDenial (account : ResourceAccount) (limits : ResourceLimits Tz)
    (usage reserved requested : ResourceTally) : Option ResourceDenial :=
  (checkDecimal Tz account .usd limits.maxUsd usage.usd reserved.usd requested.usd).or
    (integerDimensions.findSome? fun i =>
      checkInteger account i.dimension (i.limit limits) (i.value usage) (i.value reserved)
        (i.value requested))

inductive ThresholdIntervention where
  | warning (warning : BudgetWarning)
  | approval (needed : ResourceApprovalNeeded)

/-- Pause at the pause threshold, else warn at the warn threshold; a threshold of one or more is
disabled. -/
def intervene (thresholds : BudgetThresholds) (needed : ResourceApprovalNeeded) :
    Option ThresholdIntervention :=
  if thresholds.pauseAt.lt .one && thresholds.pauseAt.le needed.utilization then
    some (.approval needed)
  else if thresholds.warnAt.lt .one && thresholds.warnAt.le needed.utilization then
    some (.warning ⟨needed.account, needed.dimension, needed.utilization, needed.limit,
      needed.periodEnd⟩)
  else none

def thresholdDecimal (Tz : Type) [Platform Tz] (account : ResourceAccount)
    (dimension : ResourceDimension) (limit : Option Decimal) (usage reserved requested : Decimal) (thresholds : BudgetThresholds)
    (periodEnd : Option ℤ) : Option ThresholdIntervention := do
  let limit ← limit.filter (fun v => decide (0 < v.units))
  let total ← (Platform.checkedAdd Tz usage reserved).bind (Platform.checkedAdd Tz · requested)
  intervene thresholds ⟨account, dimension, .decimal limit, .decimal usage, .decimal reserved,
    .decimal requested, Platform.decimalRatio Tz total limit, periodEnd⟩

def thresholdInteger (Tz : Type) [Platform Tz] (account : ResourceAccount)
    (dimension : ResourceDimension) (limit : Option U64) (usage reserved requested : U64) (thresholds : BudgetThresholds)
    (periodEnd : Option ℤ) : Option ThresholdIntervention := do
  let limit ← limit.filter (fun v => decide (0 < v.val))
  let total := (usage.add reserved).add requested
  intervene thresholds ⟨account, dimension, .integer limit, .integer usage, .integer reserved,
    .integer requested, Platform.integerRatio Tz total limit, periodEnd⟩

/-- A pause is recorded as a warning too; the first one asks for the approval. -/
def absorb (acc : List BudgetWarning × Option ResourceApprovalNeeded) :
    ThresholdIntervention → List BudgetWarning × Option ResourceApprovalNeeded
  | .warning warning => (acc.1 ++ [warning], acc.2)
  | .approval needed =>
    (acc.1 ++ [⟨needed.account, needed.dimension, needed.utilization, needed.limit,
      needed.periodEnd⟩], acc.2.or (some needed))

def checkThresholdsAllInterventions (account : ResourceAccount) (limits : ResourceLimits Tz)
    (usage reserved requested : ResourceTally) (periodEnd : Option ℤ) :
    List BudgetWarning × Option ResourceApprovalNeeded :=
  if F64.one.le limits.thresholds.pauseAt && F64.one.le limits.thresholds.warnAt then ([], none)
  else
    let interventions :=
      (thresholdDecimal Tz account .usd limits.maxUsd usage.usd reserved.usd requested.usd
        limits.thresholds periodEnd).toList ++
      integerDimensions.filterMap fun i =>
        thresholdInteger Tz account i.dimension (i.limit limits) (i.value usage)
          (i.value reserved) (i.value requested) limits.thresholds periodEnd
    interventions.foldl absorb ([], none)

/-- Result of evaluating one account of the cascade. -/
inductive CascadeOutcome where
  | allow (warnings : List BudgetWarning)
  | requiresApproval (warnings : List BudgetWarning) (needed : ResourceApprovalNeeded)
  | deny (warnings : List BudgetWarning) (denial : ResourceDenial)

/-- A hard denial wins over an approval. -/
def evaluateCascadeForAccount (account : ResourceAccount) (limits : ResourceLimits Tz)
    (usage reserved requested : ResourceTally) (periodEnd : Option ℤ) : CascadeOutcome :=
  let checked :=
    checkThresholdsAllInterventions account limits usage reserved requested periodEnd
  match checkLimitsFirstDenial account limits usage reserved requested with
  | some denial => .deny checked.1 denial
  | none =>
    match checked.2 with
    | some needed => .requiresApproval checked.1 needed
    | none => .allow checked.1

/-! ### What an operation does to one account -/

namespace AccountParts

variable [DecidableEq Tz]

/-- `set_limit_in_state`: a change of period drops the ledger; the anchor is set anew either
way. -/
def setLimit (p : AccountParts Tz) (limits : ResourceLimits Tz) (now : ℤ) : AccountParts Tz :=
  let p :=
    if p.limits.map (·.period) ≠ some limits.period then
      { p with usage := none, periodAnchor := none }
    else p
  { p with limits := some limits, periodAnchor := some (periodBounds limits.period now).2 }

def advancePeriodIfRolledOver (p : AccountParts Tz) (now : ℤ) : AccountParts Tz :=
  match p.limits with
  | none => p
  | some limits =>
    if limits.period = .perInvocation then p
    else if (p.periodAnchor.map fun anchor => periodHasRolledOver anchor now).getD true then
      { p with usage := none, periodAnchor := some (periodBounds limits.period now).2 }
    else p

end AccountParts

/-! ### Operations -/

def validateEstimate (estimate : ResourceEstimate) : Option ResourceError :=
  match estimate.usd with
  | some usd =>
    if usd.units < 0 then some (.invalidEstimate .usd "must be non-negative") else none
  | none => none

def validateUsage (usage : ResourceUsage) : Option ResourceError :=
  if usage.usd.units < 0 then some (.invalidEstimate .usd "must be non-negative") else none

variable [DecidableEq Tz]

def setLimitInState (s : ResourceState Tz) (account : ResourceAccount)
    (limits : ResourceLimits Tz) (now : ℤ) : ResourceState Tz :=
  s.modify account (·.setLimit limits now)

/-- The check of a reservation, account by account; the first intervention ends it, with the
warnings collected so far. -/
def evaluateCascade (s : ResourceState Tz) (requested : ResourceTally) :
    List ResourceAccount → List BudgetWarning → Except ResourceError (List BudgetWarning)
  | [], warnings => .ok warnings
  | account :: accounts, warnings =>
    match (s.account account).limits with
    | none => evaluateCascade s requested accounts warnings
    | some limits =>
      let p := s.account account
      match evaluateCascadeForAccount account limits p.usageTally p.reservedTally requested
        p.periodAnchor with
      | .allow accWarnings => evaluateCascade s requested accounts (warnings ++ accWarnings)
      | .requiresApproval accWarnings needed =>
        .error (.requiresApproval needed (warnings ++ accWarnings))
      | .deny accWarnings denial => .error (.limitExceeded denial (warnings ++ accWarnings))

/-- The record of a reservation just taken. -/
def activeRecord (reservation : ResourceReservation) (now : ℤ) : ReservationRecord where
  reservation := reservation
  accounts := ResourceAccount.cascade reservation.scope
  tally := .fromEstimate reservation.estimate
  status := .active
  actual := none
  reservedAt := some now

def reserveWithOutcomeInState (s : ResourceState Tz) (scope : ResourceScope)
    (estimate : ResourceEstimate) (reservationId : ResourceReservationId) (now : ℤ) :
    Except ResourceError ReservationOutcome × ResourceState Tz :=
  match validateEstimate estimate with
  | some error => (.error error, s)
  | none =>
    if (s.reservations.get reservationId).isSome then
      (.error (.reservationAlreadyExists reservationId), s)
    else
      let accounts := ResourceAccount.cascade scope
      let requested := ResourceTally.fromEstimate estimate
      let s := s.modifyAll accounts (·.advancePeriodIfRolledOver now)
      match evaluateCascade s requested accounts [] with
      | .error error => (.error error, s)
      | .ok warnings =>
        let reservation : ResourceReservation := ⟨reservationId, scope, estimate⟩
        let s := s.modifyAll accounts (·.hold requested)
        (.ok ⟨reservation, warnings⟩,
          { s with reservations := s.reservations.put (activeRecord reservation now) })

def reconcileInState (s : ResourceState Tz) (reservationId : ResourceReservationId)
    (actual : ResourceUsage) (now : ℤ) : Except ResourceError ResourceReceipt × ResourceState Tz :=
  match s.reservations.get reservationId with
  | none => (.error (.unknownReservation reservationId), s)
  | some record =>
    if record.status ≠ .active then
      (.error (.reservationClosed reservationId record.status), s)
    else
      match validateUsage actual with
      | some error => (.error error, s)
      | none =>
        let s := s.modifyAll record.accounts fun p =>
          ((p.advancePeriodIfRolledOver now).unhold record.tally).spend (.fromUsage actual)
        (.ok ⟨reservationId, record.reservation.scope, .reconciled,
            record.reservation.estimate, some actual⟩,
          { s with
            reservations :=
              s.reservations.put { record with status := .reconciled, actual := some actual } })

omit [Platform Tz] [DecidableEq Tz] in
def validateReservationInState (s : ResourceState Tz) (reservation : ResourceReservation) :
    Except ResourceError Unit :=
  match s.reservations.get reservation.id with
  | none => .error (.unknownReservation reservation.id)
  | some record =>
    if record.status ≠ .active then
      .error (.reservationClosed reservation.id record.status)
    else if record.reservation ≠ reservation then
      .error (.reservationMismatch reservation.id)
    else .ok ()

def releaseInState (s : ResourceState Tz) (reservationId : ResourceReservationId) (now : ℤ) :
    Except ResourceError ResourceReceipt × ResourceState Tz :=
  match s.reservations.get reservationId with
  | none => (.error (.unknownReservation reservationId), s)
  | some record =>
    if record.status ≠ .active then
      (.error (.reservationClosed reservationId record.status), s)
    else
      let s := s.modifyAll record.accounts fun p =>
        (p.advancePeriodIfRolledOver now).unhold record.tally
      (.ok ⟨reservationId, record.reservation.scope, .released,
          record.reservation.estimate, none⟩,
        { s with reservations := s.reservations.put { record with status := .released } })

/-- The window the ledger of an account is accumulating against. -/
def ledgerWindow (p : AccountParts Tz) (period : BudgetPeriod Tz) (now : ℤ) : ℤ × ℤ :=
  match p.periodAnchor, period with
  | some periodEnd, .rolling24h => (periodEnd - dayNanos, periodEnd)
  | _, _ => periodBounds period now

def accountSnapshotInState (s : ResourceState Tz) (account : ResourceAccount) (now : ℤ) :
    Option (AccountSnapshot Tz) × ResourceState Tz :=
  let s := s.modify account (·.advancePeriodIfRolledOver now)
  let p := s.account account
  if p.limits = none ∧ p.reservedTally = .zero ∧ p.usageTally = .zero then (none, s)
  else
    let period := (p.limits.map (·.period)).getD .perInvocation
    let window := ledgerWindow p period now
    (some ⟨account, p.limits, ⟨window.1, window.2, p.usageTally, p.reservedTally⟩⟩, s)

end Ironclaw.Resources
