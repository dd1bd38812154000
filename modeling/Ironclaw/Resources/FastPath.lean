import Ironclaw.Resources.DeltaLog
import Ironclaw.Resources.Reads

/-! # The unlimited fast path

`PersistentResourceGovernor` with `with_unlimited_fast_path`: while no account has a finite limit, reservations
are kept in a state of the process, and the store is left alone. The first finite limit merges that state into
the store; while there is one, the store is worked on and every `try_set_limit` copies it to the process.

* `StoredState` is a state with the accounts that have limits, so that `hasFiniteLimits` can be computed.
* `Coupled` compares the governor with one that always works on the store: what the latter has stored reads as
  the store of the former while a limit is finite, and as its process state otherwise.
* When the last finite limit goes, the process goes on with the copy of the last `try_set_limit`, and the store
  keeps what it has. `CallInStep` says that this does no harm: the copy is current, and the tallies of the
  store are zero when they are merged again. -/

namespace Ironclaw.Resources

variable {Tz : Type}

/-! ### Unlimited limits -/

def isDecimalUnlimited : Option Decimal → Bool
  | none => true
  | some v => decide (v.units ≤ 0)

def isIntegerUnlimited : Option U64 → Bool
  | none => true
  | some v => decide (v.val = 0)

def ResourceLimits.isUnlimited (limits : ResourceLimits Tz) : Bool :=
  isDecimalUnlimited limits.maxUsd
    && isIntegerUnlimited limits.maxInputTokens
    && isIntegerUnlimited limits.maxOutputTokens
    && isIntegerUnlimited limits.maxWallClockMs
    && isIntegerUnlimited limits.maxOutputBytes
    && isIntegerUnlimited limits.maxNetworkEgressBytes
    && isIntegerUnlimited (limits.maxProcessCount.map U32.toU64)
    && isIntegerUnlimited (limits.maxConcurrencySlots.map U32.toU64)

/-! ### Calls on one state -/

/-- The account whose limits a call sets. -/
def Call.limited : Call Tz → List ResourceAccount
  | .setLimit account _ => [account]
  | _ => []

section Calls

variable [Platform Tz] [DecidableEq Tz]

/-- What a call does to a state, as the closures handed to the store do it. -/
def ResourceState.respond (s : ResourceState Tz) (call : Call Tz) (now : ℤ) :
    Except ResourceError (Reply Tz) × ResourceState Tz :=
  match call with
  | .setLimit account limits => (.ok .done, setLimitInState s account limits now)
  | .reserveWithId scope estimate reservationId =>
    let r := reserveWithOutcomeInState s scope estimate reservationId now
    (r.1.map .reservation, r.2)
  | .reconcile reservationId actual =>
    let r := reconcileInState s reservationId actual now
    (r.1.map .receipt, r.2)
  | .release reservationId =>
    let r := releaseInState s reservationId now
    (r.1.map .receipt, r.2)
  | .validateReservation reservation =>
    ((validateReservationInState s reservation).map fun _ => .done, s)
  | .accountSnapshot account =>
    let r := accountSnapshotInState s account now
    (.ok (.snapshot r.1), r.2)
  | .reservedFor account =>
    let s := s.modify account (·.advancePeriodIfRolledOver now)
    (.ok (.tally (s.account account).reservedTally), s)
  | .usageFor account =>
    let s := s.modify account (·.advancePeriodIfRolledOver now)
    (.ok (.tally (s.account account).usageTally), s)

/-- Limits, anchors and reservations that a change of state keeps: limits are the same, and nothing that was
there is gone. -/
structure Extends (s s' : ResourceState Tz) : Prop where
  limits : ∀ a, (s'.account a).limits = (s.account a).limits
  periodAnchor : ∀ a, (s'.account a).periodAnchor = none → (s.account a).periodAnchor = none
  reservations : ∀ id, s'.reservations.get id = none → s.reservations.get id = none

omit [Platform Tz] [DecidableEq Tz] in
theorem Extends.refl (s : ResourceState Tz) : Extends s s :=
  ⟨fun _ => rfl, fun _ h => h, fun _ h => h⟩

/-- What one change of an account keeps. -/
structure AccountParts.Extends (p q : AccountParts Tz) : Prop where
  limits : q.limits = p.limits
  periodAnchor : q.periodAnchor = none → p.periodAnchor = none

omit [Platform Tz] [DecidableEq Tz] in
theorem AccountParts.Extends.trans {p q r : AccountParts Tz} (h : p.Extends q) (h' : q.Extends r) :
    p.Extends r :=
  ⟨h'.limits.trans h.limits, fun hr => h.periodAnchor (h'.periodAnchor hr)⟩

theorem AccountParts.extends_advance (p : AccountParts Tz) (now : ℤ) :
    p.Extends (p.advancePeriodIfRolledOver now) := by
  refine ⟨AccountParts.advance_limits now, ?_⟩
  obtain h | ⟨_, _, _, h⟩ := p.advance_cases now
  · rw [h]
    exact fun hnone => hnone
  · rw [h]
    intro hnone
    cases hnone

omit [Platform Tz] [DecidableEq Tz] in
theorem ResourceState.extends_modifyAll {f : AccountParts Tz → AccountParts Tz}
    (hf : ∀ p : AccountParts Tz, p.Extends (f p)) (accounts : List ResourceAccount) : ∀ (s : ResourceState Tz) (a),
    (s.account a).Extends ((s.modifyAll accounts f).account a) := by
  induction accounts with
  | nil => exact fun s a => ⟨rfl, fun h => h⟩
  | cons b accounts ih =>
    intro s a
    refine AccountParts.Extends.trans ?_ (ih (s.modify b f) a)
    rw [ResourceState.modify_account]
    split_ifs
    · exact hf _
    · exact ⟨rfl, fun h => h⟩

variable {s : ResourceState Tz}

omit [Platform Tz] [DecidableEq Tz] in
theorem Extends.of_modifyAll {f : AccountParts Tz → AccountParts Tz}
    (hf : ∀ p : AccountParts Tz, p.Extends (f p)) (accounts : List ResourceAccount)
    {reservations : Table ReservationRecord.id}
    (hreservations : ∀ id, reservations.get id = none → s.reservations.get id = none) :
    Extends s { s.modifyAll accounts f with reservations := reservations } where
  limits := fun a => (ResourceState.extends_modifyAll hf accounts s a).limits
  periodAnchor := fun a => (ResourceState.extends_modifyAll hf accounts s a).periodAnchor
  reservations := hreservations

omit [Platform Tz] [DecidableEq Tz] in
theorem get_of_get_put {reservations : Table ReservationRecord.id} {r : ReservationRecord}
    {id : ResourceReservationId} (h : (reservations.put r).get id = none) :
    reservations.get id = none := by
  rw [Table.get_put] at h
  split_ifs at h
  exact h

/-- What an operation of the governor keeps, but for the setting of a limit. -/
theorem Does.extends {s s' : ResourceState Tz} {c : Command Tz} (h : Does s c s')
    (hc : ∀ account limits, c.operation ≠ .setLimit account limits) : Extends s s' := by
  cases h with
  | setLimit account limits now => exact absurd rfl (hc account limits)
  | refused _ => exact .refl s
  | @denied scope _ _ now _ _ =>
    have h := Extends.of_modifyAll (s := s)
      (fun p => p.extends_advance now) (ResourceAccount.cascade scope) (fun _ h => h)
    rw [← ResourceState.modifyAll_reservations (ResourceAccount.cascade scope)
      (·.advancePeriodIfRolledOver now) s] at h
    exact h
  | @reserved scope estimate id now _ _ _ =>
    have hadvance := fun a => ResourceState.extends_modifyAll
      (fun p => p.extends_advance now) (ResourceAccount.cascade scope) s a
    have hhold := fun a => ResourceState.extends_modifyAll
      (f := (·.hold (.fromEstimate estimate))) (fun p => ⟨rfl, fun h => h⟩)
      (ResourceAccount.cascade scope) (s.modifyAll (ResourceAccount.cascade scope)
        (·.advancePeriodIfRolledOver now)) a
    exact ⟨fun a => ((hadvance a).trans (hhold a)).limits,
      fun a => ((hadvance a).trans (hhold a)).periodAnchor, fun _ h => get_of_get_put h⟩
  | @reconciled _ actual record now _ _ _ =>
    have hf : ∀ p : AccountParts Tz, p.Extends
        (((p.advancePeriodIfRolledOver now).unhold record.tally).spend (.fromUsage actual)) :=
      fun p => ⟨(p.extends_advance now).limits, (p.extends_advance now).periodAnchor⟩
    exact Extends.of_modifyAll hf record.accounts (fun _ h => get_of_get_put h)
  | @released _ record now _ _ =>
    have hf : ∀ p : AccountParts Tz, p.Extends
        ((p.advancePeriodIfRolledOver now).unhold record.tally) :=
      fun p => ⟨(p.extends_advance now).limits, (p.extends_advance now).periodAnchor⟩
    exact Extends.of_modifyAll hf record.accounts (fun _ h => get_of_get_put h)
  | snapshot account now =>
    exact Extends.of_modifyAll (fun p => p.extends_advance now) [account] (fun _ h => h)

def Call.operation : Call Tz → Option (Operation Tz)
  | .setLimit account limits => some (.setLimit account limits)
  | .reserveWithId scope estimate id => some (.reserve scope estimate id)
  | .reconcile id actual => some (.reconcile id actual)
  | .release id => some (.release id)
  | .validateReservation _ => none
  | .accountSnapshot account => some (.accountSnapshot account)
  | .reservedFor account => some (.accountSnapshot account)
  | .usageFor account => some (.accountSnapshot account)

theorem accountSnapshotInState_state (s : ResourceState Tz) (account : ResourceAccount) (now : ℤ) :
    (accountSnapshotInState s account now).2 = s.modify account (·.advancePeriodIfRolledOver now) := by
  unfold accountSnapshotInState
  dsimp only
  split_ifs <;> rfl

theorem ResourceState.respond_state (s : ResourceState Tz) (call : Call Tz) (now : ℤ) :
    (s.respond call now).2 =
      match call.operation with
      | some operation => (s.perform ⟨now, operation⟩).2
      | none => s := by
  cases call with
  | reservedFor account => exact (accountSnapshotInState_state s account now).symm
  | usageFor account => exact (accountSnapshotInState_state s account now).symm
  | _ => rfl

theorem ResourceState.respond_wellFormed (hw : WellFormed s) (call : Call Tz)
    (now : ℤ) : WellFormed (s.respond call now).2 := by
  rw [s.respond_state]
  cases call.operation with
  | none => exact hw
  | some operation => exact (perform_does s _).wellFormed hw

variable {call : Call Tz}

theorem ResourceState.respond_extends (s : ResourceState Tz)
    (hcall : ∀ account limits, call ≠ .setLimit account limits) (now : ℤ) :
    Extends s (s.respond call now).2 := by
  rw [s.respond_state]
  cases hoperation : call.operation with
  | none => exact .refl s
  | some operation =>
    refine (perform_does s _).extends ?_
    rintro account limits rfl
    cases call with
    | setLimit account' limits' => exact hcall account' limits' rfl
    | _ => cases hoperation

theorem ReadsAs.respond {s t : ResourceState Tz} (h : ReadsAs s t) (call : Call Tz) (now : ℤ) :
    ReadsAs.Alike (s.respond call now) (t.respond call now) := by
  cases call with
  | setLimit account limits => exact ⟨rfl, h.setLimit account limits now⟩
  | reserveWithId scope estimate id =>
    have hr := h.reserve scope estimate id now
    exact ⟨congrArg (Except.map _) hr.answer, hr.state⟩
  | reconcile id actual =>
    have hr := h.reconcile id actual now
    exact ⟨congrArg (Except.map _) hr.answer, hr.state⟩
  | release id =>
    have hr := h.release id now
    exact ⟨congrArg (Except.map _) hr.answer, hr.state⟩
  | validateReservation reservation =>
    refine ⟨?_, h⟩
    simp only [ResourceState.respond, validateReservationInState, h.reservations]
  | accountSnapshot account =>
    have hr := h.accountSnapshot account now
    exact ⟨congrArg (fun x => Except.ok (Reply.snapshot x)) hr.answer, hr.state⟩
  | reservedFor account =>
    have hadvanced := h.advance account now
    exact ⟨congrArg (fun x => Except.ok (Reply.tally x)) (hadvanced.account account).reserved,
      hadvanced⟩
  | usageFor account =>
    have hadvanced := h.advance account now
    exact ⟨congrArg (fun x => Except.ok (Reply.tally x)) (hadvanced.account account).usage,
      hadvanced⟩

/-! ### Nothing is denied without a finite limit -/

omit [Platform Tz] [DecidableEq Tz] in
theorem filter_of_isDecimalUnlimited {limit : Option Decimal} (h : isDecimalUnlimited limit = true) :
    limit.filter (fun v => decide (0 < v.units)) = none := by
  cases limit with
  | none => rfl
  | some v =>
    have hv : ¬0 < v.units := not_lt.2 (of_decide_eq_true h)
    simp [Option.filter, hv]

omit [Platform Tz] [DecidableEq Tz] in
theorem filter_of_isIntegerUnlimited {limit : Option U64} (h : isIntegerUnlimited limit = true) :
    limit.filter (fun v => decide (0 < v.val)) = none := by
  cases limit with
  | none => rfl
  | some v =>
    have hv : v.val = 0 := of_decide_eq_true h
    simp [Option.filter, hv]

variable {limits : ResourceLimits Tz}

omit [Platform Tz] [DecidableEq Tz] in
theorem ResourceLimits.isUnlimited_integer (h : limits.isUnlimited = true) :
    ∀ i ∈ (integerDimensions : List (IntegerDimension Tz)), isIntegerUnlimited (i.limit limits) = true := by
  simp only [ResourceLimits.isUnlimited, Bool.and_eq_true] at h
  simp only [integerDimensions, List.forall_mem_cons]
  exact ⟨h.1.1.1.1.1.1.2, h.1.1.1.1.1.2, h.1.1.1.1.2, h.1.1.1.2, h.1.1.2, h.1.2, h.2,
    fun _ hi => absurd hi List.not_mem_nil⟩

omit [Platform Tz] [DecidableEq Tz] in
theorem ResourceLimits.isUnlimited_usd (h : limits.isUnlimited = true) :
    isDecimalUnlimited limits.maxUsd = true := by
  simp only [ResourceLimits.isUnlimited, Bool.and_eq_true] at h
  exact h.1.1.1.1.1.1.1

omit [DecidableEq Tz] in
theorem evaluateCascadeForAccount_of_unlimited (h : limits.isUnlimited = true)
    (account : ResourceAccount) (usage reserved requested : ResourceTally)
    (periodEnd : Option ℤ) :
    evaluateCascadeForAccount account limits usage reserved requested periodEnd = .allow [] := by
  have husd := filter_of_isDecimalUnlimited (ResourceLimits.isUnlimited_usd h)
  have hinteger : ∀ i ∈ (integerDimensions : List (IntegerDimension Tz)),
      (i.limit limits).filter (fun v => decide (0 < v.val)) = none := fun i hi =>
    filter_of_isIntegerUnlimited (ResourceLimits.isUnlimited_integer h i hi)
  have hdenial : checkLimitsFirstDenial account limits usage reserved requested = none := by
    unfold checkLimitsFirstDenial checkDecimal
    rw [husd]
    refine List.findSome?_eq_none_iff.2 fun i hi => ?_
    unfold checkInteger
    rw [hinteger i hi]
    rfl
  have hinterventions : checkThresholdsAllInterventions account limits usage reserved requested
      periodEnd = ([], none) := by
    have hnone : integerDimensions.filterMap (fun i => thresholdInteger Tz account i.dimension
        (i.limit limits) (i.value usage) (i.value reserved) (i.value requested) limits.thresholds
        periodEnd) = [] := by
      refine List.filterMap_eq_nil_iff.2 fun i hi => ?_
      unfold thresholdInteger
      rw [hinteger i hi]
      rfl
    unfold checkThresholdsAllInterventions thresholdDecimal
    rw [hnone, husd]
    split_ifs <;> rfl
  unfold evaluateCascadeForAccount
  rw [hdenial, hinterventions]

/-- No account has a finite limit. -/
def Unlimited (s : ResourceState Tz) : Prop :=
  ∀ a limits, (s.account a).limits = some limits → limits.isUnlimited = true

omit [DecidableEq Tz] in
theorem evaluateCascade_of_unlimited (h : Unlimited s) (requested : ResourceTally)
    (accounts : List ResourceAccount) : ∀ warnings, evaluateCascade s requested accounts warnings =
      .ok warnings := by
  induction accounts with
  | nil => exact fun _ => rfl
  | cons a accounts ih =>
    intro warnings
    rw [evaluateCascade]
    cases hlimits : (s.account a).limits with
    | none => exact ih warnings
    | some limits =>
      dsimp only
      rw [evaluateCascadeForAccount_of_unlimited (h a limits hlimits)]
      dsimp only
      rw [List.append_nil]
      exact ih warnings

/-- The calls that close a reservation. -/
inductive Closes (id : ResourceReservationId) : Call Tz → Prop
  | reconcile (actual : ResourceUsage) : Closes id (.reconcile id actual)
  | release : Closes id (.release id)

theorem Closes.get_of_unknownReservation {id id' : ResourceReservationId}
    (h : Closes id call) {now : ℤ}
    (herror : (s.respond call now).1 = .error (.unknownReservation id')) :
    s.reservations.get id = none := by
  cases h with
  | reconcile actual =>
    revert herror
    simp only [ResourceState.respond, reconcileInState]
    cases s.reservations.get id with
    | none => exact fun _ => rfl
    | some record =>
      dsimp only
      split_ifs
      · intro herror
        cases herror
      · unfold validateUsage
        split_ifs
        · intro herror
          cases herror
        · intro herror
          cases herror
  | release =>
    revert herror
    simp only [ResourceState.respond, releaseInState]
    cases s.reservations.get id with
    | none => exact fun _ => rfl
    | some record =>
      dsimp only
      split_ifs
      · intro herror
        cases herror
      · intro herror
        cases herror

theorem Closes.respond_of_get_none {id : ResourceReservationId}
    (h : Closes id call) (now : ℤ) (hget : s.reservations.get id = none) :
    (s.respond call now).1 = .error (.unknownReservation id) := by
  cases h with
  | reconcile actual => simp only [ResourceState.respond, reconcileInState, hget, Except.map]
  | release => simp only [ResourceState.respond, releaseInState, hget, Except.map]

/-- Without a finite limit, a call that fails leaves the state as it is. -/
theorem ResourceState.respond_of_error (h : Unlimited s) {now : ℤ}
    {e : ResourceError} (herror : (s.respond call now).1 = .error e) :
    (s.respond call now).2 = s := by
  cases call with
  | setLimit account limits => cases herror
  | reserveWithId scope estimate id =>
    have hadvanced : Unlimited
        (s.modifyAll (ResourceAccount.cascade scope) (·.advancePeriodIfRolledOver now)) := by
      intro a limits ha
      rw [(ResourceState.extends_modifyAll (fun p => p.extends_advance now) _ s a).limits] at ha
      exact h a limits ha
    revert herror
    simp only [ResourceState.respond, reserveWithOutcomeInState]
    cases validateEstimate estimate with
    | some e => exact fun _ => rfl
    | none =>
      simp only [evaluateCascade_of_unlimited hadvanced]
      split_ifs
      · exact fun _ => rfl
      · intro herror
        cases herror
  | reconcile id actual =>
    revert herror
    simp only [ResourceState.respond, reconcileInState]
    cases s.reservations.get id with
    | none => exact fun _ => rfl
    | some record =>
      dsimp only
      split_ifs
      · exact fun _ => rfl
      · cases validateUsage actual with
        | some e => exact fun _ => rfl
        | none =>
          intro herror
          cases herror
  | release id =>
    revert herror
    simp only [ResourceState.respond, releaseInState]
    cases s.reservations.get id with
    | none => exact fun _ => rfl
    | some record =>
      dsimp only
      split_ifs
      · exact fun _ => rfl
      · intro herror
        cases herror
  | validateReservation reservation => rfl
  | accountSnapshot account => cases herror
  | reservedFor account => cases herror
  | usageFor account => cases herror

end Calls

/-! ### The governor -/

/-- A state, with the accounts that have limits. -/
structure StoredState (Tz : Type) where
  state : ResourceState Tz
  limited : List ResourceAccount
  covers : ∀ a, (state.account a).limits ≠ none → a ∈ limited

namespace StoredState

/-- `ResourceState::default`. -/
def empty : StoredState Tz := ⟨.empty, [], fun _ h => absurd rfl h⟩

/-- Whether an account has a finite limit. -/
def isFinite (s : StoredState Tz) (a : ResourceAccount) : Bool :=
  match (s.state.account a).limits with
  | some limits => !limits.isUnlimited
  | none => false

/-- `resource_state_has_finite_limits`. -/
def hasFiniteLimits (s : StoredState Tz) : Bool := s.limited.any s.isFinite

def sanitizedUnlimitedFastPathState (s : StoredState Tz) : StoredState Tz where
  state :=
    { account := fun a => { s.state.account a with reserved := none, usage := none }
      reservations := .empty }
  limited := s.limited
  covers := s.covers

end StoredState

/-- A tally of a map, when the other map is added to it. -/
def mergeTally (Tz : Type) [Platform Tz] (target other : Option ResourceTally) :
    Option ResourceTally :=
  match other with
  | some tally => some ((target.getD .zero).addAssign Tz tally)
  | none => target

def StoredState.mergeUnlimitedFastPathState [Platform Tz] (target other : StoredState Tz) : StoredState Tz where
  state :=
    { account := fun a =>
        { limits := (target.state.account a).limits
          reserved := mergeTally Tz (target.state.account a).reserved (other.state.account a).reserved
          usage := mergeTally Tz (target.state.account a).usage (other.state.account a).usage
          periodAnchor := (other.state.account a).periodAnchor.or (target.state.account a).periodAnchor }
      reservations := other.state.reservations.rows.foldl Table.put target.state.reservations }
  limited := target.limited
  covers := target.covers

structure UnlimitedFastPathState (Tz : Type) where
  state : StoredState Tz
  initialized : Bool

/-- The governor, with what its store holds. -/
structure PersistentResourceGovernor (Tz : Type) where
  snapshot : StoredState Tz
  unlimitedFastPath : Bool
  unlimitedState : UnlimitedFastPathState Tz

/-- A governor on an empty store. -/
def PersistentResourceGovernor.new (unlimitedFastPath : Bool) : PersistentResourceGovernor Tz :=
  ⟨.empty, unlimitedFastPath, ⟨.empty, false⟩⟩

section Governor

variable [Platform Tz] [DecidableEq Tz]

theorem ResourceState.respond_covers (s : StoredState Tz) (call : Call Tz) (now : ℤ) (a : ResourceAccount)
    (h : ((s.state.respond call now).2.account a).limits ≠ none) : a ∈ call.limited ++ s.limited := by
  cases call with
  | setLimit account limits =>
    by_cases ha : a = account
    · exact List.mem_cons.2 (.inl ha)
    · have hsame : ((s.state.respond (.setLimit account limits) now).2.account a) =
          s.state.account a := by
        rw [ResourceState.respond, setLimitInState, ResourceState.modify_account, if_neg ha]
      rw [hsame] at h
      exact List.mem_cons_of_mem _ (s.covers a h)
  | _ =>
    rw [(s.state.respond_extends (fun _ _ he => by cases he) now).limits a] at h
    exact s.covers a h

/-- What a call does to a state. -/
def StoredState.respond (s : StoredState Tz) (call : Call Tz) (now : ℤ) :
    Except ResourceError (Reply Tz) × StoredState Tz :=
  ((s.state.respond call now).1,
    ⟨(s.state.respond call now).2, call.limited ++ s.limited, ResourceState.respond_covers s call now⟩)

namespace PersistentResourceGovernor

/-- `ResourceGovernorStorePort::update` with the closure of a call: an error leaves the store as it is. -/
def update (g : PersistentResourceGovernor Tz) (call : Call Tz) (now : ℤ) :
    Except ResourceError (Reply Tz) × PersistentResourceGovernor Tz :=
  match (g.snapshot.respond call now).1 with
  | .ok reply => (.ok reply, { g with snapshot := (g.snapshot.respond call now).2 })
  | .error e => (.error e, g)

def trySetLimit (g : PersistentResourceGovernor Tz) (account : ResourceAccount)
    (limits : ResourceLimits Tz) (now : ℤ) : PersistentResourceGovernor Tz :=
  if g.unlimitedFastPath then
    let merged :=
      if g.unlimitedState.initialized && !limits.isUnlimited && !g.snapshot.hasFiniteLimits then
        g.snapshot.mergeUnlimitedFastPathState g.unlimitedState.state
      else g.snapshot
    let updatedState := (merged.respond (.setLimit account limits) now).2
    let kept :=
      if updatedState.hasFiniteLimits then updatedState
      else if g.unlimitedState.initialized then
        (g.unlimitedState.state.respond (.setLimit account limits) now).2
      else updatedState.sanitizedUnlimitedFastPathState
    { g with snapshot := updatedState, unlimitedState := ⟨kept, true⟩ }
  else { g with snapshot := (g.snapshot.respond (.setLimit account limits) now).2 }

omit [Platform Tz] [DecidableEq Tz] in
def unlimitedFastPathSeed (g : PersistentResourceGovernor Tz) : Option (StoredState Tz) :=
  if !g.unlimitedFastPath then none
  else if g.snapshot.hasFiniteLimits then none
  else some g.snapshot.sanitizedUnlimitedFastPathState

omit [Platform Tz] [DecidableEq Tz] in
/-- The process state, seeded when nothing is in it yet. -/
def localState (g : PersistentResourceGovernor Tz) (seed : StoredState Tz) : StoredState Tz :=
  if g.unlimitedState.initialized then g.unlimitedState.state else seed

def updateActiveState (g : PersistentResourceGovernor Tz) (call : Call Tz) (now : ℤ) :
    Except ResourceError (Reply Tz) × PersistentResourceGovernor Tz :=
  match g.unlimitedFastPathSeed with
  | some seed =>
    let r := (g.localState seed).respond call now
    (r.1, { g with unlimitedState := ⟨r.2, true⟩ })
  | none => g.update call now

def closeFastPathOrDurable (g : PersistentResourceGovernor Tz) (call : Call Tz) (now : ℤ) :
    Except ResourceError (Reply Tz) × PersistentResourceGovernor Tz :=
  match g.unlimitedFastPathSeed with
  | some seed =>
    let r := (g.localState seed).respond call now
    let g' : PersistentResourceGovernor Tz := { g with unlimitedState := ⟨r.2, true⟩ }
    match r.1 with
    | .ok reply => (.ok reply, g')
    | .error (.unknownReservation _) => g'.update call now
    | .error e => (.error e, g')
  | none => g.update call now

/-- Execute a call at a clock reading. -/
def serve (g : PersistentResourceGovernor Tz) (c : TimedCall Tz) :
    Except ResourceError (Reply Tz) × PersistentResourceGovernor Tz :=
  match c.call with
  | .setLimit account limits => (.ok .done, g.trySetLimit account limits c.now)
  | .reconcile _ _ => g.closeFastPathOrDurable c.call c.now
  | .release _ => g.closeFastPathOrDurable c.call c.now
  | _ => g.updateActiveState c.call c.now

/-- What a sequence of calls returns. -/
def replies (g : PersistentResourceGovernor Tz) : List (TimedCall Tz) → List (Except ResourceError (Reply Tz))
  | [] => []
  | c :: calls => (g.serve c).1 :: (g.serve c).2.replies calls

end PersistentResourceGovernor

/-! ### Finite limits -/

namespace StoredState

variable {s t : StoredState Tz}

omit [Platform Tz] [DecidableEq Tz] in
theorem hasFiniteLimits_iff : s.hasFiniteLimits = true ↔ ∃ a, s.isFinite a = true := by
  unfold hasFiniteLimits
  rw [List.any_eq_true]
  constructor
  · rintro ⟨a, -, ha⟩
    exact ⟨a, ha⟩
  · rintro ⟨a, ha⟩
    refine ⟨a, s.covers a ?_, ha⟩
    intro hnone
    simp [isFinite, hnone] at ha

omit [Platform Tz] [DecidableEq Tz] in
theorem isFinite_of_not_hasFiniteLimits (h : s.hasFiniteLimits = false) (a : ResourceAccount) :
    s.isFinite a = false := by
  by_contra ha
  have hfinite : s.hasFiniteLimits = true := hasFiniteLimits_iff.2 ⟨a, by simpa using ha⟩
  rw [h] at hfinite
  exact Bool.false_ne_true hfinite

omit [Platform Tz] [DecidableEq Tz] in
theorem unlimited_of_not_hasFiniteLimits (h : s.hasFiniteLimits = false) : Unlimited s.state := by
  intro a limits ha
  have hfinite := isFinite_of_not_hasFiniteLimits h a
  simpa [isFinite, ha] using hfinite

omit [Platform Tz] [DecidableEq Tz] in
theorem hasFiniteLimits_congr (h : ∀ a, (t.state.account a).limits = (s.state.account a).limits) :
    t.hasFiniteLimits = s.hasFiniteLimits := by
  rw [Bool.eq_iff_iff, hasFiniteLimits_iff, hasFiniteLimits_iff]
  refine exists_congr fun a => ?_
  rw [isFinite, isFinite, h a]

theorem isFinite_setLimit (s : StoredState Tz) (account : ResourceAccount) (limits : ResourceLimits Tz)
    (now : ℤ) (a : ResourceAccount) :
    (s.respond (.setLimit account limits) now).2.isFinite a =
      if a = account then !limits.isUnlimited else s.isFinite a := by
  have haccount : (s.respond (.setLimit account limits) now).2.state.account a =
      if a = account then (s.state.account a).setLimit limits now else s.state.account a :=
    s.state.modify_account account a (·.setLimit limits now)
  unfold isFinite
  rw [haccount]
  split_ifs
  · rfl
  · rfl

/-- What the store keeps of a call: nothing of one that fails. -/
def kept (s : StoredState Tz) (call : Call Tz) (now : ℤ) : StoredState Tz :=
  match (s.respond call now).1 with
  | .ok _ => (s.respond call now).2
  | .error _ => s

theorem kept_readsAs (h : ReadsAs s.state t.state) (call : Call Tz) (now : ℤ) :
    ReadsAs (s.kept call now).state (t.kept call now).state := by
  have hr := h.respond call now
  have hanswer : (s.respond call now).1 = (t.respond call now).1 := hr.answer
  unfold kept
  rw [hanswer]
  cases (t.respond call now).1 with
  | ok reply => exact hr.state
  | error e => exact h

theorem kept_extends (s : StoredState Tz) {call : Call Tz}
    (hcall : ∀ account limits, call ≠ .setLimit account limits) (now : ℤ) :
    Extends s.state (s.kept call now).state := by
  unfold kept
  cases (s.respond call now).1 with
  | ok reply => exact s.state.respond_extends hcall now
  | error e => exact .refl _

theorem kept_wellFormed (hw : WellFormed s.state) (call : Call Tz) (now : ℤ) :
    WellFormed (s.kept call now).state := by
  unfold kept
  cases (s.respond call now).1 with
  | ok reply => exact ResourceState.respond_wellFormed hw call now
  | error e => exact hw

theorem kept_of_unlimited (h : Unlimited s.state) (call : Call Tz) (now : ℤ) :
    (s.kept call now).state = (s.respond call now).2.state := by
  unfold kept
  cases herror : (s.respond call now).1 with
  | ok reply => rfl
  | error e => exact (ResourceState.respond_of_error h herror).symm

end StoredState

/-- No tally of the state counts anything. -/
def NoTallies (s : ResourceState Tz) : Prop :=
  ∀ a, (s.account a).reservedTally = .zero ∧ (s.account a).usageTally = .zero

omit [DecidableEq Tz] in
theorem mergeTally_of_zero {target : Option ResourceTally} (htarget : target.getD .zero = .zero)
    (other : Option ResourceTally) : (mergeTally Tz target other).getD .zero = other.getD .zero := by
  cases other with
  | none => exact htarget
  | some tally =>
    simp only [mergeTally, htarget, Option.getD_some]
    exact ResourceTally.zero_addAssign tally

omit [Platform Tz] [DecidableEq Tz] in
theorem get_foldl_put_rows (target other : Table ReservationRecord.id) (id : ResourceReservationId) :
    (other.rows.foldl Table.put target).get id = (other.get id).or (target.get id) := by
  have hall : target.filter (fun r => ((Table.empty : Table ReservationRecord.id).get r.id).isNone) =
      target := Table.eq_of_rows (List.filter_eq_self.2 fun _ _ => rfl)
  have hoverlay := target.get_overlay .empty other id
  rw [Table.overlay, hall] at hoverlay
  simpa using hoverlay

omit [DecidableEq Tz] in
theorem StoredState.merge_readsAs {target other : StoredState Tz} (hextends : Extends target.state other.state)
    (hzero : NoTallies target.state) :
    ReadsAs (target.mergeUnlimitedFastPathState other).state other.state := by
  refine ⟨fun a => ⟨(hextends.limits a).symm, ?_, ?_, ?_⟩, fun id => ?_⟩
  · exact mergeTally_of_zero (hzero a).1 _
  · exact mergeTally_of_zero (hzero a).2 _
  · show (other.state.account a).periodAnchor.or _ = _
    cases hanchor : (other.state.account a).periodAnchor with
    | none => exact hextends.periodAnchor a hanchor
    | some anchor => rfl
  · refine (get_foldl_put_rows _ _ id).trans ?_
    cases hget : other.state.reservations.get id with
    | none => exact hextends.reservations id hget
    | some record => rfl

/-! ### The two governors -/

/-- A call takes the last finite limit away. -/
structure RemovesLastLimit (s : StoredState Tz) (account : ResourceAccount) (limits : ResourceLimits Tz) :
    Prop where
  finite : s.hasFiniteLimits = true
  unlimited : limits.isUnlimited = true
  others : ∀ a, a ≠ account → s.isFinite a = false

/-- The last finite limit goes only while the copy of the process reads as the store does, and the first one
comes only while the store counts nothing. No threshold is infinite or a NaN: a snapshot with one cannot be
read back. -/
def CallInStep (g : PersistentResourceGovernor Tz) (c : TimedCall Tz) : Prop :=
  match c.call with
  | .setLimit account limits =>
    (RemovesLastLimit g.snapshot account limits →
      ReadsAs g.unlimitedState.state.state g.snapshot.state) ∧
    (g.snapshot.hasFiniteLimits = false → limits.isUnlimited = false → NoTallies g.snapshot.state) ∧
    limits.thresholds.isFinite = true
  | _ => True

/-- The governor `r` works on its store always. -/
structure Coupled (g r : PersistentResourceGovernor Tz) : Prop where
  fast : g.unlimitedFastPath = true
  durable : r.unlimitedFastPath = false
  wellFormed : WellFormed r.snapshot.state
  fresh : g.unlimitedState.initialized = false →
    g.snapshot.state = .empty ∧ r.snapshot.state = .empty
  stored : g.snapshot.hasFiniteLimits = true → ReadsAs g.snapshot.state r.snapshot.state
  mirrored : g.snapshot.hasFiniteLimits = false → g.unlimitedState.initialized = true →
    Extends g.snapshot.state g.unlimitedState.state.state ∧
      ReadsAs g.unlimitedState.state.state r.snapshot.state

namespace PersistentResourceGovernor

theorem update_eq (g : PersistentResourceGovernor Tz) (call : Call Tz) (now : ℤ) :
    g.update call now = ((g.snapshot.respond call now).1, { g with snapshot := g.snapshot.kept call now }) := by
  unfold update StoredState.kept
  cases (g.snapshot.respond call now).1 <;> rfl

theorem serve_durable {r : PersistentResourceGovernor Tz} (h : r.unlimitedFastPath = false)
    (c : TimedCall Tz) : r.serve c = r.update c.call c.now := by
  have hseed : r.unlimitedFastPathSeed = none := by
    unfold unlimitedFastPathSeed
    rw [h]
    rfl
  unfold serve
  split
  · rename_i account limits hcall
    rw [hcall, r.update_eq, trySetLimit, if_neg (by rw [h]; exact Bool.false_ne_true)]
    rfl
  · rw [closeFastPathOrDurable, hseed]
  · rw [closeFastPathOrDurable, hseed]
  · rw [updateActiveState, hseed]

end PersistentResourceGovernor

namespace Coupled

variable {g r : PersistentResourceGovernor Tz}

variable (h : Coupled g r)
include h

omit [Platform Tz] [DecidableEq Tz] in
theorem seed_of_finite (hfinite : g.snapshot.hasFiniteLimits = true) :
    g.unlimitedFastPathSeed = none := by
  unfold PersistentResourceGovernor.unlimitedFastPathSeed
  rw [h.fast, hfinite]
  rfl

omit [Platform Tz] [DecidableEq Tz] in
theorem seed_of_unlimited (hfinite : g.snapshot.hasFiniteLimits = false) :
    g.unlimitedFastPathSeed = some g.snapshot.sanitizedUnlimitedFastPathState := by
  unfold PersistentResourceGovernor.unlimitedFastPathSeed
  rw [h.fast, hfinite]
  rfl

omit [Platform Tz] [DecidableEq Tz] in
/-- What the process works on while no limit is finite. -/
theorem localState (hfinite : g.snapshot.hasFiniteLimits = false) :
    Extends g.snapshot.state
      (g.localState g.snapshot.sanitizedUnlimitedFastPathState).state ∧
    ReadsAs (g.localState g.snapshot.sanitizedUnlimitedFastPathState).state r.snapshot.state := by
  unfold PersistentResourceGovernor.localState
  split_ifs with hinitialized
  · exact h.mirrored hfinite hinitialized
  · obtain ⟨hg, hr⟩ := h.fresh (by simpa using hinitialized)
    have hsanitized : g.snapshot.sanitizedUnlimitedFastPathState.state = .empty := by
      show (⟨fun a => { g.snapshot.state.account a with reserved := none, usage := none }, .empty⟩ :
        ResourceState Tz) = .empty
      rw [hg]
      rfl
    rw [hsanitized, hg, hr]
    exact ⟨.refl _, .refl _⟩

omit [Platform Tz] [DecidableEq Tz] in
theorem initialized_of_finite (hfinite : g.snapshot.hasFiniteLimits = true) :
    g.unlimitedState.initialized = true := by
  by_contra hinitialized
  have hempty := (h.fresh (by simpa using hinitialized)).1
  obtain ⟨a, ha⟩ := StoredState.hasFiniteLimits_iff.1 hfinite
  simp [StoredState.isFinite, hempty, ResourceState.empty, AccountParts.empty] at ha

theorem respondLocal (hfinite : g.snapshot.hasFiniteLimits = false) {call : Call Tz}
    (hcall : ∀ account limits, call ≠ .setLimit account limits) (now : ℤ) :
    let l := (g.localState g.snapshot.sanitizedUnlimitedFastPathState).respond call now
    l.1 = (r.snapshot.respond call now).1 ∧
      Coupled { g with unlimitedState := ⟨l.2, true⟩ }
        { r with snapshot := r.snapshot.kept call now } := by
  intro l
  obtain ⟨hextends, hreads⟩ := h.localState hfinite
  have hunlimited : Unlimited
      (g.localState g.snapshot.sanitizedUnlimitedFastPathState).state := by
    intro a limits ha
    rw [hextends.limits a] at ha
    exact StoredState.unlimited_of_not_hasFiniteLimits hfinite a limits ha
  refine ⟨(hreads.respond call now).answer, h.fast, h.durable,
    StoredState.kept_wellFormed h.wellFormed call now, ?_, ?_, ?_⟩
  · intro hinitialized
    cases hinitialized
  · intro hfinite'
    rw [hfinite] at hfinite'
    cases hfinite'
  · intro _ _
    have hkept := (g.localState g.snapshot.sanitizedUnlimitedFastPathState).state.respond_extends hcall now
    refine ⟨⟨fun a => (hkept.limits a).trans (hextends.limits a),
      fun a ha => hextends.periodAnchor a (hkept.periodAnchor a ha),
      fun id hid => hextends.reservations id (hkept.reservations id hid)⟩, ?_⟩
    have hreads' := StoredState.kept_readsAs hreads call now
    rw [StoredState.kept_of_unlimited hunlimited] at hreads'
    exact hreads'

/-- A call on the store, while a limit is finite. -/
theorem update (hfinite : g.snapshot.hasFiniteLimits = true) {call : Call Tz}
    (hcall : ∀ account limits, call ≠ .setLimit account limits) (now : ℤ) :
    (g.update call now).1 = (r.update call now).1 ∧
      Coupled (g.update call now).2 (r.update call now).2 := by
  have hreads := h.stored hfinite
  have hsame : (g.snapshot.kept call now).hasFiniteLimits = g.snapshot.hasFiniteLimits :=
    StoredState.hasFiniteLimits_congr (g.snapshot.kept_extends hcall now).limits
  rw [g.update_eq, r.update_eq]
  refine ⟨(hreads.respond call now).answer, h.fast, h.durable,
    StoredState.kept_wellFormed h.wellFormed call now, ?_,
    fun _ => StoredState.kept_readsAs hreads call now, ?_⟩
  · intro hinitialized
    have hinitialized' : g.unlimitedState.initialized = false := hinitialized
    rw [h.initialized_of_finite hfinite] at hinitialized'
    cases hinitialized'
  · intro hfinite'
    rw [hsame, hfinite] at hfinite'
    cases hfinite'

/-- A reservation that the process does not know, the store does not know either. -/
theorem close (hfinite : g.snapshot.hasFiniteLimits = false) {call : Call Tz}
    {id : ResourceReservationId} (hclose : Closes id call) (now : ℤ) :
    (g.closeFastPathOrDurable call now).1 = (r.update call now).1 ∧
      Coupled (g.closeFastPathOrDurable call now).2 (r.update call now).2 := by
  obtain ⟨hextends, _⟩ := h.localState hfinite
  have hcall : ∀ account limits, call ≠ .setLimit account limits := by
    rintro account limits rfl
    cases hclose
  obtain ⟨hanswer, hcoupled⟩ := h.respondLocal hfinite hcall now
  unfold PersistentResourceGovernor.closeFastPathOrDurable
  rw [h.seed_of_unlimited hfinite, r.update_eq]
  dsimp only
  split
  · rename_i reply hreply
    exact ⟨hreply.symm.trans hanswer, hcoupled⟩
  · rename_i id' hunknown
    have hlocal := hclose.get_of_unknownReservation hunknown
    have hstore : (g.snapshot.respond call now).1 = .error (.unknownReservation id) :=
      hclose.respond_of_get_none now (hextends.reservations id hlocal)
    have hreply : (r.snapshot.respond call now).1 = .error (.unknownReservation id) :=
      hanswer.symm.trans (hclose.respond_of_get_none now hlocal)
    rw [PersistentResourceGovernor.update]
    dsimp only
    rw [hstore, hreply]
    exact ⟨rfl, hcoupled⟩
  · rename_i e _ he
    exact ⟨he.symm.trans hanswer, hcoupled⟩

omit [Platform Tz] [DecidableEq Tz] in
theorem copied {updated : StoredState Tz} {stored : StoredState Tz}
    (hreads : ReadsAs updated.state stored.state) (hw : WellFormed stored.state)
    (hfinite : updated.hasFiniteLimits = true) :
    Coupled { g with snapshot := updated, unlimitedState := ⟨updated, true⟩ }
      { r with snapshot := stored } := by
  refine ⟨h.fast, h.durable, hw, ?_, fun _ => hreads, ?_⟩
  · intro hinitialized
    cases hinitialized
  · intro hnone
    rw [hfinite] at hnone
    cases hnone

omit [Platform Tz] [DecidableEq Tz] in
/-- No finite limit is there after the call: the process goes on with a state of its own. -/
theorem goesOn {updated kept stored : StoredState Tz}
    (hextends : Extends updated.state kept.state) (hreads : ReadsAs kept.state stored.state)
    (hw : WellFormed stored.state) (hfinite : updated.hasFiniteLimits = false) :
    Coupled { g with snapshot := updated, unlimitedState := ⟨kept, true⟩ }
      { r with snapshot := stored } := by
  refine ⟨h.fast, h.durable, hw, ?_, ?_, fun _ _ => ⟨hextends, hreads⟩⟩
  · intro hinitialized
    cases hinitialized
  · intro hsome
    rw [hfinite] at hsome
    cases hsome

/-- While a limit is finite. -/
theorem setLimit_of_finite (hfinite : g.snapshot.hasFiniteLimits = true)
    {account : ResourceAccount} {limits : ResourceLimits Tz}
    (hcurrent : RemovesLastLimit g.snapshot account limits →
      ReadsAs g.unlimitedState.state.state g.snapshot.state) (now : ℤ) :
    Coupled (g.trySetLimit account limits now)
      { r with snapshot := (r.snapshot.respond (.setLimit account limits) now).2 } := by
  have hinitialized := h.initialized_of_finite hfinite
  have hw := ResourceState.respond_wellFormed h.wellFormed (.setLimit account limits) now
  have hreads := (h.stored hfinite).respond (.setLimit account limits) now
  unfold PersistentResourceGovernor.trySetLimit
  rw [if_pos h.fast]
  dsimp only
  rw [hfinite, Bool.not_true, Bool.and_false, if_neg Bool.false_ne_true, if_pos hinitialized]
  cases hupdated : (g.snapshot.respond (.setLimit account limits) now).2.hasFiniteLimits with
  | true =>
    rw [if_pos rfl]
    exact h.copied hreads.state hw hupdated
  | false =>
    rw [if_neg Bool.false_ne_true]
    have hlast : RemovesLastLimit g.snapshot account limits := by
      have hnone := StoredState.isFinite_of_not_hasFiniteLimits hupdated
      refine ⟨hfinite, ?_, fun a ha => ?_⟩
      · have haccount := hnone account
        rw [StoredState.isFinite_setLimit, if_pos rfl] at haccount
        simpa using haccount
      · have ha' := hnone a
        rwa [StoredState.isFinite_setLimit, if_neg ha] at ha'
    have hlocal := (hcurrent hlast).respond (.setLimit account limits) now
    exact h.goesOn ⟨fun a => (hlocal.state.account a).limits,
      fun a ha => (hlocal.state.account a).periodAnchor.symm.trans ha,
      fun id hid => (hlocal.state.reservations id).symm.trans hid⟩
      (hlocal.state.trans hreads.state) hw hupdated

theorem setLimit_of_fresh (hinitialized : g.unlimitedState.initialized = false)
    (account : ResourceAccount) (limits : ResourceLimits Tz) (now : ℤ) :
    Coupled (g.trySetLimit account limits now)
      { r with snapshot := (r.snapshot.respond (.setLimit account limits) now).2 } := by
  obtain ⟨hg, hr⟩ := h.fresh hinitialized
  have hw := ResourceState.respond_wellFormed h.wellFormed (.setLimit account limits) now
  have hstart : ReadsAs g.snapshot.state r.snapshot.state := by
    rw [hg, hr]
    exact .refl _
  have hreads := hstart.respond (.setLimit account limits) now
  unfold PersistentResourceGovernor.trySetLimit
  rw [if_pos h.fast]
  dsimp only
  rw [hinitialized, Bool.false_and, Bool.false_and, if_neg Bool.false_ne_true,
    if_neg Bool.false_ne_true]
  cases hupdated : (g.snapshot.respond (.setLimit account limits) now).2.hasFiniteLimits with
  | true =>
    rw [if_pos rfl]
    exact h.copied hreads.state hw hupdated
  | false =>
    rw [if_neg Bool.false_ne_true]
    -- there is nothing yet that the sanitizing could drop
    have hstate : (g.snapshot.respond (.setLimit account limits) now).2.state =
        setLimitInState .empty account limits now := by
      show setLimitInState g.snapshot.state account limits now = _
      rw [hg]
    have htallies : NoTallies (setLimitInState (.empty : ResourceState Tz) account limits now) := by
      intro a
      rw [setLimitInState, ResourceState.modify_account]
      split_ifs
      · refine ⟨AccountParts.setLimit_reservedTally limits now, ?_⟩
        unfold AccountParts.setLimit
        split_ifs <;> rfl
      · exact ⟨rfl, rfl⟩
    rw [← hstate] at htallies
    have hsanitized : ReadsAs
        (g.snapshot.respond (.setLimit account limits) now).2.sanitizedUnlimitedFastPathState.state
        (g.snapshot.respond (.setLimit account limits) now).2.state := by
      refine ⟨fun a => ⟨rfl, (htallies a).1.symm, (htallies a).2.symm, rfl⟩, fun id => ?_⟩
      rw [hstate]
      rfl
    exact h.goesOn ⟨fun a => rfl, fun a ha => ha, fun id hid => (hsanitized.reservations id).symm.trans hid⟩
      (hsanitized.trans hreads.state) hw hupdated

/-- While no limit is finite. -/
theorem setLimit_of_unlimited (hfinite : g.snapshot.hasFiniteLimits = false)
    (hinitialized : g.unlimitedState.initialized = true) {account : ResourceAccount}
    {limits : ResourceLimits Tz} (hzero : limits.isUnlimited = false → NoTallies g.snapshot.state)
    (now : ℤ) :
    Coupled (g.trySetLimit account limits now)
      { r with snapshot := (r.snapshot.respond (.setLimit account limits) now).2 } := by
  obtain ⟨hextends, hreads⟩ := h.mirrored hfinite hinitialized
  have hw := ResourceState.respond_wellFormed h.wellFormed (.setLimit account limits) now
  unfold PersistentResourceGovernor.trySetLimit
  rw [if_pos h.fast]
  dsimp only
  rw [hfinite, hinitialized]
  cases hlimits : limits.isUnlimited with
  | false =>
    -- the process state is merged into the store
    have hmerge : (true && !false && !false) = true := rfl
    rw [if_pos hmerge]
    have hmerged := (StoredState.merge_readsAs hextends (hzero hlimits)).trans hreads
    have hupdated := hmerged.respond (.setLimit account limits) now
    have hsome : ((g.snapshot.mergeUnlimitedFastPathState g.unlimitedState.state).respond
        (.setLimit account limits) now).2.hasFiniteLimits = true := by
      refine StoredState.hasFiniteLimits_iff.2 ⟨account, ?_⟩
      rw [StoredState.isFinite_setLimit, if_pos rfl, hlimits]
      rfl
    rw [if_pos hsome]
    exact h.copied hupdated.state hw hsome
  | true =>
    rw [if_neg (by simp)]
    have hnone : (g.snapshot.respond (.setLimit account limits) now).2.hasFiniteLimits = false := by
      by_contra hsome
      obtain ⟨a, ha⟩ := StoredState.hasFiniteLimits_iff.1 (by simpa using hsome)
      rw [StoredState.isFinite_setLimit, hlimits,
        StoredState.isFinite_of_not_hasFiniteLimits hfinite] at ha
      simp at ha
    rw [if_neg (by rw [hnone]; exact Bool.false_ne_true), if_pos rfl]
    have hlocal := hreads.respond (.setLimit account limits) now
    refine h.goesOn ⟨fun a => ?_, fun a => ?_, hextends.reservations⟩ hlocal.state hw hnone
    · show ((g.unlimitedState.state.state.modify account (·.setLimit limits now)).account a).limits =
        ((g.snapshot.state.modify account (·.setLimit limits now)).account a).limits
      rw [ResourceState.modify_account, ResourceState.modify_account]
      split_ifs
      · rfl
      · exact hextends.limits a
    · show ((g.unlimitedState.state.state.modify account
          (·.setLimit limits now)).account a).periodAnchor = none →
        ((g.snapshot.state.modify account (·.setLimit limits now)).account a).periodAnchor = none
      rw [ResourceState.modify_account, ResourceState.modify_account]
      split_ifs
      · intro hanchor
        cases hanchor
      · exact hextends.periodAnchor a

/-- One call: the same reply, and the two governors stay coupled. -/
theorem serve {c : TimedCall Tz} (hc : CallInStep g c) :
    (g.serve c).1 = (r.serve c).1 ∧ Coupled (g.serve c).2 (r.serve c).2 := by
  rw [PersistentResourceGovernor.serve_durable h.durable]
  unfold CallInStep at hc
  unfold PersistentResourceGovernor.serve
  have hopen : ∀ {call : Call Tz}, (∀ account limits, call ≠ .setLimit account limits) → ∀ now,
      (g.updateActiveState call now).1 = (r.update call now).1 ∧
        Coupled (g.updateActiveState call now).2 (r.update call now).2 := by
    intro call hcall now
    unfold PersistentResourceGovernor.updateActiveState
    cases hfinite : g.snapshot.hasFiniteLimits with
    | true =>
      rw [h.seed_of_finite hfinite]
      exact h.update hfinite hcall now
    | false =>
      rw [h.seed_of_unlimited hfinite, r.update_eq]
      exact h.respondLocal hfinite hcall now
  have hclose : ∀ {call : Call Tz} {id : ResourceReservationId}, Closes id call → ∀ now,
      (g.closeFastPathOrDurable call now).1 = (r.update call now).1 ∧
        Coupled (g.closeFastPathOrDurable call now).2 (r.update call now).2 := by
    intro call id hcloses now
    cases hfinite : g.snapshot.hasFiniteLimits with
    | true =>
      have hcall : ∀ account limits, call ≠ .setLimit account limits := by
        rintro account limits rfl
        cases hcloses
      unfold PersistentResourceGovernor.closeFastPathOrDurable
      rw [h.seed_of_finite hfinite]
      exact h.update hfinite hcall now
    | false => exact h.close hfinite hcloses now
  obtain ⟨now, call⟩ := c
  cases call with
  | setLimit account limits =>
    refine ⟨rfl, ?_⟩
    rw [r.update_eq]
    cases hfinite : g.snapshot.hasFiniteLimits with
    | true => exact h.setLimit_of_finite hfinite hc.1 now
    | false =>
      cases hinitialized : g.unlimitedState.initialized with
      | false => exact h.setLimit_of_fresh hinitialized account limits now
      | true => exact h.setLimit_of_unlimited hfinite hinitialized (hc.2.1 hfinite) now
  | reconcile id actual => exact hclose (.reconcile actual) now
  | release id => exact hclose .release now
  | reserveWithId scope estimate id => exact hopen (fun _ _ he => by cases he) now
  | validateReservation reservation => exact hopen (fun _ _ he => by cases he) now
  | accountSnapshot account => exact hopen (fun _ _ he => by cases he) now
  | reservedFor account => exact hopen (fun _ _ he => by cases he) now
  | usageFor account => exact hopen (fun _ _ he => by cases he) now

omit h

omit [Platform Tz] [DecidableEq Tz] in
theorem new : Coupled (.new true : PersistentResourceGovernor Tz) (.new false) where
  fast := rfl
  durable := rfl
  wellFormed := wellFormed_empty
  fresh := fun _ => ⟨rfl, rfl⟩
  stored := by
    intro hfinite
    cases hfinite
  mirrored := by
    intro _ hinitialized
    cases hinitialized

end Coupled

def PersistentResourceGovernor.after (g : PersistentResourceGovernor Tz) (c : TimedCall Tz) :
    PersistentResourceGovernor Tz := (g.serve c).2

omit [Platform Tz] [DecidableEq Tz] in
/-- The state that the next call works on. -/
def PersistentResourceGovernor.activeState (g : PersistentResourceGovernor Tz) : ResourceState Tz :=
  match g.unlimitedFastPathSeed with
  | some seed => (g.localState seed).state
  | none => g.snapshot.state

omit [Platform Tz] [DecidableEq Tz] in
theorem Coupled.activeState {g r : PersistentResourceGovernor Tz} (h : Coupled g r) :
    ReadsAs g.activeState r.activeState := by
  have hr : r.activeState = r.snapshot.state := by
    unfold PersistentResourceGovernor.activeState PersistentResourceGovernor.unlimitedFastPathSeed
    rw [h.durable]
    rfl
  rw [hr]
  unfold PersistentResourceGovernor.activeState
  cases hfinite : g.snapshot.hasFiniteLimits with
  | true =>
    rw [h.seed_of_finite hfinite]
    exact h.stored hfinite
  | false =>
    rw [h.seed_of_unlimited hfinite]
    exact (h.localState hfinite).2

theorem Coupled.replies {calls : List (TimedCall Tz)} :
    ∀ {g r : PersistentResourceGovernor Tz}, Coupled g r →
      Along PersistentResourceGovernor.after CallInStep g calls →
        g.replies calls = r.replies calls ∧
          Coupled (calls.foldl PersistentResourceGovernor.after g)
            (calls.foldl PersistentResourceGovernor.after r) := by
  induction calls with
  | nil => exact fun h _ => ⟨rfl, h⟩
  | cons c calls ih =>
    intro g r h halong
    obtain ⟨hreply, hnext⟩ := h.serve halong.1
    obtain ⟨hreplies, hlast⟩ := ih hnext halong.2
    refine ⟨?_, hlast⟩
    rw [PersistentResourceGovernor.replies, PersistentResourceGovernor.replies, hreply, hreplies]

theorem PersistentResourceGovernor.trySetLimit_copy {g : PersistentResourceGovernor Tz}
    (hfast : g.unlimitedFastPath = true) (account : ResourceAccount) (limits : ResourceLimits Tz) (now : ℤ)
    (hfinite : (g.trySetLimit account limits now).snapshot.hasFiniteLimits = true) :
    (g.trySetLimit account limits now).unlimitedState.state =
      (g.trySetLimit account limits now).snapshot := by
  revert hfinite
  unfold trySetLimit
  rw [if_pos hfast]
  intro hfinite
  exact if_pos hfinite

end Governor

namespace Sample

/-- A limit of ten input tokens. -/
def finite : ResourceLimits UtcOnly := limits (.ofNat 10) .perInvocation

/-- A limit of zero, which is none. -/
def unlimited : ResourceLimits UtcOnly := limits .zero .perInvocation

/-- Five tokens are reserved before there is a limit. -/
def reserveFive : TimedCall UtcOnly := ⟨0, .reserveWithId scope (tokens (.ofNat 5)) ⟨1⟩⟩

/-- A limit comes and goes, and the reservation is reported. -/
def switched : List (TimedCall UtcOnly) :=
  [reserveFive, ⟨1, .setLimit tenant finite⟩, ⟨2, .setLimit tenant unlimited⟩,
    ⟨3, .reconcile ⟨1⟩ (spent (.ofNat 3))⟩, ⟨4, .usageFor tenant⟩]

/-- The reservation is reported while there is a limit, and released when there is none. -/
def reported : List (TimedCall UtcOnly) :=
  [reserveFive, ⟨1, .setLimit tenant finite⟩, ⟨2, .reconcile ⟨1⟩ (spent (.ofNat 3))⟩,
    ⟨3, .setLimit tenant unlimited⟩, ⟨4, .release ⟨1⟩⟩]

/-- A limit comes twice. -/
def limitedTwice : List (TimedCall UtcOnly) :=
  [reserveFive, ⟨1, .setLimit tenant finite⟩, ⟨2, .setLimit tenant unlimited⟩,
    ⟨3, .setLimit tenant finite⟩, ⟨4, .reservedFor tenant⟩]

/-- The input tokens of a tally that is returned. -/
def tokensOf : Except ResourceError (Reply UtcOnly) → Option ℕ
  | .ok (.tally tally) => some tally.inputTokens.val
  | _ => none

/-- Whether a receipt is returned. -/
def isReceipt : Except ResourceError (Reply UtcOnly) → Bool
  | .ok (.receipt _) => true
  | _ => false

end Sample

end Ironclaw.Resources
