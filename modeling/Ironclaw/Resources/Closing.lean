import Ironclaw.Resources.Step

/-! # Failed operations and closed reservations

An operation of the ledger that fails leaves the reservations, limits and holds as they are. A denied
reservation has rolled over the windows of its cascade by then, so the spend of a window that is over is
gone; the spend of an account with a period and no recorded window goes as well, because a window is opened
for it (`failed_leaves`). In a run from the empty ledger every limit comes with a window
(`GovernorRun.anchored`).

A reservation is taken as active, is closed as reconciled or released, and stays as it was closed; its id is
never taken again (`Follows`, `performAll_follows`). -/

namespace Ironclaw.Resources

variable {Tz : Type} [Platform Tz] [DecidableEq Tz]

/-! ### Failures -/

/-- A reservation, reconciliation or release that returned an error. -/
def Answer.failed : Answer Tz → Bool
  | .reservation (.error _) => true
  | .receipt (.error _) => true
  | _ => false

/-- The account has a limit with a period, and no window that is open. -/
structure AccountParts.WindowOver (p : AccountParts Tz) (now : ℤ) : Prop where
  period : ∃ limits, p.limits = some limits ∧ limits.period ≠ .perInvocation
  anchor : p.periodAnchor = none ∨ ∃ periodEnd, p.periodAnchor = some periodEnd ∧ periodEnd ≤ now

/-- What a failed operation leaves of an account. -/
structure AccountParts.Kept (p p' : AccountParts Tz) (now : ℤ) : Prop where
  limits : p'.limits = p.limits
  reserved : p'.reserved = p.reserved
  usage : p'.usage = p.usage ∨ p.WindowOver now ∧ p'.usage = none

omit [Platform Tz] [DecidableEq Tz] in
theorem AccountParts.Kept.refl (p : AccountParts Tz) (now : ℤ) : p.Kept p now := ⟨rfl, rfl, .inl rfl⟩

theorem AccountParts.kept_advance (p : AccountParts Tz) (now : ℤ) :
    p.Kept (p.advancePeriodIfRolledOver now) now := by
  unfold advancePeriodIfRolledOver
  cases hlimits : p.limits with
  | none => exact .refl p now
  | some limits =>
    dsimp only
    split_ifs with hperiod hover
    · exact .refl p now
    · refine ⟨hlimits.symm, rfl, .inr ⟨⟨⟨limits, hlimits, hperiod⟩, ?_⟩, rfl⟩⟩
      cases hanchor : p.periodAnchor with
      | none => exact .inl rfl
      | some periodEnd =>
        rw [hanchor] at hover
        exact .inr ⟨periodEnd, rfl, by simpa [periodHasRolledOver] using hover⟩
    · exact .refl p now

structure FailedLeaves (s : ResourceState Tz) (now : ℤ) (s' : ResourceState Tz) : Prop where
  reservations : s'.reservations = s.reservations
  account : ∀ a, (s.account a).Kept (s'.account a) now

omit [Platform Tz] [DecidableEq Tz] in
theorem FailedLeaves.refl (s : ResourceState Tz) (now : ℤ) : FailedLeaves s now s :=
  ⟨rfl, fun _ => .refl _ now⟩

theorem failedLeaves_advance (s : ResourceState Tz) (scope : ResourceScope) (now : ℤ) :
    FailedLeaves s now
      (s.modifyAll (ResourceAccount.cascade scope) (·.advancePeriodIfRolledOver now)) := by
  refine ⟨ResourceState.modifyAll_reservations _ _ s, fun a => ?_⟩
  rw [ResourceState.modifyAll_account (ResourceAccount.cascade_nodup scope)]
  split_ifs
  · exact (s.account a).kept_advance now
  · exact .refl _ now

theorem failed_leaves (s : ResourceState Tz) (c : Command Tz) (h : (s.perform c).1.failed = true) :
    FailedLeaves s c.now (s.perform c).2 := by
  obtain ⟨now, operation⟩ := c
  cases operation with
  | setLimit account limits => cases h
  | reserve scope estimate id =>
    simp only [ResourceState.perform, reserveWithOutcomeInState] at h ⊢
    cases hvalid : validateEstimate estimate with
    | some error => exact .refl s now
    | none =>
      rw [hvalid] at h
      dsimp only at h ⊢
      split_ifs at h ⊢ with hexists
      · exact .refl s now
      · split at h
        · exact failedLeaves_advance s scope now
        · cases h
  | reconcile id actual =>
    simp only [ResourceState.perform, reconcileInState] at h ⊢
    cases hget : s.reservations.get id with
    | none => exact .refl s now
    | some record =>
      rw [hget] at h
      dsimp only at h ⊢
      split_ifs at h ⊢ with hclosed
      · exact .refl s now
      · cases hvalid : validateUsage actual with
        | some error => exact .refl s now
        | none =>
          rw [hvalid] at h
          cases h
  | release id =>
    simp only [ResourceState.perform, releaseInState] at h ⊢
    cases hget : s.reservations.get id with
    | none => exact .refl s now
    | some record =>
      rw [hget] at h
      dsimp only at h ⊢
      split_ifs at h ⊢ with hclosed
      · exact .refl s now
      · cases h
  | accountSnapshot account => cases h

/-! ### Windows of a run -/

/-- A limit comes with the end of a window of its period. -/
def AccountParts.Anchored (p : AccountParts Tz) : Prop :=
  ∀ limits, p.limits = some limits →
    ∃ opened, p.periodAnchor = some (periodBounds limits.period opened).2

theorem AccountParts.Anchored.advance {p : AccountParts Tz} (h : p.Anchored) (now : ℤ) :
    (p.advancePeriodIfRolledOver now).Anchored := by
  obtain heq | ⟨limits, hlimits, -, heq⟩ := p.advance_cases now
  · rw [heq]
    exact h
  · rw [heq]
    rintro limits' hlimits'
    cases hlimits.symm.trans hlimits'
    exact ⟨now, rfl⟩

omit [DecidableEq Tz] in
theorem AccountParts.Anchored.hold {p : AccountParts Tz} (h : p.Anchored) (t : ResourceTally) :
    (p.hold t).Anchored := h

theorem AccountParts.anchored_setLimit (p : AccountParts Tz) (limits : ResourceLimits Tz)
    (now : ℤ) : (p.setLimit limits now).Anchored := by
  rintro limits' hlimits'
  cases hlimits'
  exact ⟨now, rfl⟩

theorem Does.anchored {s s' : ResourceState Tz} {c : Command Tz} (h : Does s c s')
    (hs : ∀ a, (s.account a).Anchored) : ∀ a, (s'.account a).Anchored := by
  cases h with
  | setLimit account limits now =>
    intro a
    rw [ResourceState.modify_account]
    split_ifs
    · exact AccountParts.anchored_setLimit _ limits now
    · exact hs a
  | refused _ => exact hs
  | denied now _ _ => exact ResourceState.forall_modifyAll (fun p hp => hp.advance now) _ hs
  | reserved now _ _ _ =>
    exact ResourceState.forall_modifyAll (fun p hp => hp.hold _) _
      (ResourceState.forall_modifyAll (fun p hp => hp.advance now) _ hs)
  | reconciled now _ _ _ => exact ResourceState.forall_modifyAll (fun p hp => hp.advance now) _ hs
  | released now _ _ => exact ResourceState.forall_modifyAll (fun p hp => hp.advance now) _ hs
  | snapshot account now =>
    intro a
    rw [ResourceState.modify_account]
    split_ifs
    · exact (hs a).advance now
    · exact hs a

variable {s : ResourceState Tz}

theorem GovernorRun.anchored {history : History Tz}
    (run : GovernorRun history s) (a : ResourceAccount) : (s.account a).Anchored := by
  refine Run.invariant (I := fun s => ∀ a, (s.account a).Anchored) (A := fun _ => True) ?_ ?_ ?_ run
    (fun _ _ => trivial) a
  · intro a limits h
    cases h
  · rintro s _ rfl hs
    exact hs
  · intro s c _ hs
    exact (perform_does s c).anchored hs

/-! ### Reservations over a run -/

/-- The commands one after the other. -/
def ResourceState.performAll (s : ResourceState Tz) (commands : List (Command Tz)) : ResourceState Tz :=
  commands.foldl (fun s c => (s.perform c).2) s

/-- What one command may do to the record of an id: take it as active, or close an active one. -/
inductive Follows : Option ReservationRecord → Option ReservationRecord → Prop
  | same (entry : Option ReservationRecord) : Follows entry entry
  | taken {record : ReservationRecord} (h : record.status = .active) : Follows none (some record)
  | reconciled {record : ReservationRecord} (h : record.status = .active) (actual : ResourceUsage) :
      Follows (some record) (some { record with status := .reconciled, actual := some actual })
  | released {record : ReservationRecord} (h : record.status = .active) :
      Follows (some record) (some { record with status := .released })

theorem Does.follows {s s' : ResourceState Tz} {c : Command Tz} (h : Does s c s')
    (id : ResourceReservationId) : Follows (s.reservations.get id) (s'.reservations.get id) := by
  cases h with
  | setLimit account limits now => exact .same _
  | refused _ => exact .same _
  | denied now _ _ =>
    rw [ResourceState.modifyAll_reservations]
    exact .same _
  | @reserved scope estimate id' now _ hfresh _ =>
    show Follows _ ((s.reservations.put (activeRecord ⟨id', scope, estimate⟩ now)).get id)
    rw [Table.get_put]
    split_ifs with hid
    · obtain rfl : id' = id := hid
      rw [hfresh]
      exact .taken rfl
    · exact .same _
  | @reconciled id' actual record now hget hactive _ =>
    show Follows _ ((s.reservations.put _).get id)
    rw [Table.get_put]
    split_ifs with hid
    · obtain rfl : id' = id := (Table.key_of_get hget).symm.trans hid
      rw [hget]
      exact .reconciled hactive actual
    · exact .same _
  | @released id' record now hget hactive =>
    show Follows _ ((s.reservations.put _).get id)
    rw [Table.get_put]
    split_ifs with hid
    · obtain rfl : id' = id := (Table.key_of_get hget).symm.trans hid
      rw [hget]
      exact .released hactive
    · exact .same _
  | snapshot account now => exact .same _

/-- What becomes of a record: a closed one stays, an active one is closed at most once. -/
inductive ClosedOnce (record : ReservationRecord) : Option ReservationRecord → Prop
  | same : ClosedOnce record (some record)
  | reconciled (h : record.status = .active) (actual : ResourceUsage) :
      ClosedOnce record (some { record with status := .reconciled, actual := some actual })
  | released (h : record.status = .active) :
      ClosedOnce record (some { record with status := .released })

variable {record : ReservationRecord}

theorem ClosedOnce.follows {entry entry' : Option ReservationRecord}
    (h : ClosedOnce record entry) (hstep : Follows entry entry') : ClosedOnce record entry' := by
  cases h with
  | same =>
    cases hstep with
    | same => exact .same
    | reconciled hactive actual => exact .reconciled hactive actual
    | released hactive => exact .released hactive
  | reconciled hactive actual =>
    cases hstep with
    | same => exact .reconciled hactive actual
    | reconciled hclosed => cases hclosed
    | released hclosed => cases hclosed
  | released hactive =>
    cases hstep with
    | same => exact .released hactive
    | reconciled hclosed => cases hclosed
    | released hclosed => cases hclosed

theorem performAll_closedOnce {id : ResourceReservationId} {entry : Option ReservationRecord}
    (hentry : s.reservations.get id = entry) (h : ClosedOnce record entry)
    (commands : List (Command Tz)) :
    ClosedOnce record ((s.performAll commands).reservations.get id) := by
  induction commands generalizing s entry with
  | nil => exact hentry ▸ h
  | cons c commands ih =>
    have hstep := (perform_does s c).follows id
    rw [hentry] at hstep
    exact ih rfl (h.follows hstep)

theorem reserve_failed_of_record {id : ResourceReservationId}
    (h : (s.reservations.get id).isSome) (scope : ResourceScope) (estimate : ResourceEstimate) (now : ℤ) :
    (s.perform ⟨now, .reserve scope estimate id⟩).1.failed = true := by
  simp only [ResourceState.perform, reserveWithOutcomeInState]
  cases validateEstimate estimate with
  | some error => rfl
  | none =>
    dsimp only
    rw [if_pos h]
    rfl

omit [Platform Tz] [DecidableEq Tz] in
theorem ClosedOnce.isSome {entry : Option ReservationRecord}
    (h : ClosedOnce record entry) : entry.isSome := by
  cases h <;> rfl

/-- A failed operation leaves reservations, limits and holds as they are, and drops spend only of accounts
without an open window, which after a run from the empty ledger means: of windows that had ended. In a run
from any state, an id without a record gets an active one at first, a record is closed at most once, and the
id of a record is never reserved again. -/
theorem failures_leave_ledger_and_records_close_once :
    (∀ (s : ResourceState Tz) (c : Command Tz), (s.perform c).1.failed = true →
      FailedLeaves s c.now (s.perform c).2) ∧
    (∀ (history : History Tz) (s : ResourceState Tz), GovernorRun history s → ∀ a now,
      (s.account a).WindowOver now → ∃ periodEnd, (s.account a).periodAnchor = some periodEnd ∧
        periodEnd ≤ now) ∧
    (∀ (s : ResourceState Tz) (c : Command Tz) (id : ResourceReservationId),
      Follows (s.reservations.get id) ((s.perform c).2.reservations.get id)) ∧
    ∀ (s : ResourceState Tz) (id : ResourceReservationId) (record : ReservationRecord),
      s.reservations.get id = some record → ∀ commands,
        ClosedOnce record ((s.performAll commands).reservations.get id) ∧
        ∀ scope estimate now,
          ((s.performAll commands).perform ⟨now, .reserve scope estimate id⟩).1.failed = true := by
  refine ⟨failed_leaves, ?_, fun s c id => (perform_does s c).follows id, ?_⟩
  · intro history s run a now hover
    refine hover.anchor.resolve_left fun hnone => ?_
    obtain ⟨limits, hlimits, -⟩ := hover.period
    obtain ⟨opened, hanchor⟩ := run.anchored a _ hlimits
    rw [hnone] at hanchor
    cases hanchor
  · intro s id record hget commands
    have hclosed := performAll_closedOnce hget (ClosedOnce.same : ClosedOnce record _) commands
    exact ⟨hclosed, reserve_failed_of_record hclosed.isSome⟩

/-- A tenant whose spend was carried over with a rolling limit and without a window. -/
def Sample.unanchored : ResourceState UtcOnly :=
  ⟨fun account =>
    if account = Sample.tenant then
      ⟨some (Sample.limits (.ofNat 10) .rolling24h), none,
        some (.fromUsage (Sample.spent (.ofNat 5))), none⟩
    else .empty, .empty⟩

/-- A reservation that is denied drops the spend of an account that has no recorded window. -/
theorem denied_reservation_drops_unanchored_spend :
    ¬ ∀ (s : ResourceState UtcOnly) (c : Command UtcOnly), (s.perform c).1.failed = true →
      ∀ a, ((s.perform c).2.account a).usage = (s.account a).usage ∨
        ∃ periodEnd, (s.account a).periodAnchor = some periodEnd ∧ periodEnd ≤ c.now := by
  intro hall
  have hfailed : (Sample.unanchored.perform
      ⟨0, .reserve Sample.scope (Sample.tokens ⟨20, by decide⟩) ⟨1⟩⟩).1.failed = true := by
    decide +kernel
  rcases hall _ _ hfailed Sample.tenant with hsame | ⟨periodEnd, hanchor, -⟩
  · revert hsame
    decide +kernel
  · cases hanchor

end Ironclaw.Resources
