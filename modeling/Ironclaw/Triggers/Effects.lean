import Ironclaw.Triggers.LibSql

/-! # What a call on the libSQL repository writes

`call_eq_ok` is the inversion of a call: it leaves the tables as they were, or it wrote what one of
the constructors of `Wrote` says, under the guards that the constructor names. Results about the
repository start from it and do not unfold the operations. -/

namespace Ironclaw.Triggers.LibSql

variable {crates : CronCrates} {wall : Timestamp} {s s' : Store} {trigger : TriggerKey}
  {record row : TriggerRecord}

/-! ### Reading and updating a row -/

theorem rowToRecord_eq_ok (h : rowToRecord crates wall row = .ok record) : record = row := by
  obtain ⟨_, _, h⟩ := bind_eq_ok.1 h
  obtain ⟨_, _, h⟩ := bind_eq_ok.1 h
  exact (pure_eq_ok.1 h).symm

theorem fetchRecord_eq_some (h : fetchRecord crates wall s trigger = .ok (some record)) :
    s.records.get trigger = some record := by
  unfold fetchRecord at h
  cases hget : s.records.get trigger with
  | none => simp [hget] at h
  | some row =>
    simp only [hget, map_eq_ok, Option.some.injEq] at h
    obtain ⟨_, hrow, rfl⟩ := h
    rw [rowToRecord_eq_ok hrow]

theorem updateReturning_eq_some {selects : TriggerRecord → Prop} [DecidablePred selects]
    {set : TriggerRecord → TriggerRecord}
    (h : updateReturning crates wall s trigger selects set = .ok (some (record, s'))) :
    ∃ row, s.records.get trigger = some row ∧ selects row ∧ record = set row ∧
      s' = s.putRecord (set row) := by
  unfold updateReturning at h
  cases hget : s.records.get trigger with
  | none => simp [hget] at h
  | some row =>
    simp only [hget] at h
    split at h
    · rename_i hselects
      obtain ⟨_, hrow, h⟩ := map_eq_ok.1 h
      rw [rowToRecord_eq_ok hrow, Option.some.injEq, Prod.mk.injEq] at h
      exact ⟨row, rfl, hselects, h.1.symm, h.2.symm⟩
    · exact absurd (Except.ok.inj h).symm (Option.some_ne_none _)

/-! ### The effects -/

/-- The update that an accepted or replayed result asks for. -/
def successfulUpdate : Request → Option SuccessfulFireResultUpdate
  | .markFireAccepted request => some (.ofAccepted request)
  | .markFireReplayed request => some (.ofReplayed request)
  | _ => none

/-- The source that a result finds for a fire. -/
def fireSource (s : Store) (trigger : TriggerKey) (fireSlot : Timestamp) : TriggerSourceKind :=
  (fetchRunSource s trigger fireSlot).getD .schedule

/-- The failure results, with the record that each of them leaves beside the fire. -/
inductive Fails (s : Store) (row : TriggerRecord) :
    Request → TriggerKey → Timestamp → TriggerRecord → Prop
  | retryable {request : FireRetryableFailedRequest}
      (hcadence : fireSource s request.trigger request.fireSlot = .manual ∨
        row.nextRunAt ≤ request.fireSlot) :
      Fails s row (.markFireRetryableFailed request) request.trigger request.fireSlot row
  | permanently {request : FirePermanentFailedRequest}
      (hfuture : fireSource s request.trigger request.fireSlot = .schedule →
        request.fireSlot < request.nextRunAt) :
      Fails s row (.markFirePermanentlyFailed request) request.trigger request.fireSlot
        { row with
          nextRunAt := if fireSource s request.trigger request.fireSlot = .manual then
            row.nextRunAt else request.nextRunAt }
  | terminally {request : FireTerminalFailedRequest} :
      Fails s row (.markFireTerminallyFailed request) request.trigger request.fireSlot
        { row with
          state := if fireSource s request.trigger request.fireSlot = .manual then row.state
            else .completed }

/-- What a call can write. -/
inductive Wrote (crates : CronCrates) (s : Store) (c : Call) : Store → Prop
  | upserted {record : TriggerRecord} (hc : c.request = .upsertTrigger record) :
      Wrote crates s c (writeRecord s record)
  | stateSet {request : SetScopedTriggerStateRequest} {row : TriggerRecord} {nextRunAt : Timestamp}
      (hc : c.request = .setScopedTriggerState request)
      (hrow : s.records.get request.trigger = some row)
      (hsettable : request.state ≠ .completed) (hopen : row.state ≠ .completed)
      (hnext : nextRunAtForStateTransition crates c.wall row request.state c.wall = .ok nextRunAt) :
      Wrote crates s c (s.putRecord { row with
        state := request.state
        nextRunAt := nextRunAt })
  | dueClaimed {request : ClaimDueFireRequest} {row : TriggerRecord}
      (hc : c.request = .claimDueFire request) (hrow : s.records.get request.trigger = some row)
      (hstate : row.state = .scheduled) (hslot : row.nextRunAt = request.fireSlot)
      (hdue : request.fireSlot ≤ request.now) (hfree : row.activeFireSlot = none)
      (hidle : row.activeRunRef = none) :
      Wrote crates s c (pruneRunHistory (upsertRunHistory (s.putRecord { row with
        activeFireSlot := some request.fireSlot
        activeRunRef := none }) (.running request.trigger request.fireSlot .schedule none
          request.now)) request.trigger)
  | manualClaimed {request : ClaimManualFireRequest} {row : TriggerRecord}
      (hc : c.request = .claimManualFire request) (hrow : s.records.get request.trigger = some row)
      (hstate : row.state = .scheduled) (hfree : row.activeFireSlot = none)
      (hidle : row.activeRunRef = none) :
      Wrote crates s c (pruneRunHistory (upsertRunHistory (s.putRecord { row with
        activeFireSlot := some request.now
        activeRunRef := none }) (.running request.trigger request.now .manual none
          request.now)) request.trigger)
  | accepted {update : SuccessfulFireResultUpdate} {row : TriggerRecord}
      {nextRunAt : Option Timestamp} (hc : successfulUpdate c.request = some update)
      (hrow : s.records.get update.trigger = some row)
      (hslot : row.activeFireSlot = some update.fireSlot) (hidle : row.activeRunRef = none)
      (hnext : nextRunAtAfterFire crates c.wall (fireSource s update.trigger update.fireSlot)
        row.schedule update.fireSlot = .ok nextRunAt) :
      Wrote crates s c (upsertRunHistory (s.putRecord (acceptedRecord update nextRunAt row))
        (acceptedRun update (fireSource s update.trigger update.fireSlot) update.resultAt))
  | failed {trigger : TriggerKey} {fireSlot : Timestamp} {row left : TriggerRecord}
      (hc : Fails s row c.request trigger fireSlot left)
      (hrow : s.records.get trigger = some row)
      (hslot : row.activeFireSlot = some fireSlot) (hidle : row.activeRunRef = none) :
      Wrote crates s c (completeRunHistory (s.putRecord { left with
        lastStatus := some .error
        activeFireSlot := none
        activeRunRef := none }) trigger fireSlot (fireSource s trigger fireSlot) none .error c.wall)
  | cleared {request : ClearActiveFireRequest} {row : TriggerRecord}
      {nextSlot : Option Timestamp} (hc : c.request = .clearActiveFire request)
      (hrow : s.records.get request.trigger = some row)
      (hslot : row.activeFireSlot = some request.fireSlot)
      (hrun : row.activeRunRef = some request.runId)
      (hnext : nextSlotAfterRun crates c.wall (fireSource s request.trigger request.fireSlot) row
        request.fireSlot = .ok nextSlot) :
      Wrote crates s c (completeRunHistory (s.putRecord { row with
        activeFireSlot := none
        activeRunRef := none
        state := if nextSlot = none then .completed else row.state }) request.trigger
          request.fireSlot (fireSource s request.trigger request.fireSlot) (some request.runId)
          request.status c.wall)

/-! ### Each operation -/

theorem eq_of_pure_eq_ok {α : Type} {a b : α}
    (h : (pure (a, s) : Except TriggerError (α × Store)) = .ok (b, s')) : s' = s :=
  (Prod.mk.inj (pure_eq_ok.1 h)).2.symm

variable {reply : Option TriggerRecord}

theorem setScopedTriggerState_eq_ok {request : SetScopedTriggerStateRequest}
    (h : setScopedTriggerState crates wall s request = .ok (reply, s')) :
    s' = s ∨ Wrote crates s ⟨wall, .setScopedTriggerState request⟩ s' := by
  obtain ⟨_, hsettable, h⟩ := bind_eq_ok.1 h
  obtain ⟨fetched, hfetch, h⟩ := bind_eq_ok.1 h
  cases fetched with
  | none => exact .inl (eq_of_pure_eq_ok h)
  | some current =>
    simp only at h
    split at h
    · exact .inl (eq_of_pure_eq_ok h)
    rename_i hguard
    obtain ⟨nextRunAt, hnext, h⟩ := bind_eq_ok.1 h
    obtain ⟨updated, hupdate, h⟩ := bind_eq_ok.1 h
    rcases updated with - | ⟨record, stored⟩
    · exact .inl (eq_of_pure_eq_ok h)
    · obtain ⟨row, hrow, -, -, rfl⟩ := updateReturning_eq_some hupdate
      rw [fetchRecord_eq_some hfetch, Option.some.injEq] at hrow
      subst hrow
      rw [eq_of_pure_eq_ok h]
      refine .inr (.stateSet rfl (fetchRecord_eq_some hfetch) ?_ ?_ hnext)
      · intro hstate
        rw [hstate] at hsettable
        exact absurd hsettable nofun
      · exact fun hstate => hguard (.inr (.inr (.inr hstate)))

theorem claimDueFire_eq_ok {request : ClaimDueFireRequest} {outcome : ClaimDueFireOutcome}
    (h : claimDueFire crates wall s request = .ok (outcome, s')) :
    s' = s ∨ Wrote crates s ⟨wall, .claimDueFire request⟩ s' := by
  obtain ⟨updated, hupdate, h⟩ := bind_eq_ok.1 h
  rcases updated with - | ⟨record, stored⟩
  · obtain ⟨fetched, -, h⟩ := bind_eq_ok.1 h
    left
    cases fetched with
    | none => exact eq_of_pure_eq_ok h
    | some record =>
      simp only at h
      split_ifs at h
      · exact eq_of_pure_eq_ok h
      · exact eq_of_pure_eq_ok h
      · exact eq_of_pure_eq_ok h
  · obtain ⟨row, hrow, ⟨hstate, hslot, hdue, hfree, hidle⟩, -, rfl⟩ :=
      updateReturning_eq_some hupdate
    rw [eq_of_pure_eq_ok h]
    exact .inr (.dueClaimed rfl hrow hstate hslot hdue hfree hidle)

theorem claimManualFire_eq_ok {request : ClaimManualFireRequest} {outcome : ClaimDueFireOutcome}
    (h : claimManualFire crates wall s request = .ok (outcome, s')) :
    s' = s ∨ Wrote crates s ⟨wall, .claimManualFire request⟩ s' := by
  obtain ⟨updated, hupdate, h⟩ := bind_eq_ok.1 h
  rcases updated with - | ⟨record, stored⟩
  · obtain ⟨fetched, -, h⟩ := bind_eq_ok.1 h
    left
    cases fetched with
    | none => exact eq_of_pure_eq_ok h
    | some record =>
      simp only at h
      split_ifs at h
      · exact eq_of_pure_eq_ok h
      · exact eq_of_pure_eq_ok h
      · exact eq_of_pure_eq_ok h
  · obtain ⟨row, hrow, ⟨hstate, hfree, hidle⟩, -, rfl⟩ := updateReturning_eq_some hupdate
    rw [eq_of_pure_eq_ok h]
    exact .inr (.manualClaimed rfl hrow hstate hfree hidle)

theorem lastRunAt_acceptedRecord (update : SuccessfulFireResultUpdate)
    (nextRunAt : Option Timestamp) (row : TriggerRecord) :
    (acceptedRecord update nextRunAt row).lastRunAt = some update.resultAt := rfl

theorem recordSuccessfulFire_eq_some {request : Request} {update : SuccessfulFireResultUpdate}
    (hrequest : successfulUpdate request = some update)
    (h : recordSuccessfulFire crates wall s update = .ok (some (record, s'))) :
    s' = s ∨ Wrote crates s ⟨wall, request⟩ s' := by
  obtain ⟨fetched, hfetch, h⟩ := bind_eq_ok.1 h
  cases fetched with
  | none => exact absurd (pure_eq_ok.1 h).symm (Option.some_ne_none _)
  | some current =>
    simp only at h
    split at h
    · exact absurd (pure_eq_ok.1 h).symm (Option.some_ne_none _)
    rename_i hslot
    have hrow := fetchRecord_eq_some hfetch
    cases hrun : current.activeRunRef with
    | some activeRunRef =>
      simp only [hrun] at h
      obtain ⟨_, -, h⟩ := bind_eq_ok.1 h
      exact .inl (Prod.mk.inj (Option.some.inj (pure_eq_ok.1 h))).2.symm
    | none =>
      simp only [hrun] at h
      obtain ⟨nextRunAt, hnext, h⟩ := bind_eq_ok.1 h
      obtain ⟨updated, hupdate, h⟩ := bind_eq_ok.1 h
      rcases updated with - | ⟨updated, stored⟩
      · exact absurd (pure_eq_ok.1 h).symm (Option.some_ne_none _)
      · obtain ⟨row, hrow', -, rfl, rfl⟩ := updateReturning_eq_some hupdate
        rw [hrow, Option.some.injEq] at hrow'
        subst hrow'
        rw [← (Prod.mk.inj (Option.some.inj (pure_eq_ok.1 h))).2, lastRunAt_acceptedRecord,
          Option.getD_some]
        exact .inr (.accepted hrequest hrow (not_not.1 hslot) hrun hnext)

theorem markSuccessfulFireResult_eq_ok {request : Request} {update : SuccessfulFireResultUpdate}
    (hrequest : successfulUpdate request = some update)
    (h : markSuccessfulFireResult crates wall s update = .ok (reply, s')) :
    s' = s ∨ Wrote crates s ⟨wall, request⟩ s' := by
  obtain ⟨recorded, hrecorded, h⟩ := bind_eq_ok.1 h
  rcases recorded with - | ⟨record, stored⟩
  · obtain ⟨_, -, h⟩ := bind_eq_ok.1 h
    exact .inl (eq_of_pure_eq_ok h)
  · rw [eq_of_pure_eq_ok h]
    exact recordSuccessfulFire_eq_some hrequest hrecorded

theorem failClaimedFire_eq_ok {fireSlot : Timestamp} {source : TriggerSourceKind}
    {selects : TriggerRecord → Prop} [DecidablePred selects] {set : TriggerRecord → TriggerRecord}
    (h : failClaimedFire crates wall s trigger fireSlot source selects set = .ok (reply, s')) :
    s' = s ∨ ∃ row, s.records.get trigger = some row ∧ row.activeFireSlot = some fireSlot ∧
      row.activeRunRef = none ∧ selects row ∧
      s' = completeRunHistory (s.putRecord { set row with
        lastStatus := some .error
        activeFireSlot := none
        activeRunRef := none }) trigger fireSlot source none .error wall := by
  obtain ⟨updated, hupdate, h⟩ := bind_eq_ok.1 h
  rcases updated with - | ⟨record, stored⟩
  · obtain ⟨_, -, h⟩ := bind_eq_ok.1 h
    exact .inl (eq_of_pure_eq_ok h)
  · obtain ⟨row, hrow, ⟨hslot, hidle, hselects⟩, -, rfl⟩ := updateReturning_eq_some hupdate
    exact .inr ⟨row, hrow, hslot, hidle, hselects, eq_of_pure_eq_ok h⟩

theorem markFireRetryableFailed_eq_ok {request : FireRetryableFailedRequest}
    (h : markFireRetryableFailed crates wall s request = .ok (reply, s')) :
    s' = s ∨ Wrote crates s ⟨wall, .markFireRetryableFailed request⟩ s' := by
  obtain ⟨fetched, hfetch, h⟩ := bind_eq_ok.1 h
  cases fetched with
  | none => exact .inl (eq_of_pure_eq_ok h)
  | some record =>
    simp only at h
    split at h
    · exact .inl (eq_of_pure_eq_ok h)
    obtain ⟨_, -, h⟩ := bind_eq_ok.1 h
    obtain ⟨_, -, h⟩ := bind_eq_ok.1 h
    rcases failClaimedFire_eq_ok h with rfl | ⟨row, hrow, hslot, hidle, hcadence, rfl⟩
    · exact .inl rfl
    · exact .inr (.failed (.retryable hcadence) hrow hslot hidle)

theorem rejectFailedCadence_eq_ok {source : TriggerSourceKind} {fireSlot nextRunAt : Timestamp}
    {u : Unit} (h : rejectFailedCadence source fireSlot nextRunAt = .ok u)
    (hsource : source = .schedule) : fireSlot < nextRunAt := by
  rw [rejectFailedCadence, if_pos hsource, rejectNonFutureNextRunAt, rejectIf_eq_ok] at h
  exact not_not.1 h

theorem markFirePermanentlyFailed_eq_ok {request : FirePermanentFailedRequest}
    (h : markFirePermanentlyFailed crates wall s request = .ok (reply, s')) :
    s' = s ∨ Wrote crates s ⟨wall, .markFirePermanentlyFailed request⟩ s' := by
  obtain ⟨fetched, hfetch, h⟩ := bind_eq_ok.1 h
  cases fetched with
  | none => exact .inl (eq_of_pure_eq_ok h)
  | some record =>
    simp only at h
    split at h
    · exact .inl (eq_of_pure_eq_ok h)
    obtain ⟨_, -, h⟩ := bind_eq_ok.1 h
    obtain ⟨_, hcadence, h⟩ := bind_eq_ok.1 h
    rcases failClaimedFire_eq_ok h with rfl | ⟨row, hrow, hslot, hidle, -, rfl⟩
    · exact .inl rfl
    · exact .inr (.failed (.permanently (rejectFailedCadence_eq_ok hcadence)) hrow hslot hidle)

theorem markFireTerminallyFailed_eq_ok {request : FireTerminalFailedRequest}
    (h : markFireTerminallyFailed crates wall s request = .ok (reply, s')) :
    s' = s ∨ Wrote crates s ⟨wall, .markFireTerminallyFailed request⟩ s' := by
  rcases failClaimedFire_eq_ok h with rfl | ⟨row, hrow, hslot, hidle, -, rfl⟩
  · exact .inl rfl
  · exact .inr (.failed .terminally hrow hslot hidle)

theorem clearActiveFire_eq_ok {request : ClearActiveFireRequest}
    (h : clearActiveFire crates wall s request = .ok (reply, s')) :
    s' = s ∨ Wrote crates s ⟨wall, .clearActiveFire request⟩ s' := by
  obtain ⟨fetched, hfetch, h⟩ := bind_eq_ok.1 h
  cases fetched with
  | none => exact .inl (eq_of_pure_eq_ok h)
  | some current =>
    simp only at h
    split at h
    · exact .inl (eq_of_pure_eq_ok h)
    obtain ⟨nextSlot, hnext, h⟩ := bind_eq_ok.1 h
    obtain ⟨updated, hupdate, h⟩ := bind_eq_ok.1 h
    rcases updated with - | ⟨record, stored⟩
    · exact .inl (eq_of_pure_eq_ok h)
    · obtain ⟨row, hrow, ⟨hslot, hrun⟩, -, rfl⟩ := updateReturning_eq_some hupdate
      have hcurrent := fetchRecord_eq_some hfetch
      rw [hrow, Option.some.injEq] at hcurrent
      subst hcurrent
      rw [eq_of_pure_eq_ok h]
      exact .inr (.cleared rfl hrow hslot hrun hnext)

/-- A call leaves the tables as they were or writes what `Wrote` says. -/
theorem call_eq_ok {c : Call} {reply : Reply} (h : call crates s c = .ok (reply, s')) :
    s' = s ∨ Wrote crates s c s' := by
  obtain ⟨wall, request⟩ := c
  have reads : ∀ {α : Type} {x : Except TriggerError α} {f : α → Reply},
      (x.map fun reply => (f reply, s)) = .ok (reply, s') → s' = s := by
    intro α x f hx
    obtain ⟨_, -, hx⟩ := map_eq_ok.1 hx
    exact (Prod.mk.inj hx).2.symm
  have writes : ∀ {α : Type} {x : Except TriggerError (α × Store)} {f : α → Reply},
      x.map (Prod.map f id) = .ok (reply, s') → ∃ a, x = .ok (a, s') := by
    intro α x f hx
    obtain ⟨⟨a, stored⟩, hx, hpair⟩ := map_eq_ok.1 hx
    rw [← (Prod.mk.inj hpair).2]
    exact ⟨a, hx⟩
  cases request with
  | upsertTrigger record =>
    obtain ⟨_, h⟩ := writes h
    obtain ⟨_, -, h⟩ := bind_eq_ok.1 h
    rw [← (Prod.mk.inj (pure_eq_ok.1 h)).2]
    exact .inr (.upserted rfl)
  | getTrigger trigger => exact .inl (reads h)
  | listTriggers tenantId => exact .inl (reads h)
  | listScopedTriggers tenantId creatorUserId agentId projectId limit excludedStates =>
    exact .inl (reads h)
  | setScopedTriggerState request =>
    obtain ⟨_, h⟩ := writes h
    exact setScopedTriggerState_eq_ok h
  | listDueTriggers now limit => exact .inl (reads h)
  | listActiveTriggersAfter after limit => exact .inl (reads h)
  | claimDueFire request =>
    obtain ⟨_, h⟩ := writes h
    exact claimDueFire_eq_ok h
  | claimManualFire request =>
    obtain ⟨_, h⟩ := writes h
    exact claimManualFire_eq_ok h
  | markFireAccepted request =>
    obtain ⟨_, h⟩ := writes h
    exact markSuccessfulFireResult_eq_ok rfl h
  | markFireReplayed request =>
    obtain ⟨_, h⟩ := writes h
    exact markSuccessfulFireResult_eq_ok rfl h
  | markFireRetryableFailed request =>
    obtain ⟨_, h⟩ := writes h
    exact markFireRetryableFailed_eq_ok h
  | markFirePermanentlyFailed request =>
    obtain ⟨_, h⟩ := writes h
    exact markFirePermanentlyFailed_eq_ok h
  | markFireTerminallyFailed request =>
    obtain ⟨_, h⟩ := writes h
    exact markFireTerminallyFailed_eq_ok h
  | clearActiveFire request =>
    obtain ⟨_, h⟩ := writes h
    exact clearActiveFire_eq_ok h
  | listTriggerRunHistory trigger limit => exact .inl (Prod.mk.inj (Except.ok.inj h)).2.symm
  | listTriggerRunHistoryBatch tenantId triggerIds limit =>
    exact .inl (Prod.mk.inj (Except.ok.inj h)).2.symm

end Ironclaw.Triggers.LibSql
