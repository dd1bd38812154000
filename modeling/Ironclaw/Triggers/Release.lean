import Ironclaw.Triggers.Worker

/-! # The release of a failed fire

A fire is claimed, a port of the worker fails, and the failure is recorded. How it is recorded is
chosen from the record that was read with the claim; the repository checks it against the row as it
is by then, which users may have paused and resumed. A resume takes the position of a cron trigger
past the slot of the fire, and then a retryable failure is refused and the fire stays active
(`resumed_trigger_keeps_failed_fire`).

`Releases` is the condition under which the failure is recorded. -/

namespace Ironclaw.Triggers

/-! ### What the wall clock decides of a row -/

/-- The checks of a record that do not depend on the wall clock. -/
structure TriggerRecord.WellFormed (record : TriggerRecord) : Prop where
  name : validateTriggerName record.name = .ok ()
  prompt : Text.trim record.prompt ≠ ""
  short : record.prompt.utf8ByteSize ≤ maxTriggerPromptBytes
  spec : ∀ spec ∈ record.executionSpec, spec.validate = .ok ()
  active : record.activeRunRef.isSome = true → record.activeFireSlot ≠ none

theorem TriggerRecord.validate_eq_ok_iff {crates : CronCrates} {wall : Timestamp}
    {record : TriggerRecord} : record.validate crates wall = .ok () ↔
      record.WellFormed ∧ record.schedule.validate crates wall = .ok () := by
  constructor
  · intro h
    obtain ⟨⟨⟩, hname, h⟩ := bind_eq_ok.1 h
    obtain ⟨_, hprompt, h⟩ := bind_eq_ok.1 h
    obtain ⟨_, hshort, h⟩ := bind_eq_ok.1 h
    rw [rejectIf_eq_ok] at hprompt hshort
    cases hspec : record.executionSpec with
    | none =>
      simp only [hspec] at h
      obtain ⟨_, hactive, h⟩ := bind_eq_ok.1 h
      rw [rejectIf_eq_ok, not_and] at hactive
      exact ⟨⟨hname, hprompt, not_lt.1 hshort, by simp [hspec], hactive⟩, h⟩
    | some spec =>
      simp only [hspec] at h
      obtain ⟨⟨⟩, hvalid, h⟩ := bind_eq_ok.1 h
      obtain ⟨_, hactive, h⟩ := bind_eq_ok.1 h
      rw [rejectIf_eq_ok, not_and] at hactive
      exact ⟨⟨hname, hprompt, not_lt.1 hshort, by simp [hspec, hvalid], hactive⟩, h⟩
  · rintro ⟨h, hschedule⟩
    refine bind_eq_ok.2 ⟨(), h.name, bind_eq_ok.2 ⟨(), rejectIf_eq_ok.2 h.prompt,
      bind_eq_ok.2 ⟨(), rejectIf_eq_ok.2 (not_lt.2 h.short), ?_⟩⟩⟩
    have hrest : (do
        rejectIf (record.activeRunRef.isSome = true ∧ record.activeFireSlot = none)
          (TriggerError.invalidRecord .other "active_run_ref requires active_fire_slot")
        record.schedule.validate crates wall) = .ok () :=
      bind_eq_ok.2 ⟨(), rejectIf_eq_ok.2 (not_and.2 h.active), hschedule⟩
    cases hspec : record.executionSpec with
    | none => exact hrest
    | some spec => exact bind_eq_ok.2 ⟨(), h.spec spec (by simp [hspec]), hrest⟩

namespace TriggerSchedule

variable {crates : CronCrates} {wall after : Timestamp} {schedule : TriggerSchedule}

/-- A schedule that is valid now has an answer. -/
theorem nextSlotAfter_of_validate (h : schedule.validate crates wall = .ok ()) :
    schedule.nextSlotAfter crates wall after = .ok (schedule.slotAfter crates after) := by
  cases schedule with
  | once atInstant timezone => rfl
  | cron expression timezone =>
    obtain ⟨tz, htz, h⟩ := bind_eq_ok.1 h
    obtain ⟨parsed, hparsed, -⟩ := bind_eq_ok.1 h
    have hnext : (cron expression timezone).nextSlotAfter crates wall after =
        .ok (crates.after parsed tz after) :=
      bind_eq_ok.2 ⟨tz, htz, bind_eq_ok.2 ⟨parsed, hparsed, rfl⟩⟩
    rw [hnext, ← nextSlotAfter_eq_ok hnext]

theorem validate_of_nextSlotAfter {next : Option Timestamp} (hrecurring : schedule.isRecurring = true)
    (h : schedule.nextSlotAfter crates wall after = .ok next) :
    schedule.validate crates wall = .ok () := by
  cases schedule with
  | once => exact absurd hrecurring Bool.false_ne_true
  | cron expression timezone =>
    obtain ⟨tz, htz, h⟩ := bind_eq_ok.1 h
    obtain ⟨parsed, hparsed, -⟩ := bind_eq_ok.1 h
    exact bind_eq_ok.2 ⟨tz, htz, bind_eq_ok.2 ⟨parsed, hparsed, rfl⟩⟩

end TriggerSchedule

namespace LibSql

variable {crates : CronCrates} {wall : Timestamp} {s t t' : Store} {key : TriggerKey}
  {fireSlot : Timestamp} {record row : TriggerRecord}

theorem rowToRecord_eq_ok_iff : rowToRecord crates wall row = .ok record ↔
    record = row ∧ row.WellFormed ∧ row.schedule.validate crates wall = .ok () := by
  constructor
  · intro h
    obtain ⟨⟨⟩, hschedule, h⟩ := bind_eq_ok.1 h
    obtain ⟨⟨⟩, hvalid, h⟩ := bind_eq_ok.1 h
    exact ⟨(pure_eq_ok.1 h).symm, (TriggerRecord.validate_eq_ok_iff.1 hvalid).1, hschedule⟩
  · rintro ⟨rfl, hwell, hschedule⟩
    exact bind_eq_ok.2 ⟨(), hschedule,
      bind_eq_ok.2 ⟨(), TriggerRecord.validate_eq_ok_iff.2 ⟨hwell, hschedule⟩, rfl⟩⟩

/-! ### Claimed fires -/

/-- A fire is claimed, from the schedule or by hand, and its record is read. -/
inductive Claims (crates : CronCrates) (wall : Timestamp) (s : Store) :
    TriggerSourceKind → TriggerRecord → Timestamp → Store → Prop
  | due {request : ClaimDueFireRequest} {record : TriggerRecord} {fireSlot : Timestamp} {t : Store}
      (h : claimDueFire crates wall s request = .ok (.claimed record fireSlot, t)) :
      Claims crates wall s .schedule record fireSlot t
  | manual {request : ClaimManualFireRequest} {record : TriggerRecord} {fireSlot : Timestamp}
      {t : Store} (h : claimManualFire crates wall s request = .ok (.claimed record fireSlot, t)) :
      Claims crates wall s .manual record fireSlot t

/-- The tables hold a fire that has no run yet, in a row that differs from the record in the state
and the position at most. -/
structure Awaits (t : Store) (record : TriggerRecord) (fireSlot : Timestamp) (row : TriggerRecord) :
    Prop where
  get : t.records.get record.key = some row
  slot : row.activeFireSlot = some fireSlot
  run : row.activeRunRef = none
  schedule : row.schedule = record.schedule
  well : row.WellFormed

theorem updateReturning_validates {selects : TriggerRecord → Prop} [DecidablePred selects]
    {set : TriggerRecord → TriggerRecord} {s' : Store}
    (h : updateReturning crates wall s key selects set = .ok (some (record, s'))) :
    record.WellFormed := by
  unfold updateReturning at h
  cases hget : s.records.get key with
  | none => simp [hget] at h
  | some row =>
    simp only [hget] at h
    split at h
    · obtain ⟨_, hrow, h⟩ := map_eq_ok.1 h
      obtain ⟨rfl, hwell, -⟩ := rowToRecord_eq_ok_iff.1 hrow
      rw [Option.some.injEq, Prod.mk.injEq] at h
      rw [← h.1]
      exact hwell
    · exact absurd (Except.ok.inj h).symm (Option.some_ne_none _)

theorem get_of_updateReturning {selects : TriggerRecord → Prop} [DecidablePred selects]
    {set : TriggerRecord → TriggerRecord} {s' : Store}
    (h : updateReturning crates wall s key selects set = .ok (some (record, s'))) :
    s'.records.get record.key = some record := by
  obtain ⟨row, -, -, rfl, rfl⟩ := updateReturning_eq_some h
  exact Table.get_put_self _ _

theorem Claims.awaits {source : TriggerSourceKind}
    (h : Claims crates wall s source record fireSlot t) : Awaits t record fireSlot record := by
  cases h with
  | due h =>
    obtain ⟨updated, hupdate, h⟩ := bind_eq_ok.1 h
    rcases updated with - | ⟨claimed, stored⟩
    · obtain ⟨fetched, -, h⟩ := bind_eq_ok.1 h
      cases fetched with
      | none => exact absurd (pure_eq_ok.1 h) (by simp)
      | some found =>
        simp only at h
        split_ifs at h <;> exact absurd (pure_eq_ok.1 h) (by simp)
    · have hreply := pure_eq_ok.1 h
      simp only [Prod.mk.injEq, ClaimDueFireOutcome.claimed.injEq] at hreply
      obtain ⟨⟨rfl, rfl⟩, rfl⟩ := hreply
      have hget := get_of_updateReturning hupdate
      have hwell := updateReturning_validates hupdate
      obtain ⟨_, -, -, rfl, -⟩ := updateReturning_eq_some hupdate
      exact ⟨hget, rfl, rfl, rfl, hwell⟩
  | manual h =>
    obtain ⟨updated, hupdate, h⟩ := bind_eq_ok.1 h
    rcases updated with - | ⟨claimed, stored⟩
    · obtain ⟨fetched, -, h⟩ := bind_eq_ok.1 h
      cases fetched with
      | none => exact absurd (pure_eq_ok.1 h) (by simp)
      | some found =>
        simp only at h
        split_ifs at h
        · exact absurd (pure_eq_ok.1 h) (by simp)
        · exact absurd (pure_eq_ok.1 h) (by simp)
        · exact absurd (pure_eq_ok.1 h) (by simp)
    · have hreply := pure_eq_ok.1 h
      simp only [Prod.mk.injEq, ClaimDueFireOutcome.claimed.injEq] at hreply
      obtain ⟨⟨rfl, rfl⟩, rfl⟩ := hreply
      have hget := get_of_updateReturning hupdate
      have hwell := updateReturning_validates hupdate
      obtain ⟨_, -, -, rfl, -⟩ := updateReturning_eq_some hupdate
      exact ⟨hget, rfl, rfl, rfl, hwell⟩

/-! ### Pauses and resumes -/

/-- A pause or a resume by a user, and the wall clock while it is executed. -/
structure UserCall where
  wall : Timestamp
  request : SetScopedTriggerStateRequest

def UserCall.call (user : UserCall) : Call := ⟨user.wall, .setScopedTriggerState user.request⟩

/-- The tables after the calls of users; a call that is refused changes nothing. -/
def afterUsers (crates : CronCrates) (users : List UserCall) (s : Store) : Store :=
  (users.map UserCall.call).foldl (advance (call crates)) s

theorem Awaits.user (h : Awaits t record fireSlot row) (user : UserCall) :
    ∃ row', Awaits (advance (call crates) t user.call) record fireSlot row' := by
  cases hcall : call crates t user.call with
  | error e =>
    rw [advance_of_error hcall]
    exact ⟨row, h⟩
  | ok result =>
    obtain ⟨reply, t'⟩ := result
    rw [advance_of_ok hcall]
    rcases call_eq_ok hcall with rfl | hwrote
    · exact ⟨row, h⟩
    · cases hwrote with
      | @stateSet request stored nextRunAt hc hrow =>
        by_cases hkey : request.trigger = record.key
        · rw [hkey, h.get, Option.some.injEq] at hrow
          subst hrow
          have hself : row.key = record.key := Table.key_of_get h.get
          refine ⟨{ row with state := request.state, nextRunAt := nextRunAt },
            ⟨?_, h.slot, h.run, h.schedule,
              ⟨h.well.name, h.well.prompt, h.well.short, h.well.spec, h.well.active⟩⟩⟩
          rw [← hself]
          exact Table.get_put_self _ _
        · refine ⟨row, ⟨?_, h.slot, h.run, h.schedule, h.well⟩⟩
          have hstored : stored.key = request.trigger := Table.key_of_get hrow
          refine (Table.get_put_of_ne _ ?_).trans h.get
          exact fun hsame => hkey (hstored.symm.trans hsame)
      | upserted hc => exact absurd hc (by simp [UserCall.call])
      | dueClaimed hc => exact absurd hc (by simp [UserCall.call])
      | manualClaimed hc => exact absurd hc (by simp [UserCall.call])
      | accepted hc => exact absurd hc (by simp [UserCall.call, successfulUpdate])
      | failed hc => simp only [UserCall.call] at hc; cases hc
      | cleared hc => exact absurd hc (by simp [UserCall.call])

theorem Awaits.users (users : List UserCall) : ∀ {t : Store} {row : TriggerRecord},
    Awaits t record fireSlot row → ∃ row', Awaits (afterUsers crates users t) record fireSlot row' := by
  induction users with
  | nil => exact fun {_ row} h => ⟨row, h⟩
  | cons user users ih =>
    intro t row h
    obtain ⟨_, hnext⟩ := h.user user
    exact ih hnext

/-! ### Recording a failure -/

/-- The row of a trigger without a fire. -/
def Free (t : Store) (key : TriggerKey) : Prop :=
  ∃ row, t.records.get key = some row ∧ row.hasActiveFire = false

section Results

variable {source : TriggerSourceKind} (h : Awaits t record fireSlot row)
include h

theorem Awaits.fetches (hschedule : record.schedule.validate crates wall = .ok ()) :
    fetchRecord crates wall t record.key = .ok (some row) := by
  have hread : rowToRecord crates wall row = .ok row :=
    rowToRecord_eq_ok_iff.2 ⟨rfl, h.well, by rw [h.schedule]; exact hschedule⟩
  simp [fetchRecord, h.get, hread, Except.map]

theorem Awaits.fetch_refused (hschedule : record.schedule.validate crates wall ≠ .ok ()) :
    ∃ error, fetchRecord crates wall t record.key = .error error := by
  cases hfetch : fetchRecord crates wall t record.key with
  | error error => exact ⟨error, rfl⟩
  | ok fetched =>
    simp only [fetchRecord, h.get, map_eq_ok] at hfetch
    obtain ⟨_, hread, -⟩ := hfetch
    have hvalid := (rowToRecord_eq_ok_iff.1 hread).2.2
    rw [h.schedule] at hvalid
    exact absurd hvalid hschedule

/-- The update of a failure result selects the fire. -/
theorem Awaits.released {selects : TriggerRecord → Prop} [DecidablePred selects]
    {set : TriggerRecord → TriggerRecord}
    (hschedule : record.schedule.validate crates wall = .ok ()) (hselects : selects row)
    (hset : (set row).key = row.key ∧ (set row).schedule = row.schedule ∧ (set row).name = row.name ∧
      (set row).prompt = row.prompt ∧ (set row).executionSpec = row.executionSpec) :
    ∃ result, failClaimedFire crates wall t record.key fireSlot source selects set = .ok result ∧
      Free result.2 record.key := by
  obtain ⟨hkey, hsched, hname, hprompt, hspec⟩ := hset
  have hself : row.key = record.key := Table.key_of_get h.get
  let left : TriggerRecord :=
    { set row with
      lastStatus := some .error
      activeFireSlot := none
      activeRunRef := none }
  have hwell : left.WellFormed :=
    ⟨hname ▸ h.well.name, hprompt ▸ h.well.prompt, hprompt ▸ h.well.short, hspec ▸ h.well.spec,
      fun hrun => absurd hrun Bool.false_ne_true⟩
  have hread : rowToRecord crates wall left = .ok left := by
    refine rowToRecord_eq_ok_iff.2 ⟨rfl, hwell, ?_⟩
    show (set row).schedule.validate crates wall = .ok ()
    rw [hsched, h.schedule]
    exact hschedule
  have hupdate : updateReturning crates wall t record.key (fun row =>
      row.activeFireSlot = some fireSlot ∧ row.activeRunRef = none ∧ selects row) (fun row =>
      { set row with
        lastStatus := some .error
        activeFireSlot := none
        activeRunRef := none }) = .ok (some (left, t.putRecord left)) := by
    unfold updateReturning
    rw [h.get]
    show (if _ then (rowToRecord crates wall left).map _ else _) = _
    rw [if_pos ⟨h.slot, h.run, hselects⟩, hread]
    rfl
  refine ⟨_, bind_eq_ok.2 ⟨_, hupdate, rfl⟩, left, ?_, rfl⟩
  show (t.records.put left).get record.key = some left
  rw [← hself, ← hkey]
  exact Table.get_put_self _ left

theorem Awaits.refused {selects : TriggerRecord → Prop} [DecidablePred selects]
    {set : TriggerRecord → TriggerRecord} (hset : (set row).schedule = row.schedule)
    (hnot : record.schedule.validate crates wall ≠ .ok () ∨ ¬ selects row) :
    ∃ error, failClaimedFire crates wall t record.key fireSlot source selects set = .error error := by
  cases hfail : failClaimedFire crates wall t record.key fireSlot source selects set with
  | error error => exact ⟨error, rfl⟩
  | ok result =>
    obtain ⟨updated, hupdate, hfail⟩ := bind_eq_ok.1 hfail
    unfold updateReturning at hupdate
    rw [h.get] at hupdate
    simp only [h.slot, h.run, true_and] at hupdate
    split at hupdate
    · rename_i hselects
      obtain ⟨_, hread, -⟩ := map_eq_ok.1 hupdate
      have hvalid := (rowToRecord_eq_ok_iff.1 hread).2.2
      replace hvalid : (set row).schedule.validate crates wall = .ok () := hvalid
      rw [hset, h.schedule] at hvalid
      rcases hnot with hnot | hnot
      · exact absurd hvalid hnot
      · exact absurd hselects hnot
    · -- the row is there with the fire, so that a missed update is an error
      rw [← Except.ok.inj hupdate] at hfail
      obtain ⟨_, hmissed, -⟩ := bind_eq_ok.1 hfail
      obtain ⟨fetched, hfetch, hmissed⟩ := bind_eq_ok.1 hmissed
      cases fetched with
      | none =>
        unfold fetchRecord at hfetch
        simp [h.get, map_eq_ok] at hfetch
      | some found =>
        have hfound := fetchRecord_eq_some hfetch
        rw [h.get, Option.some.injEq] at hfound
        subst hfound
        simp [h.slot, h.run] at hmissed

/-- The result releases the fire under a condition, and is refused otherwise. -/
structure ReleasesIff (result : Except TriggerError (Option TriggerRecord × Store))
    (key : TriggerKey) (condition : Prop) : Prop where
  released : condition → ∃ reply, result = .ok reply ∧ Free reply.2 key
  refused : ¬ condition → ∃ error, result = .error error

theorem Awaits.markFireRetryableFailed :
    ReleasesIff (markFireRetryableFailed crates wall t ⟨record.key, fireSlot⟩) record.key
      (record.schedule.validate crates wall = .ok () ∧
        (fireSource t record.key fireSlot = .manual ∨ row.nextRunAt ≤ fireSlot)) := by
  constructor
  · rintro ⟨hschedule, hcadence⟩
    have hreleased : ∃ result, failClaimedFire crates wall t record.key fireSlot
        (fireSource t record.key fireSlot)
        (fun row => fireSource t record.key fireSlot = .manual ∨ row.nextRunAt ≤ fireSlot)
        (fun row => row) = .ok result ∧ Free result.2 record.key :=
      h.released hschedule hcadence ⟨rfl, rfl, rfl, rfl, rfl⟩
    obtain ⟨result, hresult, hfree⟩ := hreleased
    refine ⟨result, bind_eq_ok.2 ⟨some row, h.fetches hschedule, ?_⟩, hfree⟩
    simp only
    rw [if_neg (not_not.2 h.slot)]
    refine bind_eq_ok.2 ⟨(), rejectIf_eq_ok.2 (not_not.2 h.run), bind_eq_ok.2 ⟨(), ?_, hresult⟩⟩
    rw [rejectIf_eq_ok]
    rintro ⟨hsource, -, hlt⟩
    rcases hcadence with hmanual | hle
    · exact absurd (hsource.symm.trans hmanual) (by decide)
    · exact absurd hlt (not_lt.2 hle)
  · intro hnot
    by_cases hschedule : record.schedule.validate crates wall = .ok ()
    · cases hmark : LibSql.markFireRetryableFailed crates wall t ⟨record.key, fireSlot⟩ with
      | error error => exact ⟨error, rfl⟩
      | ok result =>
        have hcadence : ¬ (fireSource t record.key fireSlot = .manual ∨
            row.nextRunAt ≤ fireSlot) := fun hcadence => hnot ⟨hschedule, hcadence⟩
        obtain ⟨_, hfetch, hmark⟩ := bind_eq_ok.1 hmark
        rw [h.fetches hschedule] at hfetch
        rw [← Except.ok.inj hfetch] at hmark
        simp only [h.slot, ne_eq, not_true_eq_false, if_false] at hmark
        obtain ⟨_, -, hmark⟩ := bind_eq_ok.1 hmark
        obtain ⟨_, -, hmark⟩ := bind_eq_ok.1 hmark
        have hrefused : ∃ error, failClaimedFire crates wall t record.key fireSlot
            (fireSource t record.key fireSlot)
            (fun row => fireSource t record.key fireSlot = .manual ∨ row.nextRunAt ≤ fireSlot)
            (fun row => row) = .error error := h.refused rfl (.inr hcadence)
        obtain ⟨error, herror⟩ := hrefused
        exact absurd (herror.symm.trans hmark) (by simp)
    · obtain ⟨error, herror⟩ := h.fetch_refused hschedule
      refine ⟨error, bind_eq_error.2 (.inl herror)⟩

theorem Awaits.markFirePermanentlyFailed {nextRunAt : Timestamp} (hfuture : fireSlot < nextRunAt) :
    ReleasesIff (markFirePermanentlyFailed crates wall t ⟨record.key, fireSlot, nextRunAt⟩)
      record.key (record.schedule.validate crates wall = .ok ()) := by
  constructor
  · intro hschedule
    have hreleased : ∃ result, failClaimedFire crates wall t record.key fireSlot
        (fireSource t record.key fireSlot) (fun _ => True) (fun row =>
          { row with
            nextRunAt := if fireSource t record.key fireSlot = .manual then row.nextRunAt
              else nextRunAt }) = .ok result ∧ Free result.2 record.key :=
      h.released hschedule trivial ⟨rfl, rfl, rfl, rfl, rfl⟩
    obtain ⟨result, hresult, hfree⟩ := hreleased
    refine ⟨result, bind_eq_ok.2 ⟨some row, h.fetches hschedule, ?_⟩, hfree⟩
    simp only
    rw [if_neg (not_not.2 h.slot)]
    refine bind_eq_ok.2 ⟨(), rejectIf_eq_ok.2 (not_not.2 h.run), bind_eq_ok.2 ⟨(), ?_, hresult⟩⟩
    unfold rejectFailedCadence
    split_ifs
    · exact rejectIf_eq_ok.2 (not_not.2 hfuture)
    · rfl
  · intro hschedule
    obtain ⟨error, herror⟩ := h.fetch_refused hschedule
    exact ⟨error, bind_eq_error.2 (.inl herror)⟩

theorem Awaits.markFireTerminallyFailed :
    ReleasesIff (markFireTerminallyFailed crates wall t ⟨record.key, fireSlot⟩) record.key
      (record.schedule.validate crates wall = .ok ()) := by
  constructor
  · intro hschedule
    exact h.released hschedule trivial ⟨rfl, rfl, rfl, rfl, rfl⟩
  · intro hschedule
    exact h.refused rfl (.inl hschedule)

end Results

/-! ### The worker among users -/

/-- The repository as a worker reaches it at `wall`, after the calls of users. -/
def repositoryAfter (crates : CronCrates) (users : List UserCall) (wall : Timestamp)
    (request : Request) (s : Store) : Except TriggerError Reply × Store :=
  let t := afterUsers crates users s
  match call crates t ⟨wall, request⟩ with
  | .ok (reply, t') => (.ok reply, t')
  | .error error => (.error error, t)

/-- The ports of a worker that chooses a disposition at `asked` and records it at `wall`, with the
calls of users before that. -/
def amongUsers (deps : TriggerPollerWorkerDeps Store) (users : List UserCall)
    (asked wall : Timestamp) : TriggerPollerWorkerDeps Store :=
  { deps with
    utcNow := fun _ => asked
    repository := repositoryAfter deps.crates users wall }

/-- A port fails on the way of a fire, or the source has no fire. -/
inductive FailsWith {σ : Type} (deps : TriggerPollerWorkerDeps σ) (record : TriggerRecord)
    (fireSlot now : Timestamp) (source : TriggerSourceKind) : FailureClassification → Prop
  | noFire (hfire : deps.evaluate record fireSlot source now = .ok none) :
      FailsWith deps record fireSlot now source ⟨.permanent, .sourceNoFire⟩
  | evaluation {error : TriggerError}
      (hfire : deps.evaluate record fireSlot source now = .error error) :
      FailsWith deps record fireSlot now source (classifyFailure error)
  | materialization {fire : TriggerFire} {error : TriggerError}
      (hfire : deps.evaluate record fireSlot source now = .ok (some fire))
      (hprompt : deps.materializePrompt fire = .error error) :
      FailsWith deps record fireSlot now source (classifyFailure error)
  | minting {fire : TriggerFire} {prompt : TriggerMaterializedPrompt} {error : TriggerError}
      (hfire : deps.evaluate record fireSlot source now = .ok (some fire))
      (hprompt : deps.materializePrompt fire = .ok prompt)
      (hscan : deps.validateTrustedTriggerFirePrompt fire.prompt = .error error) :
      FailsWith deps record fireSlot now source (classifySubmitFailure error)
  | submission {fire : TriggerFire} {prompt : TriggerMaterializedPrompt} {error : TriggerError}
      (hfire : deps.evaluate record fireSlot source now = .ok (some fire))
      (hprompt : deps.materializePrompt fire = .ok prompt)
      (hscan : deps.validateTrustedTriggerFirePrompt fire.prompt = .ok ())
      (hsubmit : deps.submitTrustedTriggerFire ⟨fire, prompt, now⟩ = .error error) :
      FailsWith deps record fireSlot now source (classifySubmitFailure error)

/-- Whatever failed, the fire is failed with its classification. -/
theorem FailsWith.processClaimedFire_eq {σ : Type} {deps : TriggerPollerWorkerDeps σ}
    {now : Timestamp} {source : TriggerSourceKind} {classification : FailureClassification}
    (h : FailsWith deps record fireSlot now source classification) (st : σ) :
    deps.processClaimedFire record fireSlot now source st =
      deps.failFire record fireSlot source classification st := by
  unfold TriggerPollerWorkerDeps.processClaimedFire
  cases h with
  | noFire hfire => rw [hfire]
  | evaluation hfire => rw [hfire]
  | materialization hfire hprompt => simp only [hfire, hprompt]
  | @minting fire prompt error hfire hprompt hscan =>
    have hnew : deps.newSubmitRequest fire prompt now = .error error :=
      bind_eq_error.2 (.inl hscan)
    simp only [hfire, hprompt, hnew]
  | @submission fire prompt error hfire hprompt hscan hsubmit =>
    have hnew : deps.newSubmitRequest fire prompt now = .ok ⟨fire, prompt, now⟩ :=
      bind_eq_ok.2 ⟨(), hscan, rfl⟩
    simp only [hfire, hprompt, hnew, hsubmit]

end LibSql

def TriggerPollerFireOutcome.isFailure : TriggerPollerFireOutcome → Bool
  | retryableFailed _ | permanentFailed _ | oncePermanentFailed _ => true
  | _ => false

namespace LibSql

/-- The failure is recorded as one that is tried again. -/
def RecordedAsRetryable (crates : CronCrates) (schedule : TriggerSchedule) (kind : SubmitFailureKind)
    (source : TriggerSourceKind) (fireSlot : Timestamp) : Prop :=
  source = .manual ∨ kind = .retryable ∨
    schedule.isRecurring = true ∧ schedule.slotAfter crates fireSlot = none

/-- When a failed fire is released: the schedule is valid when the disposition is chosen and when
it is recorded, and where it is recorded as retryable, the fire is a manual one or the position has
not moved past its slot. -/
structure Releases (crates : CronCrates) (t : Store) (record : TriggerRecord)
    (kind : SubmitFailureKind) (source : TriggerSourceKind) (fireSlot asked wall : Timestamp) :
    Prop where
  chosen : kind = .permanent → record.schedule.isRecurring = true →
    record.schedule.validate crates asked = .ok ()
  recorded : record.schedule.validate crates wall = .ok ()
  cadence : RecordedAsRetryable crates record.schedule kind source fireSlot →
    fireSource t record.key fireSlot = .manual ∨
      ∀ row ∈ t.records.get record.key, row.nextRunAt ≤ fireSlot

/-- A failure outcome is returned and the trigger is left without a fire. -/
def Released (result : Except TriggerError TriggerPollerFireOutcome × Store) (key : TriggerKey) :
    Prop :=
  (∃ outcome, result.1 = .ok outcome ∧ outcome.isFailure = true) ∧ Free result.2 key

section Worker

variable {deps : TriggerPollerWorkerDeps Store} {users : List UserCall} {asked : Timestamp}
  {source : TriggerSourceKind} {kind : SubmitFailureKind} {reason : TriggerPollerFailureReason}
  {matching : deps.crates.Schedule → deps.crates.Tz → Set Timestamp}

theorem released_recordFailure_iff {request : Request} {outcome : TriggerPollerFireOutcome}
    {result : Except TriggerError (Option TriggerRecord × Store)} {condition : Prop}
    (hcall : call deps.crates (afterUsers deps.crates users s) ⟨wall, request⟩ =
      result.map (Prod.map Reply.record id))
    (hresult : ReleasesIff result key condition) (houtcome : outcome.isFailure = true) :
    Released ((amongUsers deps users asked wall).recordFailure request outcome s) key ↔
      condition := by
  have hrepository : (amongUsers deps users asked wall).repository request s =
      repositoryAfter deps.crates users wall request s := rfl
  constructor
  · rintro ⟨⟨_, hok, -⟩, -⟩
    by_contra hnot
    obtain ⟨error, herror⟩ := hresult.refused hnot
    rw [herror] at hcall
    have hrefused : (repositoryAfter deps.crates users wall request s).1 = .error error := by
      simp only [repositoryAfter, hcall]
      rfl
    simp only [TriggerPollerWorkerDeps.recordFailure, hrepository, hrefused] at hok
    cases hok
  · intro hcondition
    obtain ⟨⟨updated, t'⟩, hok, hfree⟩ := hresult.released hcondition
    rw [hok] at hcall
    have hstored : repositoryAfter deps.crates users wall request s = (.ok (.record updated), t') := by
      simp only [repositoryAfter, hcall]
      rfl
    unfold TriggerPollerWorkerDeps.recordFailure
    rw [hrepository, hstored]
    exact ⟨⟨outcome, rfl, houtcome⟩, hfree⟩

variable (h : Awaits (afterUsers deps.crates users s) record fireSlot row)
include h

theorem released_retryable_iff {outcome : TriggerPollerFireOutcome}
    (houtcome : outcome.isFailure = true) :
    Released ((amongUsers deps users asked wall).recordFailure
        (.markFireRetryableFailed ⟨record.key, fireSlot⟩) outcome s) record.key ↔
      record.schedule.validate deps.crates wall = .ok () ∧
        (fireSource (afterUsers deps.crates users s) record.key fireSlot = .manual ∨
          ∀ row ∈ (afterUsers deps.crates users s).records.get record.key,
            row.nextRunAt ≤ fireSlot) := by
  rw [released_recordFailure_iff rfl h.markFireRetryableFailed houtcome, h.get]
  simp

/-- A failure of a manual fire, or one that is tried again. -/
theorem released_persist_retryable_iff {disposition : FailedFireDisposition}
    (hretryable : source = .manual ∨ disposition = .retryable) :
    Released ((amongUsers deps users asked wall).persistFailedFire record fireSlot source disposition
        reason s) record.key ↔
      record.schedule.validate deps.crates wall = .ok () ∧
        (fireSource (afterUsers deps.crates users s) record.key fireSlot = .manual ∨
          ∀ row ∈ (afterUsers deps.crates users s).records.get record.key,
            row.nextRunAt ≤ fireSlot) := by
  unfold TriggerPollerWorkerDeps.persistFailedFire
  by_cases hmanual : source = .manual
  · rw [if_pos hmanual]
    exact released_retryable_iff h rfl
  · rw [if_neg hmanual, hretryable.resolve_left hmanual]
    exact released_retryable_iff h rfl

omit h in
theorem failFire_of_disposition {disposition : FailedFireDisposition}
    (h : permanentFailureDisposition deps.crates asked record.schedule fireSlot = .ok disposition) :
    (amongUsers deps users asked wall).failFire record fireSlot source ⟨.permanent, reason⟩ s =
      (amongUsers deps users asked wall).persistFailedFire record fireSlot source disposition reason
        s := by
  replace h : (amongUsers deps users asked wall).failedFireDisposition .permanent record.schedule
      fireSlot s = .ok disposition := h
  simp only [TriggerPollerWorkerDeps.failFire, h]

omit h in
/-- Where the schedule is valid, a failure of a cron trigger for good moves it to its next slot, if
it has one. -/
theorem permanentFailureDisposition_of_validate {schedule : TriggerSchedule}
    (hrecurring : schedule.isRecurring = true) (hvalid : schedule.validate crates asked = .ok ()) :
    permanentFailureDisposition crates asked schedule fireSlot =
      .ok (match schedule.slotAfter crates fireSlot with
        | some next => .recurringPermanentReschedule next
        | none => .retryable) := by
  cases schedule with
  | once => exact absurd hrecurring Bool.false_ne_true
  | cron expression timezone =>
    refine bind_eq_ok.2 ⟨_, TriggerSchedule.nextSlotAfter_of_validate hvalid, ?_⟩
    cases TriggerSchedule.slotAfter crates (.cron expression timezone) fireSlot <;> rfl

omit h in
theorem permanentFailureDisposition_refused {schedule : TriggerSchedule}
    (hrecurring : schedule.isRecurring = true)
    (hinvalid : schedule.validate crates asked ≠ .ok ()) :
    ∃ error, permanentFailureDisposition crates asked schedule fireSlot = .error error := by
  cases schedule with
  | once => exact absurd hrecurring Bool.false_ne_true
  | cron expression timezone =>
    cases hnext : TriggerSchedule.nextSlotAfter crates asked (.cron expression timezone) fireSlot with
    | ok next => exact absurd (TriggerSchedule.validate_of_nextSlotAfter rfl hnext) hinvalid
    | error error => exact ⟨error, bind_eq_error.2 (.inl hnext)⟩

theorem released_once_iff (honce : record.schedule.isRecurring = false) :
    Released ((amongUsers deps users asked wall).persistFailedFire record fireSlot source
        .oncePermanentComplete reason s) record.key ↔
      Releases deps.crates (afterUsers deps.crates users s) record .permanent source fireSlot asked
        wall := by
  have hnever : ¬ record.schedule.isRecurring = true := by
    rw [honce]
    exact Bool.false_ne_true
  by_cases hmanual : source = .manual
  · refine (released_persist_retryable_iff h (.inl hmanual)).trans ?_
    constructor
    · rintro ⟨hvalid, hcadence⟩
      exact ⟨fun _ hrecurring => absurd hrecurring hnever, hvalid, fun _ => hcadence⟩
    · rintro ⟨-, hvalid, hcadence⟩
      exact ⟨hvalid, hcadence (.inl hmanual)⟩
  · unfold TriggerPollerWorkerDeps.persistFailedFire
    rw [if_neg hmanual]
    refine (released_recordFailure_iff rfl h.markFireTerminallyFailed rfl).trans ?_
    constructor
    · intro hvalid
      refine ⟨fun _ hrecurring => absurd hrecurring hnever, hvalid, ?_⟩
      rintro (hsource | hkind | ⟨hrecurring, -⟩)
      · exact absurd hsource hmanual
      · exact absurd hkind (by decide)
      · exact absurd hrecurring hnever
    · exact fun hreleases => hreleases.recorded

omit h

/-- A failure of a cron trigger for good, when the schedule is valid. -/
theorem released_cron_iff (hcron : deps.crates.Iterates matching)
    (h : Awaits (afterUsers deps.crates users s) record fireSlot row)
    (hvalid : record.schedule.validate deps.crates asked = .ok ())
    (hrecurring : record.schedule.isRecurring = true) :
    Released ((amongUsers deps users asked wall).persistFailedFire record fireSlot source
        (match record.schedule.slotAfter deps.crates fireSlot with
          | some next => .recurringPermanentReschedule next
          | none => .retryable) reason s) record.key ↔
      Releases deps.crates (afterUsers deps.crates users s) record .permanent source fireSlot asked
        wall := by
  by_cases hretryable : source = .manual ∨ record.schedule.slotAfter deps.crates fireSlot = none
  · have hpersist : source = .manual ∨ (match record.schedule.slotAfter deps.crates fireSlot with
        | some next => .recurringPermanentReschedule next
        | none => .retryable) = FailedFireDisposition.retryable := by
      rcases hretryable with hmanual | hnone
      · exact .inl hmanual
      · exact .inr (by rw [hnone])
    refine (released_persist_retryable_iff h hpersist).trans ?_
    constructor
    · rintro ⟨hrecorded, hcadence⟩
      exact ⟨fun _ _ => hvalid, hrecorded, fun _ => hcadence⟩
    · rintro ⟨-, hrecorded, hcadence⟩
      refine ⟨hrecorded, hcadence ?_⟩
      rcases hretryable with hmanual | hnone
      · exact .inl hmanual
      · exact .inr (.inr ⟨hrecurring, hnone⟩)
  · rw [not_or] at hretryable
    obtain ⟨hmanual, hsome⟩ := hretryable
    obtain ⟨next, hnext⟩ := Option.ne_none_iff_exists'.1 hsome
    have hfuture : fireSlot < next := (TriggerSchedule.nextIn_slots hcron record.schedule).lt hnext
    simp only [hnext, TriggerPollerWorkerDeps.persistFailedFire]
    rw [if_neg hmanual]
    refine (released_recordFailure_iff rfl (h.markFirePermanentlyFailed hfuture) rfl).trans ?_
    constructor
    · intro hrecorded
      refine ⟨fun _ _ => hvalid, hrecorded, ?_⟩
      rintro (hsource | hkind | ⟨-, hnone⟩)
      · exact absurd hsource hmanual
      · exact absurd hkind (by decide)
      · exact absurd hnone hsome
    · exact fun hreleases => hreleases.recorded

theorem released_failFire_iff (hcron : deps.crates.Iterates matching)
    (h : Awaits (afterUsers deps.crates users s) record fireSlot row) :
    Released ((amongUsers deps users asked wall).failFire record fireSlot source ⟨kind, reason⟩ s)
        record.key ↔
      Releases deps.crates (afterUsers deps.crates users s) record kind source fireSlot asked
        wall := by
  cases kind with
  | retryable =>
    refine (released_persist_retryable_iff h (.inr rfl)).trans ?_
    constructor
    · rintro ⟨hvalid, hcadence⟩
      exact ⟨fun hkind => absurd hkind (by decide), hvalid, fun _ => hcadence⟩
    · rintro ⟨-, hvalid, hcadence⟩
      exact ⟨hvalid, hcadence (.inr (.inl rfl))⟩
  | permanent =>
    cases hrecurring : record.schedule.isRecurring with
    | false =>
      have honce : permanentFailureDisposition deps.crates asked record.schedule fireSlot =
          .ok .oncePermanentComplete := by
        cases hschedule : record.schedule with
        | once => rfl
        | cron => simp [hschedule, TriggerSchedule.isRecurring] at hrecurring
      rw [failFire_of_disposition honce]
      exact released_once_iff h hrecurring
    | true =>
      by_cases hvalid : record.schedule.validate deps.crates asked = .ok ()
      · rw [failFire_of_disposition (permanentFailureDisposition_of_validate hrecurring hvalid)]
        exact released_cron_iff hcron h hvalid hrecurring
      · -- the disposition cannot be chosen, and nothing is recorded
        have hrefused : ∃ error, (amongUsers deps users asked wall).failedFireDisposition
            .permanent record.schedule fireSlot s = .error error :=
          permanentFailureDisposition_refused hrecurring hvalid
        obtain ⟨error, herror⟩ := hrefused
        constructor
        · rintro ⟨⟨_, hok, -⟩, -⟩
          simp only [TriggerPollerWorkerDeps.failFire, herror] at hok
          cases hok
        · exact fun hreleases => absurd (hreleases.chosen rfl hrecurring) hvalid

end Worker

/-- A failed fire is released exactly when the condition of `Releases` holds of the tables that the
pauses and resumes since the claim have left. -/
theorem failed_fire_released_iff {deps : TriggerPollerWorkerDeps Store}
    {matching : deps.crates.Schedule → deps.crates.Tz → Set Timestamp}
    {claimed asked wall now fireSlot : Timestamp} {s t : Store} {source : TriggerSourceKind}
    {record : TriggerRecord} {classification : FailureClassification}
    (hcron : deps.crates.Iterates matching)
    (hclaim : Claims deps.crates claimed s source record fireSlot t) (users : List UserCall)
    (hfail : FailsWith deps record fireSlot now source classification) :
    Released ((amongUsers deps users asked wall).processClaimedFire record fireSlot now source t)
        record.key ↔
      Releases deps.crates (afterUsers deps.crates users t) record classification.kind source
        fireSlot asked wall := by
  have hheld : ∃ row, Awaits (afterUsers deps.crates users t) record fireSlot row :=
    hclaim.awaits.users users
  obtain ⟨_, hawaits⟩ := hheld
  have hfail' : FailsWith (amongUsers deps users asked wall) record fireSlot now source
      classification := by
    cases hfail with
    | noFire hfire => exact .noFire hfire
    | evaluation hfire => exact .evaluation hfire
    | materialization hfire hprompt => exact .materialization hfire hprompt
    | minting hfire hprompt hscan => exact .minting hfire hprompt hscan
    | submission hfire hprompt hscan hsubmit => exact .submission hfire hprompt hscan hsubmit
  rw [hfail'.processClaimedFire_eq]
  exact released_failFire_iff hcron hawaits

/-! ### A backend error after a resume -/

/-- The ports of a worker whose submissions fail for now. -/
def sampleDeps : TriggerPollerWorkerDeps Store where
  crates := everyMinute
  utcNow _ := minute
  repository := repositoryAfter everyMinute [] minute
  evaluate record fireSlot source _ := .ok (some
    { trigger := record.key
      fireSlot := fireSlot
      source := source
      creatorUserId := record.creatorUserId
      agentId := record.agentId
      projectId := record.projectId
      prompt := record.prompt
      executionPolicy := none })
  materializePrompt _ := .ok ⟨"content"⟩
  validateTrustedTriggerFirePrompt _ := .ok ()
  submitTrustedTriggerFire _ := .error (.backend "unavailable")
  activeRunStates _ := []

/-- The record as it is read with the claim of its first slot. -/
def sampleClaimed : TriggerRecord :=
  { sampleRecord with
    activeFireSlot := some minute }

def sampleClaimedStore : Store :=
  advance (call everyMinute) sampleStore ⟨minute, .claimDueFire ⟨sampleTrigger, minute, minute⟩⟩

theorem sample_claims : Claims everyMinute minute sampleStore .schedule sampleClaimed minute
    sampleClaimedStore := by
  have houtcome : (claimDueFire everyMinute minute sampleStore
      ⟨sampleTrigger, minute, minute⟩).map Prod.fst = .ok (.claimed sampleClaimed minute) := by
    decide +kernel
  obtain ⟨⟨outcome, t⟩, hclaim, houtcome⟩ := map_eq_ok.1 houtcome
  have hstore : sampleClaimedStore = t := by
    refine advance_of_ok (o := .claim outcome) ?_
    simp only [call, hclaim]
    rfl
  rw [hstore]
  rw [show outcome = .claimed sampleClaimed minute from houtcome] at hclaim
  exact .due hclaim

theorem sample_fails : FailsWith sampleDeps sampleClaimed minute minute .schedule
    ⟨.retryable, .backend⟩ := by
  have hfails : FailsWith sampleDeps sampleClaimed minute minute .schedule
      (classifySubmitFailure (.backend "unavailable")) := .submission rfl rfl rfl rfl
  exact hfails

theorem failed_fire_released_sample :
    Claims everyMinute minute sampleStore .schedule sampleClaimed minute sampleClaimedStore ∧
      Released ((amongUsers sampleDeps [] minute minute).processClaimedFire sampleClaimed minute
        minute .schedule sampleClaimedStore) sampleTrigger := by
  refine ⟨sample_claims, (failed_fire_released_iff everyMinute_iterates sample_claims []
    sample_fails).2 ⟨fun hkind => absurd hkind (by decide), by decide +kernel, fun _ => .inr ?_⟩⟩
  have hrow : (sampleClaimedStore.records.get sampleTrigger).all
    fun row => decide (row.nextRunAt ≤ minute) := by decide +kernel
  intro row hget
  rw [Option.mem_def] at hget
  replace hget : sampleClaimedStore.records.get sampleTrigger = some row := hget
  rw [hget] at hrow
  exact of_decide_eq_true hrow

/-- The user pauses the trigger and resumes it two slots later. -/
def samplePauses : List UserCall :=
  [⟨minute, ⟨sampleTrigger, ⟨"user"⟩, none, none, .paused⟩⟩,
    ⟨3 * minute, ⟨sampleTrigger, ⟨"user"⟩, none, none, .scheduled⟩⟩]

/-- The submission fails for now, the resume has moved the position, and the fire stays active. -/
theorem resumed_trigger_keeps_failed_fire :
    Claims everyMinute minute sampleStore .schedule sampleClaimed minute sampleClaimedStore ∧
      FailsWith sampleDeps sampleClaimed minute minute .schedule ⟨.retryable, .backend⟩ ∧
      ¬ Released ((amongUsers sampleDeps samplePauses minute (3 * minute)).processClaimedFire
        sampleClaimed minute minute .schedule sampleClaimedStore) sampleTrigger := by
  refine ⟨sample_claims, sample_fails, ?_⟩
  rintro ⟨⟨outcome, hok, -⟩, -⟩
  have hrefused : ((amongUsers sampleDeps samplePauses minute (3 * minute)).processClaimedFire
      sampleClaimed minute minute .schedule sampleClaimedStore).1 =
        .error retryableCadenceError := by decide +kernel
  rw [hrefused] at hok
  cases hok

end LibSql

end Ironclaw.Triggers
