import Ironclaw.Triggers.Running

/-! # The cadence of one trigger

What the tables say about one trigger, as a small machine: its schedule, its state, its position and
the fire in flight. `Holds` relates the tables to it; a trigger has a fire in flight exactly when
it has a running history row, and then it has one. `call_does` is the refinement: a call takes the
cadence of every trigger through a transition of `Does`. -/

namespace Ironclaw.Triggers.LibSql

/-- A fire in flight, with the run that was started for it. -/
structure Fire where
  slot : Timestamp
  source : TriggerSourceKind
  run : Option TurnRunId

structure Cadence where
  schedule : TriggerSchedule
  state : TriggerState
  nextRunAt : Timestamp
  fire : Option Fire

def Cadence.of (row : TriggerRecord) (fire : Option Fire) : Cadence where
  schedule := row.schedule
  state := row.state
  nextRunAt := row.nextRunAt
  fire := fire

/-- The fire that a running row stands for. -/
def fireOf (run : TriggerRunRecord) : Fire := ⟨run.fireSlot, run.source, run.runId⟩

structure Holds (s : Store) (key : TriggerKey) (row : TriggerRecord) (fire : Option Fire) :
    Prop where
  record : s.records.get key = some row
  slot : row.activeFireSlot = fire.map Fire.slot
  run : row.activeRunRef = fire.bind Fire.run
  running : (runningRows s key).map fireOf = fire.toList

/-! ### Transitions -/

/-- What a call can do to the cadence of a trigger. -/
inductive Does (crates : CronCrates) (key : TriggerKey) (c : Call) : Cadence → Cadence → Prop
  | stays (t : Cadence) : Does crates key c t t
  | paused {t : Cadence} {request : SetScopedTriggerStateRequest}
      (hc : c.request = .setScopedTriggerState request) (hkey : request.trigger = key)
      (hrequest : request.state = .paused) (hopen : t.state ≠ .completed) :
      Does crates key c t { t with state := .paused }
  | kept {t : Cadence} {request : SetScopedTriggerStateRequest}
      (hc : c.request = .setScopedTriggerState request) (hkey : request.trigger = key)
      (hrequest : request.state = .scheduled) (hopen : t.state ≠ .completed)
      (hkeep : ¬ (t.state = .paused ∧ t.schedule.isRecurring = true)) :
      Does crates key c t { t with state := .scheduled }
  | resumed {t : Cadence} {request : SetScopedTriggerStateRequest} {next : Timestamp}
      (hc : c.request = .setScopedTriggerState request) (hkey : request.trigger = key)
      (hrequest : request.state = .scheduled) (hpaused : t.state = .paused)
      (hnext : t.schedule.slotAfter crates c.wall = some next) :
      Does crates key c t { t with
        state := .scheduled
        nextRunAt := next }
  | claimedDue {t : Cadence} {request : ClaimDueFireRequest}
      (hc : c.request = .claimDueFire request) (hkey : request.trigger = key)
      (hstate : t.state = .scheduled) (hslot : t.nextRunAt = request.fireSlot)
      (hdue : request.fireSlot ≤ request.now) (hfree : t.fire = none) :
      Does crates key c t { t with fire := some ⟨request.fireSlot, .schedule, none⟩ }
  | claimedManual {t : Cadence} {request : ClaimManualFireRequest}
      (hc : c.request = .claimManualFire request) (hkey : request.trigger = key)
      (hstate : t.state = .scheduled) (hfree : t.fire = none) :
      Does crates key c t { t with fire := some ⟨request.now, .manual, none⟩ }
  | accepted {t : Cadence} {update : SuccessfulFireResultUpdate} {source : TriggerSourceKind}
      (hc : successfulUpdate c.request = some update) (hkey : update.trigger = key)
      (hfire : t.fire = some ⟨update.fireSlot, source, none⟩)
      (hfuture : ∀ next, source = .schedule →
        t.schedule.slotAfter crates update.fireSlot = some next → update.fireSlot < next) :
      Does crates key c t { t with
        nextRunAt := if source = .schedule then
          (t.schedule.slotAfter crates update.fireSlot).getD t.nextRunAt else t.nextRunAt
        fire := some ⟨update.fireSlot, source, some update.runId⟩ }
  | retried {t : Cadence} {request : FireRetryableFailedRequest} {source : TriggerSourceKind}
      (hc : c.request = .markFireRetryableFailed request) (hkey : request.trigger = key)
      (hfire : t.fire = some ⟨request.fireSlot, source, none⟩)
      (hcadence : source = .manual ∨ t.nextRunAt ≤ request.fireSlot) :
      Does crates key c t { t with fire := none }
  | rescheduled {t : Cadence} {request : FirePermanentFailedRequest} {source : TriggerSourceKind}
      (hc : c.request = .markFirePermanentlyFailed request) (hkey : request.trigger = key)
      (hfire : t.fire = some ⟨request.fireSlot, source, none⟩)
      (hfuture : source = .schedule → request.fireSlot < request.nextRunAt) :
      Does crates key c t { t with
        nextRunAt := if source = .manual then t.nextRunAt else request.nextRunAt
        fire := none }
  | ended {t : Cadence} {request : FireTerminalFailedRequest} {source : TriggerSourceKind}
      (hc : c.request = .markFireTerminallyFailed request) (hkey : request.trigger = key)
      (hfire : t.fire = some ⟨request.fireSlot, source, none⟩) :
      Does crates key c t { t with
        state := if source = .manual then t.state else .completed
        fire := none }
  | cleared {t : Cadence} {request : ClearActiveFireRequest} {source : TriggerSourceKind}
      (hc : c.request = .clearActiveFire request) (hkey : request.trigger = key)
      (hfire : t.fire = some ⟨request.fireSlot, source, some request.runId⟩) :
      Does crates key c t { t with
        state := if source = .schedule ∧ t.schedule.slotAfter crates request.fireSlot = none then
          .completed else t.state
        fire := none }

/-! ### What the primitives keep of `Holds` -/

namespace Holds

variable {s s' : Store} {key trigger : TriggerKey} {row row' : TriggerRecord} {fire : Option Fire}
  {run : TriggerRunRecord}

variable (h : Holds s key row fire)
include h

theorem key_eq : row.key = key := Table.key_of_get h.record

theorem putRecord (hkey : row'.key = key) (hslot : row'.activeFireSlot = row.activeFireSlot)
    (hrun : row'.activeRunRef = row.activeRunRef) : Holds (s.putRecord row') key row' fire where
  record := by
    rw [← hkey]
    exact Table.get_put_self _ _
  slot := hslot.trans h.slot
  run := hrun.trans h.run
  running := h.running

theorem fire_eq_none (hfree : row.activeFireSlot = none) : fire = none := by
  rw [h.slot, Option.map_eq_none_iff] at hfree
  exact hfree

theorem exists_fire {slot : Timestamp} (hslot : row.activeFireSlot = some slot) :
    ∃ source, fire = some ⟨slot, source, row.activeRunRef⟩ ∧ fireSource s key slot = source := by
  have hs := h.slot
  rw [hslot] at hs
  obtain ⟨⟨slot, source, run⟩, rfl, rfl⟩ := Option.map_eq_some_iff.1 hs.symm
  refine ⟨source, ?_, ?_⟩
  · rw [h.run]
    rfl
  · have hrunning := h.running
    rw [Option.toList_some, List.map_eq_singleton_iff] at hrunning
    obtain ⟨a, ha, hfire⟩ := hrunning
    have hsource := fetchRunSource_eq ha
    rw [show a.fireSlot = slot from congrArg Fire.slot hfire,
      show a.source = source from congrArg Fire.source hfire] at hsource
    rw [fireSource, hsource, Option.getD_some]

theorem key_of_running {a : TriggerRunRecord}
    (ha : a ∈ runningRows s key) : ∃ f, fire = some f ∧ a.key = ⟨key, f.slot, f.source⟩ := by
  have hmem : fireOf a ∈ fire.toList := h.running ▸ List.mem_map_of_mem ha
  rw [Option.mem_toList] at hmem
  refine ⟨fireOf a, hmem, ?_⟩
  rw [← (mem_runningRows.1 ha).2.1]
  rfl

theorem prune : Holds (pruneRunHistory s key) key row fire where
  record := h.record
  slot := h.slot
  run := h.run
  running := by
    cases fire with
    | none =>
      have hrows : runningRows s key = [] := by simpa using h.running
      rw [runningRows_eq_nil]
      · rfl
      · intro x hx htrigger hstatus
        have hmem : x ∈ runningRows s key :=
          mem_runningRows.2 ⟨mem_of_mem_prune hx, htrigger, hstatus⟩
        exact absurd (hrows ▸ hmem) List.not_mem_nil
    | some f =>
      have hrunning := h.running
      rw [Option.toList_some, List.map_eq_singleton_iff] at hrunning
      obtain ⟨a, ha, hfire⟩ := hrunning
      rw [runningRows_prune ha, List.map_singleton, hfire]
      rfl

/-- A claim or an accepted result writes the row of the fire. -/
theorem upsert (hkey : row'.key = key) (htrigger : run.trigger = key)
    (hstatus : run.status = .running)
    (hfire : ∀ f, fire = some f → f.slot = run.fireSlot ∧ f.source = run.source)
    (hslot : row'.activeFireSlot = some run.fireSlot) (hrun : row'.activeRunRef = run.runId) :
    Holds (upsertRunHistory (s.putRecord row') run) key row' (some (fireOf run)) where
  record := by
    rw [← hkey]
    exact Table.get_put_self _ _
  slot := hslot
  run := hrun
  running := by
    subst htrigger
    have hheld : ∀ a ∈ runningRows (s.putRecord row') run.trigger, a.key = run.key := by
      intro a ha
      obtain ⟨f, hf, hakey⟩ := h.key_of_running (a := a) ha
      obtain ⟨hfslot, hfsource⟩ := hfire f hf
      rw [hakey, hfslot, hfsource]
      rfl
    obtain ⟨stored, hrows⟩ := runningRows_upsertRunHistory hstatus hheld
    rw [hrows, List.map_singleton, Option.toList_some, List.singleton_inj]
    have hmerged := key_mergedRow run stored
    rw [fireOf, runId_mergedRow,
      show (mergedRow run stored).fireSlot = run.fireSlot from
        congrArg TriggerRunKey.fireSlot hmerged,
      show (mergedRow run stored).source = run.source from congrArg TriggerRunKey.source hmerged,
      fireOf]

/-- A failure or the end of the run takes the row of the fire out of the running ones. -/
theorem complete {slot completedAt : Timestamp}
    {source : TriggerSourceKind} {runId : Option TurnRunId} {status : TriggerRunHistoryStatus}
    (hkey : row'.key = key) (hstatus : status ≠ .running)
    (hfire : ∀ f, fire = some f → f.slot = slot ∧ f.source = source)
    (hslot : row'.activeFireSlot = none) (hrun : row'.activeRunRef = none) :
    Holds (completeRunHistory (s.putRecord row') key slot source runId status completedAt) key row'
      none where
  record := by
    rw [← hkey]
    exact Table.get_put_self _ _
  slot := hslot
  run := hrun
  running := by
    rw [runningRows_completeRunHistory hstatus]
    · rfl
    · intro a ha
      obtain ⟨f, hf, hakey⟩ := h.key_of_running (a := a) ha
      obtain ⟨hfslot, hfsource⟩ := hfire f hf
      rw [hakey, hfslot, hfsource]

theorem elsewhere (he : Elsewhere trigger s s') (hne : key ≠ trigger) : Holds s' key row fire where
  record := (he.records key hne).trans h.record
  slot := h.slot
  run := h.run
  running := by
    have hlen : (runningRows s key).length ≤ 1 := by
      have hcount := congrArg List.length h.running
      rw [List.length_map] at hcount
      rw [hcount]
      cases fire <;> simp
    rw [he.runningRows_eq hne rfl hlen]
    exact h.running

omit h

end Holds

/-! ### Calls -/

/-- The trigger that a request may change. -/
def target : Request → Option TriggerKey
  | .upsertTrigger record => some record.key
  | .setScopedTriggerState request => some request.trigger
  | .claimDueFire request => some request.trigger
  | .claimManualFire request => some request.trigger
  | .markFireAccepted request => some request.trigger
  | .markFireReplayed request => some request.trigger
  | .markFireRetryableFailed request => some request.trigger
  | .markFirePermanentlyFailed request => some request.trigger
  | .markFireTerminallyFailed request => some request.trigger
  | .clearActiveFire request => some request.trigger
  | _ => none

section Calls

variable {crates : CronCrates} {s s' : Store} {c : Call} {key : TriggerKey} {row : TriggerRecord}
  {fire : Option Fire}

theorem target_of_successfulUpdate {request : Request} {update : SuccessfulFireResultUpdate}
    (h : successfulUpdate request = some update) : target request = some update.trigger := by
  cases request <;> simp only [successfulUpdate, Option.some.injEq, reduceCtorEq] at h <;>
    subst h <;> rfl

theorem Fails.target_eq {request : Request} {trigger : TriggerKey} {fireSlot : Timestamp}
    {left : TriggerRecord} (h : Fails s row request trigger fireSlot left) :
    target request = some trigger ∧ left.key = row.key := by
  cases h <;> exact ⟨rfl, rfl⟩

/-- A call changes the data of its target only. -/
theorem Wrote.elsewhere (h : Wrote crates s c s') :
    ∃ trigger, target c.request = some trigger ∧ Elsewhere trigger s s' := by
  cases h with
  | @upserted record hc =>
    refine ⟨record.key, by rw [hc]; rfl, ?_⟩
    unfold writeRecord
    apply Elsewhere.putRecord
    cases s.records.get record.key <;> rfl
  | @stateSet request row nextRunAt hc hrow =>
    have hkey : row.key = request.trigger := Table.key_of_get hrow
    exact ⟨request.trigger, by rw [hc]; rfl, Elsewhere.putRecord s hkey⟩
  | @dueClaimed request row hc hrow =>
    have hkey : row.key = request.trigger := Table.key_of_get hrow
    refine ⟨request.trigger, by rw [hc]; rfl, ?_⟩
    refine Elsewhere.trans ?_ (.pruneRunHistory _ _)
    exact .upserted s (by exact hkey) rfl rfl
  | @manualClaimed request row hc hrow =>
    have hkey : row.key = request.trigger := Table.key_of_get hrow
    refine ⟨request.trigger, by rw [hc]; rfl, ?_⟩
    refine Elsewhere.trans ?_ (.pruneRunHistory _ _)
    exact .upserted s (by exact hkey) rfl rfl
  | @accepted update row nextRunAt hc hrow =>
    have hkey : row.key = update.trigger := Table.key_of_get hrow
    refine ⟨update.trigger, target_of_successfulUpdate hc, ?_⟩
    exact .upserted s (by exact hkey) rfl rfl
  | @failed trigger fireSlot row left hc hrow =>
    have hkey : row.key = trigger := Table.key_of_get hrow
    obtain ⟨htarget, hleft⟩ := hc.target_eq
    exact ⟨trigger, htarget, .completed s (by exact hleft.trans hkey) _ _ _ _ _⟩
  | @cleared request row nextSlot hc hrow =>
    have hkey : row.key = request.trigger := Table.key_of_get hrow
    refine ⟨request.trigger, by rw [hc]; rfl, ?_⟩
    exact .completed s (by exact hkey) _ _ _ _ _

/-- The calls that leave the record of a trigger to the repository: nobody overwrites it, and a run
is cleared with the status that it ended in. -/
structure Permitted (key : TriggerKey) (c : Call) : Prop where
  no_upsert : ∀ record, c.request = .upsertTrigger record → record.key ≠ key
  ended : ∀ request, c.request = .clearActiveFire request → request.trigger = key →
    request.status ≠ .running

variable {source : TriggerSourceKind}

theorem nextRunAtAfterFire_eq_ok {wall slot : Timestamp}
    {schedule : TriggerSchedule} {next : Option Timestamp}
    (h : nextRunAtAfterFire crates wall source schedule slot = .ok next) :
    (source = .schedule → schedule.slotAfter crates slot = next ∧ ∀ n ∈ next, slot < n) ∧
      (source ≠ .schedule → next = none) := by
  unfold nextRunAtAfterFire at h
  split at h
  · rename_i hsource
    refine ⟨fun _ => ?_, fun hne => absurd hsource hne⟩
    obtain ⟨found, hfound, h⟩ := bind_eq_ok.1 h
    rw [TriggerSchedule.nextSlotAfter_eq_ok hfound]
    cases found with
    | none =>
      rw [← pure_eq_ok.1 h]
      exact ⟨rfl, by simp⟩
    | some n =>
      obtain ⟨_, hfuture, h⟩ := bind_eq_ok.1 h
      rw [rejectNonFutureNextRunAt, rejectIf_eq_ok, not_not] at hfuture
      rw [← pure_eq_ok.1 h]
      exact ⟨rfl, by simpa using hfuture⟩
  · rename_i hsource
    exact ⟨fun h => absurd h hsource, fun _ => (Except.ok.inj h).symm⟩

theorem nextSlotAfterRun_eq_ok {wall slot : Timestamp}
    {next : Option Timestamp} (h : nextSlotAfterRun crates wall source row slot = .ok next) :
    next = none ↔ source = .schedule ∧ row.schedule.slotAfter crates slot = none := by
  unfold nextSlotAfterRun at h
  split at h
  · rename_i hsource
    rw [TriggerSchedule.nextSlotAfter_eq_ok h]
    exact ⟨fun hnext => ⟨hsource, hnext⟩, fun hnext => hnext.2⟩
  · rename_i hsource
    rw [← Except.ok.inj h]
    exact ⟨fun hnext => absurd hnext (Option.some_ne_none _), fun hnext => absurd hnext.1 hsource⟩

theorem does_of_stateSet {request : SetScopedTriggerStateRequest} {nextRunAt : Timestamp}
    (hc : c.request = .setScopedTriggerState request) (hkey : request.trigger = key)
    (hsettable : request.state ≠ .completed) (hopen : row.state ≠ .completed)
    (hnext : nextRunAtForStateTransition crates c.wall row request.state c.wall = .ok nextRunAt) :
    Does crates key c (Cadence.of row fire) (Cadence.of { row with
      state := request.state
      nextRunAt := nextRunAt } fire) := by
  unfold nextRunAtForStateTransition at hnext
  split at hnext
  · rename_i hresume
    obtain ⟨hpaused, hrequest, -⟩ := hresume
    obtain ⟨found, hfound, hsome⟩ := bind_eq_ok.1 hnext
    rw [okOr_eq_ok] at hsome
    have hslot := TriggerSchedule.nextSlotAfter_eq_ok hfound
    rw [hsome] at hslot
    rw [hrequest]
    exact .resumed hc hkey hrequest hpaused hslot
  · rename_i hkeep
    rw [← Except.ok.inj hnext]
    cases hrequest : request.state with
    | completed => exact absurd hrequest hsettable
    | paused => exact .paused hc hkey hrequest hopen
    | scheduled =>
      refine .kept hc hkey hrequest hopen ?_
      rintro ⟨hpaused, hrecurring⟩
      exact hkeep ⟨hpaused, hrequest, hrecurring⟩

/-- The transition of an accepted or replayed result. -/
theorem does_of_accepted {update : SuccessfulFireResultUpdate}
    {nextRunAt : Option Timestamp} (hc : successfulUpdate c.request = some update)
    (hkey : update.trigger = key)
    (hnext : nextRunAtAfterFire crates c.wall source row.schedule update.fireSlot =
      .ok nextRunAt) :
    Does crates key c (Cadence.of row (some ⟨update.fireSlot, source, none⟩))
      (Cadence.of (acceptedRecord update nextRunAt row)
        (some ⟨update.fireSlot, source, some update.runId⟩)) := by
  obtain ⟨hmoves, hkeeps⟩ := nextRunAtAfterFire_eq_ok hnext
  have hposition : nextRunAt.getD row.nextRunAt = if source = .schedule then
      (row.schedule.slotAfter crates update.fireSlot).getD row.nextRunAt else row.nextRunAt := by
    split
    · rename_i hschedule
      rw [(hmoves hschedule).1]
    · rename_i hschedule
      rw [hkeeps hschedule, Option.getD_none]
  have hfuture : ∀ next, source = .schedule →
      row.schedule.slotAfter crates update.fireSlot = some next → update.fireSlot < next := by
    intro next hschedule hslot
    exact (hmoves hschedule).2 next ((hmoves hschedule).1.symm.trans hslot)
  rw [Cadence.of, Cadence.of,
    show (acceptedRecord update nextRunAt row).nextRunAt = _ from hposition]
  exact .accepted hc hkey rfl hfuture

theorem does_of_fails {fireSlot : Timestamp} {left : TriggerRecord}
    (hc : Fails s row c.request key fireSlot left) (hsource : fireSource s key fireSlot = source) :
    Does crates key c (Cadence.of row (some ⟨fireSlot, source, none⟩)) (Cadence.of { left with
      lastStatus := some .error
      activeFireSlot := none
      activeRunRef := none } none) := by
  obtain ⟨wall, request⟩ := c
  cases hc with
  | retryable hcadence =>
    rw [hsource] at hcadence
    exact .retried rfl rfl rfl hcadence
  | permanently hfuture =>
    rw [hsource] at hfuture ⊢
    exact .rescheduled rfl rfl rfl hfuture
  | terminally =>
    rw [hsource]
    exact .ended rfl rfl rfl

/-- A call on a trigger takes its cadence through a transition. -/
theorem Wrote.does (h : Wrote crates s c s') (hp : Permitted key c)
    (htarget : target c.request = some key) (hs : Holds s key row fire) :
    ∃ row' fire', Holds s' key row' fire' ∧
      Does crates key c (Cadence.of row fire) (Cadence.of row' fire') := by
  cases h with
  | @upserted record hc =>
    rw [hc] at htarget
    exact absurd (Option.some.inj htarget) (hp.no_upsert record hc)
  | @stateSet request stored nextRunAt hc hrow hsettable hopen hnext =>
    have hkey : request.trigger = key := by
      rw [hc] at htarget
      exact Option.some.inj htarget
    rw [hkey, hs.record, Option.some.injEq] at hrow
    subst hrow
    exact ⟨_, fire, hs.putRecord hs.key_eq rfl rfl,
      does_of_stateSet hc hkey hsettable hopen hnext⟩
  | @dueClaimed request stored hc hrow hstate hslot hdue hfree hidle =>
    have hkey : request.trigger = key := by
      rw [hc] at htarget
      exact Option.some.inj htarget
    rw [hkey, hs.record, Option.some.injEq] at hrow
    subst hrow
    have hnone := hs.fire_eq_none hfree
    subst hnone hkey
    refine ⟨{ row with
      activeFireSlot := some request.fireSlot
      activeRunRef := none }, _, (hs.upsert ?_ rfl rfl nofun rfl rfl).prune, ?_⟩
    · exact hs.key_eq
    · exact .claimedDue hc rfl hstate hslot hdue rfl
  | @manualClaimed request stored hc hrow hstate hfree hidle =>
    have hkey : request.trigger = key := by
      rw [hc] at htarget
      exact Option.some.inj htarget
    rw [hkey, hs.record, Option.some.injEq] at hrow
    subst hrow
    have hnone := hs.fire_eq_none hfree
    subst hnone hkey
    refine ⟨{ row with
      activeFireSlot := some request.now
      activeRunRef := none }, _, (hs.upsert ?_ rfl rfl nofun rfl rfl).prune, ?_⟩
    · exact hs.key_eq
    · exact .claimedManual hc rfl hstate rfl
  | @accepted update stored nextRunAt hc hrow hslot hidle hnext =>
    have hkey : update.trigger = key := by
      rw [target_of_successfulUpdate hc] at htarget
      exact Option.some.inj htarget
    rw [hkey, hs.record, Option.some.injEq] at hrow
    subst hrow hkey
    obtain ⟨source, rfl, hsource⟩ := hs.exists_fire hslot
    rw [hsource] at hnext ⊢
    rw [hidle] at hs ⊢
    refine ⟨acceptedRecord update nextRunAt row, _, hs.upsert hs.key_eq rfl rfl ?_ rfl rfl, ?_⟩
    · rintro f ⟨⟩
      exact ⟨rfl, rfl⟩
    · exact does_of_accepted hc rfl hnext
  | @failed trigger fireSlot stored left hc hrow hslot hidle =>
    obtain ⟨htarget', hleft⟩ := hc.target_eq
    rw [htarget'] at htarget
    have hkey : trigger = key := Option.some.inj htarget
    rw [hkey, hs.record, Option.some.injEq] at hrow
    subst hrow hkey
    obtain ⟨source, rfl, hsource⟩ := hs.exists_fire hslot
    rw [hidle] at hs ⊢
    refine ⟨_, none, hs.complete (by exact hleft.trans hs.key_eq) nofun ?_ rfl rfl, ?_⟩
    · rintro f ⟨⟩
      exact ⟨rfl, hsource.symm⟩
    · exact does_of_fails hc hsource
  | @cleared request stored nextSlot hc hrow hslot hrun hnext =>
    have hkey : request.trigger = key := by
      rw [hc] at htarget
      exact Option.some.inj htarget
    rw [hkey, hs.record, Option.some.injEq] at hrow
    subst hrow hkey
    obtain ⟨source, rfl, hsource⟩ := hs.exists_fire hslot
    rw [hsource] at hnext
    rw [hrun] at hs ⊢
    refine ⟨_, none, hs.complete (by exact hs.key_eq) (hp.ended request hc rfl) ?_ rfl rfl, ?_⟩
    · rintro f ⟨⟩
      exact ⟨rfl, hsource.symm⟩
    · simp only [Cadence.of, nextSlotAfterRun_eq_ok hnext]
      exact .cleared hc rfl rfl

/-- The refinement: a call takes the cadence of every trigger through a transition. -/
theorem call_does {reply : Reply} (h : call crates s c = .ok (reply, s')) (hp : Permitted key c)
    (hs : Holds s key row fire) :
    ∃ row' fire', Holds s' key row' fire' ∧
      Does crates key c (Cadence.of row fire) (Cadence.of row' fire') := by
  rcases call_eq_ok h with rfl | hwrote
  · exact ⟨row, fire, hs, .stays _⟩
  · obtain ⟨trigger, htarget, helsewhere⟩ := hwrote.elsewhere
    by_cases hkey : trigger = key
    · subst hkey
      exact hwrote.does hp htarget hs
    · exact ⟨row, fire, hs.elsewhere helsewhere (Ne.symm hkey), .stays _⟩

end Calls

end Ironclaw.Triggers.LibSql
