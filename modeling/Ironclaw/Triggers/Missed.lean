import Ironclaw.Triggers.Slots

/-! # Slots missed while a trigger is paused

Resuming a cron trigger moves it to the first slot after the transition, so that the slots that
elapsed while it was paused are skipped. A result that arrives later moves the trigger to the slot
after the one of its fire, wherever the trigger stands by then: where a fire was claimed before the
pause and is accepted after the resume, the trigger goes back to the slots it had skipped
(`missed_slot_fires`).

`OnTime` is the invariant of the position in the runs where no slot elapses between the slot of such
a fire and the resume (`ResumesInTime`). -/

namespace Ironclaw.Triggers

/-! ### What the poller does with a fire that failed for good -/

inductive FailedFireDisposition where
  | retryable
  | recurringPermanentReschedule (nextRunAt : Timestamp)
  | oncePermanentComplete

def permanentFailureDisposition (crates : CronCrates) (wall : Timestamp)
    (schedule : TriggerSchedule) (fireSlot : Timestamp) :
    Except TriggerError FailedFireDisposition :=
  match schedule with
  | .once _ _ => .ok .oncePermanentComplete
  | .cron _ _ => do
    match ← schedule.nextSlotAfter crates wall fireSlot with
    | some next => return .recurringPermanentReschedule next
    | none => return .retryable

theorem slotAfter_of_permanentFailureDisposition {crates : CronCrates} {wall : Timestamp}
    {schedule : TriggerSchedule} {fireSlot nextRunAt : Timestamp}
    (h : permanentFailureDisposition crates wall schedule fireSlot =
      .ok (.recurringPermanentReschedule nextRunAt)) :
    schedule.slotAfter crates fireSlot = some nextRunAt := by
  cases schedule with
  | once => exact absurd h (by simp [permanentFailureDisposition])
  | cron expression timezone =>
    obtain ⟨next, hnext, h⟩ := bind_eq_ok.1 h
    cases next with
    | none => exact absurd (pure_eq_ok.1 h) (by simp)
    | some next =>
      have heq := pure_eq_ok.1 h
      rw [FailedFireDisposition.recurringPermanentReschedule.injEq] at heq
      rw [← heq]
      exact TriggerSchedule.nextSlotAfter_eq_ok hnext

namespace LibSql

/-! ### What a step shows of the position -/

def position (s : Store) (key : TriggerKey) : Option Timestamp :=
  (s.records.get key).map TriggerRecord.nextRunAt

def stateOf (s : Store) (key : TriggerKey) : Option TriggerState :=
  (s.records.get key).map TriggerRecord.state

def resumedAt (key : TriggerKey) (x : Step Store Call) : Option Timestamp :=
  if stateOf x.pre key = some .paused ∧ stateOf x.post key = some .scheduled then
    some x.command.wall
  else none

/-- A scheduled fire begins. -/
def newlyClaimed : Option Fire → Option Fire → Option Timestamp
  | none, some ⟨slot, .schedule, none⟩ => some slot
  | _, _ => none

def claimedSlot (key : TriggerKey) (x : Step Store Call) : Option Timestamp :=
  newlyClaimed (inFlight x.pre key) (inFlight x.post key)

/-- A permanent failure carries the slot that the poller computes for it. -/
def Reschedules (crates : CronCrates) (schedule : TriggerSchedule) (key : TriggerKey) (c : Call) :
    Prop :=
  ∀ request, c.request = .markFirePermanentlyFailed request → request.trigger = key →
    ∃ wall, permanentFailureDisposition crates wall schedule request.fireSlot =
      .ok (.recurringPermanentReschedule request.nextRunAt)

/-- Where a trigger is resumed while a claimed fire waits for its result, no slot has elapsed since
the slot of the fire. -/
def ResumesInTime (crates : CronCrates) (schedule : TriggerSchedule) (key : TriggerKey) (s : Store)
    (c : Call) : Prop :=
  ∀ request slot next, c.request = .setScopedTriggerState request → request.trigger = key →
    request.state = .scheduled → stateOf s key = some .paused →
    inFlight s key = some ⟨slot, .schedule, none⟩ → schedule.slotAfter crates slot = some next →
    c.wall < next

/-! ### The position in time -/

section Transition

variable {crates : CronCrates} {key : TriggerKey} {c : Call} {t t' : Cadence} {S : Set Timestamp}
  {now : Timestamp}

/-- What holds of the position at an instant: it is not past the next slot, and a claimed fire that
waits for its result is at the position or just before it. -/
structure OnTime (crates : CronCrates) (S : Set Timestamp) (t : Cadence) (now : Timestamp) :
    Prop where
  near : ∀ x ∈ S, now < x → t.nextRunAt ≤ x
  claimed : ∀ slot, t.fire = some ⟨slot, .schedule, none⟩ → slot ≤ now ∧
    (t.nextRunAt = slot ∨ t.schedule.slotAfter crates slot = some t.nextRunAt)

namespace OnTime

theorem mono (h : OnTime crates S t now) {later : Timestamp} (hle : now ≤ later) :
    OnTime crates S t later where
  near x hx hlt := h.near x hx (lt_of_le_of_lt hle hlt)
  claimed slot hslot := ⟨(h.claimed slot hslot).1.trans hle, (h.claimed slot hslot).2⟩

theorem settle (h : OnTime crates S t now) (hnext : NextIn S (t.schedule.slotAfter crates))
    {slot next : Timestamp} (hfire : t.fire = some ⟨slot, .schedule, none⟩)
    (hslot : t.schedule.slotAfter crates slot = some next) :
    t.nextRunAt ≤ next ∧ ∀ x ∈ S, now < x → next ≤ x := by
  obtain ⟨helapsed, hposition⟩ := h.claimed slot hfire
  refine ⟨?_, fun x hx hlt => hnext.le hslot hx (lt_of_le_of_lt helapsed hlt)⟩
  rcases hposition with hat | hafter
  · rw [hat]
    exact (hnext.lt hslot).le
  · rw [hslot, Option.some.injEq] at hafter
    exact hafter.ge

/-- A transition keeps the position on time and never moves it back. -/
theorem step (h : OnTime crates S t now) (hnext : NextIn S (t.schedule.slotAfter crates))
    (hd : Does crates key c t t') (hclock : now ≤ clock c)
    (hfails : ∀ request, c.request = .markFirePermanentlyFailed request → request.trigger = key →
      t.schedule.slotAfter crates request.fireSlot = some request.nextRunAt)
    (hintime : ∀ request slot next, c.request = .setScopedTriggerState request →
      request.trigger = key → request.state = .scheduled → t.state = .paused →
      t.fire = some ⟨slot, .schedule, none⟩ → t.schedule.slotAfter crates slot = some next →
      c.wall < next) :
    OnTime crates S t' (clock c) ∧ t.nextRunAt ≤ t'.nextRunAt := by
  have hnow := h.mono hclock
  cases hd with
  | stays => exact ⟨hnow, le_rfl⟩
  | paused | kept => exact ⟨⟨hnow.near, hnow.claimed⟩, le_rfl⟩
  | @resumed request next hc hkey hrequest hpaused hslot =>
    have hwall : clock c = c.wall := by rw [clock, hc]
    rw [hwall] at hnow ⊢
    refine ⟨⟨fun x hx hlt => hnext.le hslot hx hlt, ?_⟩,
      hnow.near next (hnext.mem hslot) (hnext.lt hslot)⟩
    intro slot hfire
    have helapsed := (hnow.claimed slot hfire).1
    refine ⟨helapsed, .inr ?_⟩
    -- the slot after the fire is ahead of the resume, so it is the slot after the resume
    cases hafter : t.schedule.slotAfter crates slot with
    | none =>
      have hle : next ≤ slot := hnext.le_of_none hafter next (hnext.mem hslot)
      exact absurd (hnext.lt hslot) (not_lt.2 (hle.trans helapsed))
    | some after =>
      have hlt := hintime request slot after hc hkey hrequest hpaused hfire hafter
      rw [← hslot]
      exact (hnext.eq_of_lt helapsed hafter hlt).symm
  | @claimedDue request hc hkey hstate hslot hdue hfree =>
    have hnowe : clock c = request.now := by rw [clock, hc]
    refine ⟨⟨hnow.near, ?_⟩, le_rfl⟩
    rintro slot ⟨⟩
    exact ⟨hnowe ▸ hdue, .inl hslot⟩
  | claimedManual =>
    exact ⟨⟨hnow.near, fun slot hslot => absurd hslot (by simp)⟩, le_rfl⟩
  | @accepted update source hc hkey hfire hfuture =>
    cases source with
    | manual => exact ⟨⟨hnow.near, fun slot hslot => absurd hslot (by simp)⟩, le_rfl⟩
    | schedule =>
      rw [if_pos rfl]
      cases hslot : t.schedule.slotAfter crates update.fireSlot with
      | none => exact ⟨⟨hnow.near, fun slot hslot => absurd hslot (by simp)⟩, le_rfl⟩
      | some next =>
        obtain ⟨hle, hnear⟩ := hnow.settle hnext hfire hslot
        exact ⟨⟨hnear, fun slot hslot => absurd hslot (by simp)⟩, hle⟩
  | retried => exact ⟨⟨hnow.near, fun slot hslot => absurd hslot (by simp)⟩, le_rfl⟩
  | @rescheduled request source hc hkey hfire hfuture =>
    cases source with
    | manual => exact ⟨⟨hnow.near, fun slot hslot => absurd hslot (by simp)⟩, le_rfl⟩
    | schedule =>
      obtain ⟨hle, hnear⟩ := hnow.settle hnext hfire (hfails request hc hkey)
      exact ⟨⟨hnear, fun slot hslot => absurd hslot (by simp)⟩, hle⟩
  | ended => exact ⟨⟨hnow.near, fun slot hslot => absurd hslot (by simp)⟩, le_rfl⟩
  | cleared => exact ⟨⟨hnow.near, fun slot hslot => absurd hslot (by simp)⟩, le_rfl⟩

end OnTime

/-- A resume of a recurring trigger leaves it ahead of the transition. -/
theorem Does.lt_of_resumed (h : Does crates key c t t') (hnext : NextIn S (t.schedule.slotAfter crates))
    (hrecurring : t.schedule.isRecurring = true) (hpre : t.state = .paused)
    (hpost : t'.state = .scheduled) : c.wall < t'.nextRunAt := by
  have hne : TriggerState.paused ≠ .scheduled := nofun
  cases h with
  | stays => exact absurd (hpre.symm.trans hpost) hne
  | paused => exact absurd hpost hne
  | kept _ _ _ _ hkeep => exact absurd ⟨hpre, hrecurring⟩ hkeep
  | resumed _ _ _ _ hslot => exact hnext.lt hslot
  | claimedDue _ _ hstate => exact absurd (hpre.symm.trans hstate) hne
  | claimedManual _ _ hstate => exact absurd (hpre.symm.trans hstate) hne
  | accepted | retried | rescheduled => exact absurd (hpre.symm.trans hpost) hne
  | @ended _ source =>
    cases source with
    | manual => exact absurd (hpre.symm.trans hpost) hne
    | schedule => exact absurd hpost nofun
  | cleared =>
    dsimp only at hpost
    split at hpost
    · exact absurd hpost nofun
    · exact absurd (hpre.symm.trans hpost) hne

theorem Does.claimed_eq (h : Does crates key c t t') {slot : Timestamp}
    (hclaimed : newlyClaimed t.fire t'.fire = some slot) : slot = t.nextRunAt := by
  have hnone : ∀ fire, newlyClaimed fire none = none := by
    intro fire
    cases fire <;> rfl
  have hself : ∀ fire, newlyClaimed fire fire = none := by
    intro fire
    cases fire <;> rfl
  cases h with
  | stays | paused | kept | resumed => simp [hself] at hclaimed
  | claimedDue _ _ _ hslot _ hfree =>
    rw [hfree] at hclaimed
    rw [hslot, ← Option.some.inj hclaimed]
  | claimedManual _ _ _ hfree =>
    rw [hfree] at hclaimed
    exact absurd hclaimed nofun
  | accepted _ _ hfire =>
    rw [hfire] at hclaimed
    exact absurd hclaimed nofun
  | retried | rescheduled | ended | cleared => simp [hnone] at hclaimed

end Transition

/-! ### Runs -/

section Runs

variable {crates : CronCrates} {init s : Store} {history : List (Step Store Call)}
  {key : TriggerKey} {row₀ : TriggerRecord}
  {matching : crates.Schedule → crates.Tz → Set Timestamp}

theorem Holds.position_eq {row : TriggerRecord} {fire : Option Fire} (h : Holds s key row fire) :
    position s key = some row.nextRunAt := by
  rw [position, h.record, Option.map_some]

theorem Holds.stateOf_eq {row : TriggerRecord} {fire : Option Fire} (h : Holds s key row fire) :
    stateOf s key = some row.state := by
  rw [stateOf, h.record, Option.map_some]

/-- What holds of the position after a run. -/
structure Skips (crates : CronCrates) (matching : crates.Schedule → crates.Tz → Set Timestamp)
    (key : TriggerKey) (row₀ : TriggerRecord) (history : List (Step Store Call)) (s : Store)
    (row : TriggerRecord) (fire : Option Fire) : Prop where
  holds : Holds s key row fire
  schedule : row.schedule = row₀.schedule
  onTime : OnTime crates (row₀.schedule.slots crates matching) (Cadence.of row fire)
    (lastClock row₀.createdAt history)
  advances : ∀ x ∈ history, ∃ before after, position x.pre key = some before ∧
    position x.post key = some after ∧ before ≤ after
  ahead : ∀ x ∈ history, ∀ resumed ∈ resumedAt key x, resumed < row.nextRunAt
  skipped : history.Pairwise fun x y =>
    ∀ resumed ∈ resumedAt key x, ∀ slot ∈ claimedSlot key y, resumed < slot

theorem Skips.created (hcron : crates.Iterates matching) (h : Created crates init key row₀) :
    Skips crates matching key row₀ [] init row₀ none where
  holds := h.holds
  schedule := rfl
  onTime :=
    { near := fun _ hx hlt =>
        (TriggerSchedule.nextIn_slots hcron row₀.schedule).le h.position hx hlt
      claimed := nofun }
  advances := List.forall_mem_nil _
  ahead := List.forall_mem_nil _
  skipped := List.Pairwise.nil

theorem Skips.step {row : TriggerRecord} {fire : Option Fire}
    (h : Skips crates matching key row₀ history s row fire) (hcron : crates.Iterates matching)
    (hrecurring : row₀.schedule.isRecurring = true) {c : Call} (hp : Permitted key c)
    (hclock : lastClock row₀.createdAt history ≤ clock c)
    (hfails : Reschedules crates row₀.schedule key c)
    (hintime : ResumesInTime crates row₀.schedule key s c) :
    ∃ row' fire', Skips crates matching key row₀ (history ++ [⟨s, c, advance (call crates) s c⟩])
      (advance (call crates) s c) row' fire' := by
  obtain ⟨row', fire', hholds, hdoes⟩ := advance_does hp h.holds
  have hschedule : (Cadence.of row fire).schedule = row₀.schedule := h.schedule
  have hnext : NextIn (row₀.schedule.slots crates matching)
      ((Cadence.of row fire).schedule.slotAfter crates) := by
    rw [hschedule]
    exact TriggerSchedule.nextIn_slots hcron row₀.schedule
  obtain ⟨honTime, hle⟩ : OnTime crates (row₀.schedule.slots crates matching)
      (Cadence.of row' fire') (clock c) ∧ row.nextRunAt ≤ row'.nextRunAt := by
    refine h.onTime.step hnext hdoes hclock ?_ ?_
    · intro request hc hkey
      obtain ⟨wall, hdisposition⟩ := hfails request hc hkey
      rw [hschedule]
      exact slotAfter_of_permanentFailureDisposition hdisposition
    · intro request slot next hc hkey hrequest hpaused hfire hslot
      rw [hschedule] at hslot
      exact hintime request slot next hc hkey hrequest
        (h.holds.stateOf_eq.trans (congrArg some hpaused)) (h.holds.inFlight_eq.trans hfire) hslot
  refine ⟨row', fire', ?_⟩
  refine
    { holds := hholds
      schedule := hdoes.schedule_eq.trans h.schedule
      onTime := by rwa [lastClock_append]
      advances := ?_
      ahead := ?_
      skipped := ?_ }
  · rw [List.forall_mem_append, List.forall_mem_singleton]
    exact ⟨h.advances, row.nextRunAt, row'.nextRunAt, h.holds.position_eq, hholds.position_eq, hle⟩
  · rw [List.forall_mem_append, List.forall_mem_singleton]
    refine ⟨fun x hx resumed hresumed => lt_of_lt_of_le (h.ahead x hx resumed hresumed) hle, ?_⟩
    intro resumed hresumed
    rw [resumedAt, h.holds.stateOf_eq, hholds.stateOf_eq, Option.mem_def,
      Option.ite_none_right_eq_some, Option.some.injEq, Option.some.injEq, Option.some.injEq]
      at hresumed
    obtain ⟨⟨hpre, hpost⟩, rfl⟩ := hresumed
    have hrec : (Cadence.of row fire).schedule.isRecurring = true := hschedule ▸ hrecurring
    exact hdoes.lt_of_resumed hnext hrec hpre hpost
  · rw [List.pairwise_append]
    refine ⟨h.skipped, List.pairwise_singleton _ _, ?_⟩
    intro x hx y hy resumed hresumed slot hslot
    rw [List.mem_singleton.1 hy, claimedSlot, h.holds.inFlight_eq, hholds.inFlight_eq] at hslot
    rw [hdoes.claimed_eq hslot]
    exact h.ahead x hx resumed hresumed

/-- Where no slot elapses between a claimed fire and a resume that overtakes its result, the
position of a cron trigger never decreases, and no slot up to a resume is claimed after it. -/
theorem skips_missed_slots (hcron : crates.Iterates matching)
    (hinit : Created crates init key row₀) (hrecurring : row₀.schedule.isRecurring = true)
    (run : Run Eq (call crates) init history s) (hp : ∀ x ∈ history, Permitted key x.command)
    (hfails : ∀ x ∈ history, Reschedules crates row₀.schedule key x.command)
    (hclock : Forward row₀.createdAt history)
    (hintime : ∀ x ∈ history, ResumesInTime crates row₀.schedule key x.pre x.command) :
    (∀ x ∈ history, ∃ before after, position x.pre key = some before ∧
        position x.post key = some after ∧ before ≤ after) ∧
      history.Pairwise fun x y =>
        ∀ resumed ∈ resumedAt key x, ∀ slot ∈ claimedSlot key y, resumed < slot := by
  have hkept : ∃ row fire, Skips crates matching key row₀ history s row fire := by
    refine run.induct_history
      (A := fun c => Permitted key c ∧ Reschedules crates row₀.schedule key c)
      (I := fun history s => Forward row₀.createdAt history →
        (∀ x ∈ history, ResumesInTime crates row₀.schedule key x.pre x.command) →
        ∃ row fire, Skips crates matching key row₀ history s row fire)
      (fun _ _ => ⟨row₀, none, .created hcron hinit⟩) ?_ ?_ (fun x hx => ⟨hp x hx, hfails x hx⟩)
      hclock hintime
    · rintro history s t rfl h
      exact h
    intro history s c hpc ih hclock hintime
    obtain ⟨hbefore, hle⟩ := hclock.of_append
    rw [List.forall_mem_append, List.forall_mem_singleton] at hintime
    obtain ⟨row, fire, hskips⟩ := ih hbefore hintime.1
    exact hskips.step hcron hrecurring hpc.1 hle hpc.2 hintime.2
  obtain ⟨row, fire, hskips⟩ := hkept
  exact ⟨hskips.advances, hskips.skipped⟩

end Runs

/-- A step that sets the state does so while no claimed fire waits for its result. -/
def settled (key : TriggerKey) (x : Step Store Call) : Bool :=
  match x.command.request with
  | .setScopedTriggerState _ => (inFlight x.pre key).all fun fire => fire.run.isSome
  | _ => true

theorem ResumesInTime.of_settled {crates : CronCrates} {schedule : TriggerSchedule}
    {key : TriggerKey} {x : Step Store Call} (h : settled key x = true) :
    ResumesInTime crates schedule key x.pre x.command := by
  intro request slot next hc _ _ _ hfire _
  rw [settled, hc, hfire] at h
  exact absurd h nofun

/-- The trigger is paused and resumed while the run of its first slot goes on. -/
def samplePause : List Call :=
  [⟨minute, .claimDueFire ⟨sampleTrigger, minute, minute⟩⟩,
    ⟨minute, .markFireAccepted ⟨sampleTrigger, minute, ⟨1⟩, ⟨"first"⟩, minute⟩⟩,
    ⟨minute, .setScopedTriggerState ⟨sampleTrigger, ⟨"user"⟩, none, none, .paused⟩⟩,
    ⟨3 * minute, .setScopedTriggerState ⟨sampleTrigger, ⟨"user"⟩, none, none, .scheduled⟩⟩,
    ⟨3 * minute, .clearActiveFire ⟨sampleTrigger, minute, ⟨1⟩, .ok⟩⟩,
    ⟨4 * minute, .claimDueFire ⟨sampleTrigger, 4 * minute, 4 * minute⟩⟩]

theorem permitted_samplePause : ∀ c ∈ samplePause, Permitted sampleTrigger c ∧
    Reschedules everyMinute sampleRecord.schedule sampleTrigger c := by
  intro c hc
  simp only [samplePause, List.mem_cons, List.not_mem_nil, or_false] at hc
  rcases hc with rfl | rfl | rfl | rfl | rfl | rfl <;>
    exact ⟨⟨by simp, by simp⟩, fun request hrequest => absurd hrequest (by simp)⟩

theorem skips_missed_slots_sample :
    (Run.trace (call everyMinute) sampleStore samplePause).map (claimedSlot sampleTrigger) =
        [some minute, none, none, none, none, some (4 * minute)] ∧
      (Run.trace (call everyMinute) sampleStore samplePause).Pairwise fun x y =>
        ∀ resumed ∈ resumedAt sampleTrigger x, ∀ slot ∈ claimedSlot sampleTrigger y,
          resumed < slot := by
  have hcommands : ∀ x ∈ Run.trace (call everyMinute) sampleStore samplePause,
      Permitted sampleTrigger x.command ∧
        Reschedules everyMinute sampleRecord.schedule sampleTrigger x.command :=
    Run.trace_forall samplePause sampleStore permitted_samplePause
  have hsettled : ∀ x ∈ Run.trace (call everyMinute) sampleStore samplePause,
      settled sampleTrigger x = true := by decide +kernel
  exact ⟨by decide +kernel,
    (skips_missed_slots everyMinute_iterates created_sample rfl
      (.of_commands (fun _ => rfl) samplePause sampleStore) (fun x hx => (hcommands x hx).1)
      (fun x hx => (hcommands x hx).2) (by decide +kernel)
      fun x hx => .of_settled (hsettled x hx)).2⟩

/-- The first slot is claimed, and its result arrives after the trigger was paused and resumed. -/
def sampleOvertaken : List Call :=
  [⟨minute, .claimDueFire ⟨sampleTrigger, minute, minute⟩⟩,
    ⟨minute, .setScopedTriggerState ⟨sampleTrigger, ⟨"user"⟩, none, none, .paused⟩⟩,
    ⟨3 * minute, .setScopedTriggerState ⟨sampleTrigger, ⟨"user"⟩, none, none, .scheduled⟩⟩,
    ⟨3 * minute, .markFireAccepted ⟨sampleTrigger, minute, ⟨1⟩, ⟨"first"⟩, 3 * minute⟩⟩,
    ⟨3 * minute, .clearActiveFire ⟨sampleTrigger, minute, ⟨1⟩, .ok⟩⟩,
    ⟨4 * minute, .claimDueFire ⟨sampleTrigger, 2 * minute, 4 * minute⟩⟩]

/-- The result takes the position back, and the second slot, which elapsed during the pause, is
claimed after the resume. -/
theorem missed_slot_fires :
    Created everyMinute sampleStore sampleTrigger sampleRecord ∧
      Forward sampleRecord.createdAt (Run.trace (call everyMinute) sampleStore sampleOvertaken) ∧
      (∀ c ∈ sampleOvertaken, Permitted sampleTrigger c) ∧
      (¬ ∀ x ∈ Run.trace (call everyMinute) sampleStore sampleOvertaken, ∃ before after,
        position x.pre sampleTrigger = some before ∧ position x.post sampleTrigger = some after ∧
          before ≤ after) ∧
      ¬ (Run.trace (call everyMinute) sampleStore sampleOvertaken).Pairwise fun x y =>
        ∀ resumed ∈ resumedAt sampleTrigger x, ∀ slot ∈ claimedSlot sampleTrigger y,
          resumed < slot := by
  refine ⟨created_sample, by decide +kernel, ?_, ?_, ?_⟩
  · intro c hc
    simp only [sampleOvertaken, List.mem_cons, List.not_mem_nil, or_false] at hc
    rcases hc with rfl | rfl | rfl | rfl | rfl | rfl <;> constructor <;> simp
  · intro h
    obtain ⟨before, after, hbefore, hafter, hle⟩ :=
      h ((Run.trace (call everyMinute) sampleStore sampleOvertaken).get ⟨3, by decide⟩)
        (List.get_mem _ _)
    have hpre : before = 4 * minute := Option.some.inj (hbefore.symm.trans (by decide +kernel))
    have hpost : after = 2 * minute := Option.some.inj (hafter.symm.trans (by decide +kernel))
    rw [hpre, hpost] at hle
    exact absurd hle (by decide)
  · intro h
    have hlt := List.pairwise_iff_get.1 h ⟨2, by decide⟩ ⟨5, by decide⟩ (by decide)
      (3 * minute) (by decide +kernel) (2 * minute) (by decide +kernel)
    exact absurd hlt (by decide)

end LibSql

end Ironclaw.Triggers
