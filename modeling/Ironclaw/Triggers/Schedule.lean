import Ironclaw.HostApi.Scope
import Ironclaw.Lib.Ordered
import Ironclaw.Lib.Reject
import Ironclaw.Lib.Text

/-! # Trigger schedules

The schedules of `ironclaw_triggers/src/lib.rs`: the reading of a cron expression and the slot
that follows an instant. Time zones and cron expressions are read by two crates that are not part
of the repository (`CronCrates`); the iterator of the second documents that it returns the least
matching instant strictly after its argument (`CronCrates.Iterates`).

`TriggerSchedule.nextSlotAfter` refuses an expression that has no fire time after the wall clock.
What it returns otherwise does not depend on the wall clock (`nextSlotAfter_eq_ok`), and is the next
element of the schedule's slots (`nextIn_slots`). -/

namespace Ironclaw

namespace Triggers

/-! ### Errors -/

inductive TriggerRecordValidationKind where
  | nameEmpty | nameTooLong | promptEmpty | promptTooLong | executionSpecInvalid | other
deriving DecidableEq

inductive TriggerScheduleValidationKind where
  | invalidTimezone | emptyCronExpression | invalidCronFieldCount | invalidCronExpression
  | secondLevelCadence | noUpcomingFireTime | subMinuteCadence
deriving DecidableEq

inductive TriggerError where
  | invalidTriggerId (reason : String)
  | invalidFireIdentityComponent (label reason : String)
  | invalidRecord (kind : TriggerRecordValidationKind) (reason : String)
  | invalidPollerConfig (reason : String)
  | invalidSchedule (kind : TriggerScheduleValidationKind) (reason : String)
  | invalidMaterialization (reason : String)
  | blockedMaterialization (reason : String)
  | backend (reason : String)
  | notFound
deriving DecidableEq

/-! ### The crates -/

/-- `chrono_tz` and `cron`: the parsers, and the first instant `schedule.after(t).next()` of a
schedule read in a time zone. -/
structure CronCrates where
  Tz : Type
  Schedule : Type
  parseTz : String → Option Tz
  utc : Tz
  /-- `Schedule::from_str`, with the text of its error. -/
  parseSchedule : String → Except String Schedule
  after : Schedule → Tz → Timestamp → Option Timestamp

/-- The documented behaviour of the iterator over a schedule. -/
def CronCrates.Iterates (crates : CronCrates)
    (matching : crates.Schedule → crates.Tz → Set Timestamp) : Prop :=
  ∀ schedule tz, NextIn (matching schedule tz) (crates.after schedule tz)

/-! ### Reading an expression -/

def nanosPerSecond : ℤ := 1000000000

/-- `TimeDelta::num_seconds`. -/
def numSeconds (duration : ℤ) : ℤ := duration.tdiv nanosPerSecond

/-- `MIN_FIRE_CADENCE`, in seconds. -/
def minFireCadence : ℤ := 60

def rejectSubMinuteSecondsField (field : String) : Except TriggerError Unit :=
  rejectIf (Text.parseU32 (Text.trim field) ≠ some 0)
    (.invalidSchedule .secondLevelCadence
      "cron schedules must not use second-level cadence; use second field `0`")

def normalizeCronExpression (expression : String) : Except TriggerError String :=
  let trimmed := Text.trim expression
  if trimmed = "" then
    .error (.invalidSchedule .emptyCronExpression "cron expression must not be empty")
  else
    let fields := Text.splitWhitespace trimmed
    let count := fields.length
    if count = 5 then .ok ("0 " ++ " ".intercalate fields ++ " *")
    else if count = 6 then do
      rejectSubMinuteSecondsField (fields.headD "")
      return " ".intercalate fields ++ " *"
    else if count = 7 then do
      rejectSubMinuteSecondsField (fields.headD "")
      return trimmed
    else
      .error (.invalidSchedule .invalidCronFieldCount
        s!"expected 5, 6, or 7 cron fields, got {count}")

section Crates

variable (crates : CronCrates)

def parseTimezone (timezone : String) : Except TriggerError crates.Tz :=
  okOr (crates.parseTz timezone)
    (.invalidSchedule .invalidTimezone
      ("invalid timezone '" ++ timezone ++
        "': must be a valid IANA timezone name (e.g. 'America/New_York', 'UTC')"))

/-- The expression as the crate reads it, before the cadence is looked at. -/
def readCronExpression (expression : String) : Except TriggerError crates.Schedule := do
  let normalized ← normalizeCronExpression expression
  match crates.parseSchedule normalized with
  | .ok schedule => return schedule
  | .error error =>
    .error (.invalidSchedule .invalidCronExpression ("invalid cron expression: " ++ error))

/-- The first two fire times after the wall clock are at least a minute apart. -/
def rejectSubMinuteCadence (wall : Timestamp) (schedule : crates.Schedule) :
    Except TriggerError Unit :=
  match crates.after schedule crates.utc wall with
  | none => .error (.invalidSchedule .noUpcomingFireTime "cron expression has no upcoming fire time")
  | some first =>
    match crates.after schedule crates.utc first with
    | none => .ok ()
    | some second =>
      rejectIf (numSeconds (second - first) < minFireCadence)
        (.invalidSchedule .subMinuteCadence
          "schedule can fire more frequently than once per minute")

def parseCronSchedule (wall : Timestamp) (expression : String) :
    Except TriggerError crates.Schedule := do
  let schedule ← readCronExpression crates expression
  rejectSubMinuteCadence crates wall schedule
  return schedule

end Crates

/-! ### Schedules -/

inductive TriggerSchedule where
  | cron (expression timezone : String)
  | once (atInstant : Timestamp) (timezone : String)
deriving DecidableEq

namespace TriggerSchedule

def isRecurring : TriggerSchedule → Bool
  | cron _ _ => true
  | once _ _ => false

variable (crates : CronCrates)

def validate (wall : Timestamp) : TriggerSchedule → Except TriggerError Unit
  | cron expression timezone => do
    let _ ← parseTimezone crates timezone
    let _ ← parseCronSchedule crates wall expression
    return ()
  | once _ timezone => do
    let _ ← parseTimezone crates timezone
    return ()

def nextSlotAfter (wall : Timestamp) (schedule : TriggerSchedule) (after : Timestamp) :
    Except TriggerError (Option Timestamp) :=
  match schedule with
  | cron expression timezone => do
    let tz ← parseTimezone crates timezone
    let parsed ← parseCronSchedule crates wall expression
    return crates.after parsed tz after
  | once atInstant _ => .ok (if after < atInstant then some atInstant else none)

/-- The expression and the time zone of a cron schedule, where both can be read. -/
def readCron (expression timezone : String) : Option (crates.Schedule × crates.Tz) :=
  match parseTimezone crates timezone, readCronExpression crates expression with
  | .ok tz, .ok parsed => some (parsed, tz)
  | _, _ => none

/-- The slot after an instant, where the schedule can be read. -/
def slotAfter (schedule : TriggerSchedule) (after : Timestamp) : Option Timestamp :=
  match schedule with
  | cron expression timezone =>
    (readCron crates expression timezone).bind fun read => crates.after read.1 read.2 after
  | once atInstant _ => if after < atInstant then some atInstant else none

/-- The instants at which a schedule fires. -/
def slots (matching : crates.Schedule → crates.Tz → Set Timestamp) :
    TriggerSchedule → Set Timestamp
  | cron expression timezone =>
    {x | ∃ read, readCron crates expression timezone = some read ∧ x ∈ matching read.1 read.2}
  | once atInstant _ => {atInstant}

variable {crates}

theorem nextSlotAfter_eq_ok {wall after : Timestamp} {schedule : TriggerSchedule}
    {slot : Option Timestamp} (h : schedule.nextSlotAfter crates wall after = .ok slot) :
    schedule.slotAfter crates after = slot := by
  cases schedule with
  | once atInstant timezone => exact Except.ok.inj h
  | cron expression timezone =>
    obtain ⟨tz, htz, h⟩ := bind_eq_ok.1 h
    obtain ⟨parsed, hparsed, h⟩ := bind_eq_ok.1 h
    obtain ⟨read, hread, hcadence⟩ := bind_eq_ok.1 hparsed
    obtain ⟨_, _, hread'⟩ := bind_eq_ok.1 hcadence
    rw [← pure_eq_ok.1 hread'] at h
    simp only [slotAfter, readCron, htz, hread, Option.bind_some]
    exact pure_eq_ok.1 h

/-- The slot after an instant is the schedule's next slot. -/
theorem nextIn_slots {matching : crates.Schedule → crates.Tz → Set Timestamp}
    (h : crates.Iterates matching) (schedule : TriggerSchedule) :
    NextIn (schedule.slots crates matching) (schedule.slotAfter crates) := by
  cases schedule with
  | once atInstant timezone =>
    constructor
    · intro a n hn
      simp only [slotAfter, Option.ite_none_right_eq_some, Option.some.injEq] at hn
      obtain ⟨hlt, rfl⟩ := hn
      exact ⟨⟨rfl, hlt⟩, fun x hx => hx.1.ge⟩
    · intro a hn x hx
      simp only [slotAfter, ite_eq_right_iff] at hn
      rw [Set.mem_singleton_iff.1 hx]
      exact not_lt.1 fun hlt => Option.some_ne_none _ (hn hlt)
  | cron expression timezone =>
    cases hread : readCron crates expression timezone with
    | none =>
      constructor
      · intro a n hn
        simp [slotAfter, hread] at hn
      · rintro a - x ⟨read, hsome, -⟩
        exact absurd (hread.symm.trans hsome) (Option.some_ne_none _).symm
    | some read =>
      have hslots : (cron expression timezone).slots crates matching =
          matching read.1 read.2 := by
        ext x
        simp [slots, hread]
      have hnext : (cron expression timezone).slotAfter crates =
          crates.after read.1 read.2 := by
        funext after
        simp [slotAfter, hread]
      rw [hslots, hnext]
      exact h read.1 read.2

end TriggerSchedule

/-! ### An example of the crates -/

/-- `MIN_FIRE_CADENCE`, in nanoseconds. -/
def minute : ℤ := minFireCadence * nanosPerSecond

/-- The crates as they read `* * * * *`: every full minute. -/
def everyMinute : CronCrates where
  Tz := Unit
  Schedule := Unit
  parseTz _ := some ()
  utc := ()
  parseSchedule _ := .ok ()
  after _ _ t := some ((t / minute + 1) * minute)

theorem everyMinute_iterates : everyMinute.Iterates fun _ _ => {x | minute ∣ x} := by
  intro schedule tz
  constructor
  · rintro a n ⟨⟩
    have hpos : (0 : ℤ) < minute := by decide
    have hlt := Int.lt_ediv_add_one_mul_self a hpos
    refine ⟨⟨Dvd.intro_left _ rfl, hlt⟩, ?_⟩
    rintro x ⟨⟨k, rfl⟩, hx⟩
    have hk : a / minute < k := by
      rw [Int.ediv_lt_iff_lt_mul hpos, mul_comm]
      exact hx
    rw [mul_comm]
    exact Int.mul_le_mul_of_nonneg_left hk hpos.le
  · intro a hnone
    exact absurd hnone (Option.some_ne_none _)

end Triggers

end Ironclaw
