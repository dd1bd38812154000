import Ironclaw.Resources.Tally

/-! # Budget periods

`ironclaw_resources/src/period.rs`: when the ledger of an account resets.

* The time-zone tables are those of `Platform`: `localDate` is the local calendar date of an
  instant, `earliestMidnight` the first instant of a local midnight, absent when a change of offset
  skips it.
* An instant is its number of nanoseconds, a calendar date its number of days, since 1970-01-01.
  `NaiveDate.year` and `NaiveDate.month` are those of the proleptic Gregorian calendar
  (`year_spec`, `month_spec`).
* `windowDates_of_mem` says that the days, weeks and months partition the dates. `Steady` is the
  condition under which `calendarBounds` partitions the instants (`Steady.bounds_eq`): the two
  midnights exist, and the instants between them are those whose local date is in the window. -/

namespace Ironclaw.Resources

/-! ### Calendar dates -/

namespace NaiveDate

def isLeapYear (year : ℤ) : Bool := year % 4 = 0 ∧ (year % 100 ≠ 0 ∨ year % 400 = 0)

/-- The first of January. -/
def yearStart (year : ℤ) : ℤ :=
  365 * (year - 1970) + (year - 1969) / 4 - (year - 1901) / 100 + (year - 1601) / 400

/-- Days of the year before the first of a month. -/
def daysBeforeMonth (leap : Bool) (month : ℕ) : ℤ :=
  match month with
  | 0 | 1 => 0
  | 2 => 31
  | 3 => 59 + leap.toNat
  | 4 => 90 + leap.toNat
  | 5 => 120 + leap.toNat
  | 6 => 151 + leap.toNat
  | 7 => 181 + leap.toNat
  | 8 => 212 + leap.toNat
  | 9 => 243 + leap.toNat
  | 10 => 273 + leap.toNat
  | 11 => 304 + leap.toNat
  | 12 => 334 + leap.toNat
  | _ => 365 + leap.toNat

/-- The first of a month. -/
def fromYm (year : ℤ) (month : ℕ) : ℤ :=
  yearStart year + daysBeforeMonth (isLeapYear year) month

/-- The year of a date: the average length of a year is off by one year at most. -/
def year (date : ℤ) : ℤ :=
  let guess := 400 * date / 146097 + 1970
  if date < yearStart guess then guess - 1
  else if date < yearStart (guess + 1) then guess else guess + 1

/-- The last of `month, …, month + n` whose first day is not after the date. -/
def monthFrom (year : ℤ) (date : ℤ) : ℕ → ℕ → ℕ
  | month, 0 => month
  | month, n + 1 =>
    if date < fromYm year (month + 1) then month else monthFrom year date (month + 1) n

/-- The month of a date, from one to twelve. -/
def month (date : ℤ) : ℕ := monthFrom (year date) date 1 11

/-- Days since Monday: 1970-01-01 was a Thursday. -/
def numDaysFromMonday (date : ℤ) : ℤ := (date + 3) % 7

example : year 20594 = 2026 ∧ month 20594 = 5 ∧ numDaysFromMonday 20594 = 3 := by decide

theorem year_spec (date : ℤ) : yearStart (year date) ≤ date ∧ date < yearStart (year date + 1) := by
  unfold year
  dsimp only
  split_ifs with h1 h2
  · rw [Int.sub_add_cancel]
    refine ⟨?_, h1⟩
    unfold yearStart
    omega
  · exact ⟨not_lt.mp h1, h2⟩
  · refine ⟨not_lt.mp h2, ?_⟩
    unfold yearStart
    omega

theorem yearStart_succ (y : ℤ) : yearStart (y + 1) = yearStart y + 365 + (isLeapYear y).toNat := by
  unfold yearStart isLeapYear
  by_cases h : y % 4 = 0 ∧ (y % 100 ≠ 0 ∨ y % 400 = 0)
  · rw [decide_eq_true h, Bool.toNat_true]
    omega
  · rw [decide_eq_false h, Bool.toNat_false]
    omega

theorem yearStart_le {y y' : ℤ} (h : y ≤ y') : yearStart y ≤ yearStart y' := by
  unfold yearStart
  omega

theorem year_eq {y : ℤ} {date : ℤ} (h : yearStart y ≤ date)
    (h' : date < yearStart (y + 1)) : year date = y := by
  obtain ⟨h1, h2⟩ := year_spec date
  rcases lt_trichotomy (year date) y with hlt | heq | hgt
  · have := yearStart_le (show year date + 1 ≤ y by omega)
    omega
  · exact heq
  · have := yearStart_le (show y + 1 ≤ year date by omega)
    omega

theorem fromYm_one (y : ℤ) : fromYm y 1 = yearStart y := by
  show yearStart y + 0 = yearStart y
  omega

theorem fromYm_thirteen (y : ℤ) : fromYm y 13 = fromYm (y + 1) 1 := by
  rw [fromYm_one, yearStart_succ]
  show yearStart y + (365 + ((isLeapYear y).toNat : ℤ)) = _
  omega

theorem fromYm_le (y : ℤ) {m m' : ℕ} (h : m ≤ m') (h' : m' ≤ 13) : fromYm y m ≤ fromYm y m' := by
  have key : ∀ leap, ∀ m' ≤ 13, ∀ m ≤ m', daysBeforeMonth leap m ≤ daysBeforeMonth leap m' := by
    decide
  unfold fromYm
  have := key (isLeapYear y) m' h' m h
  omega

theorem monthFrom_spec (y : ℤ) (date : ℤ) : ∀ (n m : ℕ), fromYm y m ≤ date →
    date < fromYm y (m + n + 1) →
    fromYm y (monthFrom y date m n) ≤ date ∧ date < fromYm y (monthFrom y date m n + 1) ∧
      m ≤ monthFrom y date m n ∧ monthFrom y date m n ≤ m + n
  | 0, m, h, h' => ⟨h, h', le_rfl, le_rfl⟩
  | n + 1, m, h, h' => by
    unfold monthFrom
    split_ifs with hlt
    · exact ⟨h, hlt, le_rfl, by omega⟩
    · obtain ⟨h1, h2, h3, h4⟩ := monthFrom_spec y date n (m + 1) (not_lt.mp hlt)
        (by rwa [show m + 1 + n + 1 = m + (n + 1) + 1 by omega])
      exact ⟨h1, h2, by omega, by omega⟩

theorem month_spec (date : ℤ) :
    fromYm (year date) (month date) ≤ date ∧ date < fromYm (year date) (month date + 1) ∧
      1 ≤ month date ∧ month date ≤ 12 := by
  obtain ⟨h, h'⟩ := year_spec date
  have h13 : yearStart (year date + 1) = fromYm (year date) 13 := by
    rw [fromYm_thirteen, fromYm_one]
  exact monthFrom_spec (year date) date 11 1 (by rwa [fromYm_one]) (h13 ▸ h')

theorem month_eq {y : ℤ} {m : ℕ} {date : ℤ} (hm : 1 ≤ m) (hm' : m ≤ 12)
    (h : fromYm y m ≤ date) (h' : date < fromYm y (m + 1)) : year date = y ∧ month date = m := by
  have hy : year date = y := by
    apply year_eq
    · rw [← fromYm_one]
      exact (fromYm_le y hm (by omega)).trans h
    · rw [← fromYm_one, ← fromYm_thirteen]
      exact lt_of_lt_of_le h' (fromYm_le y (by omega) le_rfl)
  obtain ⟨h1, h2, h3, h4⟩ := month_spec date
  rw [hy] at h1 h2
  refine ⟨hy, ?_⟩
  rcases lt_trichotomy (month date) m with hlt | heq | hgt
  · have := fromYm_le y (show month date + 1 ≤ m by omega) (by omega)
    omega
  · exact heq
  · have := fromYm_le y (show m + 1 ≤ month date by omega) (by omega)
    omega

end NaiveDate

/-! ### Periods -/

/-- Calendar unit of a period. -/
inductive PeriodUnit where
  | day | week | month
deriving DecidableEq

/-- When the ledger of an account resets. -/
inductive BudgetPeriod (Tz : Type) where
  | perInvocation
  | rolling24h
  | calendar (tz : Tz) (unit : PeriodUnit)
deriving DecidableEq

/-- Utilizations at which a reservation warns and pauses. -/
structure BudgetThresholds where
  warnAt : F64
  pauseAt : F64
deriving DecidableEq

def BudgetThresholds.disabled : BudgetThresholds := ⟨.one, .one⟩

/-- Neither threshold is infinite or a NaN. -/
def BudgetThresholds.isFinite (thresholds : BudgetThresholds) : Bool :=
  thresholds.warnAt.isFinite && thresholds.pauseAt.isFinite

/-- `thresholds == thresholds`, which a NaN makes false. -/
def BudgetThresholds.isReflexive (thresholds : BudgetThresholds) : Bool :=
  !thresholds.warnAt.isNan && !thresholds.pauseAt.isNan

/-- `Duration::hours(24)` and `Duration::days(1)`, in nanoseconds. -/
def dayNanos : ℤ := 24 * 60 * 60 * 1000000000

/-- First date of the window of a date, and first date after it. -/
def windowDates (unit : PeriodUnit) (localDate : ℤ) : ℤ × ℤ :=
  match unit with
  | .day => (localDate, localDate + 1)
  | .week =>
    let weekStart := localDate - NaiveDate.numDaysFromMonday localDate
    (weekStart, weekStart + 7)
  | .month =>
    let monthStart := NaiveDate.fromYm (NaiveDate.year localDate) (NaiveDate.month localDate)
    let nextMonth :=
      if NaiveDate.month localDate = 12 then NaiveDate.fromYm (NaiveDate.year localDate + 1) 1
      else NaiveDate.fromYm (NaiveDate.year localDate) (NaiveDate.month localDate + 1)
    (monthStart, nextMonth)

variable {Tz : Type} [Platform Tz]

def calendarBounds (tz : Tz) (unit : PeriodUnit) (now : ℤ) : ℤ × ℤ :=
  let dates := windowDates unit (Platform.localDate tz now)
  ((Platform.earliestMidnight tz dates.1).getD now,
    (Platform.earliestMidnight tz dates.2).getD (now + dayNanos))

def periodBounds (period : BudgetPeriod Tz) (now : ℤ) : ℤ × ℤ :=
  match period with
  | .perInvocation => (now, Platform.maxUtc Tz)
  | .rolling24h => (now, now + dayNanos)
  | .calendar tz unit => calendarBounds tz unit now

def periodHasRolledOver (currentEnd now : ℤ) : Bool := decide (currentEnd ≤ now)

/-! ### Windows of a calendar period -/

theorem windowDates_spec (unit : PeriodUnit) (date : ℤ) :
    (windowDates unit date).1 ≤ date ∧ date < (windowDates unit date).2 := by
  cases unit with
  | day => exact ⟨le_rfl, Int.lt_succ date⟩
  | week =>
    simp only [windowDates, NaiveDate.numDaysFromMonday]
    constructor <;> omega
  | month =>
    obtain ⟨h1, h2, _, h12⟩ := NaiveDate.month_spec date
    refine ⟨h1, ?_⟩
    simp only [windowDates]
    split_ifs with h
    · rwa [← NaiveDate.fromYm_thirteen, show 13 = NaiveDate.month date + 1 by omega]
    · exact h2

/-- Days, weeks and months partition the dates. -/
theorem windowDates_of_mem {unit : PeriodUnit} {date date' : ℤ}
    (h : (windowDates unit date).1 ≤ date') (h' : date' < (windowDates unit date).2) :
    windowDates unit date' = windowDates unit date := by
  cases unit with
  | day =>
    have e : date' = date := by
      simp only [windowDates] at h h'
      omega
    rw [e]
  | week =>
    simp only [windowDates, NaiveDate.numDaysFromMonday, Prod.mk.injEq] at h h' ⊢
    constructor <;> omega
  | month =>
    obtain ⟨_, _, h1, h12⟩ := NaiveDate.month_spec date
    have h'' : date' < NaiveDate.fromYm (NaiveDate.year date) (NaiveDate.month date + 1) := by
      simp only [windowDates] at h'
      split_ifs at h' with hm
      · rwa [hm, NaiveDate.fromYm_thirteen]
      · exact h'
    obtain ⟨hy, hm⟩ := NaiveDate.month_eq h1 h12 h h''
    simp only [windowDates, hy, hm]

/-- Around `now` no change of offset moves a bound of the window: the two local midnights exist,
and the instants between them are those whose local date is in the window. -/
def Steady (tz : Tz) (unit : PeriodUnit) (now : ℤ) : Prop :=
  let dates := windowDates unit (Platform.localDate tz now)
  ∃ first last : ℤ, Platform.earliestMidnight tz dates.1 = some first ∧
    Platform.earliestMidnight tz dates.2 = some last ∧
    ∀ t : ℤ, (first ≤ t ∧ t < last) ↔
      (dates.1 ≤ Platform.localDate tz t ∧ Platform.localDate tz t < dates.2)

theorem Steady.bounds_eq {tz : Tz} {unit : PeriodUnit} {now : ℤ} (h : Steady tz unit now) :
    ∃ first last : ℤ, calendarBounds tz unit now = (first, last) ∧ first ≤ now ∧ now < last ∧
      ∀ t : ℤ, first ≤ t → t < last → calendarBounds tz unit t = (first, last) := by
  obtain ⟨first, last, h1, h2, hmem⟩ := h
  have hb : ∀ t : ℤ, first ≤ t → t < last → calendarBounds tz unit t = (first, last) := by
    intro t ht ht'
    obtain ⟨hd, hd'⟩ := (hmem t).mp ⟨ht, ht'⟩
    simp only [calendarBounds, windowDates_of_mem hd hd', h1, h2, Option.getD_some]
  obtain ⟨hn, hn'⟩ := (hmem now).mpr (windowDates_spec unit _)
  exact ⟨first, last, hb now hn hn', hn, hn', hb⟩

/-- Two steady windows are the same or apart. -/
theorem Steady.end_le_start {tz : Tz} {unit : PeriodUnit} {t t' : ℤ} (h : Steady tz unit t)
    (h' : Steady tz unit t') (hle : (calendarBounds tz unit t).2 ≤ t') :
    (calendarBounds tz unit t).2 ≤ (calendarBounds tz unit t').1 := by
  obtain ⟨a, b, hab, ha, hb, hsame⟩ := h.bounds_eq
  obtain ⟨a', b', hab', ha', hb', hsame'⟩ := h'.bounds_eq
  rw [hab] at hle ⊢
  rw [hab']
  dsimp only at hle ⊢
  by_contra hlt
  -- the later of the two starts would lie in both windows
  have hm := hsame (max a a') (le_max_left a a') (by omega)
  rw [hsame' (max a a') (le_max_right a a') (by omega), Prod.mk.injEq] at hm
  omega

/-- A table with UTC alone; no quotient is rounded, and a sum that would be has no result. -/
inductive UtcOnly where
  | utc
deriving DecidableEq

instance : Platform UtcOnly where
  localDate := fun _ now => now / dayNanos
  earliestMidnight := fun _ date => some (date * dayNanos)
  maxUtc := NaiveDate.yearStart 262143 * dayNanos - 1
  checkedAdd := fun a b => Decimal.ofUnits (a.units + b.units)
  checkedSub := fun a b => Decimal.ofUnits (a.units - b.units)
  decimalRatio := fun total limit => .finite ((total.units : ℚ) / limit.units)
  integerRatio := fun total limit => .finite ((total.val : ℚ) / limit.val)
  add_exact := fun _ _ h => Decimal.ofUnits_of_fits h
  sub_exact := fun _ _ h => Decimal.ofUnits_of_fits h
  add_overflow := fun _ _ h => Decimal.ofUnits_of_overflow h
  add_nonneg := fun _ _ _ h ha hb => Decimal.units_of_ofUnits h ▸ add_nonneg ha hb

theorem UtcOnly.steady (unit : PeriodUnit) (now : ℤ) : Steady UtcOnly.utc unit now := by
  refine ⟨_, _, rfl, rfl, fun t => ?_⟩
  have hpos : 0 < dayNanos := by decide
  exact and_congr (Int.le_ediv_iff_mul_le hpos).symm (Int.ediv_lt_iff_lt_mul hpos).symm

end Ironclaw.Resources
