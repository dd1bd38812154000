import Ironclaw.Resources.Period

/-! # Calendar windows in a time zone

The windows of `calendarBounds` for a zone that is given by its offset. A local midnight is skipped
where the offset jumps over it, and shown twice where the clock is set back across it.

A window whose midnights are both shown is the window of all instants in it unless the clock shows a
date of another window in between; a window with a skipped midnight is not, because its bound is counted
from the instant. -/

namespace Ironclaw.Resources

variable {Tz : Type} [Platform Tz]

/-- The zone shows the instant `t` as the local time `t + offset t`, and finds the first instant that shows
a midnight. -/
structure Clock (tz : Tz) (offset : ℤ → ℤ) : Prop where
  date : ∀ t, Platform.localDate tz t = (t + offset t) / dayNanos
  midnight : ∀ d m, Platform.earliestMidnight tz d = some m ↔
    m + offset m = d * dayNanos ∧ ∀ t < m, t + offset t ≠ d * dayNanos

/-- The window of an instant contains it and is the window of every instant in it. -/
def Partitions (tz : Tz) (unit : PeriodUnit) (now : ℤ) : Prop :=
  (calendarBounds tz unit now).1 ≤ now ∧ now < (calendarBounds tz unit now).2 ∧
    ∀ t, (calendarBounds tz unit now).1 ≤ t → t < (calendarBounds tz unit now).2 →
      calendarBounds tz unit t = calendarBounds tz unit now

/-- The closing midnight is shown. The opening one is shown as well, the instant is between the two, and the
clock shows no date of another window in between; or it is skipped, and the instant is the last one of the
window. -/
def Regular (tz : Tz) (unit : PeriodUnit) (now : ℤ) : Prop :=
  let dates := windowDates unit (Platform.localDate tz now)
  ∃ last, Platform.earliestMidnight tz dates.2 = some last ∧
    match Platform.earliestMidnight tz dates.1 with
    | none => last = now + 1
    | some first => first ≤ now ∧ now < last ∧ ∀ t, first ≤ t → t < last →
        dates.1 ≤ Platform.localDate tz t ∧ Platform.localDate tz t < dates.2

section clock

variable {tz : Tz} {offset : ℤ → ℤ} {unit : PeriodUnit}

theorem Clock.date_midnight (clock : Clock tz offset) {d m : ℤ}
    (h : Platform.earliestMidnight tz d = some m) : Platform.localDate tz m = d := by
  have hshown := ((clock.midnight d m).1 h).1
  have hpos : dayNanos ≠ 0 := by decide
  rw [clock.date, hshown]
  exact Int.mul_ediv_cancel d hpos

theorem windowDates_first (unit : PeriodUnit) (date : ℤ) :
    windowDates unit (windowDates unit date).1 = windowDates unit date := by
  obtain ⟨h, h'⟩ := windowDates_spec unit date
  exact windowDates_of_mem le_rfl (by omega)

/-- Two instants whose windows open at one midnight have the same window of dates. -/
theorem Clock.windowDates_eq (clock : Clock tz offset) {t t' m : ℤ}
    (h : Platform.earliestMidnight tz (windowDates unit (Platform.localDate tz t)).1 = some m)
    (h' : Platform.earliestMidnight tz (windowDates unit (Platform.localDate tz t')).1 = some m) :
    windowDates unit (Platform.localDate tz t) = windowDates unit (Platform.localDate tz t') := by
  have hsame := (clock.date_midnight h).symm.trans (clock.date_midnight h')
  rw [← windowDates_first unit (Platform.localDate tz t), hsame, windowDates_first]

end clock

/-! ### Skipped midnights -/

section skipped

variable {tz : Tz} {offset : ℤ → ℤ} {unit : PeriodUnit} {now : ℤ}

theorem Clock.not_partitions_of_first (clock : Clock tz offset)
    (hskip : Platform.earliestMidnight tz (windowDates unit (Platform.localDate tz now)).1 = none)
    (hlong : now + 1 < (calendarBounds tz unit now).2) : ¬ Partitions tz unit now := by
  rintro ⟨-, -, hall⟩
  have hstart : (calendarBounds tz unit now).1 = now := by simp [calendarBounds, hskip]
  have hnext := congrArg Prod.fst (hall (now + 1) (by omega) hlong)
  rw [hstart] at hnext
  cases hfirst : Platform.earliestMidnight tz
      (windowDates unit (Platform.localDate tz (now + 1))).1 with
  | none =>
    simp [calendarBounds, hfirst] at hnext
  | some m =>
    have hm : m = now := by simpa [calendarBounds, hfirst] using hnext
    subst hm
    -- the instant shows the midnight that opens the window of the next one, and that is its own
    have hdate := clock.date_midnight hfirst
    rw [hdate, windowDates_first, hfirst] at hskip
    cases hskip

theorem Clock.not_partitions_of_last (clock : Clock tz offset) {m : ℤ}
    (hfirst : Platform.earliestMidnight tz (windowDates unit (Platform.localDate tz now)).1 = some m)
    (hskip : Platform.earliestMidnight tz (windowDates unit (Platform.localDate tz now)).2 = none) :
    ¬ Partitions tz unit now := by
  rintro ⟨hstart, -, hall⟩
  have hbounds : calendarBounds tz unit now = (m, now + dayNanos) := by
    simp [calendarBounds, hfirst, hskip]
  have hday : (1 : ℤ) < dayNanos := by decide
  rw [hbounds] at hstart hall
  dsimp only at hstart hall
  have hnext := hall (now + 1) (by omega) (by omega)
  have hopens := congrArg Prod.fst hnext
  have hcloses := congrArg Prod.snd hnext
  cases hfirst' : Platform.earliestMidnight tz
      (windowDates unit (Platform.localDate tz (now + 1))).1 with
  | none =>
    have : now + 1 = m := by simpa [calendarBounds, hfirst'] using hopens
    omega
  | some m' =>
    have hm : m' = m := by simpa [calendarBounds, hfirst'] using hopens
    subst hm
    have hsame := clock.windowDates_eq hfirst' hfirst
    simp [calendarBounds, hsame, hskip] at hcloses

theorem Clock.bounds_eq_iff (clock : Clock tz offset) {first last t : ℤ}
    (hfirst : Platform.earliestMidnight tz (windowDates unit (Platform.localDate tz now)).1 = some first)
    (hlast : Platform.earliestMidnight tz (windowDates unit (Platform.localDate tz now)).2 = some last)
    (ht : first ≤ t) :
    calendarBounds tz unit t = (first, last) ↔
      (windowDates unit (Platform.localDate tz now)).1 ≤ Platform.localDate tz t ∧
        Platform.localDate tz t < (windowDates unit (Platform.localDate tz now)).2 := by
  constructor
  · intro hbounds
    have hopens := congrArg Prod.fst hbounds
    have hsame : windowDates unit (Platform.localDate tz t) =
        windowDates unit (Platform.localDate tz now) := by
      cases hfirst' : Platform.earliestMidnight tz (windowDates unit (Platform.localDate tz t)).1 with
      | none =>
        have heq : t = first := by simpa [calendarBounds, hfirst'] using hopens
        rw [heq, clock.date_midnight hfirst, windowDates_first]
      | some m =>
        have hm : m = first := by simpa [calendarBounds, hfirst'] using hopens
        subst hm
        exact clock.windowDates_eq hfirst' hfirst
    rw [← hsame]
    exact windowDates_spec unit _
  · rintro ⟨h, h'⟩
    simp [calendarBounds, windowDates_of_mem h h', hfirst, hlast]

end skipped

/-- The window of an instant contains it and is the window of every instant in it exactly where the
midnights that bound it are shown and no other date in between. -/
theorem calendar_windows_partition_iff (tz : Tz) (offset : ℤ → ℤ) (clock : Clock tz offset)
    (unit : PeriodUnit) (now : ℤ) : Partitions tz unit now ↔ Regular tz unit now := by
  unfold Regular
  dsimp only
  cases hfirst : Platform.earliestMidnight tz (windowDates unit (Platform.localDate tz now)).1 with
  | none =>
    constructor
    · intro hpart
      have hshort : ¬ now + 1 < (calendarBounds tz unit now).2 := fun hlong =>
        clock.not_partitions_of_first hfirst hlong hpart
      have hafter := hpart.2.1
      cases hlast : Platform.earliestMidnight tz
          (windowDates unit (Platform.localDate tz now)).2 with
      | none =>
        have hday : (1 : ℤ) < dayNanos := by decide
        have hend : (calendarBounds tz unit now).2 = now + dayNanos := by
          simp [calendarBounds, hlast]
        omega
      | some last =>
        have hend : (calendarBounds tz unit now).2 = last := by simp [calendarBounds, hlast]
        exact ⟨last, rfl, by omega⟩
    · rintro ⟨last, hlast, rfl⟩
      have hbounds : calendarBounds tz unit now = (now, now + 1) := by
        simp [calendarBounds, hfirst, hlast]
      unfold Partitions
      rw [hbounds]
      dsimp only
      refine ⟨le_rfl, by omega, fun t ht ht' => ?_⟩
      have heq : t = now := by omega
      rw [heq, hbounds]
  | some first =>
    cases hlast : Platform.earliestMidnight tz (windowDates unit (Platform.localDate tz now)).2 with
    | none =>
      refine ⟨fun hpart => absurd hpart (clock.not_partitions_of_last hfirst hlast), ?_⟩
      rintro ⟨last, hnone, -⟩
      cases hnone
    | some last =>
      have hbounds : calendarBounds tz unit now = (first, last) := by
        simp [calendarBounds, hfirst, hlast]
      unfold Partitions
      rw [hbounds]
      dsimp only
      constructor
      · rintro ⟨h, h', hall⟩
        exact ⟨last, rfl, h, h', fun t ht ht' =>
          (clock.bounds_eq_iff hfirst hlast ht).1 (hall t ht ht')⟩
      · rintro ⟨last', hsame, h, h', hall⟩
        cases hsame
        exact ⟨h, h', fun t ht ht' =>
          (clock.bounds_eq_iff hfirst hlast ht).2 (hall t ht ht')⟩

/-! ### A zone that skips a midnight -/

/-- A zone that is set forward by an hour at midnight of 1970-01-01. -/
inductive SpringForward where
  | zone

/-- One hour in nanoseconds. -/
def hourNanos : ℤ := 60 * 60 * 1000000000

def SpringForward.offset (t : ℤ) : ℤ := if t < 0 then 0 else hourNanos

instance : Platform SpringForward where
  localDate := fun _ t => (t + SpringForward.offset t) / dayNanos
  earliestMidnight := fun _ d =>
    if d < 0 then some (d * dayNanos) else if d = 0 then none else some (d * dayNanos - hourNanos)
  maxUtc := NaiveDate.yearStart 262143 * dayNanos - 1
  checkedAdd := Platform.checkedAdd UtcOnly
  checkedSub := Platform.checkedSub UtcOnly
  decimalRatio := Platform.decimalRatio UtcOnly
  integerRatio := Platform.integerRatio UtcOnly
  add_exact := Platform.add_exact
  sub_exact := Platform.sub_exact
  add_overflow := Platform.add_overflow
  add_nonneg := Platform.add_nonneg

theorem SpringForward.clock : Clock SpringForward.zone SpringForward.offset where
  date _ := rfl
  midnight d m := by
    have hday : dayNanos = 86400000000000 := by decide
    have hhour : hourNanos = 3600000000000 := by decide
    show (if d < 0 then some (d * dayNanos) else if d = 0 then none
      else some (d * dayNanos - hourNanos)) = some m ↔ _
    unfold SpringForward.offset
    rw [hday, hhour]
    constructor
    · intro h
      split_ifs at h with hneg hzero
      · cases h
        refine ⟨by rw [if_pos (by omega)]; omega, fun t ht => ?_⟩
        rw [if_pos (by omega)]
        omega
      · cases h
        refine ⟨by rw [if_neg (by omega)]; omega, fun t ht => ?_⟩
        split_ifs
        · omega
        · omega
    · rintro ⟨hm, -⟩
      split_ifs at hm with hneg
      · rw [if_pos (by omega)]
        exact congrArg some (by omega)
      · rw [if_neg (by omega), if_neg (by omega)]
        exact congrArg some (by omega)

/-- The day that begins at one o'clock: an instant of it and the next have different windows. -/
theorem skipped_midnight_moves_window : ¬ Partitions SpringForward.zone .day 0 := by
  rintro ⟨-, -, hall⟩
  have hnext := hall 1 (by decide) (by decide)
  exact absurd hnext (by decide)

/-- The day after the next: both of its midnights are shown. -/
theorem day_after_skipped_midnight : Partitions SpringForward.zone .day (2 * dayNanos) := by
  refine (calendar_windows_partition_iff SpringForward.zone _ SpringForward.clock .day (2 * dayNanos)).2 ?_
  refine ⟨3 * dayNanos - hourNanos, by decide, ?_⟩
  show (2 : ℤ) * dayNanos - hourNanos ≤ 2 * dayNanos ∧ 2 * dayNanos < 3 * dayNanos - hourNanos ∧
    ∀ t, 2 * dayNanos - hourNanos ≤ t → t < 3 * dayNanos - hourNanos →
      2 ≤ (t + SpringForward.offset t) / dayNanos ∧ (t + SpringForward.offset t) / dayNanos < 3
  have hday : dayNanos = 86400000000000 := by decide
  have hhour : hourNanos = 3600000000000 := by decide
  refine ⟨by omega, by omega, fun t ht ht' => ?_⟩
  unfold SpringForward.offset
  rw [if_neg (by omega), hday, hhour]
  omega

end Ironclaw.Resources
