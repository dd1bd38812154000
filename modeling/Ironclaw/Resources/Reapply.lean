import Ironclaw.Resources.Windows

/-! # Setting the limits an account already has

`setLimitInState` computes the anchor from the instant of the call, also when the account has the
very limits that are set. `Clears` says when an operation that gets to an account clears its
usage; `KeepsReset` compares two versions of an account by their tallies and by the instants at
which they clear. -/

namespace Ironclaw.Resources

variable {Tz : Type} [Platform Tz]

/-! ### When the usage is cleared -/

/-- An operation at `now` that gets to the account finds its window over. -/
def Clears (p : AccountParts Tz) (now : ℤ) : Prop :=
  ∃ limits, p.limits = some limits ∧ limits.period ≠ .perInvocation ∧
    ∀ anchor ∈ p.periodAnchor, periodHasRolledOver anchor now

/-- The tallies are the same, and so is every instant at which the usage is cleared. -/
structure KeepsReset (p q : AccountParts Tz) : Prop where
  usage : q.usage = p.usage
  reserved : q.reserved = p.reserved
  clears : ∀ now, Clears q now ↔ Clears p now

variable {p : AccountParts Tz} {limits : ResourceLimits Tz}

omit [Platform Tz] in
theorem clears_iff_anchor_le {anchor : ℤ}
    (hl : p.limits = some limits) (hp : limits.period ≠ .perInvocation)
    (ha : p.periodAnchor = some anchor) (now : ℤ) : Clears p now ↔ anchor ≤ now := by
  constructor
  · rintro ⟨_, _, _, hroll⟩
    have := hroll anchor ha
    simpa [periodHasRolledOver] using this
  · intro hle
    refine ⟨limits, hl, hp, ?_⟩
    intro a hmem
    obtain rfl : anchor = a := by simpa [ha] using hmem
    simpa [periodHasRolledOver] using hle

variable [DecidableEq Tz]

theorem setLimit_limits (p : AccountParts Tz) (limits : ResourceLimits Tz) (now : ℤ) :
    (p.setLimit limits now).limits = some limits := rfl

theorem setLimit_periodAnchor (p : AccountParts Tz) (limits : ResourceLimits Tz) (now : ℤ) :
    (p.setLimit limits now).periodAnchor = some (periodBounds limits.period now).2 := rfl

/-! ### A second call -/

/-- Local midnight at which the calendar window of an instant closes, when there is one. -/
def closingMidnight (tz : Tz) (unit : PeriodUnit) (now : ℤ) : Option ℤ :=
  Platform.earliestMidnight tz (windowDates unit (Platform.localDate tz now)).2

/-- A call at `t2` resets when a call at `t1` does. A rolling window starts at its call. Two
calendar windows agree when they close at the same midnight; where a midnight is skipped by a
change of offset, the day counts from the call. -/
def SameReset (period : BudgetPeriod Tz) (t1 t2 : ℤ) : Prop :=
  match period with
  | .perInvocation => True
  | .rolling24h => t2 = t1
  | .calendar tz unit =>
    match closingMidnight tz unit t1, closingMidnight tz unit t2 with
    | some e1, some e2 => e2 = e1
    | some e1, none => t2 + dayNanos = e1
    | none, some e2 => e2 = t1 + dayNanos
    | none, none => t2 = t1

omit [DecidableEq Tz] in
theorem sameReset_iff {period : BudgetPeriod Tz} (hp : period ≠ .perInvocation) (t1 t2 : ℤ) :
    SameReset period t1 t2 ↔ (periodBounds period t2).2 = (periodBounds period t1).2 := by
  cases period with
  | perInvocation => exact absurd rfl hp
  | rolling24h =>
    unfold SameReset periodBounds
    exact (Int.add_left_inj dayNanos).symm
  | calendar tz unit =>
    have hend (t : ℤ) : (periodBounds (.calendar tz unit) t).2 =
        (closingMidnight tz unit t).getD (t + dayNanos) := rfl
    rw [hend, hend]
    unfold SameReset
    dsimp only
    cases closingMidnight tz unit t1 <;> cases closingMidnight tz unit t2 <;> simp

omit [DecidableEq Tz] in
theorem Steady.sameReset {tz : Tz} {unit : PeriodUnit} {t1 t2 : ℤ} (h : Steady tz unit t1)
    (hle : t1 ≤ t2) (hlt : t2 < (periodBounds (.calendar tz unit) t1).2) :
    SameReset (.calendar tz unit) t1 t2 := by
  obtain ⟨first, last, hb, hfirst, _, hsame⟩ := h.bounds_eq
  have hb' : (periodBounds (.calendar tz unit) t1).2 = last := by
    show (calendarBounds tz unit t1).2 = last
    rw [hb]
  rw [sameReset_iff (by simp), hb']
  show (calendarBounds tz unit t2).2 = last
  rw [hsame t2 (hfirst.trans hle) (hb' ▸ hlt)]

theorem setLimit_same_usage (hl : p.limits = some limits) (now : ℤ) :
    (p.setLimit limits now).usage = p.usage ∧ (p.setLimit limits now).reserved = p.reserved := by
  unfold AccountParts.setLimit
  rw [if_neg (by simp [hl])]
  exact ⟨rfl, rfl⟩

theorem keepsReset_setLimit_iff {t1 : ℤ} (t2 : ℤ)
    (hl : p.limits = some limits) (hp : limits.period ≠ .perInvocation)
    (hopened : p.periodAnchor = some (periodBounds limits.period t1).2) :
    KeepsReset p (p.setLimit limits t2) ↔ SameReset limits.period t1 t2 := by
  have hp1 := clears_iff_anchor_le hl hp hopened
  have hp2 := clears_iff_anchor_le (setLimit_limits p limits t2) hp
    (setLimit_periodAnchor p limits t2)
  rw [sameReset_iff hp]
  constructor
  · intro h
    -- each end is an instant at which one of the two clears
    have h1 := (h.clears (periodBounds limits.period t1).2).mpr ((hp1 _).mpr le_rfl)
    have h2 := (h.clears (periodBounds limits.period t2).2).mp ((hp2 _).mpr le_rfl)
    exact le_antisymm ((hp2 _).mp h1) ((hp1 _).mp h2)
  · intro heq
    obtain ⟨husage, hreserved⟩ := setLimit_same_usage hl t2
    refine ⟨husage, hreserved, ?_⟩
    intro now
    rw [hp1, hp2, heq]

/-- Setting the limits an account has, at `t2` in the window opened at `t1`, leaves the tallies
and the next reset as they are exactly when the two instants have the same reset. For a calendar
period they have, unless a change of offset moves a bound of the window. -/
theorem reapplied_limit_keeps_reset (s : ResourceState Tz) (account : ResourceAccount)
    (limits : ResourceLimits Tz) (t1 t2 : ℤ) (hl : (s.account account).limits = some limits)
    (hp : limits.period ≠ .perInvocation)
    (hopened : (s.account account).periodAnchor = some (periodBounds limits.period t1).2)
    (hle : t1 ≤ t2) (hlt : t2 < (periodBounds limits.period t1).2) :
    (KeepsReset (s.account account) ((setLimitInState s account limits t2).account account) ↔
        SameReset limits.period t1 t2) ∧
      ∀ tz unit, limits.period = .calendar tz unit → Steady tz unit t1 →
        KeepsReset (s.account account) ((setLimitInState s account limits t2).account account) := by
  have hset : (setLimitInState s account limits t2).account account =
      (s.account account).setLimit limits t2 := by
    unfold setLimitInState
    rw [ResourceState.modify_account, if_pos rfl]
  rw [hset]
  have hiff := keepsReset_setLimit_iff t2 hl hp hopened
  refine ⟨hiff, ?_⟩
  intro tz unit hperiod hsteady
  rw [hperiod] at hlt
  exact hiff.mpr (hperiod ▸ hsteady.sameReset hle hlt)

/-- The tenant with a limit set at instant 0. -/
def Sample.limited (period : BudgetPeriod UtcOnly) : ResourceState UtcOnly :=
  setLimitInState .empty Sample.tenant (Sample.limits (.ofNat 10) period) 0

/-- A daily limit set again a nanosecond later. -/
theorem reapplied_daily_limit_keeps_reset :
    let limits := Sample.limits ⟨10, by decide⟩ (.calendar .utc .day)
    let s := Sample.limited (.calendar .utc .day)
    KeepsReset (s.account Sample.tenant)
      ((setLimitInState s Sample.tenant limits 1).account Sample.tenant) := by
  intro limits s
  have h := reapplied_limit_keeps_reset s Sample.tenant limits 0 1 (by decide +kernel)
    (by decide +kernel) (by decide +kernel) (by decide) (by decide +kernel)
  exact h.2 .utc .day rfl (UtcOnly.steady _ _)

/-- A rolling limit set at instant 0 and again at 1: the reset moves from one day after 0 to one
day after 1. -/
theorem reapplied_rolling_limit_postpones : let limits := Sample.limits ⟨10, by decide⟩ .rolling24h
    let s := Sample.limited .rolling24h
    (s.account Sample.tenant).limits = some limits ∧
      (s.account Sample.tenant).periodAnchor = some (periodBounds limits.period 0).2 ∧
      (1 : ℤ) < (periodBounds limits.period 0).2 ∧
      ¬ KeepsReset (s.account Sample.tenant)
        ((setLimitInState s Sample.tenant limits 1).account Sample.tenant) := by
  intro limits s
  refine ⟨by decide +kernel, by decide +kernel, by decide +kernel, ?_⟩
  intro h
  have h1 : Clears (s.account Sample.tenant) dayNanos :=
    ⟨limits, by decide +kernel, by decide +kernel, by decide +kernel⟩
  obtain ⟨_, _, _, hroll⟩ := (h.clears dayNanos).mpr h1
  exact absurd (hroll (1 + dayNanos) (by decide +kernel)) (by decide +kernel)

end Ironclaw.Resources
