import Ironclaw.Resources.Admission

/-! # Spend belongs to its window

The usage of an account with a calendar or rolling period, in a run with a clock that does not go
back, is what has been reported since the start of the window that the ledger accumulates against
(`ledgerWindow`, the window the account snapshot reports).

* `spends` is the ghost record of the reports that counted against an account, with their
  instants; `spentSince` adds up those from an instant on.
* `IsWindow` relates the start of a window and the anchor: `IsWindow.start_eq` says that an
  operation before the anchor sees the same window, `IsWindow.end_le_start` that a later window
  starts after it.
* `KeepsWindow` is the condition on a `setLimit` that keeps the period: the anchor it writes is
  the one that is stored, or nothing is spent. `SteadyFor` is the condition on the time zone, and
  `AddsExactly` the one on sums of money, which the library may round. -/

namespace Ironclaw.Resources

variable {Tz : Type}

/-! ### What has been reported -/

/-- The report of a step that counted against an account, with its instant. -/
def spendOf (account : ResourceAccount) (x : Step (ResourceState Tz) (Command Tz)) :
    Option (ℤ × ResourceTally) :=
  match x.command.operation with
  | .reconcile id actual =>
    match x.pre.reservations.get id with
    | some r =>
      if r.status = .active ∧ validateUsage actual = none ∧ account ∈ r.accounts then
        some (x.command.now, .fromUsage actual)
      else none
    | none => none
  | _ => none

/-- The reports of a run that counted against an account, oldest first. -/
def spends (account : ResourceAccount) (history : History Tz) : List (ℤ × ResourceTally) :=
  history.filterMap (spendOf account)

/-- What was reported from an instant on. -/
def spentSince (reports : List (ℤ × ResourceTally)) (start : ℤ) (d : ResourceDimension) : ℤ :=
  ((reports.filter fun p => decide (start ≤ p.1)).map fun p => p.2.amount d).sum

theorem spentSince_append (l l' : List (ℤ × ResourceTally)) (start : ℤ) (d : ResourceDimension) :
    spentSince (l ++ l') start d = spentSince l start d + spentSince l' start d := by
  unfold spentSince
  rw [List.filter_append, List.map_append, List.sum_append]

theorem spentSince_nonneg {l : List (ℤ × ResourceTally)} (h : ∀ p ∈ l, p.2.Nonneg) (start : ℤ)
    (d : ResourceDimension) : 0 ≤ spentSince l start d := by
  apply List.sum_nonneg
  intro x hx
  obtain ⟨p, hp, rfl⟩ := List.mem_map.mp hx
  exact (h p (List.mem_filter.mp hp).1).amount d

theorem spentSince_eq_zero {l : List (ℤ × ResourceTally)} {start : ℤ} (h : ∀ p ∈ l, p.1 < start)
    (d : ResourceDimension) : spentSince l start d = 0 := by
  apply List.sum_eq_zero
  intro x hx
  obtain ⟨p, hp, rfl⟩ := List.mem_map.mp hx
  obtain ⟨hmem, hle⟩ := List.mem_filter.mp hp
  exact absurd (h p hmem) (not_lt.mpr (of_decide_eq_true hle))

theorem spentSince_le {start start' : ℤ} (hle : start ≤ start') (d : ResourceDimension) :
    ∀ {l : List (ℤ × ResourceTally)}, (∀ p ∈ l, p.2.Nonneg) →
      spentSince l start' d ≤ spentSince l start d
  | [], _ => le_rfl
  | p :: l, h => by
    rw [List.forall_mem_cons] at h
    have ih := spentSince_le hle d h.2
    have hp := h.1.amount d
    unfold spentSince at ih ⊢
    by_cases h1 : start' ≤ p.1
    · have h2 : start ≤ p.1 := hle.trans h1
      simp only [List.filter_cons, h1, h2, decide_true, if_true, List.map_cons, List.sum_cons]
      omega
    · by_cases h2 : start ≤ p.1
      · simp only [List.filter_cons, h1, h2, decide_true, decide_false, if_true, List.map_cons,
          List.sum_cons]
        simp only [Bool.false_eq_true, if_false]
        omega
      · simpa only [List.filter_cons, h1, h2, decide_false, Bool.false_eq_true, if_false] using ih

/-! ### Windows -/

variable [Platform Tz]

/-- A calendar window is not moved by a change of offset around an instant. -/
def SteadyFor (period : BudgetPeriod Tz) (now : ℤ) : Prop :=
  match period with
  | .calendar tz unit => Steady tz unit now
  | _ => True

/-- `start` and `periodEnd` bound a window of the period that was current at some instant up to
`last`. -/
def IsWindow (period : BudgetPeriod Tz) (start periodEnd last : ℤ) : Prop :=
  match period with
  | .perInvocation => False
  | .rolling24h => periodEnd = start + dayNanos ∧ start ≤ last
  | .calendar tz unit =>
    ∃ t : ℤ, t ≤ last ∧ Steady tz unit t ∧ calendarBounds tz unit t = (start, periodEnd)

variable {period : BudgetPeriod Tz}

theorem IsWindow.mono {start periodEnd last last' : ℤ}
    (h : IsWindow period start periodEnd last) (hle : last ≤ last') :
    IsWindow period start periodEnd last' := by
  cases period with
  | perInvocation => exact h
  | rolling24h => exact ⟨h.1, h.2.trans hle⟩
  | calendar tz unit =>
    obtain ⟨t, ht, hs, hb⟩ := h
    exact ⟨t, ht.trans hle, hs, hb⟩

theorem IsWindow.start_le {start periodEnd last : ℤ}
    (h : IsWindow period start periodEnd last) : start ≤ last := by
  cases period with
  | perInvocation => exact h.elim
  | rolling24h => exact h.2
  | calendar tz unit =>
    obtain ⟨t, ht, hs, hb⟩ := h
    obtain ⟨first, _, hb', h1, _, _⟩ := hs.bounds_eq
    rw [hb, Prod.mk.injEq] at hb'
    omega

theorem isWindow_periodBounds {now : ℤ} (hp : period ≠ .perInvocation) (hs : SteadyFor period now) :
    IsWindow period (periodBounds period now).1 (periodBounds period now).2 now ∧
      (periodBounds period now).1 ≤ now ∧ now < (periodBounds period now).2 := by
  cases period with
  | perInvocation => exact absurd rfl hp
  | rolling24h =>
    have hpos : 0 < dayNanos := by decide
    refine ⟨⟨rfl, le_rfl⟩, le_rfl, ?_⟩
    show now < now + dayNanos
    omega
  | calendar tz unit =>
    obtain ⟨first, last, hb, h1, h2, _⟩ := Steady.bounds_eq hs
    refine ⟨⟨now, le_rfl, hs, rfl⟩, ?_⟩
    simp only [periodBounds, hb]
    exact ⟨h1, h2⟩

variable {p : AccountParts Tz} {start periodEnd last now : ℤ}

theorem IsWindow.start_eq (h : IsWindow period start periodEnd last) (hle : last ≤ now)
    (hlt : now < periodEnd)
    (hp : p.periodAnchor = some periodEnd) :
    (ledgerWindow p period now).1 = start := by
  cases period with
  | perInvocation => exact h.elim
  | rolling24h =>
    simp only [ledgerWindow, hp, h.1]
    omega
  | calendar tz unit =>
    obtain ⟨t, ht, hs, hb⟩ := h
    obtain ⟨first, last', hb', h1, h2, hsame⟩ := hs.bounds_eq
    rw [hb, Prod.mk.injEq] at hb'
    obtain ⟨rfl, rfl⟩ := hb'
    simp only [ledgerWindow, hp, periodBounds, hsame now (by omega) hlt]

theorem IsWindow.end_le_start (h : IsWindow period start periodEnd last) (hs : SteadyFor period now)
    (hle : periodEnd ≤ now) : periodEnd ≤ (periodBounds period now).1 := by
  cases period with
  | perInvocation => exact h.elim
  | rolling24h => exact hle
  | calendar tz unit =>
    obtain ⟨t, _, hst, hb⟩ := h
    have := hst.end_le_start hs (by rw [hb]; exact hle)
    rw [hb] at this
    exact this

/-- Windows move forward. -/
theorem IsWindow.start_le_periodBounds (h : IsWindow period start periodEnd last) (hle : last ≤ now)
    (hs : SteadyFor period now) :
    start ≤ (periodBounds period now).1 := by
  cases period with
  | perInvocation => exact h.elim
  | rolling24h => exact h.2.trans hle
  | calendar tz unit =>
    obtain ⟨t, ht, hst, hb⟩ := id h
    obtain ⟨first, last', hb', h1, h2, hsame⟩ := hst.bounds_eq
    rw [hb, Prod.mk.injEq] at hb'
    obtain ⟨rfl, rfl⟩ := hb'
    rcases lt_or_ge now periodEnd with hlt | hge
    · simp only [periodBounds, hsame now (by omega) hlt, le_refl]
    · have := h.end_le_start hs hge
      omega

/-- The window just set is the one the snapshot reports. -/
theorem start_eq_of_periodBounds {now : ℤ} (p : AccountParts Tz)
    (hp : p.periodAnchor = some (periodBounds period now).2) :
    (ledgerWindow p period now).1 = (periodBounds period now).1 := by
  cases period with
  | perInvocation => simp [ledgerWindow, hp]
  | rolling24h =>
    simp only [ledgerWindow, hp, periodBounds]
    omega
  | calendar tz unit => simp [ledgerWindow, hp]

/-! ### One step -/

variable [DecidableEq Tz]

/-- A `setLimit` that keeps the period of the account writes the anchor that is stored, or finds
nothing spent. -/
def KeepsWindow (account : ResourceAccount) (x : Step (ResourceState Tz) (Command Tz)) : Prop :=
  ∀ limits, x.command.operation = .setLimit account limits →
    (x.pre.account account).usageTally = .zero ∨
      (x.pre.account account).periodAnchor = some (periodBounds limits.period x.command.now).2

/-- A report that counts against the account is added to its usage without rounding. -/
def AddsExactly (account : ResourceAccount) (x : Step (ResourceState Tz) (Command Tz)) : Prop :=
  ∀ report ∈ spendOf account x, Decimal.Unrounded
    (((x.pre.account account).advancePeriodIfRolledOver x.command.now).usageTally.usd.units +
      report.2.usd.units)

instance (account : ResourceAccount) (x : Step (ResourceState Tz) (Command Tz)) :
    Decidable (AddsExactly account x) :=
  inferInstanceAs (Decidable (∀ report ∈ spendOf account x, Decimal.Unrounded _))

variable {s s' : ResourceState Tz}

/-- What an operation that gets to an account does to its usage and its anchor. -/
theorem Does.touch_cases {c : Command Tz} (h : Does s c s')
    (hw : WellFormed s) {a : ResourceAccount} (ha : a ∈ touched s c) :
    (∃ limits, c.operation = .setLimit a limits ∧
      s'.account a = (s.account a).setLimit limits c.now ∧ spendOf a ⟨s, c, s'⟩ = none) ∨
    ∃ spent : Option ResourceTally, (∀ t ∈ spent, t.Nonneg) ∧
      spendOf a ⟨s, c, s'⟩ = spent.map (fun t => (c.now, t)) ∧
      (s'.account a).limits = (s.account a).limits ∧
      (s'.account a).periodAnchor =
        ((s.account a).advancePeriodIfRolledOver c.now).periodAnchor ∧
      (s'.account a).usageTally = match spent with
        | some t => ((s.account a).advancePeriodIfRolledOver c.now).usageTally.addAssign Tz t
        | none => ((s.account a).advancePeriodIfRolledOver c.now).usageTally := by
  cases h with
  | setLimit account limits now =>
    obtain rfl : a = account := by simpa [touched] using ha
    refine .inl ⟨limits, rfl, ?_, rfl⟩
    rw [ResourceState.modify_account, if_pos rfl]
  | refused ht => exact absurd (ht ▸ ha) List.not_mem_nil
  | @denied scope _ _ now hvalid hfresh =>
    have ha' : a ∈ ResourceAccount.cascade scope := by simpa [touched, hvalid, hfresh] using ha
    refine .inr ⟨none, by simp, rfl, ?_⟩
    rw [ResourceState.modifyAll_account (ResourceAccount.cascade_nodup scope), if_pos ha']
    exact ⟨AccountParts.advance_limits now, rfl, rfl⟩
  | @reserved scope estimate _ now hvalid hfresh _ =>
    have ha' : a ∈ ResourceAccount.cascade scope := by simpa [touched, hvalid, hfresh] using ha
    refine .inr ⟨none, by simp, rfl, ?_⟩
    have hp : ((s.modifyAll (ResourceAccount.cascade scope)
        (·.advancePeriodIfRolledOver now)).modifyAll (ResourceAccount.cascade scope)
        (·.hold (.fromEstimate estimate))).account a =
          ((s.account a).advancePeriodIfRolledOver now).hold (.fromEstimate estimate) := by
      rw [ResourceState.modifyAll_account (ResourceAccount.cascade_nodup scope), if_pos ha',
        ResourceState.modifyAll_account (ResourceAccount.cascade_nodup scope), if_pos ha']
    dsimp only
    rw [hp]
    exact ⟨AccountParts.advance_limits now, rfl, rfl⟩
  | @reconciled id actual record now hget hactive hvalid =>
    have ha' : a ∈ record.accounts := by simpa [touched, hget, hactive, hvalid] using ha
    refine .inr ⟨some (.fromUsage actual), ?_, by simp [spendOf, hget, hactive, hvalid, ha'], ?_⟩
    · intro t ht
      cases ht
      exact fromUsage_nonneg hvalid
    · dsimp only
      rw [ResourceState.modifyAll_account (hw.record _ (Table.mem_of_get hget)).nodup,
        if_pos ha']
      exact ⟨AccountParts.advance_limits now, rfl, rfl⟩
  | @released id record now hget hactive =>
    have ha' : a ∈ record.accounts := by simpa [touched, hget, hactive] using ha
    refine .inr ⟨none, by simp, rfl, ?_⟩
    dsimp only
    rw [ResourceState.modifyAll_account (hw.record _ (Table.mem_of_get hget)).nodup, if_pos ha']
    exact ⟨AccountParts.advance_limits now, rfl, rfl⟩
  | snapshot account now =>
    obtain rfl : a = account := by simpa [touched] using ha
    refine .inr ⟨none, by simp, rfl, ?_⟩
    rw [ResourceState.modify_account, if_pos rfl]
    exact ⟨AccountParts.advance_limits now, rfl, rfl⟩

omit [Platform Tz] [DecidableEq Tz] in
theorem spendOf_of_not_touched {c : Command Tz} {a : ResourceAccount}
    (ha : a ∉ touched s c) : spendOf a ⟨s, c, s'⟩ = none := by
  obtain ⟨now, operation⟩ := c
  cases operation with
  | reconcile id actual =>
    simp only [spendOf]
    cases hg : s.reservations.get id with
    | none => rfl
    | some r =>
      dsimp only
      rw [if_neg]
      rintro ⟨h1, h2, h3⟩
      exact ha (by simpa [touched, hg, h1, h2] using h3)
  | _ => rfl

/-- The ledger of an account between two operations: `reports` is what counted against it, none of
it after `last`, and its usage is what was reported since `start`. -/
structure InWindow (p : AccountParts Tz) (period : BudgetPeriod Tz)
    (reports : List (ℤ × ResourceTally)) (last start : ℤ) : Prop where
  limits : p.limits.map (·.period) = some period
  window : ∃ periodEnd : ℤ, p.periodAnchor = some periodEnd ∧
    IsWindow period start periodEnd last ∧ ∀ r ∈ reports, r.1 < periodEnd
  usage : ∀ d, p.usageTally.amount d = min (spentSince reports start d) d.cap
  past : ∀ r ∈ reports, r.1 ≤ last
  nonneg : ∀ r ∈ reports, r.2.Nonneg

variable {reports : List (ℤ × ResourceTally)}

omit [DecidableEq Tz] in
theorem InWindow.mono {last last' start : ℤ} (h : InWindow p period reports last start)
    (hle : last ≤ last') :
    InWindow p period reports last' start := by
  obtain ⟨periodEnd, he, hwin, hlt⟩ := h.window
  exact ⟨h.limits, ⟨periodEnd, he, hwin.mono hle, hlt⟩, h.usage,
    fun r hr => (h.past r hr).trans hle, h.nonneg⟩

/-- A rollover check at a later instant: the window is the one of that instant. -/
theorem InWindow.advance {last start now : ℤ} (hperiod : period ≠ .perInvocation)
    (h : InWindow p period reports last start) (hle : last ≤ now) (hs : SteadyFor period now) :
    ∃ start' periodEnd : ℤ, InWindow (p.advancePeriodIfRolledOver now) period reports now start' ∧
      (p.advancePeriodIfRolledOver now).periodAnchor = some periodEnd ∧ start' ≤ now ∧
      now < periodEnd ∧
      ∀ q : AccountParts Tz, q.periodAnchor = some periodEnd →
        (ledgerWindow q period now).1 = start' := by
  obtain ⟨limits, hl, hlp⟩ := Option.map_eq_some_iff.mp h.limits
  obtain ⟨periodEnd, he, hwin, hlt⟩ := h.window
  have hq : p.advancePeriodIfRolledOver now = if periodHasRolledOver periodEnd now then
      { p with usage := none, periodAnchor := some (periodBounds period now).2 } else p := by
    unfold AccountParts.advancePeriodIfRolledOver
    rw [hl]
    dsimp only
    rw [if_neg (by rw [hlp]; exact hperiod), he, hlp]
    rfl
  by_cases hroll : periodEnd ≤ now
  · rw [periodHasRolledOver, if_pos (decide_eq_true hroll)] at hq
    obtain ⟨hnew, h1, h2⟩ := isWindow_periodBounds hperiod hs
    have hend := hwin.end_le_start hs hroll
    refine ⟨_, _, ⟨?_, ⟨_, by rw [hq], hnew, ?_⟩, ?_, fun r hr => (h.past r hr).trans hle,
      h.nonneg⟩, by rw [hq], h1, h2, fun q hq => start_eq_of_periodBounds q hq⟩
    · rw [AccountParts.advance_limits]
      exact h.limits
    · intro r hr
      have := hlt r hr
      omega
    · intro d
      rw [hq, spentSince_eq_zero (fun r hr => lt_of_lt_of_le (hlt r hr) hend)]
      have := d.cap_pos
      rw [min_eq_left (le_of_lt this)]
      exact ResourceTally.amount_zero d
  · rw [periodHasRolledOver, if_neg (by simpa using hroll)] at hq
    rw [not_le] at hroll
    have hw := hwin.mono hle
    rw [hq]
    exact ⟨start, periodEnd, h.mono hle, he, hw.start_le, hroll,
      fun q hq => hwin.start_eq hle hroll hq⟩

variable {limits : ResourceLimits Tz}

/-- A `setLimit` that keeps the period and meets the condition. -/
theorem InWindow.setLimit {last start now : ℤ} (hperiod : period ≠ .perInvocation)
    (h : InWindow p period reports last start) (hle : last ≤ now) (hs : SteadyFor period now)
    (hkeep : limits.period = period)
    (hcond : p.usageTally = .zero ∨ p.periodAnchor = some (periodBounds limits.period now).2) :
    InWindow (p.setLimit limits now) period reports now (periodBounds period now).1 := by
  obtain ⟨periodEnd, he, hwin, hlt⟩ := h.window
  obtain ⟨hnew, h1, h2⟩ := isWindow_periodBounds hperiod hs
  have hset : p.setLimit limits now =
      { p with limits := some limits, periodAnchor := some (periodBounds period now).2 } := by
    unfold AccountParts.setLimit
    rw [if_neg (by rw [h.limits, hkeep]; simp), hkeep]
  rw [hset]
  rw [hkeep] at hcond
  refine ⟨by simp [hkeep], ⟨_, rfl, hnew, fun r hr => ?_⟩, fun d => ?_,
    fun r hr => (h.past r hr).trans hle, h.nonneg⟩
  · exact lt_of_le_of_lt ((h.past r hr).trans hle) h2
  · have hu : p.usageTally.amount d = min (spentSince reports start d) d.cap := h.usage d
    refine hu.trans ?_
    rcases hcond with hzero | hsame
    · -- nothing is spent in the window, hence nothing in a later one
      rw [hzero, ResourceTally.amount_zero] at hu
      have hcap := d.cap_pos
      have hmono := spentSince_le (hwin.start_le_periodBounds hle hs) d h.nonneg
      have hnn := spentSince_nonneg h.nonneg (periodBounds period now).1 d
      omega
    · have hend : periodEnd = (periodBounds period now).2 := by
        rw [he] at hsame
        exact Option.some.inj hsame
      have e : start = (periodBounds period now).1 := by
        rw [← hwin.start_eq hle (by omega) he]
        exact start_eq_of_periodBounds p hsame
      rw [e]

/-- A step keeps the ledger in its window, and the window is the one the snapshot reports at the
instant of a step that gets to the account. -/
theorem InWindow.step {c : Command Tz} (hw : WellFormed s)
    (hdoes : Does s c s') {a : ResourceAccount} {last start : ℤ} (hperiod : period ≠ .perInvocation)
    (h : InWindow (s.account a) period reports last start) (hle : last ≤ c.now)
    (hkeep : ∀ limits, c.operation = .setLimit a limits → limits.period = period)
    (hcond : KeepsWindow a ⟨s, c, s'⟩) (hs : a ∈ touched s c → SteadyFor period c.now)
    (hexact : AddsExactly a ⟨s, c, s'⟩) :
    ∃ start', InWindow (s'.account a) period (reports ++ (spendOf a ⟨s, c, s'⟩).toList) c.now
      start' ∧ (a ∈ touched s c → (ledgerWindow (s'.account a) period c.now).1 = start') := by
  by_cases ha : a ∈ touched s c
  · have hsteady := hs ha
    rcases hdoes.touch_cases hw ha with
      ⟨limits, hop, hparts, hnone⟩ | ⟨spent, hnn, hspend, hl, hanchor, huse⟩
    · have hk := hkeep limits hop
      refine ⟨_, ?_, fun _ => start_eq_of_periodBounds _ ?_⟩
      · rw [hparts, hnone, Option.toList_none, List.append_nil]
        exact h.setLimit hperiod hle hsteady hk (hcond limits hop)
      · rw [hparts, ← hk]
        unfold AccountParts.setLimit
        split_ifs <;> rfl
    · obtain ⟨start', periodEnd, hadv, he, hstart, hlt, hwindow⟩ := h.advance hperiod hle hsteady
      rw [he] at hanchor
      obtain ⟨periodEnd', he', hwin, hbefore⟩ := hadv.window
      obtain rfl : periodEnd = periodEnd' := Option.some.inj (he.symm.trans he')
      refine ⟨start', ⟨?_, ⟨periodEnd, hanchor, hwin, ?_⟩, ?_, ?_, ?_⟩,
        fun _ => hwindow _ hanchor⟩
      · rw [hl]
        exact h.limits
      · intro r hr
        rcases List.mem_append.mp hr with hr | hr
        · exact hbefore r hr
        · obtain ⟨t, _, rfl⟩ : ∃ t, spent = some t ∧ (c.now, t) = r := by
            simpa [hspend] using hr
          exact hlt
      · intro d
        have hu := hadv.usage d
        rw [huse, hspend, spentSince_append]
        cases spent with
        | none => simpa [spentSince] using hu
        | some t =>
          have ht := hnn t rfl
          have hnow : spentSince [(c.now, t)] start' d = t.amount d := by
            simp [spentSince, hstart]
          have hcap := d.cap_pos
          have htd := ht.amount d
          simp only [Option.map_some, Option.toList_some, hnow]
          rw [ResourceTally.amount_addAssign ((hw.account a).advance c.now).usage ht
            fun _ => hexact (c.now, t) hspend, hu]
          omega
      · intro r hr
        rcases List.mem_append.mp hr with hr | hr
        · exact hadv.past r hr
        · obtain ⟨t, _, rfl⟩ : ∃ t, spent = some t ∧ (c.now, t) = r := by
            simpa [hspend] using hr
          exact le_rfl
      · intro r hr
        rcases List.mem_append.mp hr with hr | hr
        · exact h.nonneg r hr
        · obtain ⟨t, ht, rfl⟩ : ∃ t, spent = some t ∧ (c.now, t) = r := by
            simpa [hspend] using hr
          exact hnn t ht
  · refine ⟨start, ?_, fun h => absurd h ha⟩
    rw [hdoes.account_of_not_touched hw ha, spendOf_of_not_touched ha, Option.toList_none,
      List.append_nil]
    exact h.mono hle

theorem inWindow_first {now : ℤ} (hfirst : p.limits.map (·.period) ≠ some limits.period)
    (hperiod : limits.period ≠ .perInvocation) (hs : SteadyFor limits.period now) :
    InWindow (p.setLimit limits now) limits.period [] now (periodBounds limits.period now).1 := by
  obtain ⟨hnew, _, _⟩ := isWindow_periodBounds hperiod hs
  have hset : p.setLimit limits now =
      ⟨some limits, p.reserved, none, some (periodBounds limits.period now).2⟩ := by
    unfold AccountParts.setLimit
    rw [if_pos hfirst]
  rw [hset]
  refine ⟨rfl, ⟨_, rfl, hnew, by simp⟩, fun d => ?_, by simp, by simp⟩
  have hcap := d.cap_pos
  have h0 : spentSince [] (periodBounds limits.period now).1 d = 0 := rfl
  rw [h0, min_eq_left (le_of_lt hcap)]
  exact ResourceTally.amount_zero d

/-! ### Runs -/

/-- The steps of a run after the first `setLimit` with a period, at clock readings from `now` on:
the clock does not go back, every `setLimit` on the account keeps the period and meets the condition,
and no report that counts against it is rounded into its usage. -/
structure KeepsPeriod (account : ResourceAccount) (period : BudgetPeriod Tz) (now : ℤ)
    (history : History Tz) : Prop where
  clock : (now :: history.map (·.command.now)).Pairwise (· ≤ ·)
  keeps : ∀ x ∈ history, ∀ limits,
    x.command.operation = .setLimit account limits → limits.period = period
  window : ∀ x ∈ history, KeepsWindow account x
  steady : ∀ x ∈ history, account ∈ touched x.pre x.command → SteadyFor period x.command.now
  exact : ∀ x ∈ history, AddsExactly account x

/-- The instant of the last step, or of the start. -/
def lastNow (now : ℤ) (history : History Tz) : ℤ :=
  (history.getLast?.map (·.command.now)).getD now

variable {history : History Tz}

omit [Platform Tz] [DecidableEq Tz] in
theorem lastNow_le {now : ℤ} {x : Step (ResourceState Tz) (Command Tz)}
    (h : (now :: (history ++ [x]).map (·.command.now)).Pairwise (· ≤ ·)) :
    lastNow now history ≤ x.command.now := by
  rw [List.map_append, List.map_singleton, ← List.cons_append, List.pairwise_append] at h
  refine h.2.2 _ ?_ _ (List.mem_singleton.mpr rfl)
  unfold lastNow
  cases hl : history.getLast? with
  | none => exact List.mem_cons_self
  | some y =>
    exact List.mem_cons_of_mem _ (List.mem_map_of_mem (List.mem_of_getLast? hl))

theorem KeepsPeriod.init {account : ResourceAccount} {now : ℤ}
    {x : Step (ResourceState Tz) (Command Tz)}
    (h : KeepsPeriod account period now (history ++ [x])) :
    KeepsPeriod account period now history where
  clock := by
    have hc := h.clock
    rw [List.map_append, ← List.cons_append, List.pairwise_append] at hc
    exact hc.1
  keeps := fun y hy => h.keeps y (List.mem_append_left _ hy)
  window := fun y hy => h.window y (List.mem_append_left _ hy)
  steady := fun y hy => h.steady y (List.mem_append_left _ hy)
  exact := fun y hy => h.exact y (List.mem_append_left _ hy)

/-- The ledger along the steps after the first `setLimit`. -/
theorem KeepsPeriod.inWindow {account : ResourceAccount} {now : ℤ}
    {s₁ : ResourceState Tz} (hw : WellFormed s₁) (hperiod : limits.period ≠ .perInvocation)
    {start : ℤ} (hinit : InWindow (s₁.account account) limits.period [] now start)
    {s : ResourceState Tz} (run : Run Eq governor s₁ history s)
    (hkeeps : KeepsPeriod account limits.period now history) :
    WellFormed s ∧ ∃ start', InWindow (s.account account) limits.period
        (spends account history) (lastNow now history) start' ∧
      ∀ x, history.getLast? = some x → account ∈ touched x.pre x.command →
        (ledgerWindow (s.account account) limits.period x.command.now).1 = start' := by
  refine Run.induct_history (A := fun _ => True)
    (I := fun h s => KeepsPeriod account limits.period now h →
      WellFormed s ∧ ∃ start', InWindow (s.account account) limits.period (spends account h)
          (lastNow now h) start' ∧
        ∀ x, h.getLast? = some x → account ∈ touched x.pre x.command →
          (ledgerWindow (s.account account) limits.period x.command.now).1 = start')
    ?_ ?_ ?_ run (fun _ _ => trivial) hkeeps
  · intro _
    exact ⟨hw, start, hinit, by simp⟩
  · rintro h s _ rfl hi
    exact hi
  · intro h s c _ hi hk
    obtain ⟨hws, start', hin, _⟩ := hi hk.init
    have hmem : (⟨s, c, (s.perform c).2⟩ : Step (ResourceState Tz) (Command Tz)) ∈
        h ++ [⟨s, c, (s.perform c).2⟩] := List.mem_append_right _ (List.mem_singleton.mpr rfl)
    have hdoes := perform_does s c
    obtain ⟨start'', hstep, hwindow⟩ := hin.step hws hdoes hperiod (lastNow_le hk.clock)
      (hk.keeps _ hmem) (hk.window _ hmem) (hk.steady _ hmem) (hk.exact _ hmem)
    refine ⟨hdoes.wellFormed hws, start'', ?_, ?_⟩
    · have hlast : lastNow now (h ++ [⟨s, c, (s.perform c).2⟩]) = c.now := by
        simp [lastNow]
      have hsp : spends account (h ++ [⟨s, c, (s.perform c).2⟩]) =
          spends account h ++ (spendOf account ⟨s, c, (s.perform c).2⟩).toList := by
        unfold spends
        rw [List.filterMap_append]
        congr 1
      rw [advance_governor, hlast, hsp]
      exact hstep
    · intro x hx hta
      rw [advance_governor, List.getLast?_append, List.getLast?_singleton, Option.some_or,
        Option.some.injEq] at hx
      subst hx
      exact hwindow hta

/-- Spend belongs to its window: from the first `setLimit` that gives an account a calendar or
rolling period, while the clock does not go back, every further `setLimit` keeps the period and
meets the condition, and no sum of money is rounded, the usage after each operation that gets to the account is what was reported
since the start of the window current then, in every dimension, up to the range of its type. -/
theorem usage_is_window_spend {before after : History Tz} {first x : Step (ResourceState Tz)
    (Command Tz)} {s : ResourceState Tz} (run : GovernorRun (before ++ first :: after) s)
    {account : ResourceAccount} {limits : ResourceLimits Tz}
    (hset : first.command.operation = .setLimit account limits)
    (hfirst : (first.pre.account account).limits.map (·.period) ≠ some limits.period)
    (hperiod : limits.period ≠ .perInvocation) (hsteady : SteadyFor limits.period first.command.now)
    (hkeeps : KeepsPeriod account limits.period first.command.now after)
    (hx : (first :: after).getLast? = some x) (htouched : account ∈ touched x.pre x.command)
    (d : ResourceDimension) :
    (x.post.account account).usageTally.amount d =
      min (spentSince (spends account (first :: after))
        (ledgerWindow (x.post.account account) limits.period x.command.now).1 d) d.cap := by
  obtain ⟨s₀, run₀, run₁⟩ := run.split
  rw [← List.singleton_append] at run₁
  obtain ⟨s₁, runf, run₂⟩ := run₁.split
  obtain ⟨rfl, rfl⟩ := runf.singleton
  have hpost : first.post = first.pre.modify account (·.setLimit limits first.command.now) := by
    rw [runf.post_eq first (List.mem_singleton.mpr rfl), advance_governor]
    simp only [ResourceState.perform, hset, setLimitInState]
  have hparts : first.post.account account =
      (first.pre.account account).setLimit limits first.command.now := by
    rw [hpost, ResourceState.modify_account, if_pos rfl]
  have hw₁ : WellFormed first.post := by
    rw [runf.post_eq first (List.mem_singleton.mpr rfl), advance_governor]
    exact (perform_does _ _).wellFormed (GovernorRun.wellFormed run₀)
  have hinit : InWindow (first.post.account account) limits.period [] first.command.now
      (periodBounds limits.period first.command.now).1 := by
    rw [hparts]
    exact inWindow_first hfirst hperiod hsteady
  have hnone : spendOf account first = none := by
    unfold spendOf
    rw [hset]
  have hspends : spends account (first :: after) = spends account after :=
    List.filterMap_cons_none hnone
  obtain ⟨_, start, hin, hwindow⟩ := hkeeps.inWindow hw₁ hperiod hinit run₂
  rw [hspends]
  cases hl : after.getLast? with
  | none =>
    obtain rfl : after = [] := List.getLast?_eq_none_iff.mp hl
    obtain rfl : first = x := by simpa using hx
    rw [start_eq_of_periodBounds _ (by
      rw [hparts]
      unfold AccountParts.setLimit
      split_ifs
      rfl)]
    exact hinit.usage d
  | some y =>
    obtain rfl : y = x := by
      rw [List.getLast?_cons, hl] at hx
      simpa using hx
    obtain rfl : y.post = s := by
      obtain ⟨init, rfl⟩ : ∃ init, after = init ++ [y] := by
        obtain ⟨init, hinit⟩ := List.getLast?_eq_some_iff.mp hl
        exact ⟨init, hinit⟩
      obtain ⟨t, _, runy⟩ := run₂.split
      exact runy.singleton.2
    rw [hwindow y hl htouched]
    exact hin.usage d

/-- A daily limit on the tenant, a report, the limit set again at `again`, and a snapshot a day after
the start. -/
def Sample.setAgain (estimate : ResourceEstimate) (reported : ResourceUsage) (again : ℤ) :
    List (Command UtcOnly) :=
  [⟨0, .setLimit Sample.tenant (Sample.limits (.ofNat 10) (.calendar .utc .day))⟩,
    ⟨1, .reserve Sample.scope estimate ⟨1⟩⟩, ⟨2, .reconcile ⟨1⟩ reported⟩,
    ⟨again, .setLimit Sample.tenant (Sample.limits (.ofNat 20) (.calendar .utc .day))⟩,
    ⟨dayNanos, .accountSnapshot Sample.tenant⟩]

/-- Five dollars are spent and the limit is set again on the first day: the snapshot of the second day
has an empty ledger, what was reported since its midnight. -/
theorem second_day_starts_empty :
    let history := Run.trace governor ResourceState.empty
      (Sample.setAgain (Sample.cost 5) (Sample.paid 5) 3)
    ∃ x, history.getLast? = some x ∧
      (x.post.account Sample.tenant).usageTally.amount .usd = 0 ∧
      (x.post.account Sample.tenant).usageTally.amount .usd =
        min (spentSince (spends Sample.tenant history)
          (ledgerWindow (x.post.account Sample.tenant) (.calendar .utc .day) x.command.now).1
          .usd) ResourceDimension.usd.cap := by
  intro history
  have run : GovernorRun ([] ++ history) _ :=
    Run.of_commands (fun _ => rfl) (Sample.setAgain (Sample.cost 5) (Sample.paid 5) 3)
      ResourceState.empty
  refine ⟨_, rfl, by decide +kernel, ?_⟩
  have hset : (history.head (by decide +kernel)).command.operation = .setLimit Sample.tenant
      (Sample.limits ⟨10, by decide⟩ (.calendar .utc .day)) := rfl
  refine usage_is_window_spend run hset (by decide +kernel) (by decide) (UtcOnly.steady _ _) ?_ rfl
    (by decide +kernel) .usd
  refine ⟨by decide +kernel, ?_, ?_, fun _ _ _ => UtcOnly.steady _ _, by decide +kernel⟩
  · intro x hx limits hop
    simp only [Run.trace, List.mem_cons, List.not_mem_nil, or_false] at hx
    rcases hx with rfl | rfl | rfl | rfl <;> cases hop
    rfl
  · intro x hx limits hop
    simp only [Run.trace, List.mem_cons, List.not_mem_nil, or_false] at hx
    rcases hx with rfl | rfl | rfl | rfl <;> cases hop
    exact .inr (by decide +kernel)

/-- The limit is set again, with the same period, at the midnight after the report: the day that
starts then has the five tokens of the day before on its ledger, although nothing was reported
since its start. -/
theorem set_limit_carries_spend :
    let commands := (Sample.setAgain (Sample.tokens ⟨5, by decide⟩) (Sample.spent ⟨5, by decide⟩)
      dayNanos).take 4
    let history := Run.trace governor ResourceState.empty commands
    let s : ResourceState UtcOnly := commands.foldl (advance governor) ResourceState.empty
    GovernorRun history s ∧ (history.map (·.command.now)).Pairwise (· ≤ ·) ∧
      (∀ x ∈ history, ∀ limits, x.command.operation = .setLimit Sample.tenant limits →
        limits.period = .calendar .utc .day) ∧
      (∀ now, SteadyFor (BudgetPeriod.calendar UtcOnly.utc .day) now) ∧
      ∃ x, history.getLast? = some x ∧ Sample.tenant ∈ touched x.pre x.command ∧
        spentSince (spends Sample.tenant history)
          (ledgerWindow (x.post.account Sample.tenant) (.calendar .utc .day) x.command.now).1
          .inputTokens = 0 ∧
        (x.post.account Sample.tenant).usageTally.amount .inputTokens = 5 := by
  intro commands history s
  refine ⟨Run.of_commands (fun _ => rfl) commands ResourceState.empty, by decide +kernel, ?_,
    UtcOnly.steady _, _, rfl, by decide +kernel, by decide +kernel, by decide +kernel⟩
  intro x hx limits hop
  simp only [history, commands, Sample.setAgain, List.take, Run.trace, List.mem_cons,
    List.not_mem_nil, or_false] at hx
  rcases hx with rfl | rfl | rfl | rfl <;> cases hop <;> rfl

end Ironclaw.Resources
