import Ironclaw.Resources.Holds

/-! # Usage plus reserved stays within the limits

An account that gets its limits once, before a reservation counts against it, and whose
reservations are reported at no more than their estimate, stays within every positive limit.

* `le_limit_of_checkLimitsFirstDenial` is the check of one reservation in one dimension. The
  decimal check refuses a total outside the range, but a total that is rounded down may pass; the
  integer check saturates, so it says nothing about a limit of `u64::MAX`. The conditions `SumsExact`
  and `BelowLargest` leave these two out.
* `Within` is the invariant: in a limited dimension no addition has been clamped, so the ledger is
  the sum of the holds, and usage plus reserved is at most the limit. -/

namespace Ironclaw.Resources

variable {Tz : Type}

/-- The limit of a dimension, in the units of `ResourceTally.amount`. -/
def ResourceLimits.limit (limits : ResourceLimits Tz) : ResourceDimension → Option ℤ
  | .usd => limits.maxUsd.map (·.units)
  | .inputTokens => limits.maxInputTokens.map (fun v => (v.val : ℤ))
  | .outputTokens => limits.maxOutputTokens.map (fun v => (v.val : ℤ))
  | .wallClockMs => limits.maxWallClockMs.map (fun v => (v.val : ℤ))
  | .outputBytes => limits.maxOutputBytes.map (fun v => (v.val : ℤ))
  | .networkEgressBytes => limits.maxNetworkEgressBytes.map (fun v => (v.val : ℤ))
  | .processCount => limits.maxProcessCount.map (fun v => (v.val : ℤ))
  | .concurrencySlots => limits.maxConcurrencySlots.map (fun v => (v.val : ℤ))

/-- No `u64` dimension is limited to `u64::MAX`. -/
def ResourceLimits.BelowLargest (limits : ResourceLimits Tz) : Prop :=
  ∀ d : ResourceDimension, d.cap = 2 ^ 64 - 1 → limits.limit d ≠ some d.cap

variable {limits : ResourceLimits Tz} {d : ResourceDimension}

theorem ResourceLimits.limit_le_cap {limit : ℤ}
    (h : limits.limit d = some limit) : limit ≤ d.cap := by
  have hn : ∀ {cap : ℕ} (a : Saturating cap), (a.val : ℤ) ≤ cap := fun a =>
    Int.ofNat_le.mpr a.le_cap
  cases d with
  | usd =>
    obtain ⟨v, _, rfl⟩ := Option.map_eq_some_iff.mp h
    exact (le_abs_self _).trans v.abs_le
  | _ =>
    obtain ⟨v, _, rfl⟩ := Option.map_eq_some_iff.mp h
    exact hn v

/-! ### The check of one reservation -/

/-- An integer dimension is a row of the table that the checks walk. -/
theorem exists_integerDimension (hd : d ≠ .usd) {limit : ℤ} (h : limits.limit d = some limit) :
    ∃ i ∈ (integerDimensions : List (IntegerDimension Tz)), i.dimension = d ∧
      (∃ v : U64, i.limit limits = some v ∧ (v.val : ℤ) = limit) ∧
      ∀ t : ResourceTally, ((i.value t).val : ℤ) = t.amount d := by
  cases d with
  | usd => exact absurd rfl hd
  | inputTokens =>
    obtain ⟨v, hv, rfl⟩ := Option.map_eq_some_iff.mp h
    exact ⟨_, List.mem_cons_self, rfl, ⟨v, hv, rfl⟩, fun _ => rfl⟩
  | outputTokens =>
    obtain ⟨v, hv, rfl⟩ := Option.map_eq_some_iff.mp h
    exact ⟨_, List.mem_of_getElem? (i := 1) rfl, rfl, ⟨v, hv, rfl⟩, fun _ => rfl⟩
  | wallClockMs =>
    obtain ⟨v, hv, rfl⟩ := Option.map_eq_some_iff.mp h
    exact ⟨_, List.mem_of_getElem? (i := 2) rfl, rfl, ⟨v, hv, rfl⟩, fun _ => rfl⟩
  | outputBytes =>
    obtain ⟨v, hv, rfl⟩ := Option.map_eq_some_iff.mp h
    exact ⟨_, List.mem_of_getElem? (i := 3) rfl, rfl, ⟨v, hv, rfl⟩, fun _ => rfl⟩
  | networkEgressBytes =>
    obtain ⟨v, hv, rfl⟩ := Option.map_eq_some_iff.mp h
    exact ⟨_, List.mem_of_getElem? (i := 4) rfl, rfl, ⟨v, hv, rfl⟩, fun _ => rfl⟩
  | processCount =>
    obtain ⟨v, hv, rfl⟩ := Option.map_eq_some_iff.mp h
    exact ⟨_, List.mem_of_getElem? (i := 5) rfl, rfl, ⟨v.toU64, by simp [hv], rfl⟩, fun _ => rfl⟩
  | concurrencySlots =>
    obtain ⟨v, hv, rfl⟩ := Option.map_eq_some_iff.mp h
    exact ⟨_, List.mem_of_getElem? (i := 6) rfl, rfl, ⟨v.toU64, by simp [hv], rfl⟩, fun _ => rfl⟩

variable {a : ResourceAccount}

theorem le_of_checkDecimal [Platform Tz] {limit usage reserved requested : Decimal}
    (hpos : 0 < limit.units) (hfirst : Decimal.Unrounded (usage.units + reserved.units))
    (hsecond : Decimal.Unrounded (usage.units + reserved.units + requested.units))
    (h : checkDecimal Tz a d (some limit) usage reserved requested = none) :
    usage.units + reserved.units + requested.units ≤ limit.units := by
  unfold checkDecimal at h
  simp only [Option.filter_some, hpos, decide_true, if_true, Option.bind_eq_bind,
    Option.bind_some] at h
  rcases hfirst with hfits | hover
  · rw [Platform.add_exact _ _ hfits, Option.bind_some] at h
    rcases hsecond with hfits' | hover'
    · rw [Platform.add_exact ⟨_, hfits⟩ _ hfits'] at h
      simpa using h
    · rw [Platform.add_overflow ⟨_, hfits⟩ _ hover'] at h
      simp at h
  · rw [Platform.add_overflow _ _ hover] at h
    simp at h

theorem le_of_checkInteger {limit usage reserved requested : U64} (hpos : 0 < limit.val)
    (hlt : limit.val < 2 ^ 64 - 1)
    (h : checkInteger a d (some limit) usage reserved requested = none) :
    usage.val + reserved.val + requested.val ≤ limit.val := by
  unfold checkInteger at h
  simp only [Option.filter_some, hpos, decide_true, if_true, Option.bind_eq_bind,
    Option.bind_some] at h
  rw [ite_eq_right_iff] at h
  have h1 := not_lt.mp fun hc => Option.some_ne_none _ (h hc)
  rw [Saturating.val_add, Saturating.val_add, min_le_iff] at h1
  rcases h1 with h1 | h1
  · rcases min_choice (usage.val + reserved.val) (2 ^ 64 - 1) with e | e <;> rw [e] at h1 <;> omega
  · omega

/-- A reservation that is not denied stays within a positive limit that the integer check can
tell from `u64::MAX`. -/
theorem le_limit_of_checkLimitsFirstDenial [Platform Tz] {usage reserved requested : ResourceTally}
    {limit : ℤ} (h : checkLimitsFirstDenial a limits usage reserved requested = none)
    (hexact : d = .usd → Decimal.Unrounded (usage.usd.units + reserved.usd.units) ∧
      Decimal.Unrounded (usage.usd.units + reserved.usd.units + requested.usd.units))
    (hbelow : limits.BelowLargest) (hlimit : limits.limit d = some limit) (hpos : 0 < limit) :
    usage.amount d + reserved.amount d + requested.amount d ≤ limit := by
  obtain ⟨hdec, hint⟩ := Option.or_eq_none_iff.mp h
  by_cases hd : d = .usd
  · subst hd
    obtain ⟨v, hv, rfl⟩ := Option.map_eq_some_iff.mp hlimit
    rw [hv] at hdec
    exact le_of_checkDecimal hpos (hexact rfl).1 (hexact rfl).2 hdec
  · obtain ⟨i, hi, _, ⟨v, hv, rfl⟩, hval⟩ := exists_integerDimension hd hlimit
    have hcheck := List.findSome?_eq_none_iff.mp hint i hi
    rw [hv] at hcheck
    have hcap := ResourceLimits.limit_le_cap hlimit
    have hlt : (v.val : ℤ) < 2 ^ 64 - 1 := by
      rcases lt_or_eq_of_le hcap with hlt | heq
      · refine lt_of_lt_of_le hlt ?_
        cases d with
        | usd => exact absurd rfl hd
        | _ => decide
      · cases d with
        | usd => exact absurd rfl hd
        | processCount | concurrencySlots => rw [heq]; decide
        | _ => exact absurd (heq ▸ hlimit) (hbelow _ rfl)
    have hle := le_of_checkInteger (by omega) (by omega) hcheck
    rw [← hval, ← hval, ← hval]
    omega

/-! ### The runs -/

variable [Platform Tz] [DecidableEq Tz]

/-- Limits are set on an account that has none and that no reservation counts against yet. -/
def SetsLimitFirst (x : Step (ResourceState Tz) (Command Tz)) : Prop :=
  ∀ account limits, x.command.operation = .setLimit account limits →
    (x.pre.account account).limits = none ∧
      ∀ r ∈ x.pre.reservations.rows, account ∉ ResourceAccount.cascade r.reservation.scope

/-- A reconcile reports at most the reserved estimate, in each dimension. -/
def ReportsWithinEstimate (x : Step (ResourceState Tz) (Command Tz)) : Prop :=
  ∀ id actual, x.command.operation = .reconcile id actual →
    ∀ r, x.pre.reservations.get id = some r →
      ∀ d, (ResourceTally.fromUsage actual).amount d ≤ r.tally.amount d

/-- No limit that is set is `u64::MAX` in a `u64` dimension. -/
def SetsBelowLargest (x : Step (ResourceState Tz) (Command Tz)) : Prop :=
  ∀ account limits, x.command.operation = .setLimit account limits → limits.BelowLargest

/-- The sums of money that an operation forms for an account are not rounded: the two of the check of
a reservation and what is on hold after it, what is left on hold when it is closed, and what is spent
with a report. -/
def SumsExact (s : ResourceState Tz) (c : Command Tz) (a : ResourceAccount) : Prop :=
  let p := (s.account a).advancePeriodIfRolledOver c.now
  let usage := p.usageTally.usd.units
  let reserved := p.reservedTally.usd.units
  match c.operation with
  | .reserve scope estimate _ =>
    let requested := (ResourceTally.fromEstimate estimate).usd.units
    a ∈ ResourceAccount.cascade scope → Decimal.Unrounded (usage + reserved) ∧
      Decimal.Unrounded (usage + reserved + requested) ∧ Decimal.Unrounded (reserved + requested)
  | .reconcile id actual => ∀ r ∈ s.reservations.get id, a ∈ r.accounts →
    Decimal.Fits (reserved - r.tally.usd.units) ∧ Decimal.Unrounded (usage + actual.usd.units)
  | .release id => ∀ r ∈ s.reservations.get id, a ∈ r.accounts →
    Decimal.Fits (reserved - r.tally.usd.units)
  | .setLimit _ _ | .accountSnapshot _ => True

instance (s : ResourceState Tz) (c : Command Tz) (a : ResourceAccount) :
    Decidable (SumsExact s c a) :=
  match c with
  | ⟨_, .reserve _ _ _⟩ => inferInstanceAs (Decidable (_ → _ ∧ _ ∧ _))
  | ⟨_, .reconcile id _⟩ => inferInstanceAs (Decidable (∀ r ∈ s.reservations.get id, _ → _ ∧ _))
  | ⟨_, .release id⟩ => inferInstanceAs (Decidable (∀ r ∈ s.reservations.get id, _ → _))
  | ⟨_, .setLimit _ _⟩ | ⟨_, .accountSnapshot _⟩ => inferInstanceAs (Decidable True)

/-- No sum of money is rounded for an account with a positive limit on it. -/
def RoundsNothing (x : Step (ResourceState Tz) (Command Tz)) : Prop :=
  ∀ a limits limit, (x.pre.account a).limits = some limits → limits.limit .usd = some limit →
    0 < limit → SumsExact x.pre x.command a

def usageAmount (s : ResourceState Tz) (a : ResourceAccount) (d : ResourceDimension) : ℤ :=
  (s.account a).usageTally.amount d

/-- The limits `limits` on account `a` are kept: in a limited dimension the ledger is the sum of
the holds, and usage plus reserved is within the limit. -/
def Within (s : ResourceState Tz) (a : ResourceAccount) (limits : ResourceLimits Tz) : Prop :=
  limits.BelowLargest ∧ ∀ d limit, limits.limit d = some limit → 0 < limit →
    reservedAmount s a d = held s a d ∧ usageAmount s a d + reservedAmount s a d ≤ limit

/-- No reservation counts against an account. -/
def Unreserved (s : ResourceState Tz) (a : ResourceAccount) : Prop :=
  ∀ r ∈ s.reservations.rows, a ∉ ResourceAccount.cascade r.reservation.scope

/-- The invariant of such a run. -/
structure Admits (s : ResourceState Tz) : Prop where
  wellFormed : WellFormed s
  unreserved : ∀ a, Unreserved s a → (s.account a).reservedTally = .zero
  within : ∀ a limits, (s.account a).limits = some limits → Within s a limits

variable {s : ResourceState Tz}

omit [Platform Tz] [DecidableEq Tz] in
theorem held_eq_zero (h : Unreserved s a) (d : ResourceDimension) : held s a d = 0 := by
  apply List.sum_eq_zero
  intro x hx
  obtain ⟨r, hr, rfl⟩ := List.mem_map.mp hx
  exact if_neg fun h' => h r hr h'.2

omit [Platform Tz] [DecidableEq Tz] in
/-- A record under a new id, or in place of one with the same scope, counts with the others. -/
theorem Unreserved.of_put {s s' : ResourceState Tz} {r : ReservationRecord}
    (hres : s'.reservations = s.reservations.put r)
    (hscope : ∀ old, s.reservations.get r.id = some old →
      old.reservation.scope = r.reservation.scope)
    (h : Unreserved s' a) :
    Unreserved s a ∧ a ∉ ResourceAccount.cascade r.reservation.scope := by
  rw [Unreserved, hres] at h
  have hnew := h r ((s.reservations.mem_put r r).mpr (.inl rfl))
  refine ⟨fun x hx => ?_, hnew⟩
  by_cases hid : x.id = r.id
  · rw [hscope x (hid ▸ Table.get_of_mem hx)]
    exact hnew
  · exact h x ((s.reservations.mem_put r x).mpr (.inr ⟨hx, hid⟩))

/-- An account that no reservation counts against holds nothing. -/
theorem Does.unreserved {s s' : ResourceState Tz} {c : Command Tz} (h : Does s c s')
    (hw : WellFormed s) (hs : ∀ a, Unreserved s a → (s.account a).reservedTally = .zero)
    (a : ResourceAccount) (ha : Unreserved s' a) : (s'.account a).reservedTally = .zero := by
  cases h with
  | setLimit account limits now =>
    rw [ResourceState.modify_account]
    split_ifs
    · rw [AccountParts.setLimit_reservedTally]
      exact hs a ha
    · exact hs a ha
  | refused _ => exact hs a ha
  | @denied scope _ _ now _ _ =>
    rw [Unreserved, ResourceState.modifyAll_reservations] at ha
    rw [ResourceState.modifyAll_account (ResourceAccount.cascade_nodup scope)]
    split_ifs
    · rw [AccountParts.advance_reservedTally]
      exact hs a ha
    · exact hs a ha
  | @reserved scope estimate id now _ hfresh _ =>
    have hnone : ∀ old, s.reservations.get id = some old → old.reservation.scope = scope := by
      simp [hfresh]
    obtain ⟨hbefore, hout⟩ : _ ∧ a ∉ ResourceAccount.cascade scope :=
      ha.of_put (r := activeRecord ⟨id, scope, estimate⟩ now) rfl hnone
    show (((s.modifyAll _ _).modifyAll _ _).account a).reservedTally = _
    rw [ResourceState.modifyAll_account (ResourceAccount.cascade_nodup scope), if_neg hout,
      ResourceState.modifyAll_account (ResourceAccount.cascade_nodup scope), if_neg hout]
    exact hs a hbefore
  | @reconciled id actual record now hget _ _ =>
    have hr := hw.record _ (Table.mem_of_get hget)
    have hid := Table.key_of_get hget
    obtain ⟨hbefore, hout⟩ := ha.of_put
      (r := { record with status := .reconciled, actual := some actual }) rfl fun old hold => by
        rw [show old = record from Option.some.inj (hold.symm.trans (hid.symm ▸ hget))]
    show ((s.modifyAll _ _).account a).reservedTally = _
    rw [ResourceState.modifyAll_account hr.nodup, if_neg (hr.accounts ▸ hout)]
    exact hs a hbefore
  | @released id record now hget _ =>
    have hr := hw.record _ (Table.mem_of_get hget)
    have hid := Table.key_of_get hget
    obtain ⟨hbefore, hout⟩ := ha.of_put (r := { record with status := .released }) rfl
      fun old hold => by
        rw [show old = record from Option.some.inj (hold.symm.trans (hid.symm ▸ hget))]
    show ((s.modifyAll _ _).account a).reservedTally = _
    rw [ResourceState.modifyAll_account hr.nodup, if_neg (hr.accounts ▸ hout)]
    exact hs a hbefore
  | snapshot account now =>
    rw [ResourceState.modify_account]
    split_ifs
    · rw [AccountParts.advance_reservedTally]
      exact hs a ha
    · exact hs a ha

omit [Platform Tz] [DecidableEq Tz] in
theorem Within.of_le {s s' : ResourceState Tz}
    (h : Within s a limits) (hheld : ∀ d, held s' a d = held s a d)
    (hres : ∀ d, reservedAmount s' a d = reservedAmount s a d)
    (huse : ∀ d, usageAmount s' a d ≤ usageAmount s a d) : Within s' a limits := by
  refine ⟨h.1, fun d limit hl hpos => ?_⟩
  obtain ⟨heq, hle⟩ := h.2 d limit hl hpos
  have := huse d
  rw [hheld, hres]
  exact ⟨heq, by omega⟩

theorem advance_usageAmount_le {p : AccountParts Tz} (hp : p.WellFormed) (now : ℤ)
    (d : ResourceDimension) :
    (p.advancePeriodIfRolledOver now).usageTally.amount d ≤ p.usageTally.amount d := by
  rcases p.advance_usageTally now with h | h
  · rw [h]
  · rw [h, ResourceTally.amount_zero]
    exact hp.usage.amount d

/-- Setting the limits of an account without limits and without reservations. -/
theorem within_setLimit (h : Admits s) (now : ℤ) (hbelow : limits.BelowLargest)
    (hnone : (s.account a).limits = none) (hfirst : Unreserved s a) :
    Within (s.modify a (·.setLimit limits now)) a limits := by
  refine ⟨hbelow, fun d limit _ hpos => ?_⟩
  have hheld : held s a d = 0 := held_eq_zero hfirst d
  have hres : reservedAmount s a d = 0 := by
    rw [reservedAmount, h.unreserved a hfirst, ResourceTally.amount_zero]
  have hres' : reservedAmount (s.modify a (·.setLimit limits now)) a d = 0 := by
    unfold reservedAmount
    rw [ResourceState.modify_account, if_pos rfl, AccountParts.setLimit_reservedTally]
    exact hres
  have huse : usageAmount (s.modify a (·.setLimit limits now)) a d = 0 := by
    unfold usageAmount
    rw [ResourceState.modify_account, if_pos rfl]
    simp [AccountParts.setLimit, hnone, AccountParts.usageTally]
  have hheld' : held (s.modify a (·.setLimit limits now)) a d = 0 := hheld
  rw [hres', huse, hheld']
  exact ⟨rfl, by omega⟩

theorem within_reserve (h : Admits s) {scope : ResourceScope}
    {estimate : ResourceEstimate} {id : ResourceReservationId} {now : ℤ}
    (hvalid : validateEstimate estimate = none) (hfresh : s.reservations.get id = none)
    (hadmitted : Admitted
      (s.modifyAll (ResourceAccount.cascade scope) (·.advancePeriodIfRolledOver now))
      (ResourceAccount.cascade scope) (.fromEstimate estimate))
    {s' : ResourceState Tz}
    (hacc : s'.account = ((s.modifyAll (ResourceAccount.cascade scope)
      (·.advancePeriodIfRolledOver now)).modifyAll (ResourceAccount.cascade scope)
      (·.hold (.fromEstimate estimate))).account)
    (hres : s'.reservations = s.reservations.put (activeRecord ⟨id, scope, estimate⟩ now))
    (hl : (s.account a).limits = some limits)
    (hexact : ∀ limit, limits.limit .usd = some limit → 0 < limit →
      SumsExact s ⟨now, .reserve scope estimate id⟩ a) : Within s' a limits := by
  have hw := h.within a limits hl
  have hnd := ResourceAccount.cascade_nodup scope
  have hheld := fun d => held_put_of_none (r := activeRecord ⟨id, scope, estimate⟩ now)
    hfresh hres a d
  by_cases ha : a ∈ ResourceAccount.cascade scope
  · have hadv : (s.modifyAll (ResourceAccount.cascade scope)
        (·.advancePeriodIfRolledOver now)).account a =
        (s.account a).advancePeriodIfRolledOver now := by
      rw [ResourceState.modifyAll_account hnd, if_pos ha]
    have hparts : s'.account a =
        ((s.account a).advancePeriodIfRolledOver now).hold (.fromEstimate estimate) := by
      rw [hacc, ResourceState.modifyAll_account hnd, if_pos ha, hadv]
    refine ⟨hw.1, fun d limit hlimit hpos => ?_⟩
    obtain ⟨heq, _⟩ := hw.2 d limit hlimit hpos
    have hcheck := hadmitted a ha limits (by rw [hadv, AccountParts.advance_limits, hl])
    rw [hadv] at hcheck
    have hsums : d = .usd → _ := fun hd => hexact limit (hd ▸ hlimit) hpos ha
    have hle := le_limit_of_checkLimitsFirstDenial hcheck
      (fun hd => ⟨(hsums hd).1, (hsums hd).2.1⟩) hw.1 hlimit hpos
    have hcap := ResourceLimits.limit_le_cap hlimit
    have huse := ((h.wellFormed.account a).advance now).usage.amount d
    have hhold : held s' a d = held s a d + (ResourceTally.fromEstimate estimate).amount d := by
      rw [hheld d]
      exact congrArg _ (if_pos ⟨rfl, ha⟩)
    have hr : reservedAmount s' a d =
        min (reservedAmount s a d + (ResourceTally.fromEstimate estimate).amount d) d.cap := by
      unfold reservedAmount
      rw [hparts, AccountParts.hold_reservedTally, AccountParts.advance_reservedTally,
        ResourceTally.amount_addAssign (h.wellFormed.account a).reserved
          (fromEstimate_nonneg hvalid)]
      intro hd
      have hhold := (hsums hd).2.2
      rwa [AccountParts.advance_reservedTally] at hhold
    have hu : usageAmount s' a d =
        ((s.account a).advancePeriodIfRolledOver now).usageTally.amount d := by
      unfold usageAmount
      rw [hparts, AccountParts.hold_usageTally]
    rw [AccountParts.advance_reservedTally] at hle
    unfold reservedAmount at heq hr ⊢
    omega
  · have hparts : s'.account a = s.account a := by
      rw [hacc, ResourceState.modifyAll_account hnd, if_neg ha,
        ResourceState.modifyAll_account hnd, if_neg ha]
    apply hw.of_le
    · intro d
      rw [hheld d, show (activeRecord ⟨id, scope, estimate⟩ now).holds a d = 0 from
        if_neg fun h' => ha h'.2, add_zero]
    · intro d
      unfold reservedAmount
      rw [hparts]
    · intro d
      unfold usageAmount
      rw [hparts]

/-- A reservation that is closed: its hold is given back, and at most as much is spent. -/
theorem within_close (h : Admits s) {record : ReservationRecord}
    (record' : ReservationRecord) (now : ℤ) (spent : ResourceDimension → ℤ)
    (hmost : ∀ d, spent d ≤ record.tally.amount d)
    (hexact : ∀ limit, limits.limit .usd = some limit → 0 < limit → a ∈ record.accounts →
      Decimal.Fits ((s.account a).reservedTally.usd.units - record.tally.usd.units))
    (hget : s.reservations.get record.id = some record) (hactive : record.status = .active)
    (hid : record'.id = record.id) (hclosed : record'.status ≠ .active) {s' : ResourceState Tz}
    (hres : s'.reservations = s.reservations.put record')
    (hin : a ∈ record.accounts →
      (s'.account a).reservedTally = (s.account a).reservedTally.subAssign Tz record.tally ∧
        ∀ d limit, limits.limit d = some limit → 0 < limit → usageAmount s' a d ≤
          ((s.account a).advancePeriodIfRolledOver now).usageTally.amount d + spent d)
    (hout : a ∉ record.accounts → s'.account a = s.account a)
    (hl : (s.account a).limits = some limits) :
    Within s' a limits := by
  have hw := h.within a limits hl
  have hmem := Table.mem_of_get hget
  have hr := h.wellFormed.record record hmem
  have hheld := fun d => held_put_closed record' hget hid hclosed hres a d
  by_cases ha : a ∈ record.accounts
  · obtain ⟨hrp, hup⟩ := hin ha
    refine ⟨hw.1, fun d limit hlimit hpos => ?_⟩
    obtain ⟨heq, hle⟩ := hw.2 d limit hlimit hpos
    have hx : record.holds a d = record.tally.amount d := if_pos ⟨hactive, hr.accounts ▸ ha⟩
    have hhold := h.wellFormed.holds_le_held hmem a d
    have hmono := advance_usageAmount_le (h.wellFormed.account a) now d
    have hm := hmost d
    have hh := hheld d
    have hr' : reservedAmount s' a d = max (reservedAmount s a d - record.tally.amount d) 0 := by
      unfold reservedAmount
      rw [hrp, ResourceTally.amount_subAssign]
      exact fun hd => hexact limit (hd ▸ hlimit) hpos ha
    have hu' := hup d limit hlimit hpos
    unfold usageAmount at hle hu' ⊢
    omega
  · have hparts := hout ha
    apply hw.of_le
    · intro d
      have hx : record.holds a d = 0 := if_neg fun h' => ha (hr.accounts ▸ h'.2)
      rw [hheld d, hx, sub_zero]
    · intro d
      unfold reservedAmount
      rw [hparts]
    · intro d
      unfold usageAmount
      rw [hparts]

/-- The limits of an account change by `setLimit` alone. -/
theorem Does.limits_eq {s s' : ResourceState Tz} {c : Command Tz} (h : Does s c s')
    (hw : WellFormed s) (a : ResourceAccount) (hne : ∀ limits, c.operation ≠ .setLimit a limits) :
    (s'.account a).limits = (s.account a).limits := by
  cases h with
  | setLimit account limits now =>
    rw [ResourceState.modify_account, if_neg]
    rintro rfl
    exact hne limits rfl
  | refused _ => rfl
  | @denied scope _ _ now _ _ =>
    rw [ResourceState.modifyAll_account (ResourceAccount.cascade_nodup scope)]
    split_ifs <;> simp
  | @reserved scope _ _ now _ _ _ =>
    show (((s.modifyAll _ _).modifyAll _ _).account a).limits = _
    rw [ResourceState.modifyAll_account (ResourceAccount.cascade_nodup scope),
      ResourceState.modifyAll_account (ResourceAccount.cascade_nodup scope)]
    split_ifs
    · exact AccountParts.advance_limits now
    · rfl
  | reconciled now hget _ _ =>
    show ((s.modifyAll _ _).account a).limits = _
    rw [ResourceState.modifyAll_account (hw.record _ (Table.mem_of_get hget)).nodup]
    split_ifs
    · exact AccountParts.advance_limits now
    · rfl
  | released now hget _ =>
    show ((s.modifyAll _ _).account a).limits = _
    rw [ResourceState.modifyAll_account (hw.record _ (Table.mem_of_get hget)).nodup]
    split_ifs
    · exact AccountParts.advance_limits now
    · rfl
  | snapshot account now =>
    rw [ResourceState.modify_account]
    split_ifs <;> simp

/-- A step keeps every account within its limits. -/
theorem Admits.step {s s' : ResourceState Tz} {c : Command Tz} (h : Admits s) (hdoes : Does s c s')
    (hfirst : SetsLimitFirst ⟨s, c, s'⟩) (hreports : ReportsWithinEstimate ⟨s, c, s'⟩)
    (hbelow : SetsBelowLargest ⟨s, c, s'⟩) (hrounds : RoundsNothing ⟨s, c, s'⟩) : Admits s' := by
  have hw := h.wellFormed
  refine ⟨hdoes.wellFormed hw, hdoes.unreserved hw h.unreserved, ?_⟩
  intro a limits hl'
  by_cases hset : ∃ l, c.operation = .setLimit a l
  · obtain ⟨l, hl⟩ := hset
    obtain ⟨hnone, hno⟩ := hfirst a l hl
    cases hdoes with
    | setLimit account limits₀ now =>
      obtain ⟨rfl, rfl⟩ : account = a ∧ limits₀ = l := by simpa using hl
      rw [ResourceState.modify_account, if_pos rfl] at hl'
      obtain rfl : limits₀ = limits := by simpa [AccountParts.setLimit] using hl'
      exact within_setLimit h now (hbelow account limits₀ rfl) hnone hno
    | refused ht => exact absurd ht (by simp [touched, hl])
    | _ => cases hl
  · have hl : (s.account a).limits = some limits := by
      rw [← hdoes.limits_eq hw a fun l hl => hset ⟨l, hl⟩]
      exact hl'
    have same : ∀ {t : ResourceState Tz}, t.reservations = s.reservations →
        (t.account a = s.account a ∨
          ∃ now, t.account a = (s.account a).advancePeriodIfRolledOver now) →
        Within t a limits := by
      intro t hres hp
      apply (h.within a limits hl).of_le
      · intro d
        unfold held
        rw [hres]
      · intro d
        rcases hp with hp | ⟨now, hp⟩ <;> simp [reservedAmount, hp]
      · intro d
        rcases hp with hp | ⟨now, hp⟩
        · simp [usageAmount, hp]
        · simpa [usageAmount, hp] using advance_usageAmount_le (hw.account a) now d
    cases hdoes with
    | setLimit account limits₀ now =>
      refine same rfl (.inl ?_)
      rw [ResourceState.modify_account, if_neg]
      rintro rfl
      exact hset ⟨limits₀, rfl⟩
    | refused _ => exact h.within a limits hl
    | @denied scope _ _ now _ _ =>
      refine same (by simp) ?_
      rw [ResourceState.modifyAll_account (ResourceAccount.cascade_nodup scope)]
      split_ifs
      · exact .inr ⟨now, rfl⟩
      · exact .inl rfl
    | reserved now hvalid hfresh hadmitted =>
      exact within_reserve h hvalid hfresh hadmitted rfl rfl hl fun limit hlimit hpos =>
        hrounds a limits limit hl hlimit hpos
    | @reconciled id actual record now hget hactive hvalid =>
      have hnd := (hw.record _ (Table.mem_of_get hget)).nodup
      have hid := Table.key_of_get hget
      have hsums : ∀ limit, limits.limit .usd = some limit → 0 < limit → a ∈ record.accounts → _ :=
        fun limit hlimit hpos ha => hrounds a limits limit hl hlimit hpos record hget ha
      simp only [AccountParts.advance_reservedTally] at hsums
      refine within_close h { record with status := .reconciled, actual := some actual } now
        (fun d => (ResourceTally.fromUsage actual).amount d)
        (hreports id actual rfl record hget)
        (fun limit hlimit hpos ha => (hsums limit hlimit hpos ha).1) (hid.symm ▸ hget) hactive rfl
        (by simp) rfl ?_ ?_ hl
      · intro ha
        have hp : ((s.modifyAll record.accounts fun p =>
            ((p.advancePeriodIfRolledOver now).unhold record.tally).spend
              (.fromUsage actual)).account a) = _ :=
          ResourceState.modifyAll_account hnd _ a s
        rw [if_pos ha] at hp
        refine ⟨?_, fun d limit hlimit hpos => ?_⟩
        · show ((s.modifyAll _ _).account a).reservedTally = _
          rw [hp]
          simp
        · show ((s.modifyAll _ _).account a).usageTally.amount d ≤ _
          rw [hp, AccountParts.spend_usageTally, AccountParts.unhold_usageTally,
            ResourceTally.amount_addAssign ((hw.account a).advance now).usage
              (fromUsage_nonneg hvalid) fun hd => (hsums limit (hd ▸ hlimit) hpos ha).2]
          exact min_le_left _ _
      · intro ha
        show (s.modifyAll _ _).account a = _
        rw [ResourceState.modifyAll_account hnd, if_neg ha]
    | @released id record now hget hactive =>
      have hr := hw.record _ (Table.mem_of_get hget)
      have hid := Table.key_of_get hget
      have hsums : ∀ limit, limits.limit .usd = some limit → 0 < limit → a ∈ record.accounts → _ :=
        fun limit hlimit hpos ha => hrounds a limits limit hl hlimit hpos record hget ha
      simp only [AccountParts.advance_reservedTally] at hsums
      refine within_close h { record with status := .released } now (fun _ => 0)
        (fun d => hr.tally.amount d) hsums (hid.symm ▸ hget) hactive rfl (by simp) rfl ?_ ?_ hl
      · intro ha
        have hp : ((s.modifyAll record.accounts fun p =>
            (p.advancePeriodIfRolledOver now).unhold record.tally).account a) = _ :=
          ResourceState.modifyAll_account hr.nodup _ a s
        rw [if_pos ha] at hp
        refine ⟨?_, fun d _ _ _ => ?_⟩
        · show ((s.modifyAll _ _).account a).reservedTally = _
          rw [hp]
          simp
        · show ((s.modifyAll _ _).account a).usageTally.amount d ≤ _
          rw [hp, AccountParts.unhold_usageTally, add_zero]
      · intro ha
        show (s.modifyAll _ _).account a = _
        rw [ResourceState.modifyAll_account hr.nodup, if_neg ha]
    | snapshot account now =>
      refine same rfl ?_
      rw [ResourceState.modify_account]
      split_ifs
      · exact .inr ⟨now, rfl⟩
      · exact .inl rfl

omit [Platform Tz] [DecidableEq Tz] in
theorem admits_empty : Admits (.empty : ResourceState Tz) where
  wellFormed := wellFormed_empty
  unreserved := fun _ _ => rfl
  within := fun a limits h => absurd h (by simp [ResourceState.empty, AccountParts.empty])

/-- No over-admission: in every run in which limits are set once on an account, before its first
reservation, none of them `u64::MAX`, reconciles report at most their estimate, and no sum of money
is rounded for an account with a limit on it, usage plus reserved of every account is within each of
its positive limits. -/
theorem usage_plus_reserved_within_limits {history : History Tz} {s : ResourceState Tz}
    (run : GovernorRun history s) (hfirst : ∀ x ∈ history, SetsLimitFirst x)
    (hreports : ∀ x ∈ history, ReportsWithinEstimate x)
    (hbelow : ∀ x ∈ history, SetsBelowLargest x) (hrounds : ∀ x ∈ history, RoundsNothing x)
    (a : ResourceAccount)
    {limits : ResourceLimits Tz} (hlimits : (s.account a).limits = some limits)
    (d : ResourceDimension) {limit : ℤ} (hlimit : limits.limit d = some limit) (hpos : 0 < limit) :
    (s.account a).usageTally.amount d + (s.account a).reservedTally.amount d ≤ limit := by
  have inv : (∀ x ∈ history, SetsLimitFirst x ∧ ReportsWithinEstimate x ∧ SetsBelowLargest x ∧
      RoundsNothing x) → Admits s := by
    refine Run.induct_history (A := fun _ => True)
      (I := fun h s => (∀ x ∈ h, SetsLimitFirst x ∧ ReportsWithinEstimate x ∧ SetsBelowLargest x ∧
        RoundsNothing x) → Admits s) (fun _ => admits_empty) ?_ ?_ run (fun _ _ => trivial)
    · rintro h s _ rfl hi
      exact hi
    · intro h s c _ hi hall
      simp only [List.mem_append, List.mem_singleton] at hall
      obtain ⟨h1, h2, h3, h4⟩ := hall _ (.inr rfl)
      exact (hi fun x hx => hall x (.inl hx)).step (perform_does s c) h1 h2 h3 h4
  have hs := inv fun x hx => ⟨hfirst x hx, hreports x hx, hbelow x hx, hrounds x hx⟩
  exact ((hs.within a limits hlimits).2 d limit hlimit hpos).2

/-! ### Two runs -/

/-- Limits on the tenant, a reservation, its report, and a second reservation. -/
def Sample.reportAndReserve (limits : ResourceLimits UtcOnly) (first : ResourceEstimate)
    (reported : ResourceUsage) (second : ResourceEstimate) : List (Command UtcOnly) :=
  [⟨0, .setLimit Sample.tenant limits⟩, ⟨1, .reserve Sample.scope first ⟨1⟩⟩,
    ⟨2, .reconcile ⟨1⟩ reported⟩, ⟨3, .reserve Sample.scope second ⟨2⟩⟩]

section

variable {limits : ResourceLimits UtcOnly} {first second : ResourceEstimate}
  {reported : ResourceUsage}

private theorem reportAndReserve_setsLimitFirst :
    ∀ x ∈ Run.trace governor .empty (Sample.reportAndReserve limits first reported second),
      SetsLimitFirst x := by
  intro x hx account limits hop
  simp only [Sample.reportAndReserve, Run.trace, List.mem_cons, List.not_mem_nil, or_false] at hx
  rcases hx with rfl | rfl | rfl | rfl
  · exact ⟨rfl, fun r hr => absurd hr List.not_mem_nil⟩
  all_goals cases hop

private theorem reportAndReserve_reports
    (hle : ∀ d, (ResourceTally.fromUsage reported).amount d ≤
      (ResourceTally.fromEstimate first).amount d)
    (hactive : (([⟨0, .setLimit Sample.tenant limits⟩, ⟨1, .reserve Sample.scope first ⟨1⟩⟩] :
      List (Command UtcOnly)).foldl (advance governor) ResourceState.empty).reservations.rows =
        [activeRecord ⟨⟨1⟩, Sample.scope, first⟩ 1]) :
    ∀ x ∈ Run.trace governor .empty (Sample.reportAndReserve limits first reported second),
      ReportsWithinEstimate x := by
  intro x hx id actual hop r hr d
  simp only [Sample.reportAndReserve, Run.trace, List.mem_cons, List.not_mem_nil, or_false] at hx
  rcases hx with rfl | rfl | rfl | rfl
  · cases hop
  · cases hop
  · cases hop
    have hmem := Table.mem_of_get hr
    rw [List.foldl_cons, List.foldl_cons, List.foldl_nil] at hactive
    rw [hactive, List.mem_singleton] at hmem
    subst hmem
    exact hle d
  · cases hop

private theorem reportAndReserve_belowLargest (h : limits.BelowLargest) :
    ∀ x ∈ Run.trace governor .empty (Sample.reportAndReserve limits first reported second),
      SetsBelowLargest x := by
  intro x hx account limits hop
  simp only [Sample.reportAndReserve, Run.trace, List.mem_cons, List.not_mem_nil, or_false] at hx
  rcases hx with rfl | rfl | rfl | rfl
  · cases hop
    exact h
  all_goals cases hop

private theorem eq_tenant_of_limits : ∀ (commands : List (Command UtcOnly))
    (init : ResourceState UtcOnly), WellFormed init →
    (∀ a, (init.account a).limits ≠ none → a = Sample.tenant) →
    (∀ c ∈ commands, ∀ a l, c.operation = .setLimit a l → a = Sample.tenant) →
    ∀ x ∈ Run.trace governor init commands, ∀ a, (x.pre.account a).limits ≠ none → a = Sample.tenant
  | [], _, _, _, _ => fun x hx => absurd hx List.not_mem_nil
  | c :: commands, init, hw, hinit, hall => by
    rw [List.forall_mem_cons] at hall
    rw [Run.trace, List.forall_mem_cons]
    refine ⟨hinit, eq_tenant_of_limits commands _ ((perform_does init c).wellFormed hw) ?_ hall.2⟩
    intro a ha
    by_cases hset : ∃ l, c.operation = .setLimit a l
    · exact hall.1 a hset.choose hset.choose_spec
    · have hsame := (perform_does init c).limits_eq hw a fun l hl => hset ⟨l, hl⟩
      exact hinit a (hsame ▸ ha)

private theorem reportAndReserve_roundsNothing
    (h : ∀ x ∈ Run.trace governor .empty (Sample.reportAndReserve limits first reported second),
      SumsExact x.pre x.command Sample.tenant) :
    ∀ x ∈ Run.trace governor .empty (Sample.reportAndReserve limits first reported second),
      RoundsNothing x := by
  intro x hx a l limit hl _ _
  have ha : a = Sample.tenant := by
    refine eq_tenant_of_limits _ _ wellFormed_empty (fun a ha => absurd rfl ha) ?_ x hx a (by simp [hl])
    intro c hc a l hop
    simp only [Sample.reportAndReserve, List.mem_cons, List.not_mem_nil, or_false] at hc
    rcases hc with rfl | rfl | rfl | rfl
    · cases hop
      rfl
    all_goals cases hop
  exact ha ▸ h x hx

end

/-- Limit of 10 dollars: five reserved, three reported, six more reserved. -/
theorem second_reservation_within_limit :
    let commands := Sample.reportAndReserve (Sample.budget 10) (Sample.cost 5) (Sample.paid 3)
      (Sample.cost 6)
    let s : ResourceState UtcOnly := commands.foldl (advance governor) ResourceState.empty
    (s.account Sample.tenant).usageTally.amount .usd = 3 * 10 ^ 28 ∧
      (s.account Sample.tenant).usageTally.amount .usd +
        (s.account Sample.tenant).reservedTally.amount .usd ≤ 10 * 10 ^ 28 := by
  intro commands s
  have run : GovernorRun (Run.trace governor .empty commands) s :=
    Run.of_commands (fun _ => rfl) commands ResourceState.empty
  have hlimits : (s.account Sample.tenant).limits = some (Sample.budget 10) := by decide +kernel
  have hlimit : (Sample.budget 10).limit .usd = some (10 * 10 ^ 28) := by decide +kernel
  refine ⟨by decide +kernel, ?_⟩
  exact usage_plus_reserved_within_limits run reportAndReserve_setsLimitFirst
    (reportAndReserve_reports (by intro d; cases d <;> decide) (by decide +kernel))
    (reportAndReserve_belowLargest (by intro d _; cases d <;> decide))
    (reportAndReserve_roundsNothing (by decide +kernel)) Sample.tenant hlimits .usd hlimit (by decide)

/-- Limit `u64::MAX`: the whole of it reserved and reported, and five more reserved; the account
is over its limit. -/
theorem largest_limit_admits_more :
    let commands := Sample.reportAndReserve (Sample.limits ⟨2 ^ 64 - 1, by decide⟩ .rolling24h)
      (Sample.tokens ⟨2 ^ 64 - 1, by decide⟩) (Sample.spent ⟨2 ^ 64 - 1, by decide⟩)
      (Sample.tokens ⟨5, by decide⟩)
    let history := Run.trace governor ResourceState.empty commands
    let s : ResourceState UtcOnly := commands.foldl (advance governor) ResourceState.empty
    GovernorRun history s ∧ (∀ x ∈ history, SetsLimitFirst x) ∧
      (∀ x ∈ history, ReportsWithinEstimate x) ∧
      (s.account Sample.tenant).limits =
        some (Sample.limits ⟨2 ^ 64 - 1, by decide⟩ .rolling24h) ∧
      ¬ (s.account Sample.tenant).usageTally.amount .inputTokens +
        (s.account Sample.tenant).reservedTally.amount .inputTokens ≤ 2 ^ 64 - 1 := by
  intro commands history s
  refine ⟨Run.of_commands (fun _ => rfl) _ ResourceState.empty, reportAndReserve_setsLimitFirst,
    reportAndReserve_reports (by intro d; cases d <;> decide) (by decide +kernel), by decide +kernel,
    by decide +kernel⟩

end Ironclaw.Resources
