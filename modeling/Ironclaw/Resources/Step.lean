import Ironclaw.Lib.Run
import Ironclaw.Resources.Governor

/-! # What one operation of the governor does

`perform` executes an operation at a clock reading, `GovernorRun` is a run from the empty state
with arbitrary readings. `Does` says once, for each operation, what the state after it is; every
invariant is proved by cases on it (`perform_does`).

* `touched` lists the accounts an operation gets to: none when it is refused before its loop, and
  no other account changes (`perform_account_of_not_touched`).
* `WellFormed` is what every reachable state has: a record's accounts are the cascade of its scope
  and no amount of money is below zero. -/

namespace Ironclaw.Resources

variable {Tz : Type} [Platform Tz] [DecidableEq Tz]

inductive Operation (Tz : Type) where
  | setLimit (account : ResourceAccount) (limits : ResourceLimits Tz)
  | reserve (scope : ResourceScope) (estimate : ResourceEstimate)
      (reservationId : ResourceReservationId)
  | reconcile (reservationId : ResourceReservationId) (actual : ResourceUsage)
  | release (reservationId : ResourceReservationId)
  | accountSnapshot (account : ResourceAccount)

/-- An operation and the clock reading it is executed at. -/
structure Command (Tz : Type) where
  now : ℤ
  operation : Operation Tz

inductive Answer (Tz : Type) where
  | limitSet
  | reservation (result : Except ResourceError ReservationOutcome)
  | receipt (result : Except ResourceError ResourceReceipt)
  | snapshot (result : Option (AccountSnapshot Tz))

def ResourceState.perform (s : ResourceState Tz) (c : Command Tz) : Answer Tz × ResourceState Tz :=
  match c.operation with
  | .setLimit account limits => (.limitSet, setLimitInState s account limits c.now)
  | .reserve scope estimate reservationId =>
    let r := reserveWithOutcomeInState s scope estimate reservationId c.now
    (.reservation r.1, r.2)
  | .reconcile reservationId actual =>
    let r := reconcileInState s reservationId actual c.now
    (.receipt r.1, r.2)
  | .release reservationId =>
    let r := releaseInState s reservationId c.now
    (.receipt r.1, r.2)
  | .accountSnapshot account =>
    let r := accountSnapshotInState s account c.now
    (.snapshot r.1, r.2)

/-- The governor as a machine; no command is rejected, an error is an answer. -/
def governor (s : ResourceState Tz) (c : Command Tz) :
    Except Empty (Answer Tz × ResourceState Tz) := .ok (s.perform c)

/-- The steps of a run, oldest first. -/
abbrev History (Tz : Type) := List (Step (ResourceState Tz) (Command Tz))

abbrev GovernorRun : History Tz → ResourceState Tz → Prop := Run Eq governor .empty

@[simp] theorem advance_governor (s : ResourceState Tz) (c : Command Tz) :
    advance governor s c = (s.perform c).2 := rfl

/-! ### Inversion -/

/-- The accounts an operation gets to. -/
def touched (s : ResourceState Tz) (c : Command Tz) : List ResourceAccount :=
  match c.operation with
  | .setLimit account _ => [account]
  | .reserve scope estimate reservationId =>
    if validateEstimate estimate = none ∧ s.reservations.get reservationId = none then
      ResourceAccount.cascade scope
    else []
  | .reconcile reservationId actual =>
    match s.reservations.get reservationId with
    | some record =>
      if record.status = .active ∧ validateUsage actual = none then record.accounts else []
    | none => []
  | .release reservationId =>
    match s.reservations.get reservationId with
    | some record => if record.status = .active then record.accounts else []
    | none => []
  | .accountSnapshot account => [account]

/-- A reservation that passed the check: no limit of an account it counts against denies it. -/
def Admitted (s : ResourceState Tz) (accounts : List ResourceAccount) (requested : ResourceTally) :
    Prop :=
  ∀ a ∈ accounts, ∀ limits, (s.account a).limits = some limits →
    checkLimitsFirstDenial a limits (s.account a).usageTally (s.account a).reservedTally
      requested = none

/-- What an operation does to the state. -/
inductive Does (s : ResourceState Tz) : Command Tz → ResourceState Tz → Prop
  | setLimit (account : ResourceAccount) (limits : ResourceLimits Tz) (now : ℤ) :
      Does s ⟨now, .setLimit account limits⟩ (s.modify account (·.setLimit limits now))
  | refused {c : Command Tz} (h : touched s c = []) : Does s c s
  | denied {scope : ResourceScope} {estimate : ResourceEstimate} {id : ResourceReservationId}
      (now : ℤ) (hvalid : validateEstimate estimate = none)
      (hfresh : s.reservations.get id = none) :
      Does s ⟨now, .reserve scope estimate id⟩
        (s.modifyAll (ResourceAccount.cascade scope) (·.advancePeriodIfRolledOver now))
  | reserved {scope : ResourceScope} {estimate : ResourceEstimate} {id : ResourceReservationId}
      (now : ℤ) (hvalid : validateEstimate estimate = none)
      (hfresh : s.reservations.get id = none)
      (hadmitted : Admitted
        (s.modifyAll (ResourceAccount.cascade scope) (·.advancePeriodIfRolledOver now))
        (ResourceAccount.cascade scope) (.fromEstimate estimate)) :
      Does s ⟨now, .reserve scope estimate id⟩
        { (s.modifyAll (ResourceAccount.cascade scope)
            (·.advancePeriodIfRolledOver now)).modifyAll (ResourceAccount.cascade scope)
            (·.hold (.fromEstimate estimate)) with
          reservations := s.reservations.put (activeRecord ⟨id, scope, estimate⟩ now) }
  | reconciled {id : ResourceReservationId} {actual : ResourceUsage} {record : ReservationRecord}
      (now : ℤ) (hget : s.reservations.get id = some record) (hactive : record.status = .active)
      (hvalid : validateUsage actual = none) :
      Does s ⟨now, .reconcile id actual⟩
        { s.modifyAll record.accounts (fun p =>
            ((p.advancePeriodIfRolledOver now).unhold record.tally).spend (.fromUsage actual)) with
          reservations :=
            s.reservations.put { record with status := .reconciled, actual := some actual } }
  | released {id : ResourceReservationId} {record : ReservationRecord} (now : ℤ)
      (hget : s.reservations.get id = some record) (hactive : record.status = .active) :
      Does s ⟨now, .release id⟩
        { s.modifyAll record.accounts (fun p =>
            (p.advancePeriodIfRolledOver now).unhold record.tally) with
          reservations := s.reservations.put { record with status := .released } }
  | snapshot (account : ResourceAccount) (now : ℤ) :
      Does s ⟨now, .accountSnapshot account⟩ (s.modify account (·.advancePeriodIfRolledOver now))

omit [DecidableEq Tz] in
theorem admitted_of_evaluateCascade {s : ResourceState Tz} {requested : ResourceTally} :
    ∀ {accounts : List ResourceAccount} {warnings warnings' : List BudgetWarning},
      evaluateCascade s requested accounts warnings = .ok warnings' →
      Admitted s accounts requested
  | [], _, _, _ => fun a ha => absurd ha List.not_mem_nil
  | b :: accounts, warnings, warnings', h => by
    intro a ha limits hl
    rw [evaluateCascade] at h
    rcases List.mem_cons.mp ha with rfl | ha
    · rw [hl] at h
      dsimp only at h
      unfold evaluateCascadeForAccount at h
      cases hd : checkLimitsFirstDenial a limits (s.account a).usageTally
        (s.account a).reservedTally requested with
      | none => rfl
      | some denial => simp [hd] at h
    · split at h
      · exact admitted_of_evaluateCascade h a ha limits hl
      · dsimp only at h
        split at h
        · exact admitted_of_evaluateCascade h a ha limits hl
        · simp at h
        · simp at h

theorem perform_does (s : ResourceState Tz) (c : Command Tz) : Does s c (s.perform c).2 := by
  obtain ⟨now, operation⟩ := c
  cases operation with
  | setLimit account limits => exact .setLimit account limits now
  | reserve scope estimate id =>
    simp only [ResourceState.perform, reserveWithOutcomeInState]
    cases hv : validateEstimate estimate with
    | some e => exact .refused (by simp [touched, hv])
    | none =>
      dsimp only
      cases hg : s.reservations.get id with
      | some r => exact .refused (by simp [touched, hg])
      | none =>
        rw [if_neg (by simp)]
        cases he : evaluateCascade (s.modifyAll (ResourceAccount.cascade scope)
          (·.advancePeriodIfRolledOver now)) (.fromEstimate estimate)
          (ResourceAccount.cascade scope) [] with
        | error e => exact .denied now hv hg
        | ok w =>
          have h := Does.reserved now hv hg (admitted_of_evaluateCascade he)
          simpa using h
  | reconcile id actual =>
    simp only [ResourceState.perform, reconcileInState]
    cases hg : s.reservations.get id with
    | none => exact .refused (by simp [touched, hg])
    | some record =>
      dsimp only
      split_ifs with ha
      · exact .refused (by simp [touched, hg, ha])
      · cases hv : validateUsage actual with
        | some e => exact .refused (by simp [touched, hg, hv])
        | none => simpa using Does.reconciled now hg (not_not.mp ha) hv
  | release id =>
    simp only [ResourceState.perform, releaseInState]
    cases hg : s.reservations.get id with
    | none => exact .refused (by simp [touched, hg])
    | some record =>
      dsimp only
      split_ifs with ha
      · exact .refused (by simp [touched, hg, ha])
      · simpa using Does.released now hg (not_not.mp ha)
  | accountSnapshot account =>
    have e : (s.perform ⟨now, .accountSnapshot account⟩).2 =
        s.modify account (·.advancePeriodIfRolledOver now) := by
      simp only [ResourceState.perform, accountSnapshotInState]
      split_ifs <;> rfl
    rw [e]
    exact .snapshot account now

/-! ### Reachable states -/

/-- A record as the governor writes it. -/
structure ReservationRecord.WellFormed (r : ReservationRecord) : Prop where
  accounts : r.accounts = ResourceAccount.cascade r.reservation.scope
  tally : r.tally.Nonneg

structure WellFormed (s : ResourceState Tz) : Prop where
  record : ∀ r ∈ s.reservations.rows, r.WellFormed
  account : ∀ a, (s.account a).WellFormed

theorem fromEstimate_nonneg {estimate : ResourceEstimate}
    (h : validateEstimate estimate = none) : (ResourceTally.fromEstimate estimate).Nonneg := by
  unfold validateEstimate at h
  unfold ResourceTally.Nonneg ResourceTally.fromEstimate
  cases hu : estimate.usd with
  | none => exact le_rfl
  | some usd =>
    rw [hu] at h
    dsimp only at h
    split_ifs at h with hneg
    exact not_lt.mp hneg

theorem fromUsage_nonneg {usage : ResourceUsage} (h : validateUsage usage = none) :
    (ResourceTally.fromUsage usage).Nonneg := by
  unfold validateUsage at h
  split_ifs at h with hneg
  exact not_lt.mp hneg

namespace AccountParts

variable {p : AccountParts Tz}

/-- A rollover drops the usage and moves the anchor, or does nothing. -/
theorem advance_cases (p : AccountParts Tz) (now : ℤ) :
    p.advancePeriodIfRolledOver now = p ∨
    ∃ limits, p.limits = some limits ∧ limits.period ≠ .perInvocation ∧
      p.advancePeriodIfRolledOver now =
        { p with usage := none, periodAnchor := some (periodBounds limits.period now).2 } := by
  unfold advancePeriodIfRolledOver
  split
  · exact .inl rfl
  · rename_i limits hl
    split_ifs with h1 h2
    · exact .inl rfl
    · exact .inr ⟨limits, hl, h1, rfl⟩
    · exact .inl rfl

@[simp] theorem advance_reservedTally (now : ℤ) :
    (p.advancePeriodIfRolledOver now).reservedTally = p.reservedTally := by
  obtain h | ⟨_, _, _, h⟩ := p.advance_cases now <;> rw [h]
  rfl

@[simp] theorem advance_limits (now : ℤ) : (p.advancePeriodIfRolledOver now).limits = p.limits := by
  obtain h | ⟨_, _, _, h⟩ := p.advance_cases now <;> rw [h]

theorem advance_usageTally (p : AccountParts Tz) (now : ℤ) :
    (p.advancePeriodIfRolledOver now).usageTally = p.usageTally ∨
      (p.advancePeriodIfRolledOver now).usageTally = .zero := by
  obtain h | ⟨_, _, _, h⟩ := p.advance_cases now
  · exact .inl (by rw [h])
  · exact .inr (by rw [h]; rfl)

@[simp] theorem setLimit_reservedTally (limits : ResourceLimits Tz) (now : ℤ) :
    (p.setLimit limits now).reservedTally = p.reservedTally := by
  unfold setLimit
  split_ifs <;> rfl

theorem WellFormed.advance (h : p.WellFormed) (now : ℤ) :
    (p.advancePeriodIfRolledOver now).WellFormed := by
  refine ⟨by simpa using h.reserved, ?_⟩
  obtain hu | hu := p.advance_usageTally now <;> rw [hu]
  · exact h.usage
  · exact ResourceTally.zero_nonneg

theorem WellFormed.setLimit (h : p.WellFormed) (limits : ResourceLimits Tz) (now : ℤ) :
    (p.setLimit limits now).WellFormed := by
  refine ⟨by simpa using h.reserved, ?_⟩
  unfold AccountParts.setLimit
  split_ifs
  · exact ResourceTally.zero_nonneg
  · exact h.usage

end AccountParts

omit [Platform Tz] [DecidableEq Tz] in
/-- What a change of an account keeps, a loop over accounts keeps. -/
theorem ResourceState.forall_modifyAll {P : AccountParts Tz → Prop}
    {f : AccountParts Tz → AccountParts Tz} (hf : ∀ p, P p → P (f p))
    (accounts : List ResourceAccount) :
    ∀ {s : ResourceState Tz}, (∀ a, P (s.account a)) →
      ∀ a, P ((s.modifyAll accounts f).account a) := by
  induction accounts with
  | nil => exact fun h => h
  | cons b accounts ih =>
    intro s h
    apply ih
    intro a
    rw [modify_account]
    split_ifs
    · exact hf _ (h a)
    · exact h a

omit [Platform Tz] [DecidableEq Tz] in
theorem wellFormed_empty : WellFormed (.empty : ResourceState Tz) where
  record := fun _ hr => absurd hr List.not_mem_nil
  account := fun _ => ⟨ResourceTally.zero_nonneg, ResourceTally.zero_nonneg⟩

theorem Does.wellFormed {s s' : ResourceState Tz} {c : Command Tz} (h : Does s c s')
    (hw : WellFormed s) : WellFormed s' := by
  have hput : ∀ {r : ReservationRecord} {x : ReservationRecord}, r.WellFormed →
      x ∈ (s.reservations.put r).rows → x.WellFormed := by
    intro r x hr hx
    rcases (s.reservations.mem_put r x).mp hx with rfl | ⟨hx, _⟩
    · exact hr
    · exact hw.record x hx
  cases h with
  | setLimit account limits now =>
    refine ⟨hw.record, fun a => ?_⟩
    rw [ResourceState.modify_account]
    split_ifs
    · exact (hw.account a).setLimit limits now
    · exact hw.account a
  | refused _ => exact hw
  | denied now _ _ =>
    exact ⟨by simpa using hw.record,
      ResourceState.forall_modifyAll (fun p hp => hp.advance now) _ hw.account⟩
  | reserved now hvalid _ _ =>
    have hn := fromEstimate_nonneg hvalid
    refine ⟨fun _ hx => hput ⟨rfl, hn⟩ hx, ?_⟩
    exact ResourceState.forall_modifyAll (fun p hp => hp.hold hn) _
      (ResourceState.forall_modifyAll (fun p hp => hp.advance now) _ hw.account)
  | @reconciled _ actual record now hget _ hvalid =>
    have hr := hw.record _ (Table.mem_of_get hget)
    have hr' : ReservationRecord.WellFormed
        { record with status := .reconciled, actual := some actual } := ⟨hr.accounts, hr.tally⟩
    refine ⟨fun _ hx => hput hr' hx, ?_⟩
    exact ResourceState.forall_modifyAll
      (fun p hp => ((hp.advance now).unhold _).spend (fromUsage_nonneg hvalid)) _ hw.account
  | @released _ record now hget _ =>
    have hr := hw.record _ (Table.mem_of_get hget)
    have hr' : ReservationRecord.WellFormed { record with status := .released } :=
      ⟨hr.accounts, hr.tally⟩
    refine ⟨fun _ hx => hput hr' hx, ?_⟩
    exact ResourceState.forall_modifyAll
      (fun p hp => (hp.advance now).unhold _) _ hw.account
  | snapshot account now =>
    refine ⟨hw.record, fun a => ?_⟩
    rw [ResourceState.modify_account]
    split_ifs
    · exact (hw.account a).advance now
    · exact hw.account a

theorem GovernorRun.wellFormed {history : History Tz}
    {s : ResourceState Tz} (run : GovernorRun history s) : WellFormed s := by
  refine Run.invariant (I := WellFormed) (A := fun _ => True) wellFormed_empty ?_ ?_ run
    (fun _ _ => trivial)
  · rintro s _ rfl hw
    exact hw
  · intro s c _ hw
    exact (perform_does s c).wellFormed hw

theorem ReservationRecord.WellFormed.nodup {r : ReservationRecord} (h : r.WellFormed) :
    r.accounts.Nodup := h.accounts ▸ ResourceAccount.cascade_nodup _

/-- An operation leaves every account alone that it does not get to. -/
theorem Does.account_of_not_touched {s s' : ResourceState Tz} {c : Command Tz} (h : Does s c s')
    (hw : WellFormed s) {a : ResourceAccount} (ha : a ∉ touched s c) :
    s'.account a = s.account a := by
  cases h with
  | setLimit account limits now =>
    rw [ResourceState.modify_account, if_neg (by simpa [touched] using ha)]
  | refused _ => rfl
  | denied now hvalid hfresh =>
    rw [ResourceState.modifyAll_account (ResourceAccount.cascade_nodup _),
      if_neg (by simpa [touched, hvalid, hfresh] using ha)]
  | @reserved scope _ _ now hvalid hfresh _ =>
    have ha' : a ∉ ResourceAccount.cascade scope := by simpa [touched, hvalid, hfresh] using ha
    show ((s.modifyAll _ _).modifyAll _ _).account a = _
    rw [ResourceState.modifyAll_account (ResourceAccount.cascade_nodup _), if_neg ha',
      ResourceState.modifyAll_account (ResourceAccount.cascade_nodup _), if_neg ha']
  | reconciled now hget hactive hvalid =>
    show (s.modifyAll _ _).account a = _
    rw [ResourceState.modifyAll_account (hw.record _ (Table.mem_of_get hget)).nodup,
      if_neg (by simpa [touched, hget, hactive, hvalid] using ha)]
  | released now hget hactive =>
    show (s.modifyAll _ _).account a = _
    rw [ResourceState.modifyAll_account (hw.record _ (Table.mem_of_get hget)).nodup,
      if_neg (by simpa [touched, hget, hactive] using ha)]
  | snapshot account now =>
    rw [ResourceState.modify_account, if_neg (by simpa [touched] using ha)]

/-! ### Sample requests -/

namespace Sample

/-- A scope with a project. -/
def scope : ResourceScope :=
  ⟨⟨"tenant"⟩, ⟨"user"⟩, none, some ⟨"project"⟩, none, none, ⟨0⟩⟩

def tenant : ResourceAccount := .tenant ⟨"tenant"⟩

def tokens (n : U64) : ResourceEstimate := ⟨none, some n, none, none, none, none, none, none⟩

/-- A usage of input tokens. -/
def spent (n : U64) : ResourceUsage := ⟨.zero, n, .zero, .zero, .zero, .zero, .zero⟩

/-- A limit on input tokens. -/
def limits (n : U64) (period : BudgetPeriod UtcOnly) : ResourceLimits UtcOnly :=
  ⟨none, some n, none, none, none, none, none, none, period, .disabled⟩

/-- An amount of money that fits at scale zero. -/
def dollars (n : Fin 100) : Decimal where
  units := n * 10 ^ 28
  fits := by
    refine ⟨28, by decide, Dvd.intro_left _ rfl, ?_⟩
    have hlt := n.isLt
    rw [abs_of_nonneg (by positivity)]
    omega

/-- An estimate of an amount of money. -/
def cost (n : Fin 100) : ResourceEstimate :=
  ⟨some (dollars n), none, none, none, none, none, none, none⟩

/-- A usage of an amount of money. -/
def paid (n : Fin 100) : ResourceUsage := ⟨dollars n, .zero, .zero, .zero, .zero, .zero, .zero⟩

/-- A limit on money. -/
def budget (n : Fin 100) : ResourceLimits UtcOnly :=
  ⟨some (dollars n), none, none, none, none, none, none, none, .rolling24h, .disabled⟩

end Sample

end Ironclaw.Resources
