import Ironclaw.Resources.Step

/-! # States that read the same

Every reader takes a missing tally for one of zero, and looks a reservation up by its id. `ReadsAs` compares
two states by what a reader gets, and so forgets the empty entries of the ledger and the order of the
reservations. The operations of the governor cannot tell such states apart: they give the same answers and
lead to states that read the same (`ReadsAs.reserve`, `ReadsAs.reconcile`, `ReadsAs.release`,
`ReadsAs.accountSnapshot`). -/

namespace Ironclaw.Resources

variable {Tz : Type}

/-! ### Accounts -/

namespace AccountParts

/-- Two versions of an account that a reader takes for the same. -/
structure ReadsAs (p q : AccountParts Tz) : Prop where
  limits : p.limits = q.limits
  reserved : p.reservedTally = q.reservedTally
  usage : p.usageTally = q.usageTally
  periodAnchor : p.periodAnchor = q.periodAnchor

variable {p q : AccountParts Tz}

theorem ReadsAs.refl (p : AccountParts Tz) : p.ReadsAs p := ⟨rfl, rfl, rfl, rfl⟩

variable (h : p.ReadsAs q)
include h

theorem ReadsAs.trans {r : AccountParts Tz} (h' : q.ReadsAs r) : p.ReadsAs r :=
  ⟨h.limits.trans h'.limits, h.reserved.trans h'.reserved, h.usage.trans h'.usage,
    h.periodAnchor.trans h'.periodAnchor⟩

variable [Platform Tz]

theorem ReadsAs.hold (t : ResourceTally) : (p.hold t).ReadsAs (q.hold t) where
  limits := h.limits
  reserved := by rw [hold_reservedTally, hold_reservedTally, h.reserved]
  usage := h.usage
  periodAnchor := h.periodAnchor

theorem ReadsAs.unhold (t : ResourceTally) : (p.unhold t).ReadsAs (q.unhold t) where
  limits := h.limits
  reserved := by rw [unhold_reservedTally, unhold_reservedTally, h.reserved]
  usage := h.usage
  periodAnchor := h.periodAnchor

theorem ReadsAs.spend (t : ResourceTally) : (p.spend t).ReadsAs (q.spend t) where
  limits := h.limits
  reserved := h.reserved
  usage := by rw [spend_usageTally, spend_usageTally, h.usage]
  periodAnchor := h.periodAnchor

variable [DecidableEq Tz]

theorem ReadsAs.setLimit (limits : ResourceLimits Tz) (now : ℤ) :
    (p.setLimit limits now).ReadsAs (q.setLimit limits now) := by
  unfold AccountParts.setLimit
  rw [h.limits]
  split_ifs
  · exact ⟨rfl, h.reserved, rfl, rfl⟩
  · exact ⟨rfl, h.reserved, h.usage, rfl⟩

theorem ReadsAs.advance (now : ℤ) :
    (p.advancePeriodIfRolledOver now).ReadsAs (q.advancePeriodIfRolledOver now) := by
  unfold advancePeriodIfRolledOver
  rw [h.limits, h.periodAnchor]
  cases hlimits : q.limits with
  | none => exact h
  | some limits =>
    dsimp only
    split_ifs
    · exact h
    · exact ⟨rfl, h.reserved, rfl, rfl⟩
    · exact h

omit h

end AccountParts

/-! ### States -/

/-- Two states that a reader takes for the same. -/
structure ReadsAs (s t : ResourceState Tz) : Prop where
  account : ∀ a, (s.account a).ReadsAs (t.account a)
  reservations : ∀ id, s.reservations.get id = t.reservations.get id

namespace ReadsAs

variable {s t : ResourceState Tz}

theorem refl (s : ResourceState Tz) : ReadsAs s s := ⟨fun _ => .refl _, fun _ => rfl⟩

variable (h : ReadsAs s t)
include h

theorem trans {u : ResourceState Tz} (h' : ReadsAs t u) : ReadsAs s u :=
  ⟨fun a => (h.account a).trans (h'.account a),
    fun id => (h.reservations id).trans (h'.reservations id)⟩

theorem modify (a : ResourceAccount) {f : AccountParts Tz → AccountParts Tz}
    (hf : ∀ {p q : AccountParts Tz}, p.ReadsAs q → (f p).ReadsAs (f q)) :
    ReadsAs (s.modify a f) (t.modify a f) := by
  refine ⟨fun b => ?_, h.reservations⟩
  rw [ResourceState.modify_account, ResourceState.modify_account]
  split_ifs
  · exact hf (h.account b)
  · exact h.account b

omit h in
theorem modifyAll (accounts : List ResourceAccount) {f : AccountParts Tz → AccountParts Tz}
    (hf : ∀ {p q : AccountParts Tz}, p.ReadsAs q → (f p).ReadsAs (f q)) :
    ∀ {s t : ResourceState Tz}, ReadsAs s t →
      ReadsAs (s.modifyAll accounts f) (t.modifyAll accounts f) := by
  induction accounts with
  | nil => exact fun h => h
  | cons a accounts ih => exact fun h => ih (h.modify a hf)

theorem put {u v : ResourceState Tz} (h' : ReadsAs u v) (r : ReservationRecord) :
    ReadsAs { u with reservations := s.reservations.put r }
      { v with reservations := t.reservations.put r } := by
  refine ⟨h'.account, fun id => ?_⟩
  rw [Table.get_put, Table.get_put, h.reservations]

variable [Platform Tz]

theorem evaluateCascade (requested : ResourceTally)
    (accounts : List ResourceAccount) : ∀ warnings : List BudgetWarning,
    Resources.evaluateCascade s requested accounts warnings =
      Resources.evaluateCascade t requested accounts warnings := by
  induction accounts with
  | nil => exact fun _ => rfl
  | cons a accounts ih =>
    intro warnings
    have ha := h.account a
    simp only [Resources.evaluateCascade, ha.limits, ha.usage, ha.reserved, ha.periodAnchor, ih]

variable [DecidableEq Tz]

variable (account : ResourceAccount)

theorem setLimit (limits : ResourceLimits Tz) (now : ℤ) :
    ReadsAs (setLimitInState s account limits now) (setLimitInState t account limits now) :=
  h.modify account fun hp => hp.setLimit limits now

theorem advance (now : ℤ) :
    ReadsAs (s.modify account (·.advancePeriodIfRolledOver now))
      (t.modify account (·.advancePeriodIfRolledOver now)) :=
  h.modify account fun hp => hp.advance now

/-- The same answer, and states that read the same. -/
structure Alike {α : Type} (r r' : α × ResourceState Tz) : Prop where
  answer : r.1 = r'.1
  state : ReadsAs r.2 r'.2

theorem reserve (scope : ResourceScope) (estimate : ResourceEstimate)
    (id : ResourceReservationId) (now : ℤ) :
    Alike (reserveWithOutcomeInState s scope estimate id now)
      (reserveWithOutcomeInState t scope estimate id now) := by
  have hadvanced : ReadsAs
      (s.modifyAll (ResourceAccount.cascade scope) (·.advancePeriodIfRolledOver now))
      (t.modifyAll (ResourceAccount.cascade scope) (·.advancePeriodIfRolledOver now)) :=
    modifyAll _ (fun hp => hp.advance now) h
  unfold reserveWithOutcomeInState
  cases validateEstimate estimate with
  | some e => exact ⟨rfl, h⟩
  | none =>
    dsimp only
    rw [h.reservations, hadvanced.evaluateCascade]
    split_ifs
    · exact ⟨rfl, h⟩
    · split
      · exact ⟨rfl, hadvanced⟩
      · refine ⟨rfl, ?_⟩
        dsimp only
        rw [ResourceState.modifyAll_reservations, ResourceState.modifyAll_reservations,
          ResourceState.modifyAll_reservations, ResourceState.modifyAll_reservations]
        exact h.put (modifyAll _ (fun hp => hp.hold _) hadvanced) _

theorem reconcile (id : ResourceReservationId) (actual : ResourceUsage)
    (now : ℤ) : Alike (reconcileInState s id actual now) (reconcileInState t id actual now) := by
  unfold reconcileInState
  rw [h.reservations]
  cases t.reservations.get id with
  | none => exact ⟨rfl, h⟩
  | some record =>
    dsimp only
    split_ifs
    · exact ⟨rfl, h⟩
    · cases validateUsage actual with
      | some e => exact ⟨rfl, h⟩
      | none =>
        refine ⟨rfl, ?_⟩
        dsimp only
        rw [ResourceState.modifyAll_reservations, ResourceState.modifyAll_reservations]
        exact h.put (modifyAll _ (fun hp => ((hp.advance now).unhold _).spend _) h) _

theorem release (id : ResourceReservationId) (now : ℤ) :
    Alike (releaseInState s id now) (releaseInState t id now) := by
  unfold releaseInState
  rw [h.reservations]
  cases t.reservations.get id with
  | none => exact ⟨rfl, h⟩
  | some record =>
    dsimp only
    split_ifs
    · exact ⟨rfl, h⟩
    · refine ⟨rfl, ?_⟩
      dsimp only
      rw [ResourceState.modifyAll_reservations, ResourceState.modifyAll_reservations]
      exact h.put (modifyAll _ (fun hp => (hp.advance now).unhold _) h) _

theorem accountSnapshot (now : ℤ) :
    Alike (accountSnapshotInState s account now) (accountSnapshotInState t account now) := by
  have hadvanced := h.advance account now
  have ha := hadvanced.account account
  unfold accountSnapshotInState ledgerWindow
  dsimp only
  rw [ha.limits, ha.reserved, ha.usage, ha.periodAnchor]
  split_ifs
  · exact ⟨rfl, hadvanced⟩
  · exact ⟨rfl, hadvanced⟩

omit h

end ReadsAs

end Ironclaw.Resources
