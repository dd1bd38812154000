import Mathlib.Algebra.Order.BigOperators.Group.List
import Mathlib.Data.List.Perm.Subperm
import Ironclaw.Resources.Step

/-! # Reserved tallies are the sum of the active reservations

`held s a d` is the sum of the tallies, in dimension `d`, of the active reservations of `s` whose
cascade contains account `a`. The ledger keeps it incrementally, with additions and subtractions
that clamp.

* `Does.moves` says how one operation moves the reserved amount and `held` together; a clamp is
  visible in it on the side of the ledger only. For money it needs that the ledger has been exact and
  that the new sum is not rounded.
* `reserved_tally_conserved`: while no sum leaves the range of its dimension and none is rounded
  (`HoldsFit`), the two are equal, and `rebuildActiveHoldsFromReservations`, which the load runs,
  changes no reserved tally, whatever order it visits the reservations in.
* `rebuild_restores_holds` is about the dimensions that are counted in integers: a clamped ledger
  holds too little, never too much. -/

namespace Ironclaw.Resources

variable {Tz : Type}

/-! ### Holds -/

def ReservationRecord.holds (r : ReservationRecord) (a : ResourceAccount) (d : ResourceDimension) :
    ℤ :=
  if r.status = .active ∧ a ∈ ResourceAccount.cascade r.reservation.scope then r.tally.amount d
  else 0

/-- What the active reservations hold of an account, in a dimension. -/
def held (s : ResourceState Tz) (a : ResourceAccount) (d : ResourceDimension) : ℤ :=
  s.reservations.total fun r => r.holds a d

/-- The library can hold every sum of some of the amounts of money held of an account. -/
def HoldsFit (s : ResourceState Tz) (a : ResourceAccount) : Prop :=
  ∀ rows, List.Subperm rows s.reservations.rows →
    Decimal.Fits (rows.map fun r : ReservationRecord => r.holds a .usd).sum

theorem HoldsFit.held {s : ResourceState Tz} {a : ResourceAccount} (h : HoldsFit s a) :
    Decimal.Fits (held s a .usd) := h _ (.refl _)

variable {r : ReservationRecord}

theorem ReservationRecord.WellFormed.holds_nonneg (h : r.WellFormed)
    (a : ResourceAccount) (d : ResourceDimension) : 0 ≤ r.holds a d := by
  unfold ReservationRecord.holds
  split_ifs
  · exact h.tally.amount d
  · exact le_rfl

theorem ReservationRecord.holds_of_closed (h : r.status ≠ .active)
    (a : ResourceAccount) (d : ResourceDimension) : r.holds a d = 0 :=
  if_neg fun h' => h h'.1

theorem WellFormed.holds_le_held {s : ResourceState Tz} (hw : WellFormed s)
    (hr : r ∈ s.reservations.rows) (a : ResourceAccount) (d : ResourceDimension) :
    r.holds a d ≤ held s a d := by
  apply List.single_le_sum
  · intro x hx
    obtain ⟨y, hy, rfl⟩ := List.mem_map.mp hx
    exact (hw.record y hy).holds_nonneg a d
  · exact List.mem_map_of_mem hr

variable {s s' : ResourceState Tz}

theorem held_put_of_none (hfresh : s.reservations.get r.id = none)
    (hres : s'.reservations = s.reservations.put r)
    (a : ResourceAccount) (d : ResourceDimension) : held s' a d = held s a d + r.holds a d := by
  unfold held
  rw [hres]
  exact s.reservations.total_put_of_none _ hfresh

theorem held_put_closed (r' : ReservationRecord)
    (hget : s.reservations.get r.id = some r) (hid : r'.id = r.id) (hclosed : r'.status ≠ .active)
    (hres : s'.reservations = s.reservations.put r') (a : ResourceAccount)
    (d : ResourceDimension) : held s' a d = held s a d - r.holds a d := by
  have e := s.reservations.total_put_of_get (fun x => x.holds a d) (hid.symm ▸ hget)
  rw [ReservationRecord.holds_of_closed hclosed] at e
  unfold held
  rw [hres]
  omega

def reservedAmount (s : ResourceState Tz) (a : ResourceAccount) (d : ResourceDimension) : ℤ :=
  (s.account a).reservedTally.amount d

/-- How an operation moves the ledger and the sum it stands for. -/
inductive Moves (cap reserved held : ℤ) : ℤ → ℤ → Prop
  | none : Moves cap reserved held reserved held
  | take {x : ℤ} (hx : 0 ≤ x) : Moves cap reserved held (min (reserved + x) cap) (held + x)
  | give {x : ℤ} (hx : 0 ≤ x) (hle : x ≤ held) :
      Moves cap reserved held (max (reserved - x) 0) (held - x)

variable [Platform Tz] [DecidableEq Tz]

omit [DecidableEq Tz] in
/-- A reservation taken: its accounts hold more. -/
private theorem moves_take (hw : WellFormed s)
    (hr : r.WellFormed) (hactive : r.status = .active) (hfresh : s.reservations.get r.id = none)
    (hres : s'.reservations = s.reservations.put r) {a : ResourceAccount}
    (hp : (s'.account a).reservedTally = if a ∈ r.accounts then
      (s.account a).reservedTally.addAssign Tz r.tally else (s.account a).reservedTally)
    (d : ResourceDimension)
    (hexact : d = .usd → reservedAmount s a d = held s a d ∧ Decimal.Fits (held s' a d)) :
    Moves d.cap (reservedAmount s a d) (held s a d) (reservedAmount s' a d) (held s' a d) := by
  have hh := held_put_of_none hfresh hres a d
  by_cases ha : a ∈ r.accounts
  · have hx : r.holds a d = r.tally.amount d := if_pos ⟨hactive, hr.accounts ▸ ha⟩
    have hm : reservedAmount s' a d = min (reservedAmount s a d + r.tally.amount d) d.cap := by
      unfold reservedAmount
      rw [hp, if_pos ha, ResourceTally.amount_addAssign (hw.account a).reserved hr.tally]
      rintro rfl
      obtain ⟨heq, hfits⟩ := hexact rfl
      rw [hh, hx, ← heq] at hfits
      exact .inl hfits
    rw [hh, hx, hm]
    exact .take (hr.tally.amount d)
  · have hx : r.holds a d = 0 := if_neg fun h => ha (hr.accounts ▸ h.2)
    have hm : reservedAmount s' a d = reservedAmount s a d := by
      unfold reservedAmount
      rw [hp, if_neg ha]
    rw [hh, hx, hm, add_zero]
    exact .none

omit [DecidableEq Tz] in
/-- A reservation closed: its accounts hold less. -/
private theorem moves_give (hw : WellFormed s)
    (r' : ReservationRecord) (hget : s.reservations.get r.id = some r)
    (hactive : r.status = .active) (hid : r'.id = r.id) (hclosed : r'.status ≠ .active)
    (hres : s'.reservations = s.reservations.put r') {a : ResourceAccount}
    (hp : (s'.account a).reservedTally = if a ∈ r.accounts then
      (s.account a).reservedTally.subAssign Tz r.tally else (s.account a).reservedTally)
    (d : ResourceDimension)
    (hexact : d = .usd → reservedAmount s a d = held s a d ∧ Decimal.Fits (held s' a d)) :
    Moves d.cap (reservedAmount s a d) (held s a d) (reservedAmount s' a d) (held s' a d) := by
  have hmem := Table.mem_of_get hget
  have hr := hw.record r hmem
  have hh := held_put_closed r' hget hid hclosed hres a d
  by_cases ha : a ∈ r.accounts
  · have hx : r.holds a d = r.tally.amount d := if_pos ⟨hactive, hr.accounts ▸ ha⟩
    have hm : reservedAmount s' a d = max (reservedAmount s a d - r.tally.amount d) 0 := by
      unfold reservedAmount
      rw [hp, if_pos ha, ResourceTally.amount_subAssign]
      rintro rfl
      obtain ⟨heq, hfits⟩ := hexact rfl
      rw [hh, hx, ← heq] at hfits
      exact hfits
    rw [hh, hx, hm]
    exact .give (hr.tally.amount d) (hx ▸ hw.holds_le_held hmem a d)
  · have hx : r.holds a d = 0 := if_neg fun h => ha (hr.accounts ▸ h.2)
    have hm : reservedAmount s' a d = reservedAmount s a d := by
      unfold reservedAmount
      rw [hp, if_neg ha]
    rw [hh, hx, hm, sub_zero]
    exact .none

/-- One operation, one account, one dimension. -/
theorem Does.moves {c : Command Tz} (h : Does s c s')
    (hw : WellFormed s) (a : ResourceAccount) (d : ResourceDimension)
    (hexact : d = .usd → reservedAmount s a d = held s a d ∧ Decimal.Fits (held s' a d)) :
    Moves d.cap (reservedAmount s a d) (held s a d) (reservedAmount s' a d) (held s' a d) := by
  have same : ∀ {t : ResourceState Tz}, t.reservations = s.reservations →
      (t.account a).reservedTally = (s.account a).reservedTally →
      Moves d.cap (reservedAmount s a d) (held s a d) (reservedAmount t a d) (held t a d) := by
    intro t hres hp
    rw [reservedAmount, reservedAmount, hp, held, held, hres]
    exact .none
  cases h with
  | setLimit account limits now =>
    refine same rfl ?_
    rw [ResourceState.modify_account]
    split_ifs <;> simp
  | refused _ => exact .none
  | @denied scope _ _ now _ _ =>
    refine same (by simp) ?_
    rw [ResourceState.modifyAll_account (ResourceAccount.cascade_nodup scope)]
    split_ifs <;> simp
  | @reserved scope estimate id now hvalid hfresh _ =>
    refine moves_take hw (r := activeRecord ⟨id, scope, estimate⟩ now)
      ⟨rfl, fromEstimate_nonneg hvalid⟩ rfl hfresh rfl ?_ d hexact
    have hnd := ResourceAccount.cascade_nodup scope
    show (((s.modifyAll _ _).modifyAll _ _).account a).reservedTally =
      if a ∈ ResourceAccount.cascade scope then _ else _
    rw [ResourceState.modifyAll_account hnd, ResourceState.modifyAll_account hnd]
    split_ifs
    · simp [activeRecord]
    · rfl
  | @reconciled id actual record now hget hactive _ =>
    have hid := Table.key_of_get hget
    refine moves_give hw { record with status := .reconciled, actual := some actual }
      (hid.symm ▸ hget) hactive rfl (by simp) rfl ?_ d hexact
    show ((s.modifyAll _ _).account a).reservedTally = _
    rw [ResourceState.modifyAll_account (hw.record _ (Table.mem_of_get hget)).nodup]
    split_ifs <;> simp
  | @released id record now hget hactive =>
    have hid := Table.key_of_get hget
    refine moves_give hw { record with status := .released } (hid.symm ▸ hget) hactive rfl (by simp)
      rfl ?_ d hexact
    show ((s.modifyAll _ _).account a).reservedTally = _
    rw [ResourceState.modifyAll_account (hw.record _ (Table.mem_of_get hget)).nodup]
    split_ifs <;> simp
  | snapshot account now =>
    refine same rfl ?_
    rw [ResourceState.modify_account]
    split_ifs <;> simp

/-! ### Conservation -/

theorem Moves.eq_of_le {cap r h r' h' : ℤ} (m : Moves cap r h r' h') (e : r = h)
    (hle : h' ≤ cap) : r' = h' := by
  cases m <;> omega

theorem Moves.le {cap r h r' h' : ℤ} (m : Moves cap r h r' h') (e : r ≤ h) : r' ≤ h' := by
  cases m <;> omega

omit [Platform Tz] [DecidableEq Tz] in
@[simp] theorem reservedAmount_empty (a : ResourceAccount) (d : ResourceDimension) :
    reservedAmount (.empty : ResourceState Tz) a d = 0 := ResourceTally.amount_zero d

omit [Platform Tz] [DecidableEq Tz] in
@[simp] theorem held_empty (a : ResourceAccount) (d : ResourceDimension) :
    held (.empty : ResourceState Tz) a d = 0 := rfl

/-- While no sum leaves its range and none is rounded, the ledger is the sum of the active
reservations. -/
theorem reserved_eq_held {history : History Tz} {s : ResourceState Tz}
    (run : GovernorRun history s) (a : ResourceAccount) (d : ResourceDimension)
    (hrange : ∀ x ∈ history, held x.post a d ≤ d.cap)
    (hexact : ∀ x ∈ history, d = .usd → Decimal.Fits (held x.post a d)) :
    reservedAmount s a d = held s a d := by
  have inv : WellFormed s ∧
      ((∀ x ∈ history, held x.post a d ≤ d.cap ∧ (d = .usd → Decimal.Fits (held x.post a d))) →
        reservedAmount s a d = held s a d) := by
    refine Run.induct_history (A := fun _ => True)
      (I := fun h s => WellFormed s ∧
        ((∀ x ∈ h, held x.post a d ≤ d.cap ∧ (d = .usd → Decimal.Fits (held x.post a d))) →
          reservedAmount s a d = held s a d))
      ⟨wellFormed_empty, by simp⟩ ?_ ?_ run (fun _ _ => trivial)
    · rintro h s _ rfl hi
      exact hi
    · intro h s c _ ⟨hw, hi⟩
      refine ⟨(perform_does s c).wellFormed hw, fun hr => ?_⟩
      simp only [List.mem_append, List.mem_singleton] at hr
      have heq := hi fun x hx => hr x (.inl hx)
      obtain ⟨hle, hfits⟩ := hr _ (.inr rfl)
      exact ((perform_does s c).moves hw a d fun hd => ⟨heq, hfits hd⟩).eq_of_le heq hle
  exact inv.2 fun x hx => ⟨hrange x hx, hexact x hx⟩

/-! ### Rebuilding the holds at load -/

omit [DecidableEq Tz] in
/-- Take the holds of the active reservations, in the order they are visited. -/
def takeHolds (s : ResourceState Tz) (records : List ReservationRecord) : ResourceState Tz :=
  records.foldl (fun s record =>
    if record.status = .active then s.modifyAll record.accounts (·.hold record.tally) else s) s

/-- Forget the reserved tallies and take every active hold again. -/
def rebuildActiveHoldsFromReservations (s : ResourceState Tz) : ResourceState Tz :=
  takeHolds { s with account := fun a => { s.account a with reserved := none } } s.reservations.rows

omit [DecidableEq Tz] in
/-- Taking holds one after the other adds them up, with one clamp at the end. -/
theorem reservedAmount_takeHolds (a : ResourceAccount) (d : ResourceDimension) :
    ∀ (records : List ReservationRecord) (s : ResourceState Tz),
      (∀ r ∈ records, r.WellFormed) → (s.account a).reservedTally.Nonneg →
      (d = .usd → ∀ done, done <+: records →
        Decimal.Fits (reservedAmount s a d + (done.map fun r => r.holds a d).sum)) →
      reservedAmount (takeHolds s records) a d =
        min (reservedAmount s a d + (records.map fun r => r.holds a d).sum) d.cap
  | [], s, _, _, _ => by
    have hle : reservedAmount s a d ≤ d.cap := (s.account a).reservedTally.amount_le_cap d
    rw [List.map_nil, List.sum_nil, add_zero, min_eq_left hle]
    rfl
  | r :: records, s, hr, hn, hexact => by
    rw [List.forall_mem_cons] at hr
    rw [List.map_cons, List.sum_cons]
    show reservedAmount (takeHolds (if r.status = .active then _ else _) records) a d = _
    have hrest : 0 ≤ (records.map fun r => r.holds a d).sum := by
      apply List.sum_nonneg
      intro x hx
      obtain ⟨y, hy, rfl⟩ := List.mem_map.mp hx
      exact (hr.2 y hy).holds_nonneg a d
    have hnext : d = .usd → ∀ done, done <+: records →
        Decimal.Fits (reservedAmount s a d + r.holds a d + (done.map fun r => r.holds a d).sum) := by
      intro hd done hdone
      have hfits := hexact hd (r :: done) (List.cons_prefix_cons.2 ⟨rfl, hdone⟩)
      rwa [List.map_cons, List.sum_cons, ← add_assoc] at hfits
    by_cases hactive : r.status = .active
    · rw [if_pos hactive]
      have hp : ((s.modifyAll r.accounts (·.hold r.tally)).account a).reservedTally =
          if a ∈ r.accounts then (s.account a).reservedTally.addAssign Tz r.tally
          else (s.account a).reservedTally := by
        rw [ResourceState.modifyAll_account hr.1.nodup]
        split_ifs <;> rfl
      by_cases ha : a ∈ r.accounts
      · rw [if_pos ha] at hp
        have hx : r.holds a d = r.tally.amount d := if_pos ⟨hactive, hr.1.accounts ▸ ha⟩
        have hfirst : d = .usd → Decimal.Fits (reservedAmount s a d + r.tally.amount d) := by
          intro hd
          have hfits := hnext hd [] List.nil_prefix
          rwa [List.map_nil, List.sum_nil, add_zero, hx] at hfits
        have hsum : reservedAmount (s.modifyAll r.accounts (·.hold r.tally)) a d =
            min (reservedAmount s a d + r.tally.amount d) d.cap := by
          rw [reservedAmount, hp]
          refine ResourceTally.amount_addAssign hn hr.1.tally ?_
          rintro rfl
          exact .inl (hfirst rfl)
        rw [reservedAmount_takeHolds a d records _ hr.2
          (by rw [hp]; exact hn.addAssign hr.1.tally), hsum, hx]
        · omega
        · rintro rfl done hdone
          have hle : reservedAmount s a .usd + r.tally.amount .usd ≤ ResourceDimension.usd.cap :=
            (le_abs_self _).trans (hfirst rfl).abs_le
          rw [hsum, min_eq_left hle, ← hx]
          exact hnext rfl done hdone
      · rw [if_neg ha] at hp
        have hx : r.holds a d = 0 := if_neg fun h => ha (hr.1.accounts ▸ h.2)
        have hsame : reservedAmount (s.modifyAll r.accounts (·.hold r.tally)) a d =
            reservedAmount s a d := by rw [reservedAmount, hp, reservedAmount]
        rw [hx, add_zero, ← hsame] at hnext
        rw [reservedAmount_takeHolds a d records _ hr.2 (by rw [hp]; exact hn) hnext, hsame, hx,
          zero_add]
    · have hx := ReservationRecord.holds_of_closed hactive a d
      rw [hx, add_zero] at hnext
      rw [if_neg hactive, reservedAmount_takeHolds a d records s hr.2 hn hnext, hx, zero_add]

omit [DecidableEq Tz] in
/-- What a ledger that is taken anew from the reservations holds. -/
theorem reservedAmount_rebuild {s : ResourceState Tz} (hw : ∀ r ∈ s.reservations.rows, r.WellFormed)
    (a : ResourceAccount) (d : ResourceDimension) (hexact : d = .usd → HoldsFit s a) :
    reservedAmount (rebuildActiveHoldsFromReservations s) a d = min (held s a d) d.cap := by
  let cleared : ResourceState Tz :=
    { s with account := fun a => { s.account a with reserved := none } }
  have hzero : reservedAmount cleared a d = 0 := ResourceTally.amount_zero d
  show reservedAmount (takeHolds cleared s.reservations.rows) a d = _
  rw [reservedAmount_takeHolds a d _ cleared hw ResourceTally.zero_nonneg, hzero, zero_add]
  · rfl
  · rintro rfl done hdone
    rw [hzero, zero_add]
    exact hexact rfl done hdone.sublist.subperm

omit [Platform Tz] [DecidableEq Tz] in
theorem HoldsFit.of_sameRows {s t : ResourceState Tz} {a : ResourceAccount} (h : HoldsFit s a)
    (ht : t.reservations.SameRows s.reservations) : HoldsFit t a :=
  fun rows hrows => h rows (hrows.trans ht.subperm)

omit [Platform Tz] [DecidableEq Tz] in
theorem holdsFit_of_length {s : ResourceState Tz} (h : s.reservations.rows.length ≤ 1)
    (a : ResourceAccount) : HoldsFit s a := by
  intro rows hrows
  have hlength := hrows.length_le
  cases rows with
  | nil => exact Decimal.zero.fits
  | cons r rows =>
    have hnil : rows = [] := by
      rw [List.length_cons] at hlength
      exact List.length_eq_zero_iff.mp (by omega)
    rw [hnil, List.map_singleton, List.sum_singleton]
    unfold ReservationRecord.holds
    split_ifs
    · exact r.tally.usd.fits
    · exact Decimal.zero.fits

theorem GovernorRun.holdsFit {history : History Tz} {s : ResourceState Tz}
    (run : GovernorRun history s) {a : ResourceAccount}
    (hexact : ∀ x ∈ history, HoldsFit x.post a) : HoldsFit s a := by
  have hempty : HoldsFit (.empty : ResourceState Tz) a :=
    holdsFit_of_length (s := .empty) (Nat.zero_le 1) a
  exact run.of_forall_post (P := fun s => HoldsFit s a) hempty hexact

/-- Conservation of reservations: in every reachable state whose run kept every sum in range and
rounded no sum of money, the reserved amount of an account is in every dimension the sum over the
active reservations whose cascade contains it, and rebuilding the holds at load, in whatever order the
reservations are visited, leaves the reserved tally of every account as it is. -/
theorem reserved_tally_conserved {history : History Tz} {s : ResourceState Tz}
    (run : GovernorRun history s) (hrange : ∀ x ∈ history, ∀ a d, held x.post a d ≤ d.cap)
    (hexact : ∀ x ∈ history, ∀ a, HoldsFit x.post a) :
    (∀ a d, (s.account a).reservedTally.amount d =
      s.reservations.total fun r =>
        if r.status = .active ∧ a ∈ ResourceAccount.cascade r.reservation.scope then
          r.tally.amount d
        else 0) ∧
    ∀ t : Table ReservationRecord.id, t.SameRows s.reservations → ∀ a,
      ((rebuildActiveHoldsFromReservations { s with reservations := t }).account a).reservedTally =
        (s.account a).reservedTally := by
  have heq : ∀ a d, reservedAmount s a d = held s a d := fun a d =>
    reserved_eq_held run a d (fun x hx => hrange x hx a d) fun x hx hd => hd ▸ (hexact x hx a).held
  refine ⟨heq, fun t ht a => ?_⟩
  apply ResourceTally.ext_amount
  intro d
  have hfit : HoldsFit s a := GovernorRun.holdsFit run fun x hx => hexact x hx a
  have hrows : ∀ r ∈ t.rows, r.WellFormed := fun r hr => run.wellFormed.record r (ht.mem_iff.mp hr)
  have hsum : held { s with reservations := t } a d = held s a d := ht.total_eq _
  have hle : held s a d ≤ d.cap := heq a d ▸ (s.account a).reservedTally.amount_le_cap d
  show reservedAmount (rebuildActiveHoldsFromReservations { s with reservations := t }) a d = _
  rw [reservedAmount_rebuild hrows a d fun _ => hfit.of_sameRows ht, hsum, min_eq_left hle]
  exact (heq a d).symm

omit [Platform Tz] [DecidableEq Tz] in
theorem held_le_cap_of_length {s : ResourceState Tz} (h : s.reservations.rows.length ≤ 1)
    (a : ResourceAccount) (d : ResourceDimension) : held s a d ≤ d.cap := by
  have hr : ∀ r : ReservationRecord, r.holds a d ≤ d.cap := by
    intro r
    unfold ReservationRecord.holds
    split_ifs
    · exact r.tally.amount_le_cap d
    · exact le_of_lt d.cap_pos
  have hsum : held s a d = (s.reservations.rows.map fun r => r.holds a d).sum := rfl
  rw [hsum]
  cases hl : s.reservations.rows with
  | nil =>
    rw [List.map_nil, List.sum_nil]
    exact le_of_lt d.cap_pos
  | cons r l =>
    have hnil : l = [] := by
      rw [hl, List.length_cons] at h
      exact List.length_eq_zero_iff.mp (by omega)
    rw [hnil, List.map_singleton, List.sum_singleton]
    exact hr r

/-- A limit is set, five tokens are reserved and three are reported. -/
theorem reported_reservation_conserved :
    let commands : List (Command UtcOnly) :=
      [⟨0, .setLimit Sample.tenant (Sample.limits ⟨10, by decide⟩ .rolling24h)⟩,
        ⟨1, .reserve Sample.scope (Sample.tokens ⟨5, by decide⟩) ⟨1⟩⟩,
        ⟨2, .reconcile ⟨1⟩ (Sample.spent ⟨3, by decide⟩)⟩]
    let s : ResourceState UtcOnly := commands.foldl (advance governor) ResourceState.empty
    (∀ a d, (s.account a).reservedTally.amount d =
      s.reservations.total fun r =>
        if r.status = .active ∧ a ∈ ResourceAccount.cascade r.reservation.scope then
          r.tally.amount d
        else 0) ∧
    ∀ t : Table ReservationRecord.id, t.SameRows s.reservations → ∀ a,
      ((rebuildActiveHoldsFromReservations { s with reservations := t }).account a).reservedTally =
        (s.account a).reservedTally := by
  intro commands
  have hlength : ∀ x ∈ Run.trace governor ResourceState.empty commands,
      x.post.reservations.rows.length ≤ 1 := by
    intro x hx
    simp only [commands, Run.trace, List.mem_cons, List.not_mem_nil, or_false] at hx
    rcases hx with rfl | rfl | rfl <;> decide +kernel
  exact reserved_tally_conserved (Run.of_commands (fun _ => rfl) commands ResourceState.empty)
    (fun x hx a d => held_le_cap_of_length (hlength x hx) a d)
    fun x hx a => holdsFit_of_length (hlength x hx) a

/-- Whatever was clamped, the ledger counts no more than the active reservations hold, and a load
takes what they hold, up to the largest amount. -/
theorem rebuild_restores_holds {history : History Tz} {s : ResourceState Tz}
    (run : GovernorRun history s) {t : Table ReservationRecord.id} (ht : t.SameRows s.reservations)
    (a : ResourceAccount) {d : ResourceDimension} (hd : d ≠ .usd) :
    reservedAmount s a d ≤ held s a d ∧
      reservedAmount (rebuildActiveHoldsFromReservations { s with reservations := t }) a d =
        min (held s a d) d.cap := by
  have inv : WellFormed s ∧ reservedAmount s a d ≤ held s a d := by
    refine Run.invariant (I := fun s => WellFormed s ∧ reservedAmount s a d ≤ held s a d)
      (A := fun _ => True) ⟨wellFormed_empty, by simp⟩ ?_ ?_ run (fun _ _ => trivial)
    · rintro s _ rfl hi
      exact hi
    · intro s c _ ⟨hw, hi⟩
      have hmoves := (perform_does s c).moves hw a d fun husd => absurd husd hd
      exact ⟨(perform_does s c).wellFormed hw, hmoves.le hi⟩
  have hrows : ∀ r ∈ t.rows, r.WellFormed := fun r hr => inv.1.record r (ht.mem_iff.mp hr)
  have hsum : held { s with reservations := t } a d = held s a d := ht.total_eq _
  refine ⟨inv.2, ?_⟩
  rw [reservedAmount_rebuild hrows a d fun husd => absurd husd hd, hsum]

/-- Two reservations that the ledger cannot add up. -/
theorem rebuild_restores_clamped_holds :
    let reserve (n : BitVec 128) : Command UtcOnly :=
      ⟨0, .reserve Sample.scope (Sample.tokens ⟨2 ^ 64 - 1, by decide⟩) ⟨n⟩⟩
    let s : ResourceState UtcOnly := [reserve 1, reserve 2].foldl (advance governor) .empty
    reservedAmount s Sample.tenant .inputTokens ≤ held s Sample.tenant .inputTokens ∧
      reservedAmount (rebuildActiveHoldsFromReservations s) Sample.tenant .inputTokens =
        min (held s Sample.tenant .inputTokens) ResourceDimension.inputTokens.cap :=
  rebuild_restores_holds (Run.of_commands (fun _ => rfl) [_, _] _) (.refl _) _ (by decide)

end Ironclaw.Resources
