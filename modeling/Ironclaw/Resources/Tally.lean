import Mathlib.Algebra.Order.Ring.Abs
import Mathlib.Tactic.Linarith
import Ironclaw.HostApi.Scope
import Ironclaw.Lib.Saturating

/-! # Accounts and tallies of the resource governor

The data of `ironclaw_resources/src/lib.rs`: accounts and the cascade of a scope, and the tally
that adds up eight dimensions at once.

* `Decimal` counts `10⁻²⁸`, the finest scale of `rust_decimal`, and holds the numbers that fit into
  96 bits at some scale. `Platform` is what the governor takes from libraries; of the decimal sums
  it says what is documented: one that fits is exact, one far out of range has no result, and any
  other is rounded in a way that is left open. `u64` and `u32` are `Saturating` counters.
* `ResourceTally.amount` reads one dimension of a tally as an integer. Every result about
  tallies is stated through it; where the sum of money is rounded, it says nothing. -/

namespace Ironclaw.Resources

/-! ### Numbers -/

abbrev U64 := Saturating (2 ^ 64 - 1)

abbrev U32 := Saturating (2 ^ 32 - 1)

/-- `u64::from`. -/
def U32.toU64 (a : U32) : U64 := a.widen (by decide)

/-- `Decimal::MAX`, in units of `10⁻²⁸`. -/
def Decimal.maxUnits : ℤ := (2 ^ 96 - 1) * 10 ^ 28

/-- A number of 96 bits at one of the scales from 0 to 28. -/
def Decimal.Fits (units : ℤ) : Prop :=
  ∃ zeros < 29, (10 ^ zeros : ℤ) ∣ units ∧ |units| < 2 ^ 96 * 10 ^ zeros

instance (units : ℤ) : Decidable (Decimal.Fits units) :=
  inferInstanceAs (Decidable (∃ zeros < 29, _))

/-- A decimal amount of money, in units of `10⁻²⁸`. -/
structure Decimal where
  units : ℤ
  fits : Decimal.Fits units
deriving DecidableEq

namespace Decimal

def zero : Decimal := ⟨0, by decide⟩

def max : Decimal := ⟨maxUnits, by decide⟩

instance : Inhabited Decimal := ⟨zero⟩

/-- `value.max(Decimal::ZERO)`. -/
def atLeastZero (a : Decimal) : Decimal := if a.units < 0 then zero else a

theorem Fits.abs_le {units : ℤ} (h : Fits units) : |units| ≤ maxUnits := by
  obtain ⟨zeros, hzeros, ⟨mantissa, rfl⟩, hlt⟩ := h
  have hpos : (0 : ℤ) < 10 ^ zeros := by positivity
  have hpow : (10 : ℤ) ^ zeros ≤ 10 ^ 28 := pow_le_pow_right₀ (by decide) (by omega)
  rw [abs_mul, abs_of_pos hpos, mul_comm] at hlt ⊢
  have hmantissa : |mantissa| ≤ 2 ^ 96 - 1 := Int.le_sub_one_of_lt (lt_of_mul_lt_mul_right hlt hpos.le)
  exact mul_le_mul hmantissa hpow hpos.le (by decide)

theorem abs_le (a : Decimal) : |a.units| ≤ maxUnits := a.fits.abs_le

/-- The exact result of a sum fits, or is so far out of range that there is no result: nothing is
rounded. -/
def Unrounded (units : ℤ) : Prop := Fits units ∨ maxUnits + 10 ^ 28 ≤ |units|

instance (units : ℤ) : Decidable (Unrounded units) := inferInstanceAs (Decidable (_ ∨ _))

end Decimal

/-- A 64-bit floating-point number; a finite one by its value. -/
inductive F64 where
  | finite (value : ℚ)
  | infinity (negative : Bool)
  | nan
deriving DecidableEq

namespace F64

def one : F64 := .finite 1

def isFinite : F64 → Bool
  | .finite _ => true
  | _ => false

def isNan : F64 → Bool
  | .nan => true
  | _ => false

/-- `a < b`, with a NaN on neither side. -/
def lt : F64 → F64 → Bool
  | .finite a, .finite b => decide (a < b)
  | .finite _, .infinity negative => !negative
  | .infinity negative, .finite _ => negative
  | .infinity negative, .infinity negative' => negative && !negative'
  | _, _ => false

/-- `a <= b`, with a NaN on neither side. -/
def le : F64 → F64 → Bool
  | .finite a, .finite b => decide (a ≤ b)
  | .finite _, .infinity negative => !negative
  | .infinity negative, .finite _ => negative
  | .infinity negative, .infinity negative' => negative || !negative'
  | _, _ => false

end F64

/-- What the governor takes from libraries: the time-zone tables, the largest instant, the sums of
`rust_decimal` and the quotients of floating-point numbers. -/
class Platform (Tz : Type) where
  localDate : Tz → ℤ → ℤ
  earliestMidnight : Tz → ℤ → Option ℤ
  maxUtc : ℤ
  checkedAdd : Decimal → Decimal → Option Decimal
  checkedSub : Decimal → Decimal → Option Decimal
  decimalRatio : Decimal → Decimal → F64
  integerRatio : U64 → U64 → F64
  add_exact : ∀ a b (h : Decimal.Fits (a.units + b.units)), checkedAdd a b = some ⟨_, h⟩
  sub_exact : ∀ a b (h : Decimal.Fits (a.units - b.units)), checkedSub a b = some ⟨_, h⟩
  add_overflow : ∀ a b, Decimal.maxUnits + 10 ^ 28 ≤ |a.units + b.units| → checkedAdd a b = none
  add_nonneg : ∀ a b c, checkedAdd a b = some c → 0 ≤ a.units → 0 ≤ b.units → 0 ≤ c.units

/-- A sum that is taken where it fits, and has no result elsewhere. -/
def Decimal.ofUnits (units : ℤ) : Option Decimal :=
  if h : Decimal.Fits units then some ⟨units, h⟩ else none

theorem Decimal.ofUnits_of_fits {units : ℤ} (h : Fits units) : ofUnits units = some ⟨units, h⟩ :=
  dif_pos h

theorem Decimal.ofUnits_of_overflow {units : ℤ} (h : maxUnits + 10 ^ 28 ≤ |units|) :
    ofUnits units = none := by
  refine dif_neg fun hfits => ?_
  have hle := hfits.abs_le
  have hpos : (0 : ℤ) < 10 ^ 28 := by decide
  omega

theorem Decimal.units_of_ofUnits {units : ℤ} {c : Decimal} (h : ofUnits units = some c) :
    c.units = units := by
  unfold ofUnits at h
  split_ifs at h
  cases h
  rfl

/-! ### Accounts -/

/-- The levels that carry limits and ledgers. -/
inductive ResourceAccount where
  | tenant (tenantId : TenantId)
  | user (tenantId : TenantId) (userId : UserId)
  | project (tenantId : TenantId) (userId : UserId) (projectId : ProjectId)
  | agent (tenantId : TenantId) (userId : UserId) (projectId : Option ProjectId)
      (agentId : AgentId)
  | mission (tenantId : TenantId) (userId : UserId) (projectId : Option ProjectId)
      (missionId : MissionId)
  | thread (tenantId : TenantId) (userId : UserId) (projectId : Option ProjectId)
      (missionId : Option MissionId) (threadId : ThreadId)
deriving DecidableEq

/-- Every account whose limit applies to a scope, from broadest to narrowest. -/
def ResourceAccount.cascade (scope : ResourceScope) : List ResourceAccount :=
  [.tenant scope.tenantId, .user scope.tenantId scope.userId] ++
  (scope.projectId.map (.project scope.tenantId scope.userId)).toList ++
  (scope.agentId.map (.agent scope.tenantId scope.userId scope.projectId)).toList ++
  (scope.missionId.map (.mission scope.tenantId scope.userId scope.projectId)).toList ++
  (scope.threadId.map (.thread scope.tenantId scope.userId scope.projectId scope.missionId)).toList

theorem ResourceAccount.cascade_nodup (scope : ResourceScope) : (cascade scope).Nodup := by
  unfold cascade
  cases scope.projectId <;> cases scope.agentId <;> cases scope.missionId <;>
    cases scope.threadId <;> simp

/-! ### Tallies -/

inductive ResourceDimension where
  | usd | inputTokens | outputTokens | wallClockMs | outputBytes | networkEgressBytes
  | processCount | concurrencySlots
deriving DecidableEq

structure ResourceEstimate where
  usd : Option Decimal
  inputTokens : Option U64
  outputTokens : Option U64
  wallClockMs : Option U64
  outputBytes : Option U64
  networkEgressBytes : Option U64
  processCount : Option U32
  concurrencySlots : Option U32
deriving DecidableEq

structure ResourceUsage where
  usd : Decimal
  inputTokens : U64
  outputTokens : U64
  wallClockMs : U64
  outputBytes : U64
  networkEgressBytes : U64
  processCount : U32
deriving DecidableEq

structure ResourceTally where
  usd : Decimal
  inputTokens : U64
  outputTokens : U64
  wallClockMs : U64
  outputBytes : U64
  networkEgressBytes : U64
  processCount : U32
  concurrencySlots : U32
deriving DecidableEq

namespace ResourceTally

/-- `ResourceTally::default`. -/
def zero : ResourceTally :=
  ⟨.zero, .zero, .zero, .zero, .zero, .zero, .zero, .zero⟩

instance : Inhabited ResourceTally := ⟨zero⟩

def fromEstimate (estimate : ResourceEstimate) : ResourceTally where
  usd := estimate.usd.getD .zero
  inputTokens := estimate.inputTokens.getD .zero
  outputTokens := estimate.outputTokens.getD .zero
  wallClockMs := estimate.wallClockMs.getD .zero
  outputBytes := estimate.outputBytes.getD .zero
  networkEgressBytes := estimate.networkEgressBytes.getD .zero
  processCount := estimate.processCount.getD .zero
  concurrencySlots := estimate.concurrencySlots.getD .zero

/-- Slots are held, never spent. -/
def fromUsage (usage : ResourceUsage) : ResourceTally where
  usd := usage.usd
  inputTokens := usage.inputTokens
  outputTokens := usage.outputTokens
  wallClockMs := usage.wallClockMs
  outputBytes := usage.outputBytes
  networkEgressBytes := usage.networkEgressBytes
  processCount := usage.processCount
  concurrencySlots := .zero

def addAssign (Tz : Type) [Platform Tz] (t other : ResourceTally) : ResourceTally where
  usd := (Platform.checkedAdd Tz t.usd other.usd).getD .max
  inputTokens := t.inputTokens.add other.inputTokens
  outputTokens := t.outputTokens.add other.outputTokens
  wallClockMs := t.wallClockMs.add other.wallClockMs
  outputBytes := t.outputBytes.add other.outputBytes
  networkEgressBytes := t.networkEgressBytes.add other.networkEgressBytes
  processCount := t.processCount.add other.processCount
  concurrencySlots := t.concurrencySlots.add other.concurrencySlots

def subAssign (Tz : Type) [Platform Tz] (t other : ResourceTally) : ResourceTally where
  usd := ((Platform.checkedSub Tz t.usd other.usd).map Decimal.atLeastZero).getD .zero
  inputTokens := t.inputTokens.sub other.inputTokens
  outputTokens := t.outputTokens.sub other.outputTokens
  wallClockMs := t.wallClockMs.sub other.wallClockMs
  outputBytes := t.outputBytes.sub other.outputBytes
  networkEgressBytes := t.networkEgressBytes.sub other.networkEgressBytes
  processCount := t.processCount.sub other.processCount
  concurrencySlots := t.concurrencySlots.sub other.concurrencySlots

end ResourceTally

/-! ### One dimension of a tally -/

/-- Largest amount of a dimension. -/
def ResourceDimension.cap : ResourceDimension → ℤ
  | .usd => Decimal.maxUnits
  | .processCount | .concurrencySlots => 2 ^ 32 - 1
  | _ => 2 ^ 64 - 1

theorem ResourceDimension.cap_pos (d : ResourceDimension) : 0 < d.cap := by
  cases d <;> decide

namespace ResourceTally

def amount (t : ResourceTally) : ResourceDimension → ℤ
  | .usd => t.usd.units
  | .inputTokens => t.inputTokens.val
  | .outputTokens => t.outputTokens.val
  | .wallClockMs => t.wallClockMs.val
  | .outputBytes => t.outputBytes.val
  | .networkEgressBytes => t.networkEgressBytes.val
  | .processCount => t.processCount.val
  | .concurrencySlots => t.concurrencySlots.val

/-- No amount of money below zero; the other dimensions cannot be. -/
def Nonneg (t : ResourceTally) : Prop := 0 ≤ t.usd.units

instance (t : ResourceTally) : Decidable t.Nonneg := inferInstanceAs (Decidable (0 ≤ t.usd.units))

@[simp] theorem amount_zero (d : ResourceDimension) : zero.amount d = 0 := by
  cases d <;> rfl

theorem zero_nonneg : zero.Nonneg := le_refl 0

theorem Nonneg.amount {t : ResourceTally} (h : t.Nonneg) (d : ResourceDimension) :
    0 ≤ t.amount d := by
  cases d with
  | usd => exact h
  | _ => exact Int.natCast_nonneg _

theorem amount_le_cap (t : ResourceTally) (d : ResourceDimension) : t.amount d ≤ d.cap := by
  have hn : ∀ {cap : ℕ} (a : Saturating cap), (a.val : ℤ) ≤ cap := fun a =>
    Int.ofNat_le.mpr a.le_cap
  cases d with
  | usd => exact (le_abs_self _).trans t.usd.abs_le
  | _ => exact hn _

variable {t u : ResourceTally}

theorem ext_amount (h : ∀ d, t.amount d = u.amount d) : t = u := by
  have hd : ∀ {a b : Decimal}, a.units = b.units → a = b := by
    intro a b e
    cases a
    cases b
    cases e
    rfl
  have hn : ∀ {cap : ℕ} {a b : Saturating cap}, (a.val : ℤ) = b.val → a = b := fun e =>
    Saturating.ext (Int.ofNat_inj.mp e)
  have h1 : t.usd = u.usd := hd (h .usd)
  have h2 : t.inputTokens = u.inputTokens := hn (h .inputTokens)
  have h3 : t.outputTokens = u.outputTokens := hn (h .outputTokens)
  have h4 : t.wallClockMs = u.wallClockMs := hn (h .wallClockMs)
  have h5 : t.outputBytes = u.outputBytes := hn (h .outputBytes)
  have h6 : t.networkEgressBytes = u.networkEgressBytes := hn (h .networkEgressBytes)
  have h7 : t.processCount = u.processCount := hn (h .processCount)
  have h8 : t.concurrencySlots = u.concurrencySlots := hn (h .concurrencySlots)
  cases t
  cases u
  simp_all

variable {Tz : Type} [Platform Tz]

private theorem units_checkedAdd {a b : Decimal} (ha : 0 ≤ a.units) (hb : 0 ≤ b.units)
    (hexact : Decimal.Unrounded (a.units + b.units)) :
    ((Platform.checkedAdd Tz a b).getD .max).units = min (a.units + b.units) Decimal.maxUnits := by
  have e : |a.units + b.units| = a.units + b.units := abs_of_nonneg (by omega)
  rcases hexact with hfits | hover
  · rw [Platform.add_exact a b hfits]
    exact (min_eq_left (e.symm.trans_le hfits.abs_le)).symm
  · rw [Platform.add_overflow a b hover]
    rw [e] at hover
    exact (min_eq_right (le_of_add_le_of_nonneg_left hover (by decide))).symm

private theorem units_checkedSub {a b : Decimal} (hfits : Decimal.Fits (a.units - b.units)) :
    (((Platform.checkedSub Tz a b).map Decimal.atLeastZero).getD .zero).units =
      max (a.units - b.units) 0 := by
  rw [Platform.sub_exact a b hfits, Option.map_some, Option.getD_some]
  unfold Decimal.atLeastZero
  split_ifs with hneg
  · exact (max_eq_right (le_of_lt hneg)).symm
  · exact (max_eq_left (not_lt.mp hneg)).symm

theorem amount_addAssign (ht : t.Nonneg) (hu : u.Nonneg) {d : ResourceDimension}
    (hexact : d = .usd → Decimal.Unrounded (t.usd.units + u.usd.units)) :
    (t.addAssign Tz u).amount d = min (t.amount d + u.amount d) d.cap := by
  have hn : ∀ {cap : ℕ} (a b : Saturating cap),
      ((a.add b).val : ℤ) = min ((a.val : ℤ) + b.val) cap := by
    intro cap a b
    rw [Saturating.val_add]
    omega
  cases d with
  | usd => exact units_checkedAdd ht hu (hexact rfl)
  | _ => exact hn _ _

theorem amount_subAssign {d : ResourceDimension}
    (hexact : d = .usd → Decimal.Fits (t.usd.units - u.usd.units)) :
    (t.subAssign Tz u).amount d = max (t.amount d - u.amount d) 0 := by
  have hn : ∀ {cap : ℕ} (a b : Saturating cap),
      ((a.sub b).val : ℤ) = max ((a.val : ℤ) - b.val) 0 := by
    intro cap a b
    rw [Saturating.val_sub]
    omega
  cases d with
  | usd => exact units_checkedSub (hexact rfl)
  | _ => exact hn _ _

theorem zero_addAssign (t : ResourceTally) : zero.addAssign Tz t = t := by
  have hn : ∀ {cap : ℕ} (a : Saturating cap), ((Saturating.zero.add a).val : ℤ) = a.val := by
    intro cap a
    rw [Saturating.val_add]
    have hle := a.le_cap
    show ((min (0 + a.val) cap : ℕ) : ℤ) = a.val
    omega
  apply ext_amount
  intro d
  cases d with
  | usd =>
    have hfits : Decimal.Fits (Decimal.zero.units + t.usd.units) :=
      (zero_add t.usd.units).symm ▸ t.usd.fits
    show ((Platform.checkedAdd Tz Decimal.zero t.usd).getD .max).units = t.usd.units
    rw [Platform.add_exact _ _ hfits]
    exact zero_add _
  | _ => exact hn _

theorem Nonneg.addAssign (ht : t.Nonneg) (hu : u.Nonneg) : (t.addAssign Tz u).Nonneg := by
  show 0 ≤ ((Platform.checkedAdd Tz t.usd u.usd).getD .max).units
  cases hsum : Platform.checkedAdd Tz t.usd u.usd with
  | none => exact (show 0 ≤ Decimal.maxUnits by decide)
  | some c => exact Platform.add_nonneg _ _ c hsum ht hu

theorem Nonneg.subAssign (t u : ResourceTally) : (t.subAssign Tz u).Nonneg := by
  show 0 ≤ (((Platform.checkedSub Tz t.usd u.usd).map Decimal.atLeastZero).getD .zero).units
  cases Platform.checkedSub Tz t.usd u.usd with
  | none => exact le_rfl
  | some c =>
    show 0 ≤ c.atLeastZero.units
    unfold Decimal.atLeastZero
    split_ifs with hneg
    · exact le_rfl
    · exact not_lt.mp hneg

end ResourceTally

end Ironclaw.Resources
