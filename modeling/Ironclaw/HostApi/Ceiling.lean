import Ironclaw.Resources.Tally

/-! # Resource ceilings

The optional limits of `resource.rs`, with their order. A limit that is not set is unlimited, at
both levels: `Option` of an ordered type is read as `WithTop`, a quota or a ceiling as the product
of its limits, and an optional quota or ceiling as `WithTop` of that product. `≤` says that one
never allows more than the other.

An unset quota is not the quota without limits: the second is below the first. -/

namespace Ironclaw

open Resources (Decimal U64 U32)

instance {cap : ℕ} : LinearOrder (Saturating cap) :=
  LinearOrder.lift' Saturating.val fun _ _ => Saturating.ext

instance : LinearOrder Decimal :=
  LinearOrder.lift' Decimal.units fun a b h => by cases a; cases b; congr 1

/-- The limits of a sandbox. -/
structure SandboxQuota where
  cpuTimeMs : Option U64
  memoryBytes : Option U64
  diskBytes : Option U64
  networkEgressBytes : Option U64
  processCount : Option U32

/-- The limits of an invocation. -/
structure ResourceCeiling where
  maxUsd : Option Decimal
  maxInputTokens : Option U64
  maxOutputTokens : Option U64
  maxWallClockMs : Option U64
  maxOutputBytes : Option U64
  sandbox : Option SandboxQuota

/-- An optional value as a limit: not set is unlimited. -/
def asLimit {α : Type} (value : Option α) : WithTop α := value

theorem asLimit_none_le_some {α : Type} [Preorder α] {value : α} :
    ¬ asLimit none ≤ asLimit (some value) := WithTop.not_top_le_coe value

theorem asLimit_le_none {α : Type} [Preorder α] {value : Option α} :
    asLimit value ≤ asLimit none := le_top

theorem asLimit_some_le_some {α : Type} [Preorder α] {value other : α} :
    asLimit (some value) ≤ asLimit (some other) ↔ value ≤ other := WithTop.coe_le_coe

namespace SandboxQuota

def limits (quota : SandboxQuota) :
    WithTop U64 × WithTop U64 × WithTop U64 × WithTop U64 × WithTop U32 :=
  (asLimit quota.cpuTimeMs, asLimit quota.memoryBytes, asLimit quota.diskBytes,
    asLimit quota.networkEgressBytes, asLimit quota.processCount)

theorem limits_injective : Function.Injective limits := by
  intro quota other h
  cases quota
  cases other
  simp only [limits, Prod.mk.injEq] at h
  rw [mk.injEq]
  exact h

instance : PartialOrder SandboxQuota := PartialOrder.lift limits limits_injective

theorem le_iff {quota other : SandboxQuota} : quota ≤ other ↔
    asLimit quota.cpuTimeMs ≤ asLimit other.cpuTimeMs ∧
      asLimit quota.memoryBytes ≤ asLimit other.memoryBytes ∧
      asLimit quota.diskBytes ≤ asLimit other.diskBytes ∧
      asLimit quota.networkEgressBytes ≤ asLimit other.networkEgressBytes ∧
      asLimit quota.processCount ≤ asLimit other.processCount := Iff.rfl

end SandboxQuota

namespace ResourceCeiling

def limits (ceiling : ResourceCeiling) :
    WithTop Decimal × WithTop U64 × WithTop U64 × WithTop U64 × WithTop U64 ×
      WithTop SandboxQuota :=
  (asLimit ceiling.maxUsd, asLimit ceiling.maxInputTokens, asLimit ceiling.maxOutputTokens,
    asLimit ceiling.maxWallClockMs, asLimit ceiling.maxOutputBytes, asLimit ceiling.sandbox)

theorem limits_injective : Function.Injective limits := by
  intro ceiling other h
  cases ceiling
  cases other
  simp only [limits, Prod.mk.injEq] at h
  rw [mk.injEq]
  exact h

instance : PartialOrder ResourceCeiling := PartialOrder.lift limits limits_injective

theorem le_iff {ceiling other : ResourceCeiling} : ceiling ≤ other ↔
    asLimit ceiling.maxUsd ≤ asLimit other.maxUsd ∧
      asLimit ceiling.maxInputTokens ≤ asLimit other.maxInputTokens ∧
      asLimit ceiling.maxOutputTokens ≤ asLimit other.maxOutputTokens ∧
      asLimit ceiling.maxWallClockMs ≤ asLimit other.maxWallClockMs ∧
      asLimit ceiling.maxOutputBytes ≤ asLimit other.maxOutputBytes ∧
      asLimit ceiling.sandbox ≤ asLimit other.sandbox := Iff.rfl

end ResourceCeiling

/-! ### One dimension -/

/-- What a ceiling can limit. -/
inductive CeilingDimension where
  | usd | inputTokens | outputTokens | wallClockMs | outputBytes
  | cpuTimeMs | memoryBytes | diskBytes | networkEgressBytes | processCount

/-- The limit in one dimension, if there is one; money in units of `10⁻²⁸`. -/
def limitOf (ceiling : Option ResourceCeiling) : CeilingDimension → Option ℤ
  | .usd => (ceiling.bind ResourceCeiling.maxUsd).map Decimal.units
  | .inputTokens => (ceiling.bind ResourceCeiling.maxInputTokens).map fun limit => limit.val
  | .outputTokens => (ceiling.bind ResourceCeiling.maxOutputTokens).map fun limit => limit.val
  | .wallClockMs => (ceiling.bind ResourceCeiling.maxWallClockMs).map fun limit => limit.val
  | .outputBytes => (ceiling.bind ResourceCeiling.maxOutputBytes).map fun limit => limit.val
  | .cpuTimeMs =>
    ((ceiling.bind ResourceCeiling.sandbox).bind SandboxQuota.cpuTimeMs).map fun limit => limit.val
  | .memoryBytes =>
    ((ceiling.bind ResourceCeiling.sandbox).bind SandboxQuota.memoryBytes).map
      fun limit => limit.val
  | .diskBytes =>
    ((ceiling.bind ResourceCeiling.sandbox).bind SandboxQuota.diskBytes).map fun limit => limit.val
  | .networkEgressBytes =>
    ((ceiling.bind ResourceCeiling.sandbox).bind SandboxQuota.networkEgressBytes).map
      fun limit => limit.val
  | .processCount =>
    ((ceiling.bind ResourceCeiling.sandbox).bind SandboxQuota.processCount).map
      fun limit => limit.val

theorem exists_le_of_asLimit_le {α : Type} [Preorder α] {value : α → ℤ}
    (hvalue : ∀ a b, a ≤ b → value a ≤ value b)
    {limit other : Option α} (h : asLimit limit ≤ asLimit other) {v : ℤ}
    (hother : other.map value = some v) : ∃ w, limit.map value = some w ∧ w ≤ v := by
  obtain ⟨b, rfl, rfl⟩ := Option.map_eq_some_iff.1 hother
  cases limit with
  | none => exact absurd h asLimit_none_le_some
  | some a => exact ⟨value a, rfl, hvalue a b (asLimit_some_le_some.1 h)⟩

theorem asLimit_bind_le {α β : Type} [Preorder α] [Preorder β] {field : α → Option β}
    (hfield : ∀ a b, a ≤ b → asLimit (field a) ≤ asLimit (field b)) {limit other : Option α}
    (h : asLimit limit ≤ asLimit other) :
    asLimit (limit.bind field) ≤ asLimit (other.bind field) := by
  cases other with
  | none => exact asLimit_le_none
  | some b =>
    cases limit with
    | none => exact absurd h asLimit_none_le_some
    | some a => exact hfield a b (asLimit_some_le_some.1 h)

/-- A smaller ceiling limits every dimension that the larger one limits, by no more. -/
theorem limitOf_le {ceiling other : Option ResourceCeiling} (h : asLimit ceiling ≤ asLimit other)
    {dimension : CeilingDimension} {v : ℤ} (hother : limitOf other dimension = some v) :
    ∃ w, limitOf ceiling dimension = some w ∧ w ≤ v := by
  have hcount : ∀ cap (a b : Saturating cap), a ≤ b → (a.val : ℤ) ≤ b.val :=
    fun cap a b hle => Int.ofNat_le.2 hle
  have husd : ∀ a b : Decimal, a ≤ b → a.units ≤ b.units := fun a b hle => hle
  have hsandbox : asLimit (ceiling.bind ResourceCeiling.sandbox) ≤
      asLimit (other.bind ResourceCeiling.sandbox) :=
    asLimit_bind_le (fun a b hle => (ResourceCeiling.le_iff.1 hle).2.2.2.2.2) h
  cases dimension with
  | usd =>
    exact exists_le_of_asLimit_le husd
      (asLimit_bind_le (fun a b hle => (ResourceCeiling.le_iff.1 hle).1) h) hother
  | inputTokens =>
    exact exists_le_of_asLimit_le (hcount _)
      (asLimit_bind_le (fun a b hle => (ResourceCeiling.le_iff.1 hle).2.1) h) hother
  | outputTokens =>
    exact exists_le_of_asLimit_le (hcount _)
      (asLimit_bind_le (fun a b hle => (ResourceCeiling.le_iff.1 hle).2.2.1) h) hother
  | wallClockMs =>
    exact exists_le_of_asLimit_le (hcount _)
      (asLimit_bind_le (fun a b hle => (ResourceCeiling.le_iff.1 hle).2.2.2.1) h) hother
  | outputBytes =>
    exact exists_le_of_asLimit_le (hcount _)
      (asLimit_bind_le (fun a b hle => (ResourceCeiling.le_iff.1 hle).2.2.2.2.1) h) hother
  | cpuTimeMs =>
    exact exists_le_of_asLimit_le (hcount _)
      (asLimit_bind_le (fun a b hle => (SandboxQuota.le_iff.1 hle).1) hsandbox) hother
  | memoryBytes =>
    exact exists_le_of_asLimit_le (hcount _)
      (asLimit_bind_le (fun a b hle => (SandboxQuota.le_iff.1 hle).2.1) hsandbox) hother
  | diskBytes =>
    exact exists_le_of_asLimit_le (hcount _)
      (asLimit_bind_le (fun a b hle => (SandboxQuota.le_iff.1 hle).2.2.1) hsandbox) hother
  | networkEgressBytes =>
    exact exists_le_of_asLimit_le (hcount _)
      (asLimit_bind_le (fun a b hle => (SandboxQuota.le_iff.1 hle).2.2.2.1) hsandbox) hother
  | processCount =>
    exact exists_le_of_asLimit_le (hcount _)
      (asLimit_bind_le (fun a b hle => (SandboxQuota.le_iff.1 hle).2.2.2.2) hsandbox) hother

end Ironclaw
