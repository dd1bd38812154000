import Mathlib.Tactic.FieldSimp
import Mathlib.Tactic.Positivity
import Mathlib.Tactic.Ring

/-! # Decimals with a bounded mantissa

`Scaled bound maxScale` holds the numbers `m / 10 ^ s` with `|m| < bound` and `s ≤ maxScale`. A sum is
formed exactly at the larger of the two scales and then brought into range: the scale is lowered one
by one until the mantissa, rounded half to even, fits (`Scaled.fit`). Where it does not fit at scale
zero, there is no result.

The sum and the difference are exact whenever the exact number is in range at all (`add_exact`,
`sub_exact`): a digit that has to be dropped is then a zero. -/

namespace Ironclaw

structure Scaled (bound maxScale : ℕ) where
  mantissa : ℤ
  scale : ℕ
  mantissa_lt : mantissa.natAbs < bound
  scale_le : scale ≤ maxScale

namespace Scaled

variable {bound maxScale : ℕ}

theorem eq_iff {a b : Scaled bound maxScale} :
    a.mantissa = b.mantissa ∧ a.scale = b.scale ↔ a = b := by
  cases a
  cases b
  simp

instance : DecidableEq (Scaled bound maxScale) := fun _ _ => decidable_of_iff _ eq_iff

def value (d : Scaled bound maxScale) : ℚ := d.mantissa / 10 ^ d.scale

/-- The quotient, rounded half to even. -/
def roundDiv (m : ℤ) (d : ℤ) : ℤ :=
  if 2 * (m % d) < d then m / d
  else if d < 2 * (m % d) then m / d + 1
  else if m / d % 2 = 0 then m / d else m / d + 1

theorem roundDiv_of_dvd {m d : ℤ} (hd : 0 < d) (h : d ∣ m) : roundDiv m d = m / d := by
  rw [roundDiv, Int.emod_eq_zero_of_dvd h, mul_zero, if_pos hd]

/-- The number without its last `drop` digits, where it is in range then. -/
def attempt (m : ℤ) (scale drop : ℕ) : Option (Scaled bound maxScale) :=
  if h : (roundDiv m (10 ^ drop)).natAbs < bound ∧ scale - drop ≤ maxScale then
    some ⟨roundDiv m (10 ^ drop), scale - drop, h.1, h.2⟩
  else none

/-- The first attempt that succeeds, from `drop` digits on. -/
def fitFrom (m : ℤ) (scale : ℕ) : ℕ → ℕ → Option (Scaled bound maxScale)
  | 0, drop => attempt m scale drop
  | more + 1, drop => (attempt m scale drop).or (fitFrom m scale more (drop + 1))

/-- The number `m / 10 ^ scale`, rounded where it has too many digits. -/
def fit (m : ℤ) (scale : ℕ) : Option (Scaled bound maxScale) := fitFrom m scale scale 0

def zero (h : 0 < bound) : Scaled bound maxScale := ⟨0, 0, h, Nat.zero_le _⟩

/-- The mantissa of a number at a larger scale. -/
def rescaled (d : Scaled bound maxScale) (scale : ℕ) : ℤ := d.mantissa * 10 ^ (scale - d.scale)

def add (a b : Scaled bound maxScale) : Option (Scaled bound maxScale) :=
  fit (a.rescaled (max a.scale b.scale) + b.rescaled (max a.scale b.scale)) (max a.scale b.scale)

def sub (a b : Scaled bound maxScale) : Option (Scaled bound maxScale) :=
  fit (a.rescaled (max a.scale b.scale) - b.rescaled (max a.scale b.scale)) (max a.scale b.scale)

/-! ### Exactness -/

theorem value_rescaled (d : Scaled bound maxScale) {scale : ℕ} (h : d.scale ≤ scale) :
    (d.rescaled scale : ℚ) / 10 ^ scale = d.value := by
  obtain ⟨extra, rfl⟩ := Nat.exists_eq_add_of_le h
  rw [rescaled, value, Nat.add_sub_cancel_left, pow_add]
  push_cast
  field_simp

theorem value_attempt {m : ℤ} {scale drop : ℕ} (hdrop : drop ≤ scale) (hzeros : (10 : ℤ) ^ drop ∣ m)
    {d : Scaled bound maxScale} (h : attempt m scale drop = some d) :
    d.value = (m : ℚ) / 10 ^ scale := by
  unfold attempt at h
  split_ifs at h with hfits
  rw [Option.some.injEq] at h
  subst h
  obtain ⟨q, rfl⟩ := hzeros
  obtain ⟨rest, rfl⟩ := Nat.exists_eq_add_of_le hdrop
  have hpos : (0 : ℤ) < 10 ^ drop := by positivity
  rw [value]
  simp only [roundDiv_of_dvd hpos (Dvd.intro _ rfl), Int.mul_ediv_cancel_left q hpos.ne',
    Nat.add_sub_cancel_left]
  push_cast
  rw [pow_add]
  field_simp

/-- Where the number fits after some zeros are dropped, the search ends with the number itself. -/
theorem exact_fitFrom {m : ℤ} {scale last : ℕ} (hlast : last ≤ scale) (hzeros : (10 : ℤ) ^ last ∣ m)
    (hfits : (attempt m scale last : Option (Scaled bound maxScale)).isSome = true) (more : ℕ) :
    ∀ {drop : ℕ}, drop ≤ last → last ≤ drop + more →
      ∃ d : Scaled bound maxScale, fitFrom m scale more drop = some d ∧
        d.value = (m : ℚ) / 10 ^ scale := by
  induction more with
  | zero =>
    intro drop hle hge
    obtain rfl : drop = last := Nat.le_antisymm hle hge
    obtain ⟨d, hd⟩ := Option.isSome_iff_exists.1 hfits
    exact ⟨d, hd, value_attempt hlast hzeros hd⟩
  | succ more ih =>
    intro drop hle hge
    cases hd : (attempt m scale drop : Option (Scaled bound maxScale)) with
    | some d =>
      refine ⟨d, by rw [fitFrom, hd]; rfl, ?_⟩
      exact value_attempt (hle.trans hlast) ((pow_dvd_pow 10 hle).trans hzeros) hd
    | none =>
      have hne : drop ≠ last := by
        rintro rfl
        rw [hd] at hfits
        exact absurd hfits Bool.false_ne_true
      obtain ⟨d, hfound, hvalue⟩ := ih (Nat.lt_of_le_of_ne hle hne) (by omega)
      exact ⟨d, by rw [fitFrom, hd]; exact hfound, hvalue⟩

theorem exact_fit {m : ℤ} {scale : ℕ} (hscale : scale ≤ maxScale) {d : Scaled bound maxScale}
    (h : d.value = (m : ℚ) / 10 ^ scale) :
    ∃ c : Scaled bound maxScale, fit m scale = some c ∧ c.value = (m : ℚ) / 10 ^ scale := by
  have hcross : d.mantissa * 10 ^ scale = m * 10 ^ d.scale := by
    rw [value] at h
    field_simp at h
    rw [mul_comm m]
    exact_mod_cast h
  rcases Nat.le_total scale d.scale with hle | hle
  · -- the mantissa at the smaller scale is smaller still
    obtain ⟨extra, hextra⟩ := Nat.exists_eq_add_of_le hle
    have hmantissa : d.mantissa = m * 10 ^ extra := by
      rw [hextra, pow_add, mul_comm ((10 : ℤ) ^ scale), ← mul_assoc] at hcross
      exact mul_right_cancel₀ (by positivity) hcross
    have hbound : m.natAbs < bound := by
      refine lt_of_le_of_lt ?_ d.mantissa_lt
      rw [hmantissa, Int.natAbs_mul]
      exact Nat.le_mul_of_pos_right _ (by simp [Int.natAbs_pow])
    refine exact_fitFrom (Nat.zero_le _) (one_dvd _) ?_ scale (Nat.zero_le _) (Nat.zero_le _)
    have hround : roundDiv m (10 ^ 0) = m := by
      rw [pow_zero, roundDiv_of_dvd one_pos (one_dvd _), Int.ediv_one]
    rw [attempt, dif_pos ⟨by rw [hround]; exact hbound, by simpa using hscale⟩]
    rfl
  · obtain ⟨drop, rfl⟩ := Nat.exists_eq_add_of_le hle
    have hm : m = d.mantissa * 10 ^ drop := by
      rw [pow_add, mul_comm ((10 : ℤ) ^ d.scale), ← mul_assoc] at hcross
      exact (mul_right_cancel₀ (by positivity) hcross).symm
    have hzeros : (10 : ℤ) ^ drop ∣ m := hm ▸ Dvd.intro_left _ rfl
    refine exact_fitFrom (Nat.le_add_left _ _) hzeros ?_ _ (Nat.zero_le _) (by omega)
    have hround : roundDiv m (10 ^ drop) = d.mantissa := by
      rw [roundDiv_of_dvd (by positivity) hzeros, hm, Int.mul_ediv_cancel _ (by positivity)]
    rw [attempt, dif_pos ⟨by rw [hround]; exact d.mantissa_lt, by omega⟩]
    rfl

theorem add_exact {a b d : Scaled bound maxScale} (h : d.value = a.value + b.value) :
    ∃ c, add a b = some c ∧ c.value = a.value + b.value := by
  have hsum : a.value + b.value = ((a.rescaled (max a.scale b.scale) +
      b.rescaled (max a.scale b.scale) : ℤ) : ℚ) / 10 ^ max a.scale b.scale := by
    push_cast
    rw [add_div, a.value_rescaled (le_max_left _ _), b.value_rescaled (le_max_right _ _)]
  rw [hsum] at h ⊢
  exact exact_fit (max_le a.scale_le b.scale_le) h

theorem sub_exact {a b d : Scaled bound maxScale} (h : d.value = a.value - b.value) :
    ∃ c, sub a b = some c ∧ c.value = a.value - b.value := by
  have hdiff : a.value - b.value = ((a.rescaled (max a.scale b.scale) -
      b.rescaled (max a.scale b.scale) : ℤ) : ℚ) / 10 ^ max a.scale b.scale := by
    push_cast
    rw [sub_div, a.value_rescaled (le_max_left _ _), b.value_rescaled (le_max_right _ _)]
  rw [hdiff] at h ⊢
  exact exact_fit (max_le a.scale_le b.scale_le) h

end Scaled

end Ironclaw
