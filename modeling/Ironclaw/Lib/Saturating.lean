import Mathlib.Data.Nat.Notation

/-! # Counters that saturate

`Saturating cap` is a machine counter: a number that is at most `cap`. Addition stops at `cap`
and subtraction at zero, so neither undoes the other; a client that needs an exact sum shows that
no addition was cut short and no subtraction went below zero. -/

namespace Ironclaw

/-- A number that is at most `cap`. -/
structure Saturating (cap : ℕ) where
  val : ℕ
  le_cap : val ≤ cap
deriving DecidableEq

namespace Saturating

variable {cap cap' : ℕ}

/-- Zero. -/
def zero : Saturating cap := ⟨0, Nat.zero_le cap⟩

instance : Inhabited (Saturating cap) := ⟨zero⟩

@[ext] theorem ext {a b : Saturating cap} (h : a.val = b.val) : a = b := by
  cases a
  cases b
  congr 1

/-- The number, where it is in range. -/
def ofNat (n : ℕ) : Saturating cap := ⟨min n cap, Nat.min_le_right _ _⟩

/-- Addition that stops at the largest value. -/
def add (a b : Saturating cap) : Saturating cap := ⟨min (a.val + b.val) cap, Nat.min_le_right _ _⟩

/-- Subtraction that stops at zero. -/
def sub (a b : Saturating cap) : Saturating cap :=
  ⟨a.val - b.val, Nat.le_trans (Nat.sub_le _ _) a.le_cap⟩

/-- The same number in a type with a larger range. -/
def widen (h : cap ≤ cap') (a : Saturating cap) : Saturating cap' := ⟨a.val, Nat.le_trans a.le_cap h⟩

@[simp] theorem val_add (a b : Saturating cap) : (a.add b).val = min (a.val + b.val) cap := rfl

@[simp] theorem val_sub (a b : Saturating cap) : (a.sub b).val = a.val - b.val := rfl

end Saturating

end Ironclaw
