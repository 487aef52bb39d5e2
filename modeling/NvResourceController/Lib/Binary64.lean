/-
  NvResourceController.Lib.Binary64 — IEEE 754 double precision: values as exact
  rationals, rounding to nearest with ties to even, over the whole range from the
  subnormals to overflow. The two zeros are one.

  - `round_eq`: a rational with a significand of 53 bits and an exponent in range is its
    own rounding; so is its product with a power of two (`mul_pow`).
  - `Conversion`: a conversion to 64 bits, of which only the values in range are known.
-/

import NvResourceController.Lib.Rounding

namespace Binary64

/-- A double. -/
inductive Double where
  | nan
  | inf (neg : Bool)
  | finite (q : ℚ)
  deriving DecidableEq

/-! ## Rounding -/

/-- To 53 bits, the last no less than that of the subnormals. -/
def round (x : ℚ) : Double :=
  let q := Rounding.round 53 (-1074) x
  if 2 ^ 1024 ≤ |q| then .inf (q < 0) else .finite q

theorem round_eq {m e : ℤ} (hm : |m| < 2 ^ 53) (he : -1074 ≤ e) (hlt : |(m : ℚ) * 2 ^ e| < 2 ^ 1024) :
    round (m * 2 ^ e) = .finite (m * 2 ^ e) := by
  rw [round, Rounding.round_eq hm he, if_neg (not_le.mpr hlt)]

/-! ## Operations -/

def Double.neg : Double → Double
  | .nan => .nan
  | .inf neg => .inf !neg
  | .finite q => .finite (-q)

def Double.mul : Double → Double → Double
  | .nan, _ | _, .nan => .nan
  | .inf a, .inf b => .inf (a != b)
  | .inf a, .finite q | .finite q, .inf a => if q = 0 then .nan else .inf (a != decide (q < 0))
  | .finite p, .finite q => round (p * q)

theorem mul_pow {m k : ℕ} (hm : m < 2 ^ 53) (hlt : m * 2 ^ k < 2 ^ 1024) :
    (Double.finite m).mul (.finite (2 ^ k)) = .finite ((m * 2 ^ k : ℕ) : ℚ) := by
  have hcast : ((m : ℤ) : ℚ) * 2 ^ (k : ℤ) = ((m * 2 ^ k : ℕ) : ℚ) := by
    rw [zpow_natCast]
    push_cast
    rfl
  have habs : |((m : ℤ) : ℚ) * 2 ^ (k : ℤ)| < 2 ^ 1024 := by
    rw [hcast, Nat.abs_cast]
    exact_mod_cast hlt
  have hround := round_eq (m := m) (e := k) (by rw [Nat.abs_cast]; exact_mod_cast hm) (by omega) habs
  rw [hcast] at hround
  rw [Double.mul, ← hround, ← hcast, zpow_natCast]
  rfl

theorem round_natCast {m : ℕ} (hm : m < 2 ^ 53) : round m = .finite m := by
  have habs : |((m : ℤ) : ℚ) * 2 ^ (0 : ℤ)| < 2 ^ 1024 := by
    rw [zpow_zero, mul_one, Int.cast_natCast, Nat.abs_cast]
    exact_mod_cast hm.trans (Nat.pow_lt_pow_right (by norm_num) (by norm_num))
  have hround := round_eq (m := m) (e := 0) (by rw [Nat.abs_cast]; exact_mod_cast hm) (by omega) habs
  rw [zpow_zero, mul_one, Int.cast_natCast] at hround
  exact hround

/-- A conversion to an unsigned integer of 64 bits: towards zero, and anything at all for
    what is not in range. -/
structure Conversion where
  toUInt64 : Double → UInt64
  exact : ∀ q : ℚ, -1 < q → q < 2 ^ 64 → toUInt64 (.finite q) = UInt64.ofNat ⌊q⌋.toNat

theorem Conversion.natCast (c : Conversion) (n : UInt64) : c.toUInt64 (.finite (n.toNat : ℚ)) = n := by
  have hlt : (n.toNat : ℚ) < 2 ^ 64 := by exact_mod_cast n.toNat_lt
  have hnonneg : (0 : ℚ) ≤ n.toNat := Nat.cast_nonneg _
  rw [c.exact _ (by linarith) hlt, Int.floor_natCast, Int.toNat_natCast, UInt64.ofNat_toNat]

/-- One that gives 0 out of range. -/
def towardsZero : Conversion where
  toUInt64
    | .finite q => UInt64.ofNat ⌊q⌋.toNat
    | _ => 0
  exact _ _ _ := rfl

end Binary64
