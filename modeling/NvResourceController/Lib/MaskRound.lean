/-
  NvResourceController.Lib.MaskRound — rounding a size up to an alignment with a bit
  mask, `(size + alignment - 1) & ~(alignment - 1)`, in 64-bit words.

  The mask clears no more than `alignment - 1`, so when the sum does not overflow the
  result is at least the size, whether or not the alignment is a power of two
  (`le_roundUp`). Without that bound it need not be.

  - `toNat_roundUp`, `toNat_roundUp_wrapped`: the result as a number, when the sum does
    not overflow and when it does.
  - `isLeast_roundUp`: for a power of two and no overflow it is the least multiple of
    the alignment that is at least the size; with an overflow it is 0
    (`roundUp_two_pow_wrapped`).
-/

import Mathlib.Algebra.GroupWithZero.Nat
import Mathlib.Data.UInt
import Mathlib.Order.Bounds.Basic

namespace MaskRound

/-- A word is what a mask keeps of it and what the mask clears. -/
theorem toNat_and_add_and_not (x m : UInt64) : (x &&& m).toNat + (x &&& ~~~m).toNat = x.toNat := by
  have hdisj : (x.toBitVec &&& m.toBitVec) &&& (x.toBitVec &&& ~~~m.toBitVec) = 0#64 := by
    ext i hi
    simp only [BitVec.getElem_and, BitVec.getElem_not, BitVec.getElem_zero]
    cases x.toBitVec[i] <;> cases m.toBitVec[i] <;> rfl
  have hor : (x.toBitVec &&& m.toBitVec) ||| (x.toBitVec &&& ~~~m.toBitVec) = x.toBitVec := by
    ext i hi
    simp only [BitVec.getElem_or, BitVec.getElem_and, BitVec.getElem_not]
    cases x.toBitVec[i] <;> cases m.toBitVec[i] <;> rfl
  have hsum := BitVec.toNat_add_of_and_eq_zero hdisj
  rw [BitVec.add_eq_or_of_and_eq_zero _ _ hdisj, hor] at hsum
  exact hsum.symm

/-- Clearing the bits of `m` takes at most `m` away. -/
theorem toNat_le_and_not_add (x m : UInt64) : x.toNat ≤ (x &&& ~~~m).toNat + m.toNat := by
  have hsplit := toNat_and_add_and_not x m
  have hle : (x &&& m).toNat ≤ m.toNat := by
    rw [UInt64.toNat_and]
    exact Nat.and_le_right
  omega

def roundUp (size alignment : UInt64) : UInt64 := (size + alignment - 1) &&& ~~~(alignment - 1)

theorem toNat_pos_of_ne_zero {a : UInt64} (h : a ≠ 0) : 0 < a.toNat := by
  have hne : a.toNat ≠ 0 := fun e => h (UInt64.toNat_inj.mp (by simpa using e))
  omega

theorem toNat_pred {a : UInt64} (h : a ≠ 0) : (a - 1).toNat = a.toNat - 1 := by
  have hpos := toNat_pos_of_ne_zero h
  have hone : (1 : UInt64) ≤ a := by rw [UInt64.le_iff_toNat_le, UInt64.toNat_one]; omega
  rw [UInt64.toNat_sub_of_le _ _ hone, UInt64.toNat_one]

theorem toNat_sum {size alignment : UInt64} (ha : alignment ≠ 0)
    (hs : size.toNat + alignment.toNat - 1 < 2 ^ 64) :
    (size + alignment - 1).toNat = size.toNat + alignment.toNat - 1 := by
  have hpos := toNat_pos_of_ne_zero ha
  rw [UInt64.toNat_sub, UInt64.toNat_add]
  simp only [UInt64.toNat_one]
  omega

theorem le_roundUp {size alignment : UInt64} (ha : alignment ≠ 0)
    (hs : size.toNat + alignment.toNat - 1 < 2 ^ 64) : size.toNat ≤ (roundUp size alignment).toNat := by
  have hpos := toNat_pos_of_ne_zero ha
  have hmask := toNat_pred ha
  have hsum := toNat_sum ha hs
  have hle := toNat_le_and_not_add (size + alignment - 1) (alignment - 1)
  rw [roundUp]
  omega

/-! ## The result as a number -/

def cleared (x m : ℕ) : ℕ := x - (x &&& m)

theorem toNat_and_not (x m : UInt64) : (x &&& ~~~m).toNat = cleared x.toNat m.toNat := by
  have h := toNat_and_add_and_not x m
  rw [UInt64.toNat_and] at h
  rw [cleared]
  omega

theorem cleared_two_pow (x k : ℕ) : cleared x (2 ^ k - 1) = x / 2 ^ k * 2 ^ k := by
  rw [cleared, Nat.and_two_pow_sub_one_eq_mod]
  have := Nat.div_add_mod x (2 ^ k)
  rw [Nat.mul_comm] at this
  omega

theorem toNat_roundUp {size alignment : UInt64} (ha : alignment ≠ 0)
    (hs : size.toNat + alignment.toNat - 1 < 2 ^ 64) :
    (roundUp size alignment).toNat = cleared (size.toNat + alignment.toNat - 1) (alignment.toNat - 1) := by
  rw [roundUp, toNat_and_not, toNat_sum ha hs, toNat_pred ha]

/-- Past the top of the word the mask is laid on what is left of the sum. -/
theorem toNat_roundUp_wrapped {size alignment : UInt64} (ha : alignment ≠ 0)
    (hs : 2 ^ 64 ≤ size.toNat + alignment.toNat - 1) :
    (roundUp size alignment).toNat
      = cleared (size.toNat + alignment.toNat - 1 - 2 ^ 64) (alignment.toNat - 1) := by
  have hsize := size.toNat_lt
  have halign := alignment.toNat_lt
  have hsum : (size + alignment - 1).toNat = size.toNat + alignment.toNat - 1 - 2 ^ 64 := by
    rw [UInt64.toNat_sub, UInt64.toNat_add]
    simp only [UInt64.toNat_one]
    omega
  rw [roundUp, toNat_and_not, hsum, toNat_pred ha]

/-! ## Powers of two -/

theorem isLeast_ceil (n : ℕ) {a : ℕ} (ha : 0 < a) : IsLeast {m | a ∣ m ∧ n ≤ m} ((n + a - 1) / a * a) := by
  have hdiv := Nat.div_add_mod (n + a - 1) a
  have hlt := Nat.mod_lt (n + a - 1) ha
  rw [Nat.mul_comm] at hdiv
  refine ⟨⟨Nat.dvd_mul_left _ _, by omega⟩, fun m hm => ?_⟩
  obtain ⟨⟨q, rfl⟩, hle⟩ := hm
  rw [Nat.mul_comm]
  refine Nat.mul_le_mul_left a (Nat.le_of_lt_succ ?_)
  rw [Nat.div_lt_iff_lt_mul ha, Nat.succ_mul, Nat.mul_comm]
  omega

theorem isLeast_roundUp {size alignment : UInt64} {k : ℕ} (hk : alignment.toNat = 2 ^ k) (ha : alignment ≠ 0)
    (hs : size.toNat + alignment.toNat - 1 < 2 ^ 64) :
    IsLeast {m | alignment.toNat ∣ m ∧ size.toNat ≤ m} (roundUp size alignment).toNat := by
  rw [toNat_roundUp ha hs]
  have hceil := isLeast_ceil size.toNat (toNat_pos_of_ne_zero ha)
  rw [hk] at hceil ⊢
  rw [cleared_two_pow]
  exact hceil

theorem roundUp_two_pow_wrapped {size alignment : UInt64} {k : ℕ} (hk : alignment.toNat = 2 ^ k) (ha : alignment ≠ 0)
    (hs : 2 ^ 64 ≤ size.toNat + alignment.toNat - 1) : (roundUp size alignment).toNat = 0 := by
  have hsize := size.toNat_lt
  rw [toNat_roundUp_wrapped ha hs, hk, cleared_two_pow, Nat.div_eq_of_lt (by omega), Nat.zero_mul]

theorem le_of_two_pow_wrapped {size alignment : UInt64} {k m : ℕ} (hk : alignment.toNat = 2 ^ k)
    (hs : 2 ^ 64 ≤ size.toNat + alignment.toNat - 1) (hd : alignment.toNat ∣ m) (hm : size.toNat ≤ m) :
    2 ^ 64 ≤ m := by
  have hsize := size.toNat_lt
  have hlt : k < 64 := (Nat.pow_lt_pow_iff_right (by omega)).mp (hk ▸ alignment.toNat_lt)
  have hdvd : alignment.toNat ∣ 2 ^ 64 := hk ▸ Nat.pow_dvd_pow 2 (Nat.le_of_lt hlt)
  by_contra hm'
  have hle := Nat.le_of_dvd (by omega) (Nat.dvd_sub hdvd hd)
  omega

/-- What is a multiple already is left as it is, and nothing else is. -/
theorem roundUp_eq_self_iff {size alignment : UInt64} {k : ℕ} (hk : alignment.toNat = 2 ^ k) (ha : alignment ≠ 0)
    (hs : size.toNat + alignment.toNat - 1 < 2 ^ 64) :
    roundUp size alignment = size ↔ alignment.toNat ∣ size.toNat := by
  have hleast := isLeast_roundUp hk ha hs
  constructor
  · intro he
    rw [← he]
    exact hleast.1.1
  · intro hd
    have hle := hleast.2 ⟨hd, Nat.le_refl _⟩
    exact UInt64.toNat_inj.mp (Nat.le_antisymm hle hleast.1.2)

example : roundUp (-1) 2 = 0 := by decide

end MaskRound
