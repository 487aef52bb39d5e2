/-
  NvResourceController.Lib.Rounding — rounding to a number of significant bits: to
  nearest, ties to even, with a least exponent. The magnitude is not bounded.

  - `round_eq`: a number with a significand of that many bits is its own rounding;
    `round_intCast`: so is an integer up to the power of two, and `round_div_pow`: a
    rounding, divided by a power of two.
  - `round_mono`: rounding keeps the order.
  - `abs_round_sub_le`: above the least exponent it is off by half a last place at most.
  - `Order`: what is left of it where only the order and the integers matter, so for any
    direction of rounding, and none.
-/

import Mathlib.Algebra.Order.Field.Basic
import Mathlib.Data.Int.Log
import Mathlib.Data.Rat.Floor
import Mathlib.Tactic.Linarith

namespace Rounding

/-! ## The nearest integer -/

/-- The nearest integer, the even one of two. -/
def nearestEven (x : ℚ) : ℤ :=
  let d := x - ⌊x⌋
  if d < 1 / 2 then ⌊x⌋ else if 1 / 2 < d then ⌊x⌋ + 1 else if ⌊x⌋ % 2 = 0 then ⌊x⌋ else ⌊x⌋ + 1

theorem nearestEven_intCast (z : ℤ) : nearestEven z = z := by
  have hfloor : ⌊(z : ℚ)⌋ = z := Int.floor_intCast z
  rw [nearestEven, hfloor, sub_self]
  exact if_pos (by norm_num)

theorem floor_le_nearestEven (x : ℚ) : ⌊x⌋ ≤ nearestEven x ∧ nearestEven x ≤ ⌊x⌋ + 1 := by
  unfold nearestEven
  dsimp only
  split_ifs <;> omega

theorem nearestEven_mono {x y : ℚ} (h : x ≤ y) : nearestEven x ≤ nearestEven y := by
  have hfloor := Int.floor_le_floor h
  rcases hfloor.lt_or_eq with hlt | heq
  · exact (floor_le_nearestEven x).2.trans (hlt.trans_le (floor_le_nearestEven y).1)
  · unfold nearestEven
    dsimp only
    rw [← heq]
    split_ifs <;> first | omega | linarith

theorem abs_nearestEven_sub_le (x : ℚ) : |(nearestEven x : ℚ) - x| ≤ 1 / 2 := by
  have hlow := Int.floor_le x
  have hhigh := Int.lt_floor_add_one x
  unfold nearestEven
  dsimp only
  rw [abs_le]
  split_ifs <;> push_cast <;> constructor <;> linarith

theorem nearestEven_neg (x : ℚ) : nearestEven (-x) = -nearestEven x := by
  by_cases hx : x = ⌊x⌋
  · rw [hx, ← Int.cast_neg, nearestEven_intCast, nearestEven_intCast]
  · have hfloor : ⌊-x⌋ = -⌊x⌋ - 1 := by
      have hlow := Int.floor_le x
      have hhigh := Int.lt_floor_add_one x
      have hne : (⌊x⌋ : ℚ) < x := lt_of_le_of_ne hlow (Ne.symm hx)
      rw [Int.floor_eq_iff]
      push_cast
      constructor <;> linarith
    have hcast : ((-⌊x⌋ - 1 : ℤ) : ℚ) = -⌊x⌋ - 1 := by push_cast; rfl
    unfold nearestEven
    dsimp only
    rw [hfloor, hcast]
    split_ifs <;> first | omega | linarith

/-! ## Significant bits -/

/-- The exponent of the last of `p` bits, no less than `emin`. -/
def lastPlace (p : ℕ) (emin : ℤ) (x : ℚ) : ℤ := max (Int.log 2 |x| - (p - 1)) emin

def round (p : ℕ) (emin : ℤ) (x : ℚ) : ℚ := nearestEven (x / 2 ^ lastPlace p emin x) * 2 ^ lastPlace p emin x

variable {p : ℕ} {emin : ℤ}

theorem two_zpow_pos (e : ℤ) : (0 : ℚ) < 2 ^ e := zpow_pos (by norm_num) e

theorem lastPlace_neg (x : ℚ) : lastPlace p emin (-x) = lastPlace p emin x := by
  rw [lastPlace, lastPlace, abs_neg]

theorem round_neg (x : ℚ) : round p emin (-x) = -round p emin x := by
  rw [round, round, lastPlace_neg, neg_div, nearestEven_neg, Int.cast_neg, neg_mul]

theorem round_zero : round p emin 0 = 0 := by
  have hzero : nearestEven 0 = 0 := nearestEven_intCast 0
  rw [round, zero_div, hzero, Int.cast_zero, zero_mul]

theorem nearestEven_multiple {e k : ℤ} (m : ℤ) (h : k ≤ e) :
    (nearestEven (m * 2 ^ e / 2 ^ k) : ℚ) * 2 ^ k = m * 2 ^ e := by
  obtain ⟨n, hn⟩ := Int.le.dest h
  have hpow : (2 : ℚ) ^ e = 2 ^ n * 2 ^ k := by
    rw [← zpow_natCast, ← zpow_add₀ (by norm_num), add_comm, hn]
  have hne : (2 : ℚ) ^ k ≠ 0 := (two_zpow_pos k).ne'
  have hquot : (m : ℚ) * 2 ^ e / 2 ^ k = ((m * 2 ^ n : ℤ) : ℚ) := by
    rw [div_eq_iff hne, Int.cast_mul, Int.cast_pow, Int.cast_ofNat, mul_assoc, ← hpow]
  rw [hquot, nearestEven_intCast, ← hquot, div_mul_cancel₀ _ hne]

theorem lastPlace_le {m e : ℤ} (hm : |m| < 2 ^ p) (hm0 : m ≠ 0) (he : emin ≤ e) :
    lastPlace p emin (m * 2 ^ e) ≤ e := by
  have habs : |(m : ℚ) * 2 ^ e| = (|m| : ℤ) * 2 ^ e := by
    rw [abs_mul, abs_of_pos (two_zpow_pos e), Int.cast_abs]
  have hpos : (0 : ℚ) < |(m : ℚ) * 2 ^ e| :=
    abs_pos.mpr (mul_ne_zero (Int.cast_ne_zero.mpr hm0) (two_zpow_pos e).ne')
  have hlt : |(m : ℚ) * 2 ^ e| < ((2 : ℕ) : ℚ) ^ (p + e) := by
    rw [habs, Nat.cast_ofNat, zpow_add₀ (by norm_num), zpow_natCast]
    exact mul_lt_mul_of_pos_right (by exact_mod_cast hm) (two_zpow_pos e)
  have hlog := (Int.lt_zpow_iff_log_lt (by norm_num) hpos).mp hlt
  exact max_le (by omega) he

theorem round_eq {m e : ℤ} (hm : |m| < 2 ^ p) (he : emin ≤ e) : round p emin (m * 2 ^ e) = m * 2 ^ e := by
  by_cases hm0 : m = 0
  · rw [hm0, Int.cast_zero, zero_mul, round_zero]
  · exact nearestEven_multiple m (lastPlace_le hm hm0 he)

theorem round_eq_of_le {m e : ℤ} (hp : 1 ≤ p) (hm : |m| ≤ 2 ^ p) (he : emin ≤ e) :
    round p emin (m * 2 ^ e) = m * 2 ^ e := by
  rcases hm.lt_or_eq with hlt | heq
  · exact round_eq hlt he
  · have hone : ∀ k : ℤ, |k| = 1 → round p emin (k * 2 ^ (p + e)) = k * 2 ^ (p + e) := fun k hk =>
      round_eq (by rw [hk]; exact one_lt_pow₀ (by norm_num) (by omega)) (by omega)
    have hsplit : (2 : ℚ) ^ (p + e : ℤ) = 2 ^ p * 2 ^ e := by
      rw [zpow_add₀ (by norm_num), zpow_natCast]
    rcases abs_eq (by positivity) |>.mp heq with rfl | rfl
    · have hround := hone 1 abs_one
      rw [Int.cast_one, one_mul, hsplit] at hround
      push_cast
      exact hround
    · have hround := hone (-1) (by rw [abs_neg, abs_one])
      rw [Int.cast_neg, Int.cast_one, neg_one_mul, hsplit, ← neg_mul] at hround
      push_cast
      exact hround

theorem round_intCast {z : ℤ} (hp : 1 ≤ p) (he : emin ≤ 0) (hz : |z| ≤ 2 ^ p) : round p emin z = z := by
  have hround := round_eq_of_le hp hz he
  rwa [zpow_zero, mul_one] at hround

/-! ## Order -/

theorem scaled_mono {x y : ℚ} (k : ℤ) (h : x ≤ y) :
    (nearestEven (x / 2 ^ k) : ℚ) * 2 ^ k ≤ nearestEven (y / 2 ^ k) * 2 ^ k := by
  have hpos := two_zpow_pos k
  have hle := nearestEven_mono (div_le_div_of_nonneg_right h hpos.le)
  exact mul_le_mul_of_nonneg_right (by exact_mod_cast hle) hpos.le

theorem round_mono_pos {x y : ℚ} (hp : 1 ≤ p) (hx : 0 < x) (h : x ≤ y) : round p emin x ≤ round p emin y := by
  have hy := hx.trans_le h
  have hlog : Int.log 2 x ≤ Int.log 2 y := Int.log_mono_right hx h
  have hkx : lastPlace p emin x = max (Int.log 2 x - (p - 1)) emin := by rw [lastPlace, abs_of_pos hx]
  have hky : lastPlace p emin y = max (Int.log 2 y - (p - 1)) emin := by rw [lastPlace, abs_of_pos hy]
  by_cases hsame : lastPlace p emin x = lastPlace p emin y
  · rw [round, round, hsame]
    exact scaled_mono _ h
  · -- the power of two at or below `y` is between the two roundings
    have hlt : Int.log 2 x + 1 ≤ Int.log 2 y := by omega
    have hxpow : x ≤ (1 : ℤ) * 2 ^ Int.log 2 y := by
      have hsucc : x < (2 : ℚ) ^ (Int.log 2 x + 1) := by exact_mod_cast Int.lt_zpow_succ_log_self (by norm_num) x
      have hpow : (2 : ℚ) ^ (Int.log 2 x + 1) ≤ 2 ^ Int.log 2 y := zpow_le_zpow_right₀ (by norm_num) hlt
      rw [Int.cast_one, one_mul]
      exact (hsucc.trans_le hpow).le
    have hypow : ((1 : ℤ) : ℚ) * 2 ^ Int.log 2 y ≤ y := by
      rw [Int.cast_one, one_mul]
      exact_mod_cast Int.zpow_log_le_self (by norm_num) hy
    calc round p emin x
        ≤ nearestEven ((1 : ℤ) * 2 ^ Int.log 2 y / 2 ^ lastPlace p emin x) * 2 ^ lastPlace p emin x :=
          scaled_mono _ hxpow
      _ = (1 : ℤ) * 2 ^ Int.log 2 y := nearestEven_multiple 1 (by omega)
      _ = nearestEven ((1 : ℤ) * 2 ^ Int.log 2 y / 2 ^ lastPlace p emin y) * 2 ^ lastPlace p emin y :=
          (nearestEven_multiple 1 (by omega)).symm
      _ ≤ round p emin y := scaled_mono _ hypow

theorem round_nonneg {x : ℚ} (h : 0 ≤ x) : 0 ≤ round p emin x := by
  have hzero : nearestEven 0 = 0 := nearestEven_intCast 0
  have hpos := two_zpow_pos (lastPlace p emin x)
  have hle := nearestEven_mono (div_nonneg h hpos.le)
  rw [hzero] at hle
  exact mul_nonneg (by exact_mod_cast hle) hpos.le

theorem round_mono (hp : 1 ≤ p) : Monotone (round p emin) := by
  intro x y h
  rcases lt_trichotomy x 0 with hx | rfl | hx
  · rcases lt_or_ge y 0 with hy | hy
    · have hneg : round p emin (-y) ≤ round p emin (-x) := round_mono_pos hp (neg_pos.mpr hy) (neg_le_neg h)
      rw [round_neg, round_neg] at hneg
      exact neg_le_neg_iff.mp hneg
    · have hneg : 0 ≤ round p emin (-x) := round_nonneg (neg_nonneg.mpr hx.le)
      rw [round_neg] at hneg
      exact (neg_nonneg.mp hneg).trans (round_nonneg hy)
  · rw [round_zero]
    exact round_nonneg h
  · exact round_mono_pos hp hx h

/-! ## Error -/

/-- From the least exponent on, rounding is off by one part in `2 ^ p` at most. -/
theorem abs_round_sub_le {x : ℚ} (hx : (2 : ℚ) ^ (emin + (p - 1)) ≤ |x|) :
    |round p emin x - x| ≤ |x| / 2 ^ p := by
  have hxpos : 0 < |x| := (two_zpow_pos _).trans_le hx
  have hplace : lastPlace p emin x = Int.log 2 |x| - (p - 1) := by
    have hlog : emin + (p - 1) ≤ Int.log 2 |x| :=
      (Int.zpow_le_iff_le_log (by norm_num) hxpos).mp (by exact_mod_cast hx)
    rw [lastPlace]
    omega
  have hpos := two_zpow_pos (lastPlace p emin x)
  have hhalf := abs_nearestEven_sub_le (x / 2 ^ lastPlace p emin x)
  have hpow : (2 : ℚ) ^ lastPlace p emin x / 2 ≤ |x| / 2 ^ p := by
    have hlog : (2 : ℚ) ^ Int.log 2 |x| ≤ |x| := by exact_mod_cast Int.zpow_log_le_self (by norm_num) hxpos
    have hsplit : (2 : ℚ) ^ lastPlace p emin x / 2 = 2 ^ Int.log 2 |x| / 2 ^ p := by
      rw [hplace, div_eq_div_iff (by norm_num) (by positivity), ← zpow_natCast, ← zpow_add₀ (by norm_num)]
      rw [show Int.log 2 |x| - (p - 1) + (p : ℤ) = Int.log 2 |x| + 1 by ring, zpow_add_one₀ (by norm_num)]
    rw [hsplit]
    exact div_le_div_of_nonneg_right hlog (by positivity)
  have hscale : round p emin x - x =
      (nearestEven (x / 2 ^ lastPlace p emin x) - x / 2 ^ lastPlace p emin x) * 2 ^ lastPlace p emin x := by
    rw [round, sub_mul, div_mul_cancel₀ _ hpos.ne']
  calc |round p emin x - x|
      = |(nearestEven (x / 2 ^ lastPlace p emin x) : ℚ) - x / 2 ^ lastPlace p emin x| * 2 ^ lastPlace p emin x := by
        rw [hscale, abs_mul, abs_of_pos hpos]
    _ ≤ 1 / 2 * 2 ^ lastPlace p emin x := mul_le_mul_of_nonneg_right hhalf hpos.le
    _ ≤ |x| / 2 ^ p := by linarith

/-! ## Powers of two -/

theorem abs_significand_le (x : ℚ) : |nearestEven (x / 2 ^ lastPlace p emin x)| ≤ 2 ^ p := by
  have hpos := two_zpow_pos (lastPlace p emin x)
  have hlog : |x| ≤ 2 ^ (p + lastPlace p emin x : ℤ) := by
    have hlt : |x| < (2 : ℚ) ^ (Int.log 2 |x| + 1) := by exact_mod_cast Int.lt_zpow_succ_log_self (by norm_num) |x|
    have hle : Int.log 2 |x| + 1 ≤ p + lastPlace p emin x := by
      rw [lastPlace]
      omega
    exact (hlt.trans_le (zpow_le_zpow_right₀ (by norm_num) hle)).le
  rw [zpow_add₀ (by norm_num), zpow_natCast] at hlog
  obtain ⟨hlow, hhigh⟩ := abs_le.mp hlog
  have hup : nearestEven (x / 2 ^ lastPlace p emin x) ≤ nearestEven ((2 ^ p : ℤ) : ℚ) := by
    refine nearestEven_mono ((div_le_iff₀ hpos).mpr ?_)
    push_cast
    exact hhigh
  have hdown : nearestEven ((-2 ^ p : ℤ) : ℚ) ≤ nearestEven (x / 2 ^ lastPlace p emin x) := by
    refine nearestEven_mono ((le_div_iff₀ hpos).mpr ?_)
    push_cast
    rw [neg_mul]
    exact hlow
  rw [nearestEven_intCast] at hup hdown
  exact abs_le.mpr ⟨hdown, hup⟩

/-- Above the least exponent a rounding divided by a power of two is one too. -/
theorem round_div_pow {x : ℚ} {k : ℕ} (hp : 1 ≤ p) (hx : (2 : ℚ) ^ (emin + (p - 1) + k) ≤ |x|) :
    round p emin (round p emin x / 2 ^ k) = round p emin x / 2 ^ k := by
  have hxpos : 0 < |x| := (two_zpow_pos _).trans_le hx
  have hlog : emin + (p - 1) + k ≤ Int.log 2 |x| := (Int.zpow_le_iff_le_log (by norm_num) hxpos).mp (by exact_mod_cast hx)
  have hplace : emin ≤ lastPlace p emin x - k := by
    rw [lastPlace]
    omega
  have hquot : round p emin x / 2 ^ k =
      nearestEven (x / 2 ^ lastPlace p emin x) * 2 ^ (lastPlace p emin x - k) := by
    rw [round, zpow_sub₀ (by norm_num), zpow_natCast, mul_div_assoc]
  rw [hquot]
  exact round_eq_of_le hp (abs_significand_le x) hplace

theorem two_zpow_le_round {x : ℚ} {e : ℤ} (hp : 1 ≤ p) (he : emin ≤ e) (h : 2 ^ e ≤ x) : 2 ^ e ≤ round p emin x := by
  have hone : |(1 : ℤ)| ≤ 2 ^ p := by
    rw [abs_one]
    exact one_le_pow₀ (by norm_num)
  have hround := round_eq_of_le hp hone he
  rw [Int.cast_one, one_mul] at hround
  calc (2 : ℚ) ^ e = round p emin (2 ^ e) := hround.symm
    _ ≤ round p emin x := round_mono hp h

/-! ## Any direction -/

/-- A rounding that keeps the order, and the integers up to `N`. -/
structure Order (N : ℤ) (fl : ℚ → ℚ) : Prop where
  mono : Monotone fl
  intCast : ∀ z : ℤ, |z| ≤ N → fl z = z

theorem round_order (hp : 1 ≤ p) (he : emin ≤ 0) : Order (2 ^ p) (round p emin) :=
  ⟨round_mono hp, fun _ => round_intCast hp he⟩

theorem id_order (N : ℤ) : Order N id := ⟨monotone_id, fun _ _ => rfl⟩

namespace Order

variable {N : ℤ} {fl : ℚ → ℚ}

theorem nonneg (h : Order N fl) (hN : 0 ≤ N) {x : ℚ} (hx : 0 ≤ x) : 0 ≤ fl x := by
  have hzero : fl (0 : ℤ) = (0 : ℤ) := h.intCast 0 (by rwa [abs_zero])
  rw [Int.cast_zero] at hzero
  calc (0 : ℚ) = fl 0 := hzero.symm
    _ ≤ fl x := h.mono hx

theorem nonpos (h : Order N fl) (hN : 0 ≤ N) {x : ℚ} (hx : x ≤ 0) : fl x ≤ 0 := by
  have hzero : fl (0 : ℤ) = (0 : ℤ) := h.intCast 0 (by rwa [abs_zero])
  rw [Int.cast_zero] at hzero
  calc fl x ≤ fl 0 := h.mono hx
    _ = 0 := hzero

/-- What is added to an integer takes the rounding to its side of it. -/
theorem le_add (h : Order N fl) {z : ℤ} (hz : |z| ≤ N) {x : ℚ} (hx : 0 ≤ x) : (z : ℚ) ≤ fl (z + x) := by
  calc (z : ℚ) = fl z := (h.intCast z hz).symm
    _ ≤ fl (z + x) := h.mono (by linarith)

theorem add_le (h : Order N fl) {z : ℤ} (hz : |z| ≤ N) {x : ℚ} (hx : x ≤ 0) : fl (z + x) ≤ z := by
  calc fl (z + x) ≤ fl z := h.mono (by linarith)
    _ = z := h.intCast z hz

end Order

end Rounding
