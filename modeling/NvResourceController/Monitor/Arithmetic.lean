/-
  NvResourceController.Monitor.Arithmetic — the divisions of an adjustment
  (`src/server_monitor.c`, `delta_change`) and the `int`s it computes, with `float`s of 24
  bits that are rounded to nearest.

  - `sound_iff_inRange`: of positive averages, no divisor is 0 and every `int` is in
    range exactly for a reading that is not 0 and an error that is not too large for it.
    Dividing by 4 is exact, and above the limit an overload takes away 2^31 at most
    (`lowered_le`), so neither asks for anything more.
-/

import NvResourceController.Monitor.Machine

namespace NvResourceController.Monitor.Machine

open Rounding

/-- No divisor of the adjustment is 0, and its `int`s are in range. -/
structure Sound (util limit oldCycle cur last : ℤ) : Prop extends Fits single util limit oldCycle cur last where
  average : cur ≠ 0
  perKernel : single (single util / single cur) ≠ 0
  budget : oldCycle ≠ 0
  lastAverage : last + 1 ≠ 0

/-- The step is more of the budget than the averages changed by. -/
def Exceeds (util limit oldCycle cur last : ℤ) : Prop :=
  cur ≠ last ∧ ratio single cur last < single (single ⌊launches single util limit cur / 4⌋ / single oldCycle)

instance (util limit oldCycle cur last : ℤ) : Decidable (Exceeds util limit oldCycle cur last) :=
  inferInstanceAs (Decidable (_ ∧ _))

/-- The readings for which the steps fit. -/
structure InRange (util limit oldCycle cur last : ℤ) : Prop where
  busy : util ≠ 0
  err : -2 ^ 31 < limit - util
  succ : last + 1 < 2 ^ 31
  below : util < limit → launches single util limit cur < 4 * (2 ^ 31 - oldCycle)
  above : limit < util → launches single util limit cur < 4 * 2 ^ 31
  replaced : Exceeds util limit oldCycle cur last → replaced single util limit oldCycle cur last < 2 ^ 31

/-! ## Truncation -/

theorem trunc_of_nonneg {x : ℚ} (h : 0 ≤ x) : trunc x = ⌊x⌋ := if_neg (not_lt.mpr h)

theorem trunc_lt_iff {x : ℚ} {n : ℤ} (hn : 0 < n) : trunc x < n ↔ x < n := by
  unfold trunc
  split
  · rename_i hneg
    have hceil : ⌈x⌉ ≤ 0 := Int.ceil_le.mpr (by exact_mod_cast hneg.le)
    have hpos : (0 : ℚ) < n := by exact_mod_cast hn
    exact iff_of_true (by omega) (hneg.trans hpos)
  · exact Int.floor_lt

/-! ## The step -/

section

variable {util limit oldCycle cur last : ℤ}

theorem single_nonneg {x : ℚ} (h : 0 ≤ x) : 0 ≤ single x := single_order.nonneg (by norm_num) h

theorem one_le_single {z : ℤ} (h : 1 ≤ z) : 1 ≤ single z := by
  calc (1 : ℚ) = single ((1 : ℤ) : ℚ) := (by exact_mod_cast (single_order.intCast 1 (by decide)).symm)
    _ ≤ single z := single_order.mono (by exact_mod_cast h)

theorem single_le_pow {z : ℤ} (h : z ≤ 2 ^ 31) : single z ≤ 2 ^ 31 := by
  have hpow : single (2 ^ 31) = 2 ^ 31 := by decide +kernel
  calc single z ≤ single (2 ^ 31) := single_order.mono (by exact_mod_cast h)
    _ = 2 ^ 31 := hpow

/-- A quotient of two positive integers is not too small for a `float`. -/
theorem two_zpow_le_quotient {a b : ℤ} (ha : 1 ≤ a) (hb : 1 ≤ b) (hb' : b ≤ 2 ^ 31) :
    (2 : ℚ) ^ (-31 : ℤ) ≤ single a / single b := by
  have hone := one_le_single ha
  have hpos : 0 < single b := by linarith [one_le_single hb]
  have hle := single_le_pow hb'
  rw [le_div_iff₀ hpos]
  calc (2 : ℚ) ^ (-31 : ℤ) * single b ≤ 2 ^ (-31 : ℤ) * 2 ^ 31 := mul_le_mul_of_nonneg_left hle (by norm_num)
    _ = 1 := by norm_num
    _ ≤ single a := hone

theorem perKernel_pos (hutil : 1 ≤ util) (hcur : 1 ≤ cur) (hcur' : cur ≤ 2 ^ 31) :
    2 ^ (-31 : ℤ) ≤ single (single util / single cur) :=
  two_zpow_le_round (by norm_num) (by norm_num) (two_zpow_le_quotient hutil hcur hcur')

theorem perKernel_le (hutil : util ≤ 2 ^ 31) (hcur : 1 ≤ cur) :
    single (single util / single cur) ≤ 2 ^ 31 := by
  have hpow : single (2 ^ 31) = 2 ^ 31 := by decide +kernel
  have hquot : single util / single cur ≤ 2 ^ 31 := by
    have hone := one_le_single hcur
    rw [div_le_iff₀ (by linarith)]
    calc single util ≤ 2 ^ 31 := single_le_pow hutil
      _ = 2 ^ 31 * 1 := by norm_num
      _ ≤ 2 ^ 31 * single cur := mul_le_mul_of_nonneg_left hone (by norm_num)
  calc single (single util / single cur) ≤ single (2 ^ 31) := single_order.mono hquot
    _ = 2 ^ 31 := hpow

theorem launches_nonneg (hutil : 1 ≤ util) (hcur : 1 ≤ cur) (limit : ℤ) : 0 ≤ launches single util limit cur := by
  have hutil' := one_le_single hutil
  have hcur' := one_le_single hcur
  have herr : 0 ≤ single (|limit - util| : ℤ) := single_nonneg (by exact_mod_cast abs_nonneg (limit - util))
  exact single_nonneg (div_nonneg herr (single_nonneg (div_nonneg (by linarith) (by linarith))))

/-- A quarter of the launches is a `float`. -/
theorem single_quarter (hutil : 1 ≤ util) (hutil' : util ≤ 2 ^ 31) (hcur : 1 ≤ cur) (hcur' : cur ≤ 2 ^ 31)
    (limit : ℤ) : single (launches single util limit cur / 4) = launches single util limit cur / 4 := by
  by_cases herr : |limit - util| = 0
  · have hzero : single 0 = 0 := round_zero
    have hlaunches : launches single util limit cur = 0 := by
      rw [launches, herr, Int.cast_zero, hzero, zero_div, hzero]
    rw [hlaunches, zero_div, hzero]
  · have hone : 1 ≤ |limit - util| := by
      have := abs_nonneg (limit - util)
      omega
    have hpos := (two_zpow_pos (-31)).trans_le (perKernel_pos hutil hcur hcur')
    have hsmall : (2 : ℚ) ^ (-31 : ℤ) ≤ single (|limit - util| : ℤ) / single (single util / single cur) := by
      have hle := perKernel_le hutil' hcur
      rw [le_div_iff₀ hpos]
      calc (2 : ℚ) ^ (-31 : ℤ) * single (single util / single cur)
          ≤ 2 ^ (-31 : ℤ) * 2 ^ 31 := mul_le_mul_of_nonneg_left hle (by norm_num)
        _ = 1 := by norm_num
        _ ≤ single (|limit - util| : ℤ) := one_le_single hone
    have hround : ∀ q : ℚ, 2 ^ (-31 : ℤ) ≤ q → single (single q / 2 ^ 2) = single q / 2 ^ 2 := by
      intro q hq
      refine round_div_pow (by norm_num) ?_
      rw [abs_of_pos ((two_zpow_pos _).trans_le hq)]
      exact (zpow_le_zpow_right₀ (by norm_num) (by norm_num)).trans hq
    rw [show (4 : ℚ) = 2 ^ 2 by norm_num]
    exact hround _ hsmall

theorem deltaCycle_single (hutil : 1 ≤ util) (hutil' : util ≤ 2 ^ 31) (hcur : 1 ≤ cur) (hcur' : cur ≤ 2 ^ 31)
    (limit : ℤ) : deltaCycle single util limit cur = ⌊launches single util limit cur / 4⌋ := by
  have hnonneg := launches_nonneg hutil hcur limit
  rw [deltaCycle, single_quarter hutil hutil' hcur hcur', trunc_of_nonneg (by linarith)]

theorem floor_quarter_lt_iff {x : ℚ} {n : ℤ} : ⌊x / 4⌋ < n ↔ x < 4 * n := by
  rw [Int.floor_lt, div_lt_iff₀ (by norm_num), mul_comm]

theorem firstCycle_single (hutil : 1 ≤ util) (hutil' : util ≤ 2 ^ 31) (hcur : 1 ≤ cur) (hcur' : cur ≤ 2 ^ 31)
    (limit oldCycle : ℤ) :
    firstCycle single util limit oldCycle cur =
      oldCycle + ⌊launches single util limit cur / 4⌋ * cycleSigned util limit := by
  have hnonneg : 0 ≤ launches single util limit cur / 4 := by
    have := launches_nonneg hutil hcur limit
    linarith
  have hfloor := Int.floor_nonneg.mpr hnonneg
  rw [firstCycle, deltaCycle_single hutil hutil' hcur hcur', if_neg (not_lt.mpr hfloor)]

theorem overloads_iff_exceeds (hutil : 1 ≤ util) (hutil' : util ≤ 2 ^ 31) (hcur : 1 ≤ cur) (hcur' : cur ≤ 2 ^ 31)
    (limit oldCycle last : ℤ) :
    Overloads single util limit oldCycle cur last ↔ Exceeds util limit oldCycle cur last := by
  have hnonneg : 0 ≤ launches single util limit cur / 4 := by
    have := launches_nonneg hutil hcur limit
    linarith
  have hfloor := Int.floor_nonneg.mpr hnonneg
  have hchange : |⌊launches single util limit cur / 4⌋ * cycleSigned util limit| =
      ⌊launches single util limit cur / 4⌋ := by
    unfold cycleSigned
    split
    · rw [mul_one, abs_of_nonneg hfloor]
    · rw [mul_neg_one, abs_neg, abs_of_nonneg hfloor]
  rw [Overloads, Exceeds, firstCycle_single hutil hutil' hcur hcur', add_sub_cancel_left, hchange]

/-! ## The replacement -/

theorem ratio_nonneg (hlast : 1 ≤ last) : 0 ≤ ratio single cur last := by
  have hdiff : 0 ≤ single (|cur - last| : ℤ) := single_nonneg (by exact_mod_cast abs_nonneg (cur - last))
  have hsucc := one_le_single (by omega : 1 ≤ last + 1)
  exact single_nonneg (div_nonneg hdiff (by linarith))

/-- What an overload takes away is 2^31 at most: the average is no more than the divisor
    of the ratio, whose rounding adds less than half a last place of 2^31. -/
theorem lowered_le (hcur : 1 ≤ cur ∧ cur ≤ 2 ^ 31) (hlast : 1 ≤ last ∧ last < 2 ^ 31) :
    single (single last * ratio single cur last) ≤ 2 ^ 31 := by
  have hlast' := one_le_single hlast.1
  have hsucc := one_le_single (by omega : 1 ≤ last + 1)
  have hle : single last ≤ single ((last + 1 : ℤ) : ℚ) := single_order.mono (by exact_mod_cast (by omega : last ≤ last + 1))
  have htie : single (2 ^ 31 + 2 ^ 7) = 2 ^ 31 := by decide +kernel
  have hdiff : single (|cur - last| : ℤ) ≤ 2 ^ 31 := single_le_pow (abs_le.mpr ⟨by omega, by omega⟩)
  have hprod : single last * ratio single cur last ≤ 2 ^ 31 + 2 ^ 7 := by
    by_cases hsame : |cur - last| = 0
    · have hzero : single 0 = 0 := round_zero
      rw [ratio, hsame, Int.cast_zero, hzero, zero_div, hzero, mul_zero]
      norm_num
    · have hone : 1 ≤ |cur - last| := by
        have := abs_nonneg (cur - last)
        omega
      have hsmall := two_zpow_le_quotient hone (by omega : 1 ≤ last + 1) (by omega)
      have hnonneg : 0 ≤ ratio single cur last := ratio_nonneg hlast.1
      have hpos : 0 < single (|cur - last| : ℤ) / single ((last + 1 : ℤ) : ℚ) := (two_zpow_pos _).trans_le hsmall
      have herr : |ratio single cur last - single (|cur - last| : ℤ) / single ((last + 1 : ℤ) : ℚ)| ≤
          |single (|cur - last| : ℤ) / single ((last + 1 : ℤ) : ℚ)| / 2 ^ 24 := by
        refine abs_round_sub_le ?_
        rw [abs_of_pos hpos]
        exact (zpow_le_zpow_right₀ (by norm_num) (by norm_num)).trans hsmall
      rw [abs_of_pos hpos] at herr
      have hhigh := (abs_le.mp herr).2
      have hratio : single ((last + 1 : ℤ) : ℚ) * ratio single cur last ≤
          single (|cur - last| : ℤ) + single (|cur - last| : ℤ) / 2 ^ 24 := by
        have hmul := mul_le_mul_of_nonneg_left (sub_le_iff_le_add.mp hhigh) (by linarith : 0 ≤ single ((last + 1 : ℤ) : ℚ))
        have hcancel : single ((last + 1 : ℤ) : ℚ) * (single (|cur - last| : ℤ) / single ((last + 1 : ℤ) : ℚ)) =
            single (|cur - last| : ℤ) := mul_div_cancel₀ _ (by linarith)
        rw [mul_add, ← mul_div_assoc, hcancel] at hmul
        linarith
      calc single last * ratio single cur last
          ≤ single ((last + 1 : ℤ) : ℚ) * ratio single cur last := mul_le_mul_of_nonneg_right hle hnonneg
        _ ≤ single (|cur - last| : ℤ) + single (|cur - last| : ℤ) / 2 ^ 24 := hratio
        _ ≤ 2 ^ 31 + 2 ^ 7 := by linarith
  calc single (single last * ratio single cur last) ≤ single (2 ^ 31 + 2 ^ 7) := single_order.mono hprod
    _ = 2 ^ 31 := htie

theorem le_replaced (hold : 1 ≤ oldCycle) (hcur : 1 ≤ cur ∧ cur ≤ 2 ^ 31) (hlast : 1 ≤ last ∧ last < 2 ^ 31)
    (util limit : ℤ) : -2 ^ 31 ≤ replaced single util limit oldCycle cur last := by
  have hone := one_le_single hold
  have hlowered := lowered_le hcur hlast
  have hnonneg : 0 ≤ single (single last * ratio single cur last) :=
    single_nonneg (mul_nonneg (by linarith [one_le_single hlast.1]) (ratio_nonneg hlast.1))
  have hleast : single (-2 ^ 31) = -2 ^ 31 := by decide +kernel
  have hsigned : -2 ^ 31 ≤ single (single (single last * ratio single cur last) * single (cycleSigned util limit)) := by
    have hplus : single ((1 : ℤ) : ℚ) = 1 := by decide +kernel
    have hminus : single ((-1 : ℤ) : ℚ) = -1 := by decide +kernel
    rw [← hleast]
    refine single_order.mono ?_
    unfold cycleSigned
    split
    · rw [hplus, mul_one]
      linarith
    · rw [hminus, mul_neg_one]
      linarith
  rw [replaced, ← hleast]
  refine single_order.mono ?_
  linarith

/-! ## Where it is sound -/

theorem perKernel_zero (cur : ℤ) : single (single ((0 : ℤ) : ℚ) / single cur) = 0 := by
  have hzero : single 0 = 0 := round_zero
  rw [Int.cast_zero, hzero, zero_div, hzero]

theorem Sound.inRange (h : Sound util limit oldCycle cur last) (hutil : 1 ≤ util) (hutil' : util ≤ 2 ^ 31)
    (hcur : 1 ≤ cur ∧ cur ≤ 2 ^ 31) : InRange util limit oldCycle cur last := by
  have hdelta := h.delta.2
  have hfirst := h.first.2
  have herr := (abs_lt.mp h.absErr.2).1
  rw [deltaCycle_single hutil hutil' hcur.1 hcur.2] at hdelta
  rw [firstCycle_single hutil hutil' hcur.1 hcur.2] at hfirst
  refine ⟨by omega, by omega, h.succ.2, ?_, ?_, ?_⟩
  · intro hlt
    rw [cycleSigned, if_pos (by omega), mul_one] at hfirst
    have hstep : ⌊launches single util limit cur / 4⌋ < 2 ^ 31 - oldCycle := by omega
    exact_mod_cast floor_quarter_lt_iff.mp hstep
  · intro _
    exact_mod_cast floor_quarter_lt_iff.mp hdelta
  · intro ho
    have hreplaced := (h.replaced ((overloads_iff_exceeds hutil hutil' hcur.1 hcur.2 _ _ _).mpr ho)).2
    exact_mod_cast (trunc_lt_iff (by norm_num)).mp hreplaced

theorem InRange.sound (h : InRange util limit oldCycle cur last) (hutil : 1 ≤ util) (hutil' : util ≤ 2 ^ 31)
    (hlimit : limit < 2 ^ 31) (hold : 1 ≤ oldCycle ∧ oldCycle < 2 ^ 31) (hcur : 1 ≤ cur ∧ cur < 2 ^ 31)
    (hlast : 1 ≤ last) : Sound util limit oldCycle cur last := by
  have herr := h.err
  have hsucc := h.succ
  have hnonneg : 0 ≤ launches single util limit cur / 4 := by
    have := launches_nonneg hutil hcur.1 limit
    linarith
  have hfloor := Int.floor_nonneg.mpr hnonneg
  have hdelta := deltaCycle_single hutil hutil' hcur.1 hcur.2.le limit
  have hfirst := firstCycle_single hutil hutil' hcur.1 hcur.2.le limit oldCycle
  have hsmall : ⌊launches single util limit cur / 4⌋ < 2 ^ 31 ∧
      (util < limit → oldCycle + ⌊launches single util limit cur / 4⌋ < 2 ^ 31) := by
    rcases lt_trichotomy util limit with hlt | heq | hgt
    · have hbelow : launches single util limit cur < 4 * ((2 ^ 31 - oldCycle : ℤ) : ℚ) := by exact_mod_cast h.below hlt
      have := floor_quarter_lt_iff.mpr hbelow
      omega
    · have hzero : single 0 = 0 := round_zero
      have hlaunches : launches single util limit cur = 0 := by
        rw [launches, heq, sub_self, abs_zero, Int.cast_zero, hzero, zero_div, hzero]
      rw [hlaunches, zero_div, Int.floor_zero]
      omega
    · have habove : launches single util limit cur < 4 * ((2 ^ 31 : ℤ) : ℚ) := by exact_mod_cast h.above hgt
      have := floor_quarter_lt_iff.mpr habove
      omega
  have habs : |limit - util| < 2 ^ 31 := abs_lt.mpr ⟨by omega, by omega⟩
  have hdiff : |cur - last| < 2 ^ 31 := abs_lt.mpr ⟨by omega, by omega⟩
  have hpos := (two_zpow_pos (-31)).trans_le (perKernel_pos hutil hcur.1 hcur.2.le)
  refine ⟨⟨⟨by omega, by omega⟩, ⟨?_, habs⟩, ?_, ?_, ⟨?_, hdiff⟩, ⟨by omega, hsucc⟩, ?_⟩, by omega, hpos.ne', by omega,
    by omega⟩
  · have := abs_nonneg (limit - util)
    omega
  · rw [hdelta]
    exact ⟨by omega, hsmall.1⟩
  · rw [hfirst]
    unfold cycleSigned
    split
    · rw [mul_one]
      exact ⟨by omega, hsmall.2 (by omega)⟩
    · rw [mul_neg_one]
      exact ⟨by omega, by omega⟩
  · have := abs_nonneg (cur - last)
    omega
  · intro ho
    have hreplaced := h.replaced ((overloads_iff_exceeds hutil hutil' hcur.1 hcur.2.le _ _ _).mp ho)
    have hlow := le_replaced hold.1 ⟨hcur.1, hcur.2.le⟩ ⟨hlast, by omega⟩ util limit
    exact ⟨le_trunc (by exact_mod_cast hlow), (trunc_lt_iff (by norm_num)).mpr (by exact_mod_cast hreplaced)⟩

/-- Of positive averages the arithmetic is sound exactly for the readings in range. -/
theorem sound_iff_inRange (hutil : 0 ≤ util ∧ util ≤ 2 ^ 31) (hlimit : limit < 2 ^ 31)
    (hold : 1 ≤ oldCycle ∧ oldCycle < 2 ^ 31) (hcur : 1 ≤ cur ∧ cur < 2 ^ 31) (hlast : 1 ≤ last) :
    Sound util limit oldCycle cur last ↔ InRange util limit oldCycle cur last := by
  by_cases hbusy : util = 0
  · -- `util_per_kernel` is 0
    refine iff_of_false (fun h => h.perKernel ?_) (fun h => h.busy hbusy)
    rw [hbusy]
    exact perKernel_zero cur
  have hpos : 1 ≤ util := by omega
  exact ⟨fun h => h.inRange hpos hutil.2 ⟨hcur.1, hcur.2.le⟩, fun h => h.sound hpos hutil.2 hlimit hold hcur hlast⟩

end

end NvResourceController.Monitor.Machine
