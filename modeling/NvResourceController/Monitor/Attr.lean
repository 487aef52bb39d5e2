/-
  NvResourceController.Monitor.Attr — the arithmetic of the monitor
  (`src/server_monitor.c`): what `init_attr` and `delta_change` make of the budget
  `add_per_cycle`, from the utilisation of the device, the limit and the averages the
  clients publish.

  A `float` is a rational, and its conversion to an `int` truncates toward zero. What an
  `int` variable makes of a number is a parameter, `int`: it keeps the number in the
  exact reading, and the number modulo 2^32 in the machine's (`wrap`). An average that
  is still 0 divides to infinity in floats and to 0 here, and either way the step it is
  for comes out 0.

  - `newCycle_below`, `newCycle_above`, `newCycle_equal`: past the warm-up, in the exact
    reading, a step goes the way of the error, and nowhere without one; whatever `int` is, the budget is at
    least 1 (`one_le_newCycle`).
  - `scaled_same`: for a new limit `init_attr` stores the budget there is.
-/

import Mathlib.Data.Rat.Floor
import Mathlib.Tactic.Positivity

namespace NvResourceController.Monitor

def defaultWaitDurationMillsec : ℕ := 100

def modtimesPerSec : ℤ := 1000 / defaultWaitDurationMillsec

def minSampleUtil : ℤ := 3

def sampleTicks : ℤ := modtimesPerSec * 5

/-- From a `float` to an `int`. -/
def trunc (x : ℚ) : ℤ := if x < 0 then ⌈x⌉ else ⌊x⌋

/-- An `int` of 32 bits that wraps around. -/
def wrap (z : ℤ) : ℤ := (Int32.ofInt z).toInt

/-- The budget of `init_attr` for a new limit. `core_limit` is the new limit already when
    it is read for the ratio. -/
def scaledCycle (int : ℤ → ℤ) (addPerCycle coreLimit limit : ℤ) : ℤ :=
  let newCycle := int (trunc ((addPerCycle : ℚ) * coreLimit / limit))
  if newCycle > 1 then newCycle else 1

/-- The budget of `delta_change` past the warm-up. -/
def newCycle (int : ℤ → ℤ) (util limit oldCycle curAvgLaunchs lastAvgLaunchs : ℤ) : ℤ :=
  let utilPerKernel : ℚ := util / curAvgLaunchs
  let err := int (limit - util)
  let cycleSigned : ℤ := if err > 0 then 1 else -1
  let deltaCycle := int (trunc ((|err| : ℤ) / utilPerKernel / 4))
  let deltaCycle := if deltaCycle < 0 then 1 else deltaCycle
  let newCycle := int (oldCycle + deltaCycle * cycleSigned)
  let avgDeltaRatio : ℚ := (|curAvgLaunchs - lastAvgLaunchs| : ℤ) / ((lastAvgLaunchs + 1 : ℤ) : ℚ)
  let cycleDeltaRatio : ℚ := (|newCycle - oldCycle| : ℤ) / oldCycle
  -- overload
  let newCycle :=
    if curAvgLaunchs ≠ lastAvgLaunchs ∧ cycleDeltaRatio > avgDeltaRatio then
      int (trunc (oldCycle + lastAvgLaunchs * avgDeltaRatio * cycleSigned))
    else newCycle
  if newCycle < 1 then 1 else newCycle

/-! ## Truncation -/

theorem trunc_nonneg {x : ℚ} (h : 0 ≤ x) : 0 ≤ trunc x := by
  rw [trunc, if_neg (not_lt.mpr h)]
  exact Int.floor_nonneg.mpr h

theorem le_trunc {x : ℚ} {n : ℤ} (h : (n : ℚ) ≤ x) : n ≤ trunc x := by
  unfold trunc
  split
  · exact_mod_cast h.trans (Int.le_ceil x)
  · exact Int.le_floor.mpr h

theorem trunc_le {x : ℚ} {n : ℤ} (h : x ≤ n) : trunc x ≤ n := by
  unfold trunc
  split
  · exact Int.ceil_le.mpr h
  · exact_mod_cast (Int.floor_le x).trans h

theorem trunc_intCast (n : ℤ) : trunc n = n := by
  unfold trunc
  split <;> simp

theorem floor_ediv (a : ℤ) {b : ℤ} (hb : 0 < b) : ⌊(a : ℚ) / b⌋ = a / b := by
  have hb' : (0 : ℚ) < b := by exact_mod_cast hb
  refine eq_of_forall_le_iff ?_
  intro z
  rw [Int.le_floor, le_div_iff₀ hb', Int.le_ediv_iff_mul_le hb]
  exact_mod_cast Iff.rfl

theorem trunc_ediv {a b : ℤ} (ha : 0 ≤ a) (hb : 0 < b) : trunc ((a : ℚ) / b) = a / b := by
  have ha' : (0 : ℚ) ≤ a := by exact_mod_cast ha
  have hb' : (0 : ℚ) ≤ b := by exact_mod_cast hb.le
  rw [trunc, if_neg (not_lt.mpr (div_nonneg ha' hb')), floor_ediv a hb]

theorem clamp_trunc (x : ℚ) : (if trunc x < 1 then 1 else trunc x) = max 1 ⌊x⌋ := by
  by_cases hx : x < 0
  · have hceil : ⌈x⌉ ≤ 0 := Int.ceil_le.mpr (by exact_mod_cast hx.le)
    have hfloor : ⌊x⌋ ≤ 0 := (Int.floor_le_ceil x).trans hceil
    rw [trunc, if_pos hx]
    omega
  · rw [trunc, if_neg hx]
    omega

/-! ## Direction -/

theorem one_le_newCycle (int : ℤ → ℤ) (util limit oldCycle cur last : ℤ) :
    1 ≤ newCycle int util limit oldCycle cur last := by
  unfold newCycle
  dsimp only
  omega

theorem one_le_scaledCycle (int : ℤ → ℤ) (addPerCycle coreLimit limit : ℤ) :
    1 ≤ scaledCycle int addPerCycle coreLimit limit := by
  unfold scaledCycle
  dsimp only
  omega

/-- The readings a step goes by: a utilisation, a budget to go from, and averages, which
    are 0 until they are published. -/
structure Readings (util oldCycle cur last : ℤ) : Prop where
  util : 1 ≤ util
  oldCycle : 1 ≤ oldCycle
  cur : 0 ≤ cur
  last : 0 ≤ last

theorem Readings.delta_nonneg {util oldCycle cur last : ℤ} (h : Readings util oldCycle cur last) (err : ℤ) :
    0 ≤ trunc ((|err| : ℤ) / ((util : ℚ) / cur) / 4) := by
  have hutil : (0 : ℚ) ≤ util := by exact_mod_cast (by have := h.util; omega : (0 : ℤ) ≤ util)
  have hcur : (0 : ℚ) ≤ cur := by exact_mod_cast h.cur
  have herr : (0 : ℚ) ≤ (|err| : ℤ) := by exact_mod_cast abs_nonneg err
  exact trunc_nonneg (by positivity)

theorem Readings.overload_nonneg {util oldCycle cur last : ℤ} (h : Readings util oldCycle cur last) :
    (0 : ℚ) ≤ last * ((|cur - last| : ℤ) / ((last + 1 : ℤ) : ℚ)) := by
  have hlast : (0 : ℚ) ≤ last := by exact_mod_cast h.last
  have hsucc : (0 : ℚ) ≤ ((last + 1 : ℤ) : ℚ) := by exact_mod_cast (by have := h.last; omega : (0 : ℤ) ≤ last + 1)
  have habs : (0 : ℚ) ≤ (|cur - last| : ℤ) := by exact_mod_cast abs_nonneg (cur - last)
  positivity

/-- Below the limit a step does not lower the budget. -/
theorem newCycle_below {util limit oldCycle cur last : ℤ} (h : Readings util oldCycle cur last) (hlt : util < limit) :
    oldCycle ≤ newCycle id util limit oldCycle cur last := by
  have hdelta := h.delta_nonneg (limit - util)
  have hover := h.overload_nonneg
  have hold := h.oldCycle
  have herr : limit - util > 0 := by omega
  simp only [newCycle, id_eq, if_pos herr, Int.cast_one, mul_one, if_neg (not_lt.mpr hdelta)]
  have hreplaced : oldCycle ≤ trunc (oldCycle + last * ((|cur - last| : ℤ) / ((last + 1 : ℤ) : ℚ))) :=
    le_trunc (by linarith)
  split_ifs <;> omega

/-- Above the limit it does not raise it. -/
theorem newCycle_above {util limit oldCycle cur last : ℤ} (h : Readings util oldCycle cur last) (hlt : limit < util) :
    newCycle id util limit oldCycle cur last ≤ oldCycle := by
  have hdelta := h.delta_nonneg (limit - util)
  have hover := h.overload_nonneg
  have hold := h.oldCycle
  have herr : ¬ limit - util > 0 := by omega
  simp only [newCycle, id_eq, if_neg herr, Int.cast_neg, Int.cast_one, mul_neg, mul_one, if_neg (not_lt.mpr hdelta)]
  have hreplaced : trunc (oldCycle + -(last * ((|cur - last| : ℤ) / ((last + 1 : ℤ) : ℚ)))) ≤ oldCycle :=
    trunc_le (by linarith)
  split_ifs <;> omega

/-- Without an error the step is 0, which no ratio of the averages is below. -/
theorem newCycle_equal {util oldCycle cur last : ℤ} (h : Readings util oldCycle cur last) :
    newCycle id util util oldCycle cur last = oldCycle := by
  have hold := h.oldCycle
  have hlast := h.last
  have hratio : ¬ (0 : ℚ) > (|cur - last| : ℤ) / ((last + 1 : ℤ) : ℚ) := by
    have hsucc : (0 : ℚ) ≤ ((last + 1 : ℤ) : ℚ) := by exact_mod_cast (by omega : (0 : ℤ) ≤ last + 1)
    have habs : (0 : ℚ) ≤ (|cur - last| : ℤ) := by exact_mod_cast abs_nonneg (cur - last)
    exact not_lt.mpr (by positivity)
  have hzero : trunc 0 = 0 := trunc_intCast 0
  simp only [newCycle, id_eq, sub_self, abs_zero, Int.cast_zero, zero_div, hzero, lt_irrefl, if_false, zero_mul,
    add_zero, hratio, and_false]
  omega

/-! ## Words -/

theorem wrap_bounds (z : ℤ) : -2 ^ 31 ≤ wrap z ∧ wrap z < 2 ^ 31 :=
  ⟨Int32.le_toInt _, Int32.toInt_lt _⟩

theorem wrap_toInt (x : Int32) : wrap x.toInt = x.toInt := by
  rw [wrap, Int32.ofInt_toInt]

/-- A scaled budget is the one there was: `core_limit` is the new limit already. -/
theorem scaled_same {add limit : Int32} (hadd : 1 ≤ add.toInt) (hlimit : 0 < limit.toInt) :
    Int32.ofInt (scaledCycle wrap add.toInt limit.toInt limit.toInt) = add := by
  have hne : (limit.toInt : ℚ) ≠ 0 := by exact_mod_cast (by omega : limit.toInt ≠ 0)
  have hscaled : scaledCycle wrap add.toInt limit.toInt limit.toInt = add.toInt := by
    unfold scaledCycle
    rw [mul_div_assoc, div_self hne, mul_one, trunc_intCast, wrap_toInt]
    dsimp only
    split <;> omega
  rw [hscaled, Int32.ofInt_toInt]

theorem clamp_lt (p : Prop) [Decidable p] (a b : ℤ) :
    (if (if p then wrap a else wrap b) < 1 then 1 else if p then wrap a else wrap b) < 2 ^ 31 := by
  have ha := wrap_bounds a
  have hb := wrap_bounds b
  split_ifs <;> omega

theorem newCycle_lt (util limit oldCycle cur last : ℤ) : newCycle wrap util limit oldCycle cur last < 2 ^ 31 :=
  clamp_lt _ _ _

theorem one_le_stored (util limit oldCycle cur last : ℤ) :
    1 ≤ (Int32.ofInt (newCycle wrap util limit oldCycle cur last)).toInt := by
  have hlow := one_le_newCycle wrap util limit oldCycle cur last
  rw [Int32.toInt_ofInt_of_le (by omega) (newCycle_lt _ _ _ _ _)]
  exact hlow

theorem one_le_raised {old : Int32} (h : 1 ≤ old.toInt) (hle : old.toInt ≤ minSampleUtil) : 1 ≤ (old + 1).toInt := by
  unfold minSampleUtil at hle
  rw [Int32.toInt_add, Int32.toInt_one, Int.bmod_eq_of_le (by omega) (by omega)]
  omega

end NvResourceController.Monitor
