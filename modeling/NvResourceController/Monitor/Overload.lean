/-
  NvResourceController.Monitor.Overload — the two branches of an adjustment
  (`src/server_monitor.c`, `delta_change`), in the exact reading. A step is `stepSize`
  tokens, up or down. An overload replaces it, when it is more of the budget than the
  averages changed by; but the share of the change is taken of the average and not of
  the budget, so the replacement can be more than the step, or less.

  - `damps_iff`: when the replacement stays below the budget's share of the change and
    below the step it replaces.
  - `falls_iff`: when a higher reading does not get a larger budget than a lower one.
-/

import NvResourceController.Monitor.Feedback

namespace NvResourceController.Monitor

/-! ## An adjustment -/

structure Attr.Due (s : Attr) : Prop where
  changed : s.changed = 0
  past : sampleTicks < s.modTimes + 1
  tick : (s.modTimes + 1) % sampleTicks = 0

def Attr.curAvgLaunchs (s : Attr) : ℤ := s.avgLaunchs (s.launchIdx % 2)

def Attr.lastAvgLaunchs (s : Attr) : ℤ := s.avgLaunchs ((s.launchIdx + 1) % 2)

theorem deltaChange_due {s : Attr} (h : s.Due) (util limit : ℤ) :
    (deltaChange util limit s).addPerCycle =
      newCycle id util limit s.addPerCycle s.curAvgLaunchs s.lastAvgLaunchs := by
  have hpast : ¬ s.modTimes + 1 ≤ sampleTicks := not_le.mpr h.past
  simp only [deltaChange, h.changed, ne_eq, not_true_eq_false, if_false, hpast, h.tick, if_true]
  rfl

/-- What an adjustment goes by. -/
structure Published (s : Attr) : Prop where
  budget : 1 ≤ s.addPerCycle
  cur : 1 ≤ s.curAvgLaunchs
  last : 1 ≤ s.lastAvgLaunchs

/-! ## The step and its replacement -/

/-- `delta_cycle`: a quarter of the launches the error stands for. -/
def stepSize (util limit cur : ℤ) : ℤ := |limit - util| * cur / (4 * util)

/-- What an overload adds below the limit. -/
def raise (cur last : ℤ) : ℤ := last * |cur - last| / (last + 1)

/-- What it takes away above: the same, rounded up. -/
def lower (cur last : ℤ) : ℤ := -(-(last * |cur - last|) / (last + 1))

/-- The overload branch is taken: the step is more than the budget's share of the change
    of the averages. -/
def Overload (util limit oldCycle cur last : ℤ) : Prop :=
  cur ≠ last ∧ 4 * util * (oldCycle * |cur - last| / (last + 1) + 1) ≤ |limit - util| * cur

instance (util limit oldCycle cur last : ℤ) : Decidable (Overload util limit oldCycle cur last) :=
  inferInstanceAs (Decidable (_ ∧ _))

/-- The exact `avg_delta_ratio`. -/
def avgDeltaRatio (cur last : ℤ) : ℚ := (|cur - last| : ℤ) / ((last + 1 : ℤ) : ℚ)

theorem trunc_delta {util cur : ℤ} (hutil : 1 ≤ util) (hcur : 0 ≤ cur) (limit : ℤ) :
    trunc ((|limit - util| : ℤ) / ((util : ℚ) / cur) / 4) = stepSize util limit cur := by
  have hquot : ((|limit - util| : ℤ) : ℚ) / ((util : ℚ) / cur) / 4 =
      ((|limit - util| * cur : ℤ) : ℚ) / ((4 * util : ℤ) : ℚ) := by
    rw [div_div_eq_mul_div, div_div]
    push_cast
    ring
  rw [hquot, stepSize]
  exact trunc_ediv (mul_nonneg (abs_nonneg _) (by omega)) (by omega)

theorem overload_iff {util oldCycle last : ℤ} (hutil : 1 ≤ util) (hold : 1 ≤ oldCycle) (hlast : 0 ≤ last)
    (limit cur : ℤ) :
    (cur ≠ last ∧ (stepSize util limit cur : ℚ) / oldCycle > avgDeltaRatio cur last) ↔
      Overload util limit oldCycle cur last := by
  have hold' : (0 : ℚ) < oldCycle := by exact_mod_cast hold
  have hlast' : (0 : ℚ) < ((last + 1 : ℤ) : ℚ) := by exact_mod_cast (by omega : (0 : ℤ) < last + 1)
  have hratio : (stepSize util limit cur : ℚ) / oldCycle > avgDeltaRatio cur last ↔
      oldCycle * |cur - last| < stepSize util limit cur * (last + 1) := by
    rw [avgDeltaRatio, gt_iff_lt, div_lt_div_iff₀ hlast' hold']
    norm_cast
    rw [mul_comm oldCycle]
  rw [hratio, Overload, ← Int.ediv_lt_iff_lt_mul (by omega), ← Int.add_one_le_iff, stepSize,
    Int.le_ediv_iff_mul_le (by omega), mul_comm (4 * util)]

theorem mul_avgDeltaRatio (cur last : ℤ) :
    (last : ℚ) * avgDeltaRatio cur last = ((last * |cur - last| : ℤ) : ℚ) / ((last + 1 : ℤ) : ℚ) := by
  rw [avgDeltaRatio, Int.cast_mul, mul_div_assoc]

theorem floor_raise (oldCycle cur : ℤ) {last : ℤ} (hlast : 0 ≤ last) :
    ⌊(oldCycle : ℚ) + last * avgDeltaRatio cur last * 1⌋ = oldCycle + raise cur last := by
  rw [mul_one, mul_avgDeltaRatio, Int.floor_intCast_add, floor_ediv _ (by omega), raise]

theorem floor_lower (oldCycle cur : ℤ) {last : ℤ} (hlast : 1 ≤ last) :
    ⌊(oldCycle : ℚ) + last * avgDeltaRatio cur last * -1⌋ = oldCycle - lower cur last := by
  rw [mul_neg_one, mul_avgDeltaRatio, Int.floor_intCast_add, ← neg_div, ← Int.cast_neg, floor_ediv _ (by omega), lower,
    sub_neg_eq_add]

theorem stepSize_nonneg {util cur : ℤ} (hutil : 1 ≤ util) (hcur : 0 ≤ cur) (limit : ℤ) :
    0 ≤ stepSize util limit cur :=
  Int.ediv_nonneg (mul_nonneg (abs_nonneg _) (by omega)) (by omega)

theorem raise_nonneg (cur : ℤ) {last : ℤ} (hlast : 0 ≤ last) : 0 ≤ raise cur last :=
  Int.ediv_nonneg (mul_nonneg (by omega) (abs_nonneg _)) (by omega)

theorem newCycle_eq {util limit oldCycle cur last : ℤ} (hutil : 1 ≤ util) (hold : 1 ≤ oldCycle) (hcur : 1 ≤ cur)
    (hlast : 1 ≤ last) :
    newCycle id util limit oldCycle cur last =
      if util < limit then
        oldCycle + if Overload util limit oldCycle cur last then raise cur last else stepSize util limit cur
      else
        max 1 (oldCycle -
          if Overload util limit oldCycle cur last then lower cur last else stepSize util limit cur) := by
  have hcur' : 0 ≤ cur := by omega
  have hlast' : 0 ≤ last := by omega
  have hstep := stepSize_nonneg hutil hcur' limit
  have hraise := raise_nonneg cur hlast'
  have hover := overload_iff hutil hold hlast' limit cur
  have hratio : ((|cur - last| : ℤ) : ℚ) / ((last + 1 : ℤ) : ℚ) = avgDeltaRatio cur last := rfl
  simp only [newCycle, id_eq, trunc_delta hutil hcur', if_neg (not_lt.mpr hstep), hratio]
  by_cases hlt : util < limit
  · rw [if_pos hlt, if_pos (by omega : limit - util > 0), mul_one, add_sub_cancel_left, abs_of_nonneg hstep,
      if_congr hover rfl rfl, Int.cast_one]
    split
    · rw [clamp_trunc, floor_raise _ _ hlast']
      omega
    · omega
  · rw [if_neg hlt, if_neg (by omega : ¬ limit - util > 0), mul_neg_one, add_sub_cancel_left, abs_neg,
      abs_of_nonneg hstep, if_congr hover rfl rfl, Int.cast_neg, Int.cast_one]
    split
    · rw [clamp_trunc, floor_lower _ _ hlast]
    · omega

/-! ## What the overload commits -/

/-- The branch commits no more than the budget's share of the change, give or take a
    token, and no more than the step it replaces. -/
def Damps (s : Attr) (util limit : ℤ) : Prop :=
  let deltaCycle := trunc ((|limit - util| : ℤ) / ((util : ℚ) / s.curAvgLaunchs) / 4)
  let ratio := avgDeltaRatio s.curAvgLaunchs s.lastAvgLaunchs
  let committed := |(deltaChange util limit s).addPerCycle - s.addPerCycle|
  s.curAvgLaunchs ≠ s.lastAvgLaunchs → (deltaCycle : ℚ) / s.addPerCycle > ratio →
    (committed : ℚ) ≤ s.addPerCycle * ratio + 1 ∧ committed ≤ |deltaCycle|

/-- The average exceeds the budget by little, or what is taken away is cut off at a
    budget of 1. -/
def Near (util limit oldCycle cur last : ℤ) : Prop :=
  (util < limit → (last - oldCycle) * |cur - last| ≤ last + 1 + -|cur - last| % (last + 1)) ∧
    (limit < util → (last - oldCycle) * |cur - last| ≤ last + 1 - |cur - last| % (last + 1) ∨
      (oldCycle - 2) * (last + 1) ≤ oldCycle * |cur - last|)

instance (util limit oldCycle cur last : ℤ) : Decidable (Near util limit oldCycle cur last) :=
  inferInstanceAs (Decidable (_ ∧ _))

theorem raise_mul (cur last : ℤ) :
    raise cur last * (last + 1) = last * |cur - last| - -|cur - last| % (last + 1) := by
  have hmod : last * |cur - last| % (last + 1) = -|cur - last| % (last + 1) := by
    rw [show last * |cur - last| = -|cur - last| + |cur - last| * (last + 1) by ring, Int.add_mul_emod_self_right]
  have hdiv := Int.mul_ediv_add_emod (last * |cur - last|) (last + 1)
  rw [hmod] at hdiv
  rw [raise, mul_comm]
  omega

theorem lower_mul (cur last : ℤ) : lower cur last * (last + 1) = last * |cur - last| + |cur - last| % (last + 1) := by
  have hmod : -(last * |cur - last|) % (last + 1) = |cur - last| % (last + 1) := by
    rw [show -(last * |cur - last|) = |cur - last| + -|cur - last| * (last + 1) by ring, Int.add_mul_emod_self_right]
  have hdiv := Int.mul_ediv_add_emod (-(last * |cur - last|)) (last + 1)
  rw [hmod] at hdiv
  rw [lower, neg_mul, mul_comm]
  omega

theorem le_share_iff (k oldCycle cur : ℤ) {last : ℤ} (hlast : 1 ≤ last) :
    (k : ℚ) ≤ oldCycle * avgDeltaRatio cur last + 1 ↔ k * (last + 1) ≤ oldCycle * |cur - last| + (last + 1) := by
  have hlast' : (0 : ℚ) < ((last + 1 : ℤ) : ℚ) := by exact_mod_cast (by omega : (0 : ℤ) < last + 1)
  rw [avgDeltaRatio, ← mul_div_assoc, ← sub_le_iff_le_add, le_div_iff₀ hlast', sub_mul, one_mul, sub_le_iff_le_add]
  norm_cast

theorem le_step_of_share {util limit oldCycle cur last k : ℤ} (hutil : 1 ≤ util) (hlast : 1 ≤ last)
    (hover : Overload util limit oldCycle cur last) (h : k * (last + 1) ≤ oldCycle * |cur - last| + (last + 1)) :
    k ≤ stepSize util limit cur := by
  have hshare : oldCycle * |cur - last| / (last + 1) + 1 ≤ stepSize util limit cur := by
    rw [stepSize, Int.le_ediv_iff_mul_le (by omega), mul_comm]
    exact hover.2
  have hk : k - 1 ≤ oldCycle * |cur - last| / (last + 1) := by
    rw [Int.le_ediv_iff_mul_le (by omega), sub_mul]
    omega
  omega

theorem lower_nonneg (cur : ℤ) {last : ℤ} (hlast : 1 ≤ last) : 0 ≤ lower cur last := by
  have hmul := lower_mul cur last
  have hmod := Int.emod_nonneg |cur - last| (by omega : last + 1 ≠ 0)
  have hprod : 0 ≤ last * |cur - last| := mul_nonneg (by omega) (abs_nonneg _)
  exact nonneg_of_mul_nonneg_left (by omega) (by omega : 0 < last + 1)

theorem Overload.ne {util limit oldCycle cur last : ℤ} (hutil : 1 ≤ util) (hold : 1 ≤ oldCycle) (hlast : 1 ≤ last)
    (h : Overload util limit oldCycle cur last) : util ≠ limit := by
  intro heq
  have hshare : 0 ≤ oldCycle * |cur - last| / (last + 1) :=
    Int.ediv_nonneg (mul_nonneg (by omega) (abs_nonneg _)) (by omega)
  have hpos : 0 < 4 * util * (oldCycle * |cur - last| / (last + 1) + 1) := mul_pos (by omega) (by omega)
  have hreach := h.2
  rw [heq, sub_self, abs_zero, zero_mul, ← heq] at hreach
  omega

theorem min_mul_le {a b n m : ℤ} (hn : 0 ≤ n) : min a b * n ≤ m ↔ a * n ≤ m ∨ b * n ≤ m := by
  rw [min_mul_of_nonneg _ _ hn, min_le_iff]

/-- The branch damps exactly where it is not taken, or where the last average is near
    the budget. -/
theorem damps_iff {s : Attr} (hdue : s.Due) (h : Published s) {util : ℤ} (hutil : 1 ≤ util) (limit : ℤ) :
    Damps s util limit ↔
      (Overload util limit s.addPerCycle s.curAvgLaunchs s.lastAvgLaunchs →
        Near util limit s.addPerCycle s.curAvgLaunchs s.lastAvgLaunchs) := by
  obtain ⟨hold, hcur, hlast⟩ := h
  have hcycle := deltaChange_due hdue util limit
  rw [newCycle_eq hutil hold hcur hlast] at hcycle
  have hcur' : 0 ≤ s.curAvgLaunchs := by omega
  have hlast' : 0 ≤ s.lastAvgLaunchs := by omega
  have hstep := stepSize_nonneg hutil hcur' limit
  simp only [Damps, trunc_delta hutil hcur', hcycle, abs_of_nonneg hstep, ← and_imp]
  rw [overload_iff hutil hold hlast']
  refine imp_congr_right ?_
  intro hover
  have hshare : ∀ k : ℤ, ((k : ℚ) ≤ s.addPerCycle * avgDeltaRatio s.curAvgLaunchs s.lastAvgLaunchs + 1 ∧
      k ≤ stepSize util limit s.curAvgLaunchs) ↔
      k * (s.lastAvgLaunchs + 1) ≤
        s.addPerCycle * |s.curAvgLaunchs - s.lastAvgLaunchs| + (s.lastAvgLaunchs + 1) := by
    intro k
    rw [le_share_iff _ _ _ hlast]
    exact and_iff_left_of_imp (le_step_of_share hutil hlast hover)
  rw [hshare, if_pos hover, if_pos hover, Near]
  rcases lt_or_gt_of_ne (hover.ne hutil hold hlast) with hlt | hgt
  · have hraise := raise_nonneg s.curAvgLaunchs hlast'
    have hmul := raise_mul s.curAvgLaunchs s.lastAvgLaunchs
    rw [if_pos hlt, add_sub_cancel_left, abs_of_nonneg hraise, hmul, sub_mul]
    omega
  · have hlower := lower_nonneg s.curAvgLaunchs hlast
    have hmul := lower_mul s.curAvgLaunchs s.lastAvgLaunchs
    have hcommitted : |max 1 (s.addPerCycle - lower s.curAvgLaunchs s.lastAvgLaunchs) - s.addPerCycle| =
        min (lower s.curAvgLaunchs s.lastAvgLaunchs) (s.addPerCycle - 1) := by
      rw [abs_of_nonpos (by omega)]
      omega
    rw [if_neg hgt.not_gt, hcommitted, min_mul_le (by omega), hmul, sub_mul, sub_mul, sub_mul, one_mul]
    omega

def dueAttr (old cur last : ℤ) : Attr :=
  { warm 99 with
    addPerCycle := old
    avgLaunchs := Function.update (Function.update (warm 99).avgLaunchs 0 cur) 1 last }

theorem dueAttr_due (old cur last : ℤ) : (dueAttr old cur last).Due :=
  ⟨rfl, (by decide : sampleTicks < 99 + 1), (by decide : (99 + 1) % sampleTicks = 0)⟩

theorem damps_iff_run : Damps (dueAttr 40 60 40) 5 50 :=
  (damps_iff (dueAttr_due 40 60 40) ⟨by decide, by decide, by decide⟩ (by decide) 50).mpr fun _ => by decide

/-- Of 4 tokens, 15 are to be added, and 19 are. -/
theorem overload_amplifies : (dueAttr 4 60 40).Due ∧ Published (dueAttr 4 60 40) ∧
    (deltaChange 5 10 (dueAttr 4 60 40)).addPerCycle = 23 ∧ ¬ Damps (dueAttr 4 60 40) 5 10 := by
  have hcycle : (deltaChange 5 10 (dueAttr 4 60 40)).addPerCycle = 23 := by decide +kernel
  refine ⟨dueAttr_due 4 60 40, ⟨by decide, by decide, by decide⟩, hcycle, ?_⟩
  intro h
  have hcommitted := (h (by decide) (by decide +kernel)).2
  rw [hcycle] at hcommitted
  exact absurd hcommitted (by decide +kernel)

/-! ## Two readings -/

theorem overload_step_iff {util limit oldCycle cur last : ℤ} (hutil : 1 ≤ util) :
    Overload util limit oldCycle cur last ↔
      cur ≠ last ∧ oldCycle * |cur - last| / (last + 1) < stepSize util limit cur := by
  rw [Overload, ← Int.add_one_le_iff, stepSize, Int.le_ediv_iff_mul_le (by omega), mul_comm (4 * util)]

theorem stepSize_below {util₁ util₂ limit cur : ℤ} (h₁ : 1 ≤ util₁) (hle : util₁ ≤ util₂) (hlt : util₂ ≤ limit)
    (hcur : 1 ≤ cur) : stepSize util₂ limit cur ≤ stepSize util₁ limit cur := by
  have hnonneg := stepSize_nonneg (by omega : 1 ≤ util₂) (by omega : 0 ≤ cur) limit
  have hmul : stepSize util₂ limit cur * (4 * util₂) ≤ |limit - util₂| * cur := Int.ediv_mul_le _ (by omega)
  rw [abs_of_nonneg (by omega)] at hmul
  rw [stepSize, stepSize, Int.le_ediv_iff_mul_le (by omega), abs_of_nonneg (by omega : 0 ≤ limit - util₁)]
  calc |limit - util₂| * cur / (4 * util₂) * (4 * util₁)
      ≤ stepSize util₂ limit cur * (4 * util₂) := mul_le_mul_of_nonneg_left (by omega) hnonneg
    _ ≤ (limit - util₂) * cur := hmul
    _ ≤ (limit - util₁) * cur := mul_le_mul_of_nonneg_right (by omega) (by omega)

theorem stepSize_above {util₁ util₂ limit cur : ℤ} (hlimit : 1 ≤ limit) (hle : util₁ ≤ util₂) (hlt : limit ≤ util₁)
    (hcur : 1 ≤ cur) : stepSize util₁ limit cur ≤ stepSize util₂ limit cur := by
  have hmul : stepSize util₁ limit cur * (4 * util₁) ≤ |limit - util₁| * cur := Int.ediv_mul_le _ (by omega)
  rw [abs_of_nonpos (by omega), neg_sub] at hmul
  rw [stepSize.eq_1 util₂, Int.le_ediv_iff_mul_le (by omega), abs_of_nonpos (by omega : limit - util₂ ≤ 0), neg_sub]
  refine le_of_mul_le_mul_right ?_ (by omega : 0 < util₁)
  calc stepSize util₁ limit cur * (4 * util₂) * util₁
      = stepSize util₁ limit cur * (4 * util₁) * util₂ := by ring
    _ ≤ (util₁ - limit) * cur * util₂ := mul_le_mul_of_nonneg_right hmul (by omega)
    _ = (util₁ * util₂ - limit * util₂) * cur := by ring
    _ ≤ (util₁ * util₂ - limit * util₁) * cur :=
      mul_le_mul_of_nonneg_right (by have := mul_le_mul_of_nonneg_left hle (by omega : 0 ≤ limit); omega) (by omega)
    _ = (util₂ - limit) * cur * util₁ := by ring

theorem stepSize_lt_iff {util : ℤ} (hutil : 1 ≤ util) (limit cur k : ℤ) :
    stepSize util limit cur < k ↔ |limit - util| * cur < 4 * util * k := by
  rw [stepSize, Int.ediv_lt_iff_lt_mul (by omega), mul_comm k]

theorem stepSize_le_iff {util : ℤ} (hutil : 1 ≤ util) (limit cur k : ℤ) :
    stepSize util limit cur ≤ k ↔ |limit - util| * cur < 4 * util * (k + 1) := by
  rw [← Int.lt_add_one_iff, stepSize_lt_iff hutil]

/-- Of two readings on one side of the limit, where only the one further from it is an
    overload, the nearer's step is within the replacement (or the budget falls to 1 all
    the same). -/
structure Consistent (util₁ util₂ limit oldCycle cur last : ℤ) : Prop where
  below : util₂ < limit → Overload util₁ limit oldCycle cur last → ¬ Overload util₂ limit oldCycle cur last →
    |limit - util₂| * cur < 4 * util₂ * (raise cur last + 1)
  above : limit < util₁ → ¬ Overload util₁ limit oldCycle cur last → Overload util₂ limit oldCycle cur last →
    |limit - util₁| * cur < 4 * util₁ * (lower cur last + 1) ∨ oldCycle ≤ lower cur last + 1

theorem falls_below {util₁ util₂ limit oldCycle cur last : ℤ} (hold : 1 ≤ oldCycle) (hcur : 1 ≤ cur)
    (hlast : 1 ≤ last) (hutil : 1 ≤ util₁) (hle : util₁ ≤ util₂) (hlt : util₂ < limit) :
    newCycle id util₂ limit oldCycle cur last ≤ newCycle id util₁ limit oldCycle cur last ↔
      Consistent util₁ util₂ limit oldCycle cur last := by
  have hutil₂ : 1 ≤ util₂ := by omega
  have hstep := stepSize_below hutil hle hlt.le hcur
  have hone : Overload util₂ limit oldCycle cur last → Overload util₁ limit oldCycle cur last := by
    rw [overload_step_iff hutil, overload_step_iff hutil₂]
    exact fun h => ⟨h.1, h.2.trans_le hstep⟩
  have hconsistent : Consistent util₁ util₂ limit oldCycle cur last ↔
      (Overload util₁ limit oldCycle cur last → ¬ Overload util₂ limit oldCycle cur last →
        stepSize util₂ limit cur ≤ raise cur last) := by
    rw [stepSize_le_iff hutil₂]
    exact ⟨fun h => h.below hlt, fun h => ⟨fun _ => h, fun h' => by omega⟩⟩
  rw [newCycle_eq hutil hold hcur hlast, newCycle_eq hutil₂ hold hcur hlast, if_pos hlt, if_pos (hle.trans_lt hlt),
    hconsistent, add_le_add_iff_left]
  by_cases h₁ : Overload util₁ limit oldCycle cur last
  · by_cases h₂ : Overload util₂ limit oldCycle cur last
    · simp [h₁, h₂]
    · simp [h₁, h₂]
  · simp [h₁, mt hone h₁, hstep]

theorem falls_above {util₁ util₂ limit oldCycle cur last : ℤ} (hold : 1 ≤ oldCycle) (hcur : 1 ≤ cur)
    (hlast : 1 ≤ last) (hlimit : 1 ≤ limit) (hlt : limit < util₁) (hle : util₁ ≤ util₂) :
    newCycle id util₂ limit oldCycle cur last ≤ newCycle id util₁ limit oldCycle cur last ↔
      Consistent util₁ util₂ limit oldCycle cur last := by
  have hutil₁ : 1 ≤ util₁ := by omega
  have hutil₂ : 1 ≤ util₂ := by omega
  have hstep := stepSize_above hlimit hle hlt.le hcur
  have htwo : Overload util₁ limit oldCycle cur last → Overload util₂ limit oldCycle cur last := by
    rw [overload_step_iff hutil₁, overload_step_iff hutil₂]
    exact fun h => ⟨h.1, h.2.trans_le hstep⟩
  have hconsistent : Consistent util₁ util₂ limit oldCycle cur last ↔
      (¬ Overload util₁ limit oldCycle cur last → Overload util₂ limit oldCycle cur last →
        stepSize util₁ limit cur ≤ lower cur last ∨ oldCycle ≤ lower cur last + 1) := by
    rw [stepSize_le_iff hutil₁]
    exact ⟨fun h => h.above hlt, fun h => ⟨fun h' => by omega, fun _ => h⟩⟩
  rw [newCycle_eq hutil₁ hold hcur hlast, newCycle_eq hutil₂ hold hcur hlast, if_neg hlt.not_gt,
    if_neg (hlt.trans_le hle).not_gt, hconsistent]
  by_cases h₁ : Overload util₁ limit oldCycle cur last
  · simp [h₁, htwo h₁]
  · by_cases h₂ : Overload util₂ limit oldCycle cur last
    · simp only [h₁, h₂, if_true, if_false, not_false_eq_true, forall_const]
      omega
    · simp only [h₁, h₂, if_false, not_false_eq_true, forall_const, false_imp_iff, iff_true]
      omega

/-- A higher reading does not get the larger budget exactly when the branches are
    consistent. -/
theorem falls_iff {s : Attr} (hdue : s.Due) (h : Published s) {util₁ util₂ limit : ℤ} (hutil : 1 ≤ util₁)
    (hle : util₁ ≤ util₂) (hlimit : 1 ≤ limit) :
    (deltaChange util₂ limit s).addPerCycle ≤ (deltaChange util₁ limit s).addPerCycle ↔
      Consistent util₁ util₂ limit s.addPerCycle s.curAvgLaunchs s.lastAvgLaunchs := by
  obtain ⟨hold, hcur, hlast⟩ := h
  rw [deltaChange_due hdue, deltaChange_due hdue]
  by_cases hbelow : util₂ < limit
  · exact falls_below hold hcur hlast hutil hle hbelow
  by_cases habove : limit < util₁
  · exact falls_above hold hcur hlast hlimit habove hle
  -- the limit is between them, and the budget as it was
  have hr : ∀ util, 1 ≤ util → Readings util s.addPerCycle s.curAvgLaunchs s.lastAvgLaunchs :=
    fun util hutil => ⟨hutil, hold, by omega, by omega⟩
  have hrise : s.addPerCycle ≤ newCycle id util₁ limit s.addPerCycle s.curAvgLaunchs s.lastAvgLaunchs := by
    rcases (not_lt.mp habove).eq_or_lt with rfl | hlt
    · rw [newCycle_equal (hr _ hutil)]
    · exact newCycle_below (hr _ hutil) hlt
  have hfall : newCycle id util₂ limit s.addPerCycle s.curAvgLaunchs s.lastAvgLaunchs ≤ s.addPerCycle := by
    rcases (not_lt.mp hbelow).eq_or_lt with rfl | hlt
    · rw [newCycle_equal (hr _ (by omega))]
    · exact newCycle_above (hr _ (by omega)) hlt
  exact iff_of_true (hfall.trans hrise) ⟨fun h => absurd h hbelow, fun h => absurd h habove⟩

theorem falls_iff_run : (deltaChange 9 10 (dueAttr 10 3 1)).addPerCycle ≤
    (deltaChange 8 10 (dueAttr 10 3 1)).addPerCycle :=
  (falls_iff (dueAttr_due 10 3 1) ⟨by decide, by decide, by decide⟩ (by decide) (by decide) (by decide)).mpr
    ⟨fun _ h => absurd h (by decide), fun h => absurd h (by decide)⟩

/-- At 6 of 100 percent the budget of 10 becomes 11, at 7 it becomes 19. -/
theorem overload_inverts : (dueAttr 10 3 1).Due ∧ Published (dueAttr 10 3 1) ∧
    ¬ (deltaChange 7 100 (dueAttr 10 3 1)).addPerCycle ≤ (deltaChange 6 100 (dueAttr 10 3 1)).addPerCycle := by
  have h₁ : (deltaChange 6 100 (dueAttr 10 3 1)).addPerCycle = 11 := by decide +kernel
  have h₂ : (deltaChange 7 100 (dueAttr 10 3 1)).addPerCycle = 19 := by decide +kernel
  refine ⟨dueAttr_due 10 3 1, ⟨by decide, by decide, by decide⟩, ?_⟩
  rw [h₁, h₂]
  decide

end NvResourceController.Monitor
