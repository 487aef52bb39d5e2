/-
  NvResourceController.Monitor.Floats — `init_attr` and `delta_change`
  (`src/server_monitor.c`) with `float`s that are rounded, where `Monitor.Feedback` has
  rationals. The rounding is a parameter; the compiler's is to nearest with 24 bits
  (`single`). No number of a call is too large for a `float`. The integers have no bound;
  `Monitor.Machine` has those of 32 bits.

  - `newCycleIn_below`, `newCycleIn_above`, `newCycleIn_equal`: whatever the direction of
    the rounding, a step goes the way of the error as long as the budget is a `float`.
  - `floats_restarts`: a restart keeps the budget or takes one token of it, and keeps it
    where its product with the limit is a `float`. From there on it need not
    (`restart_takes_one`).
-/

import NvResourceController.Lib.Rounding
import NvResourceController.Monitor.Restart

namespace NvResourceController.Monitor

open Limiter System Rounding

def scaledCycleIn (fl : ℚ → ℚ) (addPerCycle coreLimit limit : ℤ) : ℤ :=
  let newCycle := trunc (fl (fl (fl addPerCycle * fl coreLimit) / fl limit))
  if newCycle > 1 then newCycle else 1

def newCycleIn (fl : ℚ → ℚ) (util limit oldCycle curAvgLaunchs lastAvgLaunchs : ℤ) : ℤ :=
  let utilPerKernel := fl (fl util / fl curAvgLaunchs)
  let err := limit - util
  let cycleSigned : ℤ := if err > 0 then 1 else -1
  let deltaCycle := trunc (fl (fl (fl (|err| : ℤ) / utilPerKernel) / 4))
  let deltaCycle := if deltaCycle < 0 then 1 else deltaCycle
  let newCycle := oldCycle + deltaCycle * cycleSigned
  let avgDeltaRatio := fl (fl (|curAvgLaunchs - lastAvgLaunchs| : ℤ) / fl ((lastAvgLaunchs + 1 : ℤ) : ℚ))
  let cycleDeltaRatio := fl (fl (|newCycle - oldCycle| : ℤ) / fl oldCycle)
  -- overload
  let newCycle :=
    if curAvgLaunchs ≠ lastAvgLaunchs ∧ cycleDeltaRatio > avgDeltaRatio then
      trunc (fl (fl oldCycle + fl (fl (fl lastAvgLaunchs * avgDeltaRatio) * fl cycleSigned)))
    else newCycle
  if newCycle < 1 then 1 else newCycle

def initAttrIn (fl : ℚ → ℚ) (limit : ℤ) (attr : Attr) : Attr :=
  let attr :=
    if attr.inited = 0 then
      { attr with
        coreLimit := limit
        modTimes := 0
        addPerCycle := 1
        avgLaunchs := Function.update (Function.update attr.avgLaunchs 0 0) 1 0
        launchIdx := 0
        waitTime := ⟨0, Int64.ofNat (defaultWaitDurationMillsec * 1000 * 1000)⟩
        inited := 1
        ready := (semPost attr.ready).2 }
    else attr
  let attr :=
    if attr.coreLimit ≠ limit then
      let attr := { attr with coreLimit := limit, modTimes := 0 }
      { attr with addPerCycle := scaledCycleIn fl attr.addPerCycle attr.coreLimit limit }
    else attr
  { attr with changed := 1 }

/-- A `float` of 24 bits, to nearest. -/
def single : ℚ → ℚ := round 24 (-149)

theorem single_order : Order (2 ^ 24) single := round_order (by norm_num) (by norm_num)

/-! ## Without rounding -/

theorem newCycleIn_id (util limit oldCycle cur last : ℤ) :
    newCycleIn id util limit oldCycle cur last = newCycle id util limit oldCycle cur last := by
  simp [newCycleIn, newCycle]

theorem initAttrIn_id (limit : ℤ) (attr : Attr) : initAttrIn id limit attr = initAttr limit attr := rfl

/-! ## Direction -/

section

variable {fl : ℚ → ℚ} {N : ℤ} {util limit oldCycle cur last : ℤ}

theorem intCast_nonneg (h : Order N fl) (hN : 1 ≤ N) {z : ℤ} (hz : 0 ≤ z) : 0 ≤ fl z :=
  h.nonneg (by omega) (by exact_mod_cast hz)

theorem delta_nonneg_in (h : Order N fl) (hN : 1 ≤ N) (hr : Readings util oldCycle cur last) (err : ℤ) :
    0 ≤ trunc (fl (fl (fl (|err| : ℤ) / fl (fl util / fl cur)) / 4)) := by
  have hutil := intCast_nonneg h hN (by have := hr.util; omega : (0 : ℤ) ≤ util)
  have hcur := intCast_nonneg h hN hr.cur
  have herr := intCast_nonneg h hN (abs_nonneg err)
  have hper := h.nonneg (by omega) (div_nonneg hutil hcur)
  have hdelta := h.nonneg (by omega) (div_nonneg herr hper)
  exact trunc_nonneg (h.nonneg (by omega) (div_nonneg hdelta (by norm_num)))

theorem ratio_nonneg_in (h : Order N fl) (hN : 1 ≤ N) (hr : Readings util oldCycle cur last) :
    0 ≤ fl (fl (|cur - last| : ℤ) / fl ((last + 1 : ℤ) : ℚ)) := by
  have habs := intCast_nonneg h hN (abs_nonneg (cur - last))
  have hsucc := intCast_nonneg h hN (by have := hr.last; omega : (0 : ℤ) ≤ last + 1)
  exact h.nonneg (by omega) (div_nonneg habs hsucc)

theorem overload_nonneg_in (h : Order N fl) (hN : 1 ≤ N) (hr : Readings util oldCycle cur last) :
    0 ≤ fl (fl last * fl (fl (|cur - last| : ℤ) / fl ((last + 1 : ℤ) : ℚ))) :=
  h.nonneg (by omega) (mul_nonneg (intCast_nonneg h hN hr.last) (ratio_nonneg_in h hN hr))

/-- Below the limit a step does not lower the budget. -/
theorem newCycleIn_below (h : Order N fl) (hr : Readings util oldCycle cur last) (hold : oldCycle ≤ N)
    (hlt : util < limit) : oldCycle ≤ newCycleIn fl util limit oldCycle cur last := by
  have hone := hr.oldCycle
  have hN : 1 ≤ N := by omega
  have hdelta := delta_nonneg_in h hN hr (limit - util)
  have hover := overload_nonneg_in h hN hr
  have herr : limit - util > 0 := by omega
  have hsign : fl 1 = 1 := by exact_mod_cast h.intCast 1 (by rwa [abs_one])
  have hbudget : fl oldCycle = oldCycle := h.intCast oldCycle (by rwa [abs_of_nonneg (by omega)])
  simp only [newCycleIn, if_pos herr, hsign, Int.cast_one, mul_one, hbudget, if_neg (not_lt.mpr hdelta)]
  have hreplaced : oldCycle ≤
      trunc (fl (oldCycle + fl (fl (fl last * fl (fl (|cur - last| : ℤ) / fl ((last + 1 : ℤ) : ℚ)))))) :=
    le_trunc (h.le_add (by rwa [abs_of_nonneg (by omega)]) (h.nonneg (by omega) hover))
  split_ifs <;> omega

/-- Above the limit it does not raise it. -/
theorem newCycleIn_above (h : Order N fl) (hr : Readings util oldCycle cur last) (hold : oldCycle ≤ N)
    (hlt : limit < util) : newCycleIn fl util limit oldCycle cur last ≤ oldCycle := by
  have hone := hr.oldCycle
  have hN : 1 ≤ N := by omega
  have hdelta := delta_nonneg_in h hN hr (limit - util)
  have hover := overload_nonneg_in h hN hr
  have herr : ¬ limit - util > 0 := by omega
  have hsign : fl (-1) = -1 := by exact_mod_cast h.intCast (-1) (by rwa [abs_neg, abs_one])
  have hbudget : fl oldCycle = oldCycle := h.intCast oldCycle (by rwa [abs_of_nonneg (by omega)])
  simp only [newCycleIn, if_neg herr, hsign, Int.cast_neg, Int.cast_one, mul_neg, mul_one, hbudget,
    if_neg (not_lt.mpr hdelta)]
  have hreplaced :
      trunc (fl (oldCycle + fl (-fl (fl last * fl (fl (|cur - last| : ℤ) / fl ((last + 1 : ℤ) : ℚ)))))) ≤ oldCycle :=
    trunc_le (h.add_le (by rwa [abs_of_nonneg (by omega)]) (h.nonpos (by omega) (neg_nonpos.mpr hover)))
  split_ifs <;> omega

/-- Without an error the step is 0, which no ratio of the averages is below. -/
theorem newCycleIn_equal (h : Order N fl) (hN : 1 ≤ N) (hr : Readings util oldCycle cur last) :
    newCycleIn fl util util oldCycle cur last = oldCycle := by
  have hold := hr.oldCycle
  have hratio := not_lt.mpr (ratio_nonneg_in h hN hr)
  have hzero : fl ((0 : ℤ) : ℚ) = (0 : ℤ) := h.intCast 0 (by rw [abs_zero]; omega)
  rw [Int.cast_zero] at hzero
  have htrunc : trunc 0 = 0 := trunc_intCast 0
  simp only [newCycleIn, sub_self, abs_zero, Int.cast_zero, hzero, zero_div, htrunc, lt_irrefl, if_false, zero_mul,
    add_zero, gt_iff_lt, hratio, and_false]
  omega

end

/-! ## Restarts -/

theorem one_le_scaledCycleIn (fl : ℚ → ℚ) (addPerCycle coreLimit limit : ℤ) :
    1 ≤ scaledCycleIn fl addPerCycle coreLimit limit := by
  unfold scaledCycleIn
  dsimp only
  omega

theorem trunc_le_of_lt {x : ℚ} {n : ℤ} (hx : 0 ≤ x) (h : x < n + 1) : trunc x ≤ n := by
  rw [trunc, if_neg (not_lt.mpr hx)]
  exact Int.lt_add_one_iff.mp (Int.floor_lt.mpr (by exact_mod_cast h))

theorem single_half {n : ℤ} (h : |n| < 2 ^ 24) : single (n / 2) = n / 2 := by
  have hround := round_eq (p := 24) (e := -1) h (by norm_num : (-149 : ℤ) ≤ -1)
  rw [zpow_neg_one, ← div_eq_mul_inv] at hround
  exact hround

/-- The quotient of the product is off by less than half a token. -/
theorem single_quotient {add : ℤ} {limit : ℚ} (hadd : 1 ≤ add) (hlt : add < 2 ^ 23) (hlimit : 1 ≤ |limit|) :
    |single (add * limit) / limit - add| ≤ 1 / 2 := by
  have hadd' : (1 : ℚ) ≤ add := by exact_mod_cast hadd
  have hlt' : (add : ℚ) < 2 ^ 23 := by exact_mod_cast hlt
  have hpos : (0 : ℚ) < |limit| := by linarith
  have habs : |(add : ℚ) * limit| = add * |limit| := by
    rw [abs_mul, abs_of_pos (by linarith)]
  have hprod : (1 : ℚ) ≤ add * |limit| := one_le_mul_of_one_le_of_one_le hadd' hlimit
  have hbig : (2 : ℚ) ^ ((-149 : ℤ) + ((24 : ℕ) - 1)) ≤ |(add : ℚ) * limit| := by
    rw [habs]
    exact (zpow_le_one_of_nonpos₀ (by norm_num) (by norm_num)).trans hprod
  have herr := abs_round_sub_le hbig
  rw [habs] at herr
  have hne : limit ≠ 0 := abs_pos.mp hpos
  have hsub : single (add * limit) / limit - add = (single (add * limit) - add * limit) / limit := by
    field_simp
  rw [hsub, abs_div, div_le_iff₀ hpos]
  have hhalf : (add : ℚ) * |limit| / 2 ^ 24 ≤ 1 / 2 * |limit| := by
    rw [div_le_iff₀ (by norm_num)]
    nlinarith
  exact herr.trans hhalf

theorem trunc_scaled {add : ℤ} {limit : ℚ} (hadd : 1 ≤ add) (hlt : add < 2 ^ 23) (hlimit : 1 ≤ |limit|) :
    add - 1 ≤ trunc (single (single (add * limit) / limit)) ∧
      trunc (single (single (add * limit) / limit)) ≤ add := by
  have hquot := abs_le.mp (single_quotient hadd hlt hlimit)
  have hlow : (((2 * add - 1 : ℤ) : ℚ) / 2) ≤ single (single (add * limit) / limit) := by
    rw [← single_half (abs_lt.mpr ⟨by omega, by omega⟩)]
    refine single_order.mono ?_
    push_cast
    linarith [hquot.1]
  have hhigh : single (single (add * limit) / limit) ≤ ((2 * add + 1 : ℤ) : ℚ) / 2 := by
    rw [← single_half (abs_lt.mpr ⟨by omega, by omega⟩)]
    refine single_order.mono ?_
    push_cast
    linarith [hquot.2]
  have hadd' : (1 : ℚ) ≤ add := by exact_mod_cast hadd
  push_cast at hlow hhigh
  exact ⟨le_trunc (by push_cast; linarith), trunc_le_of_lt (by linarith) (by linarith)⟩

theorem scaledCycleIn_single {add limit : ℤ} (hadd : 1 ≤ add) (hlt : add < 2 ^ 23) (hlimit : 1 ≤ limit)
    (hle : limit ≤ 2 ^ 24) :
    add - 1 ≤ scaledCycleIn single add limit limit ∧ scaledCycleIn single add limit limit ≤ add ∧
      (add * limit ≤ 2 ^ 24 → scaledCycleIn single add limit limit = add) := by
  have hfladd : single add = add := single_order.intCast add (by rw [abs_of_nonneg (by omega)]; omega)
  have hfllimit : single limit = limit := single_order.intCast limit (by rw [abs_of_nonneg (by omega)]; exact hle)
  have habs : (1 : ℚ) ≤ |(limit : ℚ)| := by exact_mod_cast (by rw [abs_of_nonneg (by omega)]; exact hlimit : 1 ≤ |limit|)
  obtain ⟨hgle, hleg⟩ := trunc_scaled hadd hlt habs
  unfold scaledCycleIn
  rw [hfladd, hfllimit]
  dsimp only
  refine ⟨by omega, by omega, ?_⟩
  intro hprod
  have hexact : single ((add * limit : ℤ) : ℚ) = ((add * limit : ℤ) : ℚ) :=
    single_order.intCast _ (by rw [abs_of_nonneg (by positivity)]; exact hprod)
  have hne : (limit : ℚ) ≠ 0 := by exact_mod_cast (by omega : limit ≠ 0)
  rw [Int.cast_mul] at hexact
  rw [hexact, mul_div_assoc, div_self hne, mul_one, hfladd, trunc_intCast]
  omega

def restartsIn (fl : ℚ → ℚ) (limits : List ℤ) (s : Attr) : Attr :=
  limits.foldl (fun s limit => initAttrIn fl limit s) s

/-- A restart keeps the budget, or takes one token of it. -/
theorem initAttrIn_single {s : Attr} (h : Initialised s) (hlt : s.addPerCycle < 2 ^ 23) {limit : ℤ}
    (hlimit : 1 ≤ limit) (hle : limit ≤ 2 ^ 24) :
    Initialised (initAttrIn single limit s) ∧ s.addPerCycle - 1 ≤ (initAttrIn single limit s).addPerCycle ∧
      (initAttrIn single limit s).addPerCycle ≤ s.addPerCycle ∧
      (s.addPerCycle * limit ≤ 2 ^ 24 → (initAttrIn single limit s).addPerCycle = s.addPerCycle) := by
  by_cases heq : s.coreLimit = limit
  · have hcore : (initAttrIn single limit s).coreLimit = limit := by simp [initAttrIn, h.inited, heq]
    have hinited : (initAttrIn single limit s).inited = s.inited := by simp [initAttrIn, h.inited, heq]
    have hadd : (initAttrIn single limit s).addPerCycle = s.addPerCycle := by simp [initAttrIn, h.inited, heq]
    refine ⟨⟨by rw [hinited]; exact h.inited, by rw [hcore]; exact hlimit, by rw [hadd]; exact h.budget⟩, ?_, ?_, ?_⟩
    · omega
    · omega
    · exact fun _ => hadd
  · have hcore : (initAttrIn single limit s).coreLimit = limit := by simp [initAttrIn, h.inited, heq]
    have hinited : (initAttrIn single limit s).inited = s.inited := by simp [initAttrIn, h.inited, heq]
    have hadd : (initAttrIn single limit s).addPerCycle = scaledCycleIn single s.addPerCycle limit limit := by
      simp [initAttrIn, h.inited, heq]
    obtain ⟨hlow, hhigh, hexact⟩ := scaledCycleIn_single h.budget hlt hlimit hle
    have hone := one_le_scaledCycleIn single s.addPerCycle limit limit
    rw [hadd]
    exact ⟨⟨by rw [hinited]; exact h.inited, by rw [hcore]; exact hlimit, by rw [hadd]; exact hone⟩, hlow, hhigh,
      hexact⟩

/-- Over any restarts of the monitor the budget never rises, loses one token for each
    restart at most, and none while its products with the limits are `float`s. -/
theorem floats_restarts {limits : List ℤ} (hpos : ∀ limit ∈ limits, 1 ≤ limit ∧ limit ≤ 2 ^ 24) {s : Attr}
    (h : Initialised s) (hlt : s.addPerCycle < 2 ^ 23) :
    s.addPerCycle - limits.length ≤ (restartsIn single limits s).addPerCycle ∧
      1 ≤ (restartsIn single limits s).addPerCycle ∧ (restartsIn single limits s).addPerCycle ≤ s.addPerCycle ∧
      ((∀ limit ∈ limits, s.addPerCycle * limit ≤ 2 ^ 24) →
        (restartsIn single limits s).addPerCycle = s.addPerCycle) := by
  induction limits generalizing s with
  | nil => exact ⟨by simp [restartsIn], h.budget, le_refl _, fun _ => rfl⟩
  | cons limit rest ih =>
    obtain ⟨hlimit, hle⟩ := hpos limit List.mem_cons_self
    obtain ⟨hinit, hlow, hhigh, hexact⟩ := initAttrIn_single h hlt hlimit hle
    obtain ⟨hlow', hone, hhigh', hexact'⟩ := ih (fun l hl => hpos l (List.mem_cons_of_mem _ hl)) hinit (by omega)
    have hrun : restartsIn single (limit :: rest) s = restartsIn single rest (initAttrIn single limit s) := rfl
    rw [hrun, List.length_cons]
    push_cast
    refine ⟨by omega, hone, by omega, ?_⟩
    intro hall
    have hsame := hexact (hall limit List.mem_cons_self)
    rw [hsame] at hexact'
    exact hexact' fun l hl => hall l (List.mem_cons_of_mem _ hl)

/-- A budget of 4 is kept. -/
theorem floats_restarts_run : (restartsIn single [20, 10, 30] (warm 3)).addPerCycle = 4 :=
  (floats_restarts (by decide) (reach_initialised warm_three) (by decide)).2.2.2 (by decide)

/-- A product that is no `float`: a limit of 99 takes a token of 169475. -/
theorem restart_takes_one : scaledCycleIn single 169475 99 99 = 169474 := by decide +kernel

end NvResourceController.Monitor
