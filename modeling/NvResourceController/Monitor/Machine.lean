/-
  NvResourceController.Monitor.Machine — `init_attr` and `delta_change`
  (`src/server_monitor.c`) on the machine's `int`s, which have 32 bits and wrap around.
  The rounding of a `float` is a parameter; `id` is none. An average that is still 0
  divides to infinity in floats and to 0 here, and either way the step it is for comes
  out 0.

  - `newCycle_toInt`: where every `int` of an adjustment is in range it is the one of
    `Monitor.Floats`, whose integers have no bound (`newCycle_exact`: and without
    rounding the one of `Monitor.Attr`).
  - `feedback`: without rounding, the budget is always at least 1, and past the warm-up a
    call whose `int`s are in range does not move it against the error. One whose sum is
    not can (`sum_wraps`).
  - `floats_feedback`: so it is with rounding, whatever its direction, as long as the
    budget is a `float`. From 2^24 on it need not be (`odd_budget_falls`).
-/

import NvResourceController.Monitor.Container
import NvResourceController.Monitor.Floats
import NvResourceController.Monitor.Overload

namespace NvResourceController.Monitor.Machine

open Limiter System Rounding

/-- From a `float` to an `int`. -/
def ofFloat (x : ℚ) : Int32 := Int32.ofInt (trunc x)

/-- The budget of `init_attr` for a new limit. -/
def scaledCycle (fl : ℚ → ℚ) (addPerCycle coreLimit limit : Int32) : Int32 :=
  let newCycle := ofFloat (fl (fl (fl addPerCycle.toInt * fl coreLimit.toInt) / fl limit.toInt))
  if newCycle > 1 then newCycle else 1

/-- The budget of `delta_change` past the warm-up. -/
def newCycle (fl : ℚ → ℚ) (util limit oldCycle curAvgLaunchs lastAvgLaunchs : Int32) : Int32 :=
  let utilPerKernel := fl (fl util.toInt / fl curAvgLaunchs.toInt)
  let err := limit - util
  let cycleSigned : Int32 := if err > 0 then 1 else -1
  let deltaCycle := ofFloat (fl (fl (fl err.abs.toInt / utilPerKernel) / 4))
  let deltaCycle := if deltaCycle < 0 then 1 else deltaCycle
  let newCycle := oldCycle + deltaCycle * cycleSigned
  let avgDeltaRatio := fl (fl (curAvgLaunchs - lastAvgLaunchs).abs.toInt / fl (lastAvgLaunchs + 1).toInt)
  let cycleDeltaRatio := fl (fl (newCycle - oldCycle).abs.toInt / fl oldCycle.toInt)
  -- overload
  let newCycle :=
    if curAvgLaunchs ≠ lastAvgLaunchs ∧ cycleDeltaRatio > avgDeltaRatio then
      ofFloat (fl (fl oldCycle.toInt + fl (fl (fl lastAvgLaunchs.toInt * avgDeltaRatio) * fl cycleSigned.toInt)))
    else newCycle
  if newCycle < 1 then 1 else newCycle

def initAttr (fl : ℚ → ℚ) (limit : Int32) (attr : TokenAttr) : TokenAttr :=
  let attr :=
    if attr.inited = 0 then
      { attr with
        params := { attr.params with
          coreLimit := limit
          modTimes := 0
          addPerCycle := 1
          avgLaunchs := Function.update (Function.update attr.params.avgLaunchs 0 0) 1 0
          launchIdx := 0 }
        waitTime := ⟨0, Int64.ofNat (defaultWaitDurationMillsec * 1000 * 1000)⟩
        inited := 1
        ready := (semPost attr.ready).2 }
    else attr
  let attr :=
    if attr.params.coreLimit ≠ limit then
      let params := { attr.params with coreLimit := limit, modTimes := 0 }
      { attr with
        params := { params with addPerCycle := scaledCycle fl params.addPerCycle params.coreLimit limit } }
    else attr
  { attr with changed := 1 }

def deltaChange (fl : ℚ → ℚ) (util limit : Int32) (attr : TokenAttr) : TokenAttr :=
  if attr.changed ≠ 0 then attr
  else
    let idx := attr.params.launchIdx
    let curAvgLaunchs := attr.params.avgLaunchs (idx % 2)
    let lastAvgLaunchs := attr.params.avgLaunchs ((idx + 1) % 2)
    let oldCycle := attr.params.addPerCycle
    let params := { attr.params with modTimes := attr.params.modTimes + 1 }
    if params.modTimes.toInt ≤ sampleTicks then
      if oldCycle.toInt ≤ minSampleUtil then
        { attr with params := { params with addPerCycle := oldCycle + 1 }, changed := 1 }
      else { attr with params := params }
    else if params.modTimes.toInt % sampleTicks = 0 then
      { attr with
        params := { params with addPerCycle := newCycle fl util limit oldCycle curAvgLaunchs lastAvgLaunchs }
        changed := 1 }
    else { attr with params := params }

/-! ## The integers of an adjustment -/

def InInt (z : ℤ) : Prop := -2 ^ 31 ≤ z ∧ z < 2 ^ 31

instance : DecidablePred InInt := fun _ => inferInstanceAs (Decidable (_ ∧ _))

/-- The launches the error stands for. -/
def launches (fl : ℚ → ℚ) (util limit cur : ℤ) : ℚ := fl (fl (|limit - util| : ℤ) / fl (fl util / fl cur))

/-- `delta_cycle` as it is converted, before it is made positive. -/
def deltaCycle (fl : ℚ → ℚ) (util limit cur : ℤ) : ℤ := trunc (fl (launches fl util limit cur / 4))

def cycleSigned (util limit : ℤ) : ℤ := if limit - util > 0 then 1 else -1

/-- `new_cycle`, as it is first computed. -/
def firstCycle (fl : ℚ → ℚ) (util limit oldCycle cur : ℤ) : ℤ :=
  oldCycle + (if deltaCycle fl util limit cur < 0 then 1 else deltaCycle fl util limit cur) * cycleSigned util limit

def ratio (fl : ℚ → ℚ) (cur last : ℤ) : ℚ := fl (fl (|cur - last| : ℤ) / fl ((last + 1 : ℤ) : ℚ))

/-- What an overload replaces it by, before it is converted. -/
def replaced (fl : ℚ → ℚ) (util limit oldCycle cur last : ℤ) : ℚ :=
  fl (fl oldCycle + fl (fl (fl last * ratio fl cur last) * fl (cycleSigned util limit)))

def Overloads (fl : ℚ → ℚ) (util limit oldCycle cur last : ℤ) : Prop :=
  cur ≠ last ∧ fl (fl (|firstCycle fl util limit oldCycle cur - oldCycle| : ℤ) / fl oldCycle) > ratio fl cur last

instance (fl : ℚ → ℚ) (util limit oldCycle cur last : ℤ) : Decidable (Overloads fl util limit oldCycle cur last) :=
  inferInstanceAs (Decidable (_ ∧ _))

/-- The `int`s are in range. -/
structure Fits (fl : ℚ → ℚ) (util limit oldCycle cur last : ℤ) : Prop where
  err : InInt (limit - util)
  absErr : InInt |limit - util|
  delta : InInt (deltaCycle fl util limit cur)
  first : InInt (firstCycle fl util limit oldCycle cur)
  averages : InInt |cur - last|
  succ : InInt (last + 1)
  replaced : Overloads fl util limit oldCycle cur last → InInt (trunc (replaced fl util limit oldCycle cur last))

theorem newCycleIn_eq (fl : ℚ → ℚ) (util limit oldCycle cur last : ℤ) :
    newCycleIn fl util limit oldCycle cur last =
      max 1 (if Overloads fl util limit oldCycle cur last then trunc (replaced fl util limit oldCycle cur last)
        else firstCycle fl util limit oldCycle cur) := by
  have hclamp : ∀ z : ℤ, (if z < 1 then 1 else z) = max 1 z := by
    intro z
    omega
  rw [← hclamp]
  rfl

/-! ### Words -/

section

variable {a b : Int32}

theorem add_toInt (h : InInt (a.toInt + b.toInt)) : (a + b).toInt = a.toInt + b.toInt := by
  obtain ⟨hlow, hhigh⟩ := h
  rw [Int32.toInt_add, Int.bmod_eq_of_le (by omega) (by omega)]

theorem sub_toInt (h : InInt (a.toInt - b.toInt)) : (a - b).toInt = a.toInt - b.toInt := by
  obtain ⟨hlow, hhigh⟩ := h
  rw [Int32.toInt_sub, Int.bmod_eq_of_le (by omega) (by omega)]

theorem mul_toInt (h : InInt (a.toInt * b.toInt)) : (a * b).toInt = a.toInt * b.toInt := by
  obtain ⟨hlow, hhigh⟩ := h
  rw [Int32.toInt_mul, Int.bmod_eq_of_le (by omega) (by omega)]

/-- The least `int` has no absolute value. -/
theorem abs_toInt (h : InInt |a.toInt|) : a.abs.toInt = |a.toInt| := by
  show a.toBitVec.abs.toInt = _
  rw [BitVec.toInt_abs_eq_natAbs_of_ne_intMin]
  · exact Int.natCast_natAbs _
  · intro hmin
    have hleast : a = Int32.minValue := Int32.toBitVec_inj.mp hmin
    rw [hleast] at h
    exact absurd h (by decide)

theorem absDiff_toInt (h : InInt |a.toInt - b.toInt|) : (a - b).abs.toInt = |a.toInt - b.toInt| := by
  have hdiff : (a - b).toInt = a.toInt - b.toInt := by
    have hlt := abs_lt.mp h.2
    exact sub_toInt ⟨by omega, hlt.2⟩
  rw [← hdiff]
  exact abs_toInt (by rwa [hdiff])

theorem ofFloat_toInt {x : ℚ} (h : InInt (trunc x)) : (ofFloat x).toInt = trunc x :=
  Int32.toInt_ofInt_of_le h.1 h.2

theorem ite_toInt (p : Prop) [Decidable p] (a b : Int32) :
    (if p then a else b).toInt = if p then a.toInt else b.toInt := by
  split <;> rfl

theorem clamp_toInt (a : Int32) : (if a < 1 then 1 else a).toInt = max 1 a.toInt := by
  have hlt : a < 1 ↔ a.toInt < 1 := Int32.lt_iff_toInt_lt
  rw [ite_toInt, Int32.toInt_one, if_congr hlt rfl rfl]
  omega

end

theorem cycleSigned_toInt {util limit : Int32} (h : InInt (limit.toInt - util.toInt)) :
    (if limit - util > 0 then 1 else -1 : Int32).toInt = cycleSigned util.toInt limit.toInt := by
  have hpos : limit - util > 0 ↔ limit.toInt - util.toInt > 0 := by
    rw [gt_iff_lt, Int32.lt_iff_toInt_lt, sub_toInt h, Int32.toInt_zero]
  rw [ite_toInt, cycleSigned, if_congr hpos rfl rfl]
  rfl

theorem one_of_neg_toInt {d : Int32} {z : ℤ} (h : d.toInt = z) :
    (if d < 0 then 1 else d).toInt = if z < 0 then 1 else z := by
  have hneg : d < 0 ↔ z < 0 := by
    rw [Int32.lt_iff_toInt_lt, h, Int32.toInt_zero]
  rw [ite_toInt, Int32.toInt_one, if_congr hneg rfl rfl, h]

theorem mul_cycleSigned {util limit z : ℤ} (hlow : 0 ≤ z) (hhigh : z < 2 ^ 31) :
    InInt (z * cycleSigned util limit) ∧ InInt |z * cycleSigned util limit| := by
  unfold cycleSigned
  split
  · rw [mul_one, abs_of_nonneg hlow]
    exact ⟨⟨by omega, hhigh⟩, by omega, hhigh⟩
  · rw [mul_neg_one, abs_neg, abs_of_nonneg hlow]
    exact ⟨⟨by omega, by omega⟩, by omega, hhigh⟩

theorem Fits.step {fl : ℚ → ℚ} {util limit oldCycle cur last : ℤ} (h : Fits fl util limit oldCycle cur last) :
    InInt ((if deltaCycle fl util limit cur < 0 then 1 else deltaCycle fl util limit cur) * cycleSigned util limit) ∧
      InInt |firstCycle fl util limit oldCycle cur - oldCycle| := by
  have hhigh := h.delta.2
  rw [firstCycle, add_sub_cancel_left]
  refine mul_cycleSigned ?_ ?_
  · split <;> omega
  · split <;> omega

/-- Where the `int`s are in range none wraps around. -/
theorem newCycle_toInt {fl : ℚ → ℚ} {util limit oldCycle cur last : Int32}
    (h : Fits fl util.toInt limit.toInt oldCycle.toInt cur.toInt last.toInt) :
    (newCycle fl util limit oldCycle cur last).toInt =
      newCycleIn fl util.toInt limit.toInt oldCycle.toInt cur.toInt last.toInt := by
  have habs := absDiff_toInt h.absErr
  have havg := absDiff_toInt h.averages
  have hsucc : (last + 1).toInt = last.toInt + 1 := add_toInt h.succ
  have hsign := cycleSigned_toInt h.err
  obtain ⟨hstep, hchange⟩ := h.step
  generalize hd : ofFloat (fl (fl (fl (limit - util).abs.toInt / fl (fl util.toInt / fl cur.toInt)) / 4)) = d
  have hdelta : (if d < 0 then 1 else d).toInt = if deltaCycle fl util.toInt limit.toInt cur.toInt < 0 then 1
      else deltaCycle fl util.toInt limit.toInt cur.toInt := by
    refine one_of_neg_toInt ?_
    rw [← hd, habs]
    exact ofFloat_toInt h.delta
  generalize hn : oldCycle + (if d < 0 then 1 else d) * (if limit - util > 0 then 1 else -1) = n
  have hfirst : n.toInt = firstCycle fl util.toInt limit.toInt oldCycle.toInt cur.toInt := by
    have hprod : ((if d < 0 then 1 else d) * (if limit - util > 0 then 1 else -1)).toInt = _ :=
      mul_toInt (by rw [hdelta, hsign]; exact hstep)
    have hsum := h.first
    rw [firstCycle, ← hdelta, ← hsign, ← hprod] at hsum ⊢
    rw [← hn]
    exact add_toInt hsum
  have hover : (cur ≠ last ∧ fl (fl (n - oldCycle).abs.toInt / fl oldCycle.toInt) >
      fl (fl (cur - last).abs.toInt / fl (last + 1).toInt)) ↔
      Overloads fl util.toInt limit.toInt oldCycle.toInt cur.toInt last.toInt := by
    rw [← hfirst] at hchange
    rw [Overloads, ratio, ← hfirst, absDiff_toInt hchange, havg, hsucc, ne_eq, ne_eq, Int32.toInt_inj]
  unfold newCycle
  dsimp only
  rw [newCycleIn_eq, clamp_toInt, hd, hn, ite_toInt, hfirst, if_congr hover rfl rfl]
  by_cases ho : Overloads fl util.toInt limit.toInt oldCycle.toInt cur.toInt last.toInt
  · rw [if_pos ho, if_pos ho, havg, hsucc, hsign]
    exact congrArg (max 1) (ofFloat_toInt (h.replaced ho))
  · rw [if_neg ho, if_neg ho]

/-- Without rounding it is the one in exact arithmetic. -/
theorem newCycle_exact {util limit oldCycle cur last : Int32}
    (h : Fits id util.toInt limit.toInt oldCycle.toInt cur.toInt last.toInt) :
    (newCycle id util limit oldCycle cur last).toInt =
      Monitor.newCycle id util.toInt limit.toInt oldCycle.toInt cur.toInt last.toInt := by
  rw [newCycle_toInt h, newCycleIn_id]

/-! ### Without rounding -/

/-- The readings and budgets for which the `int`s are in range. -/
structure NoOverflow (util limit oldCycle cur last : ℤ) : Prop where
  err : -2 ^ 31 < limit - util
  succ : last + 1 < 2 ^ 31
  below : util < limit → |limit - util| * cur < 4 * util * (2 ^ 31 - oldCycle)
  raised : util < limit → Overload util limit oldCycle cur last → oldCycle + raise cur last < 2 ^ 31
  above : limit < util → |limit - util| * cur < 4 * util * 2 ^ 31

section

variable {util limit oldCycle cur last : ℤ}

theorem deltaCycle_id (hutil : 1 ≤ util) (hcur : 0 ≤ cur) (limit : ℤ) :
    deltaCycle id util limit cur = stepSize util limit cur := trunc_delta hutil hcur limit

theorem firstCycle_id (hutil : 1 ≤ util) (hcur : 0 ≤ cur) (limit oldCycle : ℤ) :
    firstCycle id util limit oldCycle cur = oldCycle + stepSize util limit cur * cycleSigned util limit := by
  have hstep := stepSize_nonneg hutil hcur limit
  rw [firstCycle, deltaCycle_id hutil hcur, if_neg (not_lt.mpr hstep)]

theorem overloads_id (hr : Readings util oldCycle cur last) (limit : ℤ) :
    Overloads id util limit oldCycle cur last ↔ Overload util limit oldCycle cur last := by
  have hstep := stepSize_nonneg hr.util hr.cur limit
  have hchange : |stepSize util limit cur * cycleSigned util limit| = stepSize util limit cur := by
    unfold cycleSigned
    split
    · rw [mul_one, abs_of_nonneg hstep]
    · rw [mul_neg_one, abs_neg, abs_of_nonneg hstep]
  rw [← overload_iff hr.util hr.oldCycle hr.last, Overloads, firstCycle_id hr.util hr.cur, add_sub_cancel_left, hchange]
  rfl

theorem replaced_id (util limit oldCycle cur last : ℤ) :
    replaced id util limit oldCycle cur last = oldCycle + last * avgDeltaRatio cur last * cycleSigned util limit := rfl

theorem trunc_replaced_below (hr : Readings util oldCycle cur last) (hlt : util < limit) :
    trunc (replaced id util limit oldCycle cur last) = oldCycle + raise cur last := by
  have hold := hr.oldCycle
  have hraise := raise_nonneg cur hr.last
  have hfloor := floor_raise oldCycle cur hr.last
  have hnonneg : ¬ (oldCycle : ℚ) + last * avgDeltaRatio cur last * 1 < 0 := by
    intro hneg
    have := Int.floor_le_floor hneg.le
    rw [hfloor, Int.floor_zero] at this
    omega
  rw [replaced_id, cycleSigned, if_pos (by omega), Int.cast_one, trunc, if_neg hnonneg, hfloor]

theorem trunc_replaced_above (hr : Readings util oldCycle cur last) (hle : limit ≤ util) :
    oldCycle - |cur - last| ≤ trunc (replaced id util limit oldCycle cur last) ∧
      trunc (replaced id util limit oldCycle cur last) ≤ oldCycle := by
  have hlast := hr.last
  have hnonneg := hr.overload_nonneg
  have hlast' : (0 : ℚ) < ((last + 1 : ℤ) : ℚ) := by exact_mod_cast (by omega : (0 : ℤ) < last + 1)
  have hprod : (last : ℚ) * avgDeltaRatio cur last ≤ (|cur - last| : ℤ) := by
    rw [mul_avgDeltaRatio, div_le_iff₀ hlast']
    exact_mod_cast (by rw [mul_comm]; exact mul_le_mul_of_nonneg_left (by omega) (abs_nonneg _))
  rw [replaced_id, cycleSigned, if_neg (by omega), Int.cast_neg, Int.cast_one, mul_neg_one]
  refine ⟨le_trunc ?_, trunc_le ?_⟩
  · push_cast at hprod ⊢
    linarith
  · rw [avgDeltaRatio]
    linarith

end

section

variable {util limit oldCycle cur last : Int32}

theorem fits_id_below (hr : Readings util.toInt oldCycle.toInt cur.toInt last.toInt)
    (hlt : util.toInt < limit.toInt) :
    Fits id util.toInt limit.toInt oldCycle.toInt cur.toInt last.toInt ↔
      NoOverflow util.toInt limit.toInt oldCycle.toInt cur.toInt last.toInt := by
  obtain ⟨hutil, hold, hcur, hlast⟩ := hr
  have hr : Readings util.toInt oldCycle.toInt cur.toInt last.toInt := ⟨hutil, hold, hcur, hlast⟩
  have hlimit := limit.toInt_lt
  have hcur' := cur.toInt_lt
  have hlast' := last.toInt_lt
  have hraise := raise_nonneg cur.toInt hlast
  have hstep := stepSize_nonneg hutil hcur limit.toInt
  have hdelta := deltaCycle_id hutil hcur limit.toInt
  have hfirst := firstCycle_id hutil hcur limit.toInt oldCycle.toInt
  have hsign : cycleSigned util.toInt limit.toInt = 1 := if_pos (by omega)
  rw [hsign, mul_one] at hfirst
  have hover := overloads_id hr limit.toInt
  have hreplaced := trunc_replaced_below hr hlt
  have hfits := stepSize_lt_iff hutil limit.toInt cur.toInt (2 ^ 31 - oldCycle.toInt)
  constructor
  · intro h
    have hsum := h.first.2
    rw [hfirst] at hsum
    refine ⟨by omega, h.succ.2, fun _ => hfits.mp (by omega), ?_, fun hgt => absurd hgt hlt.not_gt⟩
    intro _ ho
    have hrange := h.replaced (hover.mpr ho)
    rw [hreplaced] at hrange
    exact hrange.2
  · intro h
    have hsmall := hfits.mpr (h.below hlt)
    refine ⟨⟨by omega, by omega⟩, ?_, ?_, ?_, ?_, ⟨by omega, h.succ⟩, ?_⟩
    · rw [abs_of_nonneg (by omega)]
      exact ⟨by omega, by omega⟩
    · rw [hdelta]
      exact ⟨by omega, by omega⟩
    · rw [hfirst]
      exact ⟨by omega, by omega⟩
    · have habs : |cur.toInt - last.toInt| < 2 ^ 31 := abs_lt.mpr ⟨by omega, by omega⟩
      exact ⟨by have := abs_nonneg (cur.toInt - last.toInt); omega, habs⟩
    · intro ho
      rw [hreplaced]
      exact ⟨by omega, h.raised hlt (hover.mp ho)⟩

theorem fits_id_above (hr : Readings util.toInt oldCycle.toInt cur.toInt last.toInt)
    (hle : limit.toInt ≤ util.toInt) :
    Fits id util.toInt limit.toInt oldCycle.toInt cur.toInt last.toInt ↔
      NoOverflow util.toInt limit.toInt oldCycle.toInt cur.toInt last.toInt := by
  obtain ⟨hutil, hold, hcur, hlast⟩ := hr
  have hr : Readings util.toInt oldCycle.toInt cur.toInt last.toInt := ⟨hutil, hold, hcur, hlast⟩
  have hutil' := util.toInt_lt
  have hold' := oldCycle.toInt_lt
  have hcur' := cur.toInt_lt
  have hlast' := last.toInt_lt
  have hstep := stepSize_nonneg hutil hcur limit.toInt
  have hdelta := deltaCycle_id hutil hcur limit.toInt
  have hfirst := firstCycle_id hutil hcur limit.toInt oldCycle.toInt
  have hsign : cycleSigned util.toInt limit.toInt = -1 := if_neg (by omega)
  rw [hsign, mul_neg_one] at hfirst
  have hfits := stepSize_lt_iff hutil limit.toInt cur.toInt (2 ^ 31)
  have habs : |limit.toInt - util.toInt| = util.toInt - limit.toInt := by
    rw [abs_of_nonpos (by omega), neg_sub]
  constructor
  · intro h
    have hrange := h.delta.2
    rw [hdelta] at hrange
    have herr := h.absErr.2
    rw [habs] at herr
    exact ⟨by omega, h.succ.2, fun h => absurd h hle.not_gt, fun h => absurd h hle.not_gt, fun _ => hfits.mp hrange⟩
  · intro h
    have herr := h.err
    have hsmall : stepSize util.toInt limit.toInt cur.toInt < 2 ^ 31 := by
      by_cases heq : util.toInt = limit.toInt
      · rw [stepSize, heq, sub_self, abs_zero, zero_mul, Int.zero_ediv]
        omega
      · exact hfits.mpr (h.above (by omega))
    have hdiff : |cur.toInt - last.toInt| < 2 ^ 31 := abs_lt.mpr ⟨by omega, by omega⟩
    refine ⟨⟨by omega, by omega⟩, ?_, ?_, ?_, ?_, ⟨by omega, h.succ⟩, ?_⟩
    · rw [habs]
      exact ⟨by omega, by omega⟩
    · rw [hdelta]
      exact ⟨by omega, hsmall⟩
    · rw [hfirst]
      exact ⟨by omega, by omega⟩
    · exact ⟨by have := abs_nonneg (cur.toInt - last.toInt); omega, hdiff⟩
    · intro _
      obtain ⟨hlow, hhigh⟩ := trunc_replaced_above hr hle
      exact ⟨by omega, by omega⟩

theorem fits_id_iff (hr : Readings util.toInt oldCycle.toInt cur.toInt last.toInt) :
    Fits id util.toInt limit.toInt oldCycle.toInt cur.toInt last.toInt ↔
      NoOverflow util.toInt limit.toInt oldCycle.toInt cur.toInt last.toInt := by
  by_cases hlt : util.toInt < limit.toInt
  · exact fits_id_below hr hlt
  · exact fits_id_above hr (not_lt.mp hlt)

end

/-! ## Runs -/

inductive Call where
  | init (limit : Int32)
  | delta (util limit : Int32)
  /-- A client clears the flag. -/
  | clear
  /-- A client publishes an average. -/
  | publish (idx avg : Int32)
  | index (launchIdx : Int32)

/-- Calls with positive limits, utilisations and averages, from `init_attr` on a segment
    of zeroes. -/
def loop (fl : ℚ → ℚ) : System TokenAttr Call where
  init s := ∃ limit : Int32, 0 < limit ∧ s = initAttr fl limit zeroedAttr
  step s
    | .init limit, s' => 0 < limit ∧ s' = initAttr fl limit s
    | .delta util limit, s' => 1 ≤ util.toInt ∧ s' = deltaChange fl util limit s
    | .clear, s' => s' = { s with changed := 0 }
    | .publish idx avg, s' => 0 < avg ∧
        s' = { s with params := { s.params with avgLaunchs := Function.update s.params.avgLaunchs idx avg } }
    | .index launchIdx, s' => s' = { s with params := { s.params with launchIdx := launchIdx } }

/-- The call is counted, and it adjusts the budget. -/
def Adjusts (s : TokenAttr) : Prop :=
  sampleTicks < (s.params.modTimes + 1).toInt ∧ (s.params.modTimes + 1).toInt % sampleTicks = 0

/-- So does the next one. -/
def Due (s : TokenAttr) : Prop := s.changed = 0 ∧ Adjusts s

/-- The budget moves the way of the error, or stays. -/
structure Follows (util limit before after : ℤ) : Prop where
  below : util < limit → before ≤ after
  above : limit < util → after ≤ before
  equal : util = limit → after = before

/-- What the calls keep. -/
structure Positive (s : TokenAttr) : Prop where
  budget : 1 ≤ s.params.addPerCycle.toInt
  averages : ∀ i, 0 ≤ (s.params.avgLaunchs i).toInt

theorem one_le_newCycle (fl : ℚ → ℚ) (util limit oldCycle cur last : Int32) :
    1 ≤ (newCycle fl util limit oldCycle cur last).toInt := by
  unfold newCycle
  dsimp only
  rw [clamp_toInt]
  exact le_max_left _ _

theorem one_le_scaledCycle (fl : ℚ → ℚ) (addPerCycle coreLimit limit : Int32) :
    1 ≤ (scaledCycle fl addPerCycle coreLimit limit).toInt := by
  unfold scaledCycle
  dsimp only
  split
  · rename_i hlt
    exact (Int32.lt_iff_toInt_lt.mp hlt).le
  · exact le_refl 1

theorem update_toInt_nonneg {f : Int32 → Int32} (h : ∀ i, 0 ≤ (f i).toInt) (idx : Int32) {v : Int32}
    (hv : 0 ≤ v.toInt) : ∀ i, 0 ≤ (Function.update f idx v i).toInt := by
  intro i
  by_cases hi : i = idx
  · rw [hi, Function.update_self]
    exact hv
  · rw [Function.update_of_ne hi]
    exact h i

section

variable {fl : ℚ → ℚ} {s : TokenAttr}

theorem initAttr_positive (limit : Int32) (hb : s.inited = 0 ∨ 1 ≤ s.params.addPerCycle.toInt)
    (ha : ∀ i, 0 ≤ (s.params.avgLaunchs i).toInt) : Positive (initAttr fl limit s) := by
  have hone := one_le_scaledCycle fl
  have hzero : 0 ≤ (0 : Int32).toInt := le_refl 0
  have hcleared := update_toInt_nonneg (update_toInt_nonneg ha 0 hzero) 1 hzero
  unfold initAttr
  dsimp only
  split_ifs with h1 h2 h2
  · exact ⟨hone _ _ _, hcleared⟩
  · exact ⟨le_refl 1, hcleared⟩
  · exact ⟨hone _ _ _, ha⟩
  · exact ⟨hb.resolve_left h1, ha⟩

/-- What a call does: nothing, but for its count; a step of the warm-up; a step after
    it. -/
theorem deltaChange_cases (fl : ℚ → ℚ) (util limit : Int32) (s : TokenAttr) :
    (deltaChange fl util limit s).params.avgLaunchs = s.params.avgLaunchs ∧
      ((deltaChange fl util limit s).params.addPerCycle = s.params.addPerCycle ∨
        ((deltaChange fl util limit s).params.modTimes.toInt ≤ sampleTicks ∧
          s.params.addPerCycle.toInt ≤ minSampleUtil ∧
          (deltaChange fl util limit s).params.addPerCycle = s.params.addPerCycle + 1) ∨
        (Due s ∧ (deltaChange fl util limit s).params.addPerCycle = newCycle fl util limit s.params.addPerCycle
          (s.params.avgLaunchs (s.params.launchIdx % 2)) (s.params.avgLaunchs ((s.params.launchIdx + 1) % 2)))) := by
  unfold deltaChange
  dsimp only
  split_ifs with h1 h2 h3 h3
  · exact ⟨rfl, Or.inl rfl⟩
  · exact ⟨rfl, Or.inr (Or.inl ⟨h2, h3, rfl⟩)⟩
  · exact ⟨rfl, Or.inl rfl⟩
  · exact ⟨rfl, Or.inr (Or.inr ⟨⟨not_not.mp h1, not_le.mp h2, h3⟩, rfl⟩)⟩
  · exact ⟨rfl, Or.inl rfl⟩

theorem deltaChange_positive (util limit : Int32) (h : Positive s) : Positive (deltaChange fl util limit s) := by
  obtain ⟨havg, hcases⟩ := deltaChange_cases fl util limit s
  refine ⟨?_, by rw [havg]; exact h.averages⟩
  rcases hcases with he | ⟨-, hlow, he⟩ | ⟨-, he⟩
  · rw [he]
    exact h.budget
  · rw [he]
    exact one_le_raised h.budget hlow
  · rw [he]
    exact one_le_newCycle _ _ _ _ _ _

theorem reach_positive (h : (loop fl).Reach s) : Positive s := by
  refine Reach.inv (I := Positive) ?_ ?_ h
  · intro s h0
    obtain ⟨limit, -, rfl⟩ := h0
    exact initAttr_positive limit (Or.inl rfl) fun _ => le_refl 0
  · intro s c s' hi hstep
    cases c with
    | init limit =>
      obtain ⟨-, rfl⟩ := hstep
      exact initAttr_positive limit (Or.inr hi.budget) hi.averages
    | delta util limit =>
      obtain ⟨-, rfl⟩ := hstep
      exact deltaChange_positive util limit hi
    | clear =>
      rw [show s' = _ from hstep]
      exact ⟨hi.budget, hi.averages⟩
    | publish idx avg =>
      obtain ⟨havg, rfl⟩ := hstep
      exact ⟨hi.budget, update_toInt_nonneg hi.averages idx (Int32.lt_iff_toInt_lt.mp havg).le⟩
    | index launchIdx =>
      rw [show s' = _ from hstep]
      exact ⟨hi.budget, hi.averages⟩

/-- Past the warm-up, whatever the direction of the rounding. -/
theorem Positive.follows {N : ℤ} (hp : Positive s) (hfl : Order N fl) (hN : s.params.addPerCycle.toInt ≤ N)
    {util limit : Int32} (hutil : 1 ≤ util.toInt)
    (hpast : sampleTicks < (deltaChange fl util limit s).params.modTimes.toInt)
    (hfits : Due s → Fits fl util.toInt limit.toInt s.params.addPerCycle.toInt
      (s.params.avgLaunchs (s.params.launchIdx % 2)).toInt
      (s.params.avgLaunchs ((s.params.launchIdx + 1) % 2)).toInt) :
    Follows util.toInt limit.toInt s.params.addPerCycle.toInt
      (deltaChange fl util limit s).params.addPerCycle.toInt := by
  have hone := hp.budget
  have hr : Readings util.toInt s.params.addPerCycle.toInt (s.params.avgLaunchs (s.params.launchIdx % 2)).toInt
      (s.params.avgLaunchs ((s.params.launchIdx + 1) % 2)).toInt :=
    ⟨hutil, hone, hp.averages _, hp.averages _⟩
  rcases (deltaChange_cases fl util limit s).2 with he | ⟨hwarm, -, -⟩ | ⟨hdue, he⟩
  · rw [he]
    exact ⟨fun _ => le_refl _, fun _ => le_refl _, fun _ => rfl⟩
  · omega
  · rw [he, newCycle_toInt (hfits hdue)]
    refine ⟨newCycleIn_below hfl hr hN, newCycleIn_above hfl hr hN, ?_⟩
    intro heq
    rw [← heq]
    exact newCycleIn_equal hfl (by omega) hr

/-- Without rounding the budget is always at least 1, and past the warm-up a call whose
    `int`s are in range does not lower it below the limit, nor raise it above, and
    leaves it where utilisation and limit are equal. -/
theorem feedback (h : (loop id).Reach s) :
    1 ≤ s.params.addPerCycle.toInt ∧ ∀ util limit : Int32, 1 ≤ util.toInt →
      sampleTicks < (deltaChange id util limit s).params.modTimes.toInt →
      (Due s → NoOverflow util.toInt limit.toInt s.params.addPerCycle.toInt
        (s.params.avgLaunchs (s.params.launchIdx % 2)).toInt
        (s.params.avgLaunchs ((s.params.launchIdx + 1) % 2)).toInt) →
      Follows util.toInt limit.toInt s.params.addPerCycle.toInt
        (deltaChange id util limit s).params.addPerCycle.toInt := by
  have hp := reach_positive h
  refine ⟨hp.budget, ?_⟩
  intro util limit hutil hpast hok
  refine hp.follows (id_order _) (le_refl _) hutil hpast fun hdue => (fits_id_iff ?_).mpr (hok hdue)
  exact ⟨hutil, hp.budget, hp.averages _, hp.averages _⟩

/-- And with rounding, as long as the budget is a `float`. -/
theorem floats_feedback {N : ℤ} (hfl : Order N fl) (h : (loop fl).Reach s) :
    1 ≤ s.params.addPerCycle.toInt ∧ (s.params.addPerCycle.toInt ≤ N → ∀ util limit : Int32, 1 ≤ util.toInt →
      sampleTicks < (deltaChange fl util limit s).params.modTimes.toInt →
      (Due s → Fits fl util.toInt limit.toInt s.params.addPerCycle.toInt
        (s.params.avgLaunchs (s.params.launchIdx % 2)).toInt
        (s.params.avgLaunchs ((s.params.launchIdx + 1) % 2)).toInt) →
      Follows util.toInt limit.toInt s.params.addPerCycle.toInt
        (deltaChange fl util limit s).params.addPerCycle.toInt) :=
  ⟨(reach_positive h).budget, fun hN _ _ hutil hpast hfits =>
    (reach_positive h).follows hfl hN hutil hpast hfits⟩

end

/-! ### A limit of 100 -/

def warm (avg n : Int32) : TokenAttr :=
  { initAttr id 100 zeroedAttr with
    changed := 0
    params :=
      ⟨4, 100, n, Function.update (Function.update (initAttr id 100 zeroedAttr).params.avgLaunchs 0 avg) 1 avg, 0, 0⟩ }

theorem call {fl : ℚ → ℚ} {s s' : TokenAttr} (c : Call) (h : (loop fl).Reach s) (hc : (loop fl).step s c s') :
    (loop fl).Reach s' := h.step hc

theorem reach_raised {fl : ℚ → ℚ} {s : TokenAttr} (h : (loop fl).Reach s)
    (hcount : (s.params.modTimes + 1).toInt ≤ sampleTicks) (hlow : s.params.addPerCycle.toInt ≤ minSampleUtil) :
    (loop fl).Reach { s with
      changed := 1
      params := { s.params with
        modTimes := s.params.modTimes + 1
        addPerCycle := s.params.addPerCycle + 1 } } := by
  have h := call .clear h rfl
  have h := call (.delta 5 100) h ⟨by decide, rfl⟩
  simpa only [deltaChange, ne_eq, not_true_eq_false, if_false, if_pos hcount, if_pos hlow] using h

theorem warm_three (fl : ℚ → ℚ) {avg : Int32} (havg : 0 < avg) : (loop fl).Reach (warm avg 3) := by
  have hinit : initAttr fl 100 zeroedAttr = initAttr id 100 zeroedAttr := rfl
  have h : (loop fl).Reach (initAttr id 100 zeroedAttr) := .init ⟨100, by decide, hinit.symm⟩
  have h := reach_raised h (by decide) (by decide)
  have h := reach_raised h (by decide) (by decide)
  have h := reach_raised h (by decide) (by decide)
  have h := call .clear h rfl
  have h := call (.publish 0 avg) h ⟨havg, rfl⟩
  have h := call (.publish 1 avg) h ⟨havg, rfl⟩
  exact h

theorem warm_reached (fl : ℚ → ℚ) {avg : Int32} (havg : 0 < avg) (n : ℕ) (hn : n ≤ 96) :
    (loop fl).Reach (warm avg (Int32.ofInt (3 + n))) := by
  induction n with
  | zero => exact warm_three fl havg
  | succ n ih =>
    have hstep := call (.delta 5 100) (ih (by omega)) ⟨by decide, rfl⟩
    have hsucc : Int32.ofInt (3 + n) + 1 = Int32.ofInt (3 + (n + 1 : ℕ)) := by
      rw [← Int32.toInt_inj, Int32.toInt_add, Int32.toInt_one, Int32.toInt_ofInt_of_le (by omega) (by omega),
        Int32.toInt_ofInt_of_le (by omega) (by omega), Int.bmod_eq_of_le (by omega) (by omega)]
      omega
    have hcount : (Int32.ofInt (3 + (n + 1 : ℕ))).toInt = 3 + (n + 1 : ℕ) :=
      Int32.toInt_ofInt_of_le (by omega) (by omega)
    have hticks : sampleTicks = 50 := by decide
    have hsample : ¬ (4 : Int32).toInt ≤ minSampleUtil := by decide
    simp only [deltaChange, warm, ne_eq, not_true_eq_false, if_false, hsucc, hcount, hticks, hsample] at hstep
    split_ifs at hstep with h1 h2
    · exact hstep
    · omega
    · exact hstep

/-- The hundredth call, at half the limit, raises it to 14. -/
theorem feedback_run : ∃ s, (loop id).Reach s ∧ s.params.addPerCycle = 4 ∧
    (deltaChange id 50 100 s).params.addPerCycle = 14 ∧
    s.params.addPerCycle.toInt ≤ (deltaChange id 50 100 s).params.addPerCycle.toInt := by
  have h : (loop id).Reach (warm 40 99) := warm_reached id (by decide) 96 (by omega)
  refine ⟨_, h, rfl, by decide +kernel, ?_⟩
  exact ((feedback h).2 50 100 (by decide) (by decide) fun _ => ⟨by decide, by decide, fun _ => by decide,
    fun _ _ => by decide, fun _ => by decide⟩).below (by decide)

/-- With averages of 86767016 a reading of 1 asks for 2147483646 more tokens. Their sum
    with 4 is no `int`, and below the limit the budget falls to 1. -/
theorem sum_wraps : ∃ s, (loop id).Reach s ∧ Due s ∧ s.params.addPerCycle = 4 ∧
    (deltaChange id 1 100 s).params.addPerCycle = 1 ∧
    sampleTicks < (deltaChange id 1 100 s).params.modTimes.toInt ∧
    ¬ Follows (1 : Int32).toInt (100 : Int32).toInt s.params.addPerCycle.toInt
      (deltaChange id 1 100 s).params.addPerCycle.toInt := by
  have h : (loop id).Reach (warm 86767016 99) := warm_reached id (by decide) 96 (by omega)
  have hone : (deltaChange id 1 100 (warm 86767016 99)).params.addPerCycle = 1 := by decide +kernel
  refine ⟨_, h, ⟨rfl, by decide, by decide⟩, rfl, hone, by decide, ?_⟩
  intro hf
  have hle := hf.below (by decide)
  rw [hone] at hle
  exact absurd hle (by decide)

/-- With rounding to nearest the hundredth call raises the budget to 14 as well. -/
theorem floats_feedback_run : (deltaChange single 50 100 (warm 40 99)).params.addPerCycle = 14 ∧
    (warm 40 99).params.addPerCycle.toInt ≤ (deltaChange single 50 100 (warm 40 99)).params.addPerCycle.toInt := by
  have h : (loop single).Reach (warm 40 99) := warm_reached single (by decide) 96 (by omega)
  refine ⟨by decide +kernel, ((floats_feedback single_order h).2 (by decide) 50 100 (by decide) (by decide) fun _ => ?_).below
    (by decide)⟩
  exact ⟨by decide, by decide, by decide +kernel, by decide +kernel, by decide, by decide, by decide +kernel⟩

/-- An odd budget past 2^24, below the limit. -/
theorem odd_budget_falls : newCycle single 1 100 16777217 1001 1000 = 16777216 := by decide +kernel

end NvResourceController.Monitor.Machine
