/-
  NvResourceController.Monitor.Restart — restarts of the monitor with one limit after the
  other (`src/server_monitor.c`, `init_attr`), in the exact reading.

  The budget is to follow the limit; but `core_limit` is the new limit already when it is
  divided by it, so the ratio is 1.

  - `restarts_keep`: no sequence of restarts moves the budget.
  - `rescales_iff`: so it follows the limits exactly when their change rounds to nothing.
-/

import NvResourceController.Monitor.Feedback

namespace NvResourceController.Monitor

open System

def restarts (limits : List ℤ) (s : Attr) : Attr := limits.foldl (fun s limit => initAttr limit s) s

/-- The budget in proportion to the limit. -/
def rescaled (addPerCycle coreLimit limit : ℤ) : ℤ := max 1 ⌊(addPerCycle : ℚ) * limit / coreLimit⌋

/-- Each restart stores the limit and rescales the budget by it. -/
def Rescales : List ℤ → Attr → Prop
  | [], _ => True
  | limit :: rest, s =>
    (initAttr limit s).coreLimit = limit ∧
      (initAttr limit s).addPerCycle = rescaled s.addPerCycle s.coreLimit limit ∧ Rescales rest (initAttr limit s)

structure Initialised (s : Attr) : Prop where
  inited : s.inited ≠ 0
  coreLimit : 1 ≤ s.coreLimit
  budget : 1 ≤ s.addPerCycle

/-- Of a budget `add`, the change of the limit is less than a token; or it is 1, and cannot
    fall. -/
def Rounds (add coreLimit limit : ℤ) : Prop :=
  (coreLimit ≤ limit ∧ add * (limit - coreLimit) < coreLimit) ∨ (limit < coreLimit ∧ add = 1)

/-- So it is from each limit to the next. -/
def RoundsAll (add : ℤ) : ℤ → List ℤ → Prop
  | _, [] => True
  | coreLimit, limit :: rest => Rounds add coreLimit limit ∧ RoundsAll add limit rest

theorem scaledCycle_same {add limit : ℤ} (hadd : 1 ≤ add) (hlimit : 1 ≤ limit) :
    scaledCycle id add limit limit = add := by
  have hne : (limit : ℚ) ≠ 0 := by exact_mod_cast (by omega : limit ≠ 0)
  unfold scaledCycle
  rw [mul_div_assoc, div_self hne, mul_one, trunc_intCast]
  dsimp only [id_eq]
  omega

theorem initAttr_initialised {s : Attr} (h : Initialised s) {limit : ℤ} (hlimit : 1 ≤ limit) :
    (initAttr limit s).inited = s.inited ∧ (initAttr limit s).coreLimit = limit ∧
      (initAttr limit s).addPerCycle = s.addPerCycle := by
  by_cases heq : s.coreLimit = limit
  · simp [initAttr, h.inited, heq]
  · simp [initAttr, h.inited, heq, scaledCycle_same h.budget hlimit]

theorem Initialised.init {s : Attr} (h : Initialised s) {limit : ℤ} (hlimit : 1 ≤ limit) :
    Initialised (initAttr limit s) := by
  obtain ⟨hinited, hcore, hadd⟩ := initAttr_initialised h hlimit
  exact ⟨by rw [hinited]; exact h.inited, by rw [hcore]; exact hlimit, by rw [hadd]; exact h.budget⟩

/-- However the limit is changed, the budget stays. -/
theorem restarts_keep {limits : List ℤ} (hpos : ∀ limit ∈ limits, 1 ≤ limit) {s : Attr} (h : Initialised s) :
    (restarts limits s).addPerCycle = s.addPerCycle := by
  induction limits generalizing s with
  | nil => rfl
  | cons limit rest ih =>
    have hlimit := hpos limit List.mem_cons_self
    have hrest := ih (fun l hl => hpos l (List.mem_cons_of_mem _ hl)) (h.init hlimit)
    exact hrest.trans (initAttr_initialised h hlimit).2.2

theorem eq_rescaled_iff {add coreLimit limit : ℤ} (hadd : 1 ≤ add) (hcore : 1 ≤ coreLimit) :
    add = rescaled add coreLimit limit ↔ Rounds add coreLimit limit := by
  have hfloor : ⌊(add : ℚ) * limit / coreLimit⌋ = add * limit / coreLimit := by
    rw [← Int.cast_mul, floor_ediv _ (by omega)]
  have hsame : add * limit / coreLimit = add ↔ coreLimit ≤ limit ∧ add * (limit - coreLimit) < coreLimit := by
    rw [Int.ediv_eq_iff_of_pos (by omega), mul_sub, mul_le_mul_iff_right₀ (by omega)]
    omega
  rw [rescaled, hfloor, Rounds, ← hsame]
  by_cases hone : add = 1
  · subst hone
    have hlow : 1 * limit / coreLimit < 1 ↔ limit < coreLimit := by
      rw [Int.ediv_lt_iff_lt_mul (by omega), one_mul, one_mul]
    omega
  · omega

/-- Restarts rescale the budget exactly when no change of the limit makes a token. -/
theorem rescales_iff {limits : List ℤ} (hpos : ∀ limit ∈ limits, 1 ≤ limit) {s : Attr} (h : Initialised s) :
    Rescales limits s ↔ RoundsAll s.addPerCycle s.coreLimit limits := by
  induction limits generalizing s with
  | nil => exact Iff.rfl
  | cons limit rest ih =>
    have hlimit := hpos limit List.mem_cons_self
    obtain ⟨-, hcore, hadd⟩ := initAttr_initialised h hlimit
    have hrest := ih (fun l hl => hpos l (List.mem_cons_of_mem _ hl)) (h.init hlimit)
    rw [Rescales, RoundsAll, hrest, hcore, hadd, eq_rescaled_iff h.budget h.coreLimit]
    exact and_iff_right rfl

/-! ## Runs -/

theorem initAttr_limit (limit : ℤ) (s : Attr) :
    (initAttr limit s).inited ≠ 0 ∧ (initAttr limit s).coreLimit = limit := by
  by_cases hinited : s.inited = 0
  · simp [initAttr, hinited]
  · by_cases heq : s.coreLimit = limit <;> simp [initAttr, hinited, heq]

theorem deltaChange_limit (util limit : ℤ) (s : Attr) :
    (deltaChange util limit s).inited = s.inited ∧ (deltaChange util limit s).coreLimit = s.coreLimit := by
  unfold deltaChange
  dsimp only
  split_ifs <;> exact ⟨rfl, rfl⟩

theorem reach_initialised {s : Attr} (h : feedbackLoop.Reach s) : Initialised s := by
  have hlimit : s.inited ≠ 0 ∧ 1 ≤ s.coreLimit := by
    refine Reach.inv (I := fun s => s.inited ≠ 0 ∧ 1 ≤ s.coreLimit) ?_ ?_ h
    · intro s h0
      obtain ⟨limit, hpos, rfl⟩ := h0
      obtain ⟨hinited, hcore⟩ := initAttr_limit limit .zeroed
      exact ⟨hinited, by omega⟩
    · intro s c s' hi hstep
      cases c with
      | init limit =>
        obtain ⟨hpos, rfl⟩ := hstep
        obtain ⟨hinited, hcore⟩ := initAttr_limit limit s
        exact ⟨hinited, by omega⟩
      | delta util limit =>
        obtain ⟨-, rfl⟩ := hstep
        obtain ⟨hinited, hcore⟩ := deltaChange_limit util limit s
        rw [hinited, hcore]
        exact hi
      | clear =>
        rw [show s' = _ from hstep]
        exact hi
      | publish idx avg =>
        obtain ⟨-, rfl⟩ := hstep
        exact hi
      | index launchIdx =>
        rw [show s' = _ from hstep]
        exact hi
  exact ⟨hlimit.1, hlimit.2, (positive h).budget⟩

/-! ### A limit of 10 -/

theorem rescales_iff_run : Rescales [11, 12] (warm 3) :=
  (rescales_iff (by decide) (reach_initialised warm_three)).mpr ⟨Or.inl (by decide), Or.inl (by decide), trivial⟩

/-- Twice the limit leaves the budget of 4. -/
theorem budget_stays : feedbackLoop.Reach (warm 3) ∧ (initAttr 20 (warm 3)).addPerCycle = 4 ∧
    rescaled (warm 3).addPerCycle (warm 3).coreLimit 20 = 8 ∧ ¬ Rescales [20] (warm 3) := by
  have h₁ : (initAttr 20 (warm 3)).addPerCycle = 4 := by decide +kernel
  have h₂ : rescaled (warm 3).addPerCycle (warm 3).coreLimit 20 = 8 := by decide +kernel
  refine ⟨warm_three, h₁, h₂, ?_⟩
  intro h
  have hsame := h.2.1
  rw [h₁, h₂] at hsame
  exact absurd hsame (by decide)

end NvResourceController.Monitor
