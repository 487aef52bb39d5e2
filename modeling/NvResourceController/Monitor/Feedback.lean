/-
  NvResourceController.Monitor.Feedback — `init_attr` and `delta_change` in the exact
  reading, one call after the other, with whatever the clients publish in between.

  - `positive`: the budget is always at least 1, and no average is negative.
-/

import NvResourceController.Lib.Transition
import NvResourceController.Limiter.TokenPost
import NvResourceController.Monitor.Attr

namespace NvResourceController.Monitor

open Limiter System

/-- `token_attr_t` without `launch_times`, which only the clients use; an `int` is an
    integer. -/
structure Attr where
  changed : ℤ
  inited : ℤ
  waitTime : Timespec
  addPerCycle : ℤ
  coreLimit : ℤ
  modTimes : ℤ
  avgLaunchs : Int32 → ℤ
  launchIdx : Int32
  /-- The count of the semaphore. -/
  ready : ℕ

/-- What `create_shm_addr` leaves of a segment it made. -/
def Attr.zeroed : Attr := ⟨0, 0, ⟨0, 0⟩, 0, 0, 0, fun _ => 0, 0, 0⟩

def initAttr (limit : ℤ) (attr : Attr) : Attr :=
  let attr :=
    if attr.inited = 0 then
      { attr with
        coreLimit := limit
        modTimes := 0
        addPerCycle := 1
        avgLaunchs := Function.update (Function.update attr.avgLaunchs 0 0) 1 0
        launchIdx := 0
        waitTime := ⟨0, Int64.ofNat (defaultWaitDurationMillsec * 1000 * 1000)⟩
        inited := 1
        ready := (semPost attr.ready).2 }
    else attr
  let attr :=
    if attr.coreLimit ≠ limit then
      let attr := { attr with coreLimit := limit, modTimes := 0 }
      { attr with addPerCycle := scaledCycle id attr.addPerCycle attr.coreLimit limit }
    else attr
  { attr with changed := 1 }

def deltaChange (util limit : ℤ) (attr : Attr) : Attr :=
  if attr.changed ≠ 0 then attr
  else
    let idx := attr.launchIdx
    let curAvgLaunchs := attr.avgLaunchs (idx % 2)
    let lastAvgLaunchs := attr.avgLaunchs ((idx + 1) % 2)
    let oldCycle := attr.addPerCycle
    let attr := { attr with modTimes := attr.modTimes + 1 }
    if attr.modTimes ≤ sampleTicks then
      if oldCycle ≤ minSampleUtil then { attr with addPerCycle := oldCycle + 1, changed := 1 } else attr
    else if attr.modTimes % sampleTicks = 0 then
      { attr with addPerCycle := newCycle id util limit oldCycle curAvgLaunchs lastAvgLaunchs, changed := 1 }
    else attr

/-! ## Runs -/

inductive Call where
  | init (limit : ℤ)
  | delta (util limit : ℤ)
  /-- A client clears the flag. -/
  | clear
  /-- A client publishes an average. -/
  | publish (idx : Int32) (avg : ℤ)
  | index (launchIdx : Int32)

/-- Calls with positive limits, utilisations and averages, from `init_attr` on a segment
    of zeroes. -/
def feedbackLoop : System Attr Call where
  init s := ∃ limit > 0, s = initAttr limit .zeroed
  step s
    | .init limit, s' => 0 < limit ∧ s' = initAttr limit s
    | .delta util limit, s' => 1 ≤ util ∧ s' = deltaChange util limit s
    | .clear, s' => s' = { s with changed := 0 }
    | .publish idx avg, s' => 0 < avg ∧ s' = { s with avgLaunchs := Function.update s.avgLaunchs idx avg }
    | .index launchIdx, s' => s' = { s with launchIdx := launchIdx }

/-- What the calls keep. -/
structure Positive (s : Attr) : Prop where
  budget : 1 ≤ s.addPerCycle
  averages : ∀ i, 0 ≤ s.avgLaunchs i

theorem update_nonneg {f : Int32 → ℤ} (h : ∀ i, 0 ≤ f i) (idx : Int32) {v : ℤ} (hv : 0 ≤ v) :
    ∀ i, 0 ≤ Function.update f idx v i := by
  intro i
  by_cases hi : i = idx
  · rw [hi, Function.update_self]
    exact hv
  · rw [Function.update_of_ne hi]
    exact h i

theorem initAttr_positive {s : Attr} (limit : ℤ) (hb : s.inited = 0 ∨ 1 ≤ s.addPerCycle)
    (ha : ∀ i, 0 ≤ s.avgLaunchs i) : Positive (initAttr limit s) := by
  have hone := one_le_scaledCycle id
  have hcleared := update_nonneg (update_nonneg ha 0 (le_refl 0)) 1 (le_refl 0)
  unfold initAttr
  dsimp only
  split_ifs with h1 h2 h2
  · exact ⟨hone _ _ _, hcleared⟩
  · exact ⟨le_refl 1, hcleared⟩
  · exact ⟨hone _ _ _, ha⟩
  · exact ⟨hb.resolve_left h1, ha⟩

/-- What a call does: nothing, but for its count; a step of the warm-up; a step after
    it. -/
theorem deltaChange_cases (util limit : ℤ) (s : Attr) :
    (deltaChange util limit s).avgLaunchs = s.avgLaunchs ∧
      ((deltaChange util limit s).addPerCycle = s.addPerCycle ∨
        ((deltaChange util limit s).modTimes ≤ sampleTicks ∧
          (deltaChange util limit s).addPerCycle = s.addPerCycle + 1) ∨
        (deltaChange util limit s).addPerCycle = newCycle id util limit s.addPerCycle (s.avgLaunchs (s.launchIdx % 2))
          (s.avgLaunchs ((s.launchIdx + 1) % 2))) := by
  unfold deltaChange
  dsimp only
  split_ifs with h1 h2 h3 h3
  · exact ⟨rfl, Or.inl rfl⟩
  · exact ⟨rfl, Or.inr (Or.inl ⟨h2, rfl⟩)⟩
  · exact ⟨rfl, Or.inl rfl⟩
  · exact ⟨rfl, Or.inr (Or.inr rfl)⟩
  · exact ⟨rfl, Or.inl rfl⟩

theorem deltaChange_positive {s : Attr} (util limit : ℤ) (h : Positive s) : Positive (deltaChange util limit s) := by
  have hb := h.budget
  obtain ⟨havg, hcases⟩ := deltaChange_cases util limit s
  refine ⟨?_, by rw [havg]; exact h.averages⟩
  rcases hcases with he | ⟨-, he⟩ | he
  · rw [he]
    exact hb
  · rw [he]
    omega
  · rw [he]
    exact one_le_newCycle _ _ _ _ _ _

theorem positive {s : Attr} (h : feedbackLoop.Reach s) : Positive s := by
  refine Reach.inv (I := Positive) ?_ ?_ h
  · intro s h0
    obtain ⟨limit, -, rfl⟩ := h0
    exact initAttr_positive limit (Or.inl rfl) fun _ => le_refl 0
  · intro s c s' hi hstep
    cases c with
    | init limit =>
      obtain ⟨-, rfl⟩ := hstep
      exact initAttr_positive limit (Or.inr hi.budget) hi.averages
    | delta util limit =>
      obtain ⟨-, rfl⟩ := hstep
      exact deltaChange_positive util limit hi
    | clear =>
      rw [show s' = _ from hstep]
      exact ⟨hi.budget, hi.averages⟩
    | publish idx avg =>
      obtain ⟨havg, rfl⟩ := hstep
      exact ⟨hi.budget, update_nonneg hi.averages idx (by omega)⟩
    | index launchIdx =>
      rw [show s' = _ from hstep]
      exact ⟨hi.budget, hi.averages⟩

/-! ### A limit of 10 -/

/-- After `n` calls, with a budget of 4 and averages of 40. -/
def warm (n : ℤ) : Attr :=
  { initAttr 10 .zeroed with
    changed := 0
    addPerCycle := 4
    modTimes := n
    avgLaunchs := Function.update (Function.update (initAttr 10 .zeroed).avgLaunchs 0 40) 1 40 }

theorem reach_call {s s' : Attr} (c : Call) (h : feedbackLoop.Reach s) (hc : feedbackLoop.step s c s') :
    feedbackLoop.Reach s' := h.step hc

theorem warm_three : feedbackLoop.Reach (warm 3) := by
  have h : feedbackLoop.Reach (initAttr 10 .zeroed) := .init ⟨10, by decide, rfl⟩
  have h := reach_call .clear h rfl
  have h := reach_call (.delta 5 10) h ⟨by decide, rfl⟩
  have h := reach_call .clear h rfl
  have h := reach_call (.delta 5 10) h ⟨by decide, rfl⟩
  have h := reach_call .clear h rfl
  have h := reach_call (.delta 5 10) h ⟨by decide, rfl⟩
  have h := reach_call .clear h rfl
  have h := reach_call (.publish 0 40) h ⟨by decide, rfl⟩
  have h := reach_call (.publish 1 40) h ⟨by decide, rfl⟩
  exact h

end NvResourceController.Monitor
