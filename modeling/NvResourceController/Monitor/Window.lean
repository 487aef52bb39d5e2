/-
  NvResourceController.Monitor.Window — the average `token_post` publishes
  (`src/ioctl_hook.c`), against the samples it is taken of.

  The loop adds up the positive samples and divides by one more than their number, so
  what is published is never above the largest, but may be below the smallest.

  - `avgLaunch_toInt`: the value that is published.
  - `average_within`: it is within the positive samples exactly where one of them is 1, or
    they exceed one of them by as much as itself.
-/

import Mathlib.Algebra.Order.BigOperators.Group.List
import NvResourceController.Limiter.Tokens
import NvResourceController.Monitor.Warmup

namespace NvResourceController.Monitor

open Limiter

variable {F : Type}

/-! ## The samples -/

def window : List Int32 := [0, 1, 2, 3, 4, 5, 6, 7, 8, 9]

/-- The samples of these indices, as integers. -/
def entries (launchTimes : Int32 → Int32) (is : List Int32) : List ℤ := is.map fun i => (launchTimes i).toInt

/-- Those the loop adds up. -/
def positives (launchTimes : Int32 → Int32) (is : List Int32) : List ℤ :=
  (entries launchTimes is).filter (0 < ·)

theorem pos_of_positives {launchTimes : Int32 → Int32} {is : List Int32} {x : ℤ} (h : x ∈ positives launchTimes is) :
    1 ≤ x := of_decide_eq_true (List.mem_filter.mp h).2

theorem positive_iff (x : Int32) : x > 0 ↔ 0 < x.toInt := by
  rw [gt_iff_lt, Int32.lt_iff_toInt_lt, Int32.toInt_zero]

theorem positives_cons (launchTimes : Int32 → Int32) (i : Int32) (is : List Int32) :
    positives launchTimes (i :: is) =
      if launchTimes i > 0 then (launchTimes i).toInt :: positives launchTimes is else positives launchTimes is := by
  simp only [positives, entries, List.map_cons, List.filter_cons, decide_eq_true_eq, positive_iff]

theorem sampleSum_positives (launchTimes : Int32 → Int32) (is : List Int32) :
    sampleSum launchTimes is = (positives launchTimes is).sum := by
  induction is with
  | nil => rfl
  | cons i rest ih =>
    rw [sampleSum, positives_cons, ih]
    split
    · rw [List.sum_cons, Int.add_comm]
    · exact Int.add_zero _

theorem positives_sum {l : List ℤ} (h : ∀ x ∈ l, 0 ≤ x) : (l.filter (0 < ·)).sum = l.sum := by
  induction l with
  | nil => rfl
  | cons x rest ih =>
    have hx := h x (List.mem_cons_self ..)
    have hrest := ih fun y hy => h y (List.mem_cons_of_mem _ hy)
    rw [List.filter_cons, List.sum_cons, ← hrest]
    split
    · exact List.sum_cons
    · rename_i hnot
      rw [decide_eq_true_eq] at hnot
      omega

theorem sumLaunch_count {launchTimes : Int32 → Int32} {is : List Int32} (hlen : is.length < 2 ^ 31) :
    (sumLaunch launchTimes is).2.toInt = (positives launchTimes is).length := by
  induction is with
  | nil => rfl
  | cons i rest ih =>
    rw [List.length_cons] at hlen
    have hcount := ih (by omega)
    have hle : (positives launchTimes rest).length ≤ rest.length :=
      (List.length_filter_le _ _).trans (List.length_map _).le
    rw [positives_cons, sumLaunch]
    dsimp only
    split
    · rw [Int32.toInt_add, Int32.toInt_one, hcount, Int.bmod_eq_of_le (by omega) (by omega), List.length_cons]
      rfl
    · exact hcount

/-! ## The average -/

theorem quotient_toInt {sum j : Int32} (hsum : 0 ≤ sum.toInt) (hj : 0 ≤ j.toInt) (hlt : j.toInt < 2 ^ 31 - 1) :
    (if sum / (j + 1) ≠ 0 then sum / (j + 1) else 1).toInt = max 1 (sum.toInt / (j.toInt + 1)) := by
  have hdiv := quotient_eq hsum hj hlt
  have hnonneg : 0 ≤ sum.toInt / (j.toInt + 1) := Int.ediv_nonneg hsum (by omega)
  split
  · rename_i hzero
    rw [ne_eq, ← Int32.toInt_inj, hdiv, Int32.toInt_zero] at hzero
    rw [hdiv]
    omega
  · rename_i hzero
    rw [not_not, ← Int32.toInt_inj, hdiv, Int32.toInt_zero] at hzero
    rw [hzero]
    rfl

/-- The sum of the positive samples, over one more than their number; 1 where that is 0. -/
theorem avgLaunch_toInt {launchTimes : Int32 → Int32} (hsum : (positives launchTimes window).sum < 2 ^ 31) :
    (avgLaunch launchTimes).toInt =
      max 1 ((positives launchTimes window).sum / ((positives launchTimes window).length + 1)) := by
  have hcount : (sumLaunch launchTimes window).2.toInt = (positives launchTimes window).length :=
    sumLaunch_count (by decide)
  have hlen : (positives launchTimes window).length ≤ window.length :=
    (List.length_filter_le _ _).trans (List.length_map _).le
  have hwindow : window.length = 10 := rfl
  rw [← sampleSum_positives] at hsum ⊢
  have htotal := (sumLaunch_eq hsum (by decide)).1
  have hnonneg := sampleSum_nonneg launchTimes window
  rw [← htotal] at hnonneg ⊢
  rw [← hcount]
  have hj : 0 ≤ (sumLaunch launchTimes window).2.toInt := by omega
  have hlt : (sumLaunch launchTimes window).2.toInt < 2 ^ 31 - 1 := by omega
  exact quotient_toInt hnonneg hj hlt

/-! ## Within the samples -/

/-- Between the smallest and the largest of some values. -/
structure Within (samples : List ℤ) (value : ℤ) : Prop where
  lower : ∃ x ∈ samples, x ≤ value
  upper : ∃ x ∈ samples, value ≤ x

/-- What the values exceed one of them by, all together. -/
def excess (samples : List ℤ) (x : ℤ) : ℤ := (samples.map (· - x)).sum

theorem excess_eq (samples : List ℤ) (x : ℤ) : excess samples x = samples.sum - samples.length * x := by
  induction samples with
  | nil => simp [excess]
  | cons y rest ih =>
    rw [excess] at ih ⊢
    rw [List.map_cons, List.sum_cons, ih, List.sum_cons, List.length_cons, Nat.cast_succ, Int.add_mul]
    omega

theorem average_le {samples : List ℤ} (hpos : ∀ x ∈ samples, 1 ≤ x) (hne : samples ≠ []) :
    ∃ x ∈ samples, max 1 (samples.sum / (samples.length + 1)) ≤ x := by
  by_contra hall
  have hlt : ∀ x ∈ samples, x ≤ max 1 (samples.sum / (samples.length + 1)) - 1 := by
    intro x hx
    have : ¬ max 1 (samples.sum / (samples.length + 1)) ≤ x := fun h => hall ⟨x, hx, h⟩
    omega
  obtain ⟨x, hx⟩ := List.exists_mem_of_ne_nil samples hne
  have hone := hpos x hx
  have hxlt := hlt x hx
  -- so the quotient is what is published
  have hmax : max 1 (samples.sum / (samples.length + 1)) = samples.sum / (samples.length + 1) := by omega
  rw [hmax] at hlt hxlt
  have hle : samples.sum ≤ samples.length * (samples.sum / (samples.length + 1) - 1) := by
    have := List.sum_le_card_nsmul samples _ hlt
    rwa [nsmul_eq_mul] at this
  have hmul : samples.sum / (samples.length + 1) * (samples.length + 1) ≤ samples.sum :=
    Int.ediv_mul_le _ (by omega)
  rw [Int.mul_add, Int.mul_one, Int.mul_comm] at hmul
  rw [Int.mul_sub, Int.mul_one] at hle
  omega

/-- A sample is not above the average exactly if it is 1 or the others make up for the
    added count. -/
theorem le_average_iff {samples : List ℤ} {x : ℤ} (hx : 1 ≤ x) :
    x ≤ max 1 (samples.sum / (samples.length + 1)) ↔ x = 1 ∨ x ≤ excess samples x := by
  rw [le_max_iff, Int.le_ediv_iff_mul_le (by omega), excess_eq, Int.mul_add, Int.mul_one, Int.mul_comm x]
  constructor
  · intro h
    cases h with
    | inl hone => exact Or.inl (by omega)
    | inr hle => exact Or.inr (by omega)
  · intro h
    cases h with
    | inl hone => exact Or.inl (by omega)
    | inr hle => exact Or.inr (by omega)

theorem within_average_iff {samples : List ℤ} (hpos : ∀ x ∈ samples, 1 ≤ x) (hne : samples ≠ []) :
    Within samples (max 1 (samples.sum / (samples.length + 1))) ↔ ∃ x ∈ samples, x = 1 ∨ x ≤ excess samples x := by
  constructor
  · intro h
    obtain ⟨x, hx, hle⟩ := h.lower
    exact ⟨x, hx, (le_average_iff (hpos x hx)).mp hle⟩
  · intro h
    obtain ⟨x, hx, hle⟩ := h
    exact ⟨⟨x, hx, (le_average_iff (hpos x hx)).mpr hle⟩, average_le hpos hne⟩

theorem publish_stores {s s' : Client F} (h : Limiter.Step s .publish s') :
    s'.attr.params.avgLaunchs (s.post.launchIdx % 2) = avgLaunch s.post.launchTimes := by
  cases h with
  | publish _ => exact Function.update_self ..

/-- For every window of samples that are not negative, add up to an `int` and are not all
    0: the value that is stored is between the smallest and the largest positive sample
    exactly if one of them is 1, or they exceed one of them by as much as itself. -/
theorem average_within {s s' : Client F} (h : Limiter.Step s .publish s')
    (hnonneg : ∀ x ∈ entries s.post.launchTimes window, 0 ≤ x)
    (hsum : (entries s.post.launchTimes window).sum < 2 ^ 31)
    (hpos : ∃ x ∈ entries s.post.launchTimes window, 0 < x) :
    Within (positives s.post.launchTimes window) (s'.attr.params.avgLaunchs (s.post.launchIdx % 2)).toInt ↔
      ∃ x ∈ positives s.post.launchTimes window, x = 1 ∨ x ≤ excess (positives s.post.launchTimes window) x := by
  have hne : positives s.post.launchTimes window ≠ [] := by
    obtain ⟨x, hx, hlt⟩ := hpos
    exact List.ne_nil_of_mem (List.mem_filter.mpr ⟨hx, decide_eq_true hlt⟩)
  have hpositives : (positives s.post.launchTimes window).sum < 2 ^ 31 := by
    rw [positives, positives_sum hnonneg]
    exact hsum
  rw [publish_stores h, avgLaunch_toInt hpositives]
  exact within_average_iff (fun x hx => pos_of_positives hx) hne

def twoLaunches : List (Limiter.Event String) :=
  [.load, .copyWait, .copyAdd, .clear, .reset, .sleep, .post true, .posted 1, .enter 0 aLaunch, .wait 0, .count 0,
    .call 0 "cuLaunchKernel", .enter 0 aLaunch, .wait 0, .count 0, .sample 2, .index]

theorem twoLaunches_run : ∃ s, (client String).Run limitedToOne twoLaunches s ∧ s.post.pc = .publish ∧
    entries s.post.launchTimes window = [0, 2, 0, 0, 0, 0, 0, 0, 0, 0] :=
  ⟨_, .cons ⟨rfl, .load _ rfl⟩ (.cons ⟨rfl, .copyWait _ rfl⟩ (.cons ⟨rfl, .copyAdd _ rfl⟩
    (.cons ⟨rfl, .clear _ rfl⟩ (.cons ⟨rfl, .reset _ rfl⟩ (.cons ⟨rfl, .sleep _ rfl⟩
    (.cons ⟨rfl, .post _ rfl (by decide)⟩ (.cons ⟨rfl, .posted _ rfl (by decide)⟩
    (.cons ⟨rfl, .enter _ 0 aLaunch rfl⟩ (.cons ⟨rfl, .wait _ 0 aLaunch rfl (by decide)⟩
    (.cons ⟨rfl, .count _ 0 aLaunch 0 rfl⟩ (.cons ⟨rfl, .call _ 0 aLaunch 0 _ rfl rfl⟩
    (.cons ⟨rfl, .enter _ 0 aLaunch rfl⟩ (.cons ⟨rfl, .wait _ 0 aLaunch rfl (by decide)⟩
    (.cons ⟨rfl, .count _ 0 aLaunch 0 rfl⟩ (.cons ⟨rfl, .sample _ rfl⟩ (.cons ⟨rfl, .index _ rfl⟩
    (.nil _))))))))))))))))), rfl, by decide⟩

/-- The only sample is 2, and its average is 1. -/
theorem two_launches_average_one : ∃ s s', (client String).Reach s ∧ Limiter.Step s .publish s' ∧
    entries s.post.launchTimes window = [0, 2, 0, 0, 0, 0, 0, 0, 0, 0] ∧
    s'.attr.params.avgLaunchs (s.post.launchIdx % 2) = 1 ∧
    ¬ Within (positives s.post.launchTimes window) (s'.attr.params.avgLaunchs (s.post.launchIdx % 2)).toInt := by
  obtain ⟨s, hrun, hpc, hentries⟩ := twoLaunches_run
  have hsamples : positives s.post.launchTimes window = [2] := by
    rw [positives, hentries]
    decide
  have havg : avgLaunch s.post.launchTimes = 1 := by
    rw [← Int32.toInt_inj, avgLaunch_toInt (by rw [hsamples]; decide), hsamples]
    decide
  have hstored := (publish_stores (.publish s hpc)).trans havg
  refine ⟨s, _, .run (.init limitedToOne_starts) hrun, .publish s hpc, hentries, hstored, ?_⟩
  intro h
  obtain ⟨x, hx, hle⟩ := h.lower
  rw [hsamples, List.mem_singleton] at hx
  rw [hstored, hx] at hle
  exact absurd hle (by decide)

def twoSizes (i : Int32) : Int32 := if i < 5 then 10 else 20

theorem average_within_twoSizes : ∃ s s' : Client String, s.post.launchTimes = twoSizes ∧ Limiter.Step s .publish s' ∧
    (Within (positives s.post.launchTimes window) (s'.attr.params.avgLaunchs (s.post.launchIdx % 2)).toInt ↔
      ∃ x ∈ positives s.post.launchTimes window, x = 1 ∨ x ≤ excess (positives s.post.launchTimes window) x) :=
  ⟨{ limitedToOne with post := { limitedToOne.post with pc := .publish, launchTimes := twoSizes } }, _, rfl,
    .publish _ rfl, average_within (.publish _ rfl) (by decide) (by decide) ⟨10, by decide, by decide⟩⟩

end NvResourceController.Monitor
