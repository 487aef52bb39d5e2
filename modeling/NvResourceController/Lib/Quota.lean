/-
  NvResourceController.Lib.Quota — what a limit is for. Items of some weight are
  acquired one at a time and released any number at a time; an item is acquired only if
  what is held then stays within the limit.

  - `held_le_limit`: so what is held stays within the limit.

  An implementation that decides by other books (a counter of what is left, a list of
  charges) keeps the limit when the quota simulates it: `limited_of_simulation`.
-/

import NvResourceController.Lib.Transition
import Mathlib.Algebra.Order.BigOperators.Group.List
import Mathlib.Algebra.Order.Monoid.Canonical.Defs

namespace Quota

variable {ι M : Type} [AddCommMonoid M] [PartialOrder M] [IsOrderedAddMonoid M] [CanonicallyOrderedAdd M]

/-- The weight of what is held. -/
def held (w : ι → M) (items : List ι) : M := (items.map w).sum

omit [PartialOrder M] [IsOrderedAddMonoid M] [CanonicallyOrderedAdd M] in
@[simp] theorem held_nil (w : ι → M) : held w [] = 0 := rfl

omit [PartialOrder M] [IsOrderedAddMonoid M] [CanonicallyOrderedAdd M] in
@[simp] theorem held_cons (w : ι → M) (i : ι) (items : List ι) : held w (i :: items) = w i + held w items := by
  simp [held]

theorem held_filter_le (w : ι → M) (keep : ι → Bool) (items : List ι) : held w (items.filter keep) ≤ held w items := by
  induction items with
  | nil => exact le_refl _
  | cons i items ih =>
    rw [held_cons]
    by_cases hk : keep i = true
    · rw [List.filter_cons_of_pos hk, held_cons]
      exact add_le_add_right ih (w i)
    · rw [List.filter_cons_of_neg hk]
      exact ih.trans le_add_self

inductive Request (ι : Type) where
  | acquire (i : ι)
  | release (keep : ι → Bool)

/-- The items held under a limit. -/
def quota (w : ι → M) (limit : M) : System (List ι) (Request ι) where
  init items := items = []
  step items
    | .acquire i, items' => held w (i :: items) ≤ limit ∧ items' = i :: items
    | .release keep, items' => items' = items.filter keep

theorem held_le_limit {w : ι → M} {limit : M} {items : List ι} (h : (quota w limit).Reach items) :
    held w items ≤ limit := by
  refine System.Reach.inv (I := fun items => held w items ≤ limit) ?_ ?_ h
  · intro items h0
    rw [show items = [] from h0, held_nil]
    exact zero_le
  · intro items e items' hle hs
    cases e with
    | acquire i =>
      obtain ⟨hfit, rfl⟩ := hs
      exact hfit
    | release keep =>
      rw [show items' = items.filter keep from hs]
      exact (held_filter_le w keep items).trans hle

/-- What the quota simulates keeps the limit. -/
theorem limited_of_simulation {σ ε : Type} {S : System σ ε} {w : ι → M} {limit : M} {R : σ → List ι → Prop}
    (hR : System.Simulation S (quota w limit) R) {s : σ} (h : S.Reach s) :
    ∃ items, R s items ∧ held w items ≤ limit := by
  obtain ⟨items, hreach, hr⟩ := hR.transfer h
  exact ⟨items, hr, held_le_limit hreach⟩

end Quota
