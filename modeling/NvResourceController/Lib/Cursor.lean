/-
  NvResourceController.Lib.Cursor — a search loop over a linked list, and what its
  cursor variable holds when the loop is over.

  `for each x { cur = x; if (p x) break; }` leaves `cur` at the first match, or, when
  nothing matches, at the last entry it visited; only an empty list leaves it unset. A
  cursor is the entry with what stands before and after it, so deleting the entry it
  points at is joining the two sides, whatever other entries look like it.

  - `scan_matched`: with a match in the list the cursor is the first one, and deleting
    there is `List.eraseP`.
  - `scan_exhausted`: without one the cursor is the last entry, and deleting there is
    `List.dropLast`.
  - `scanDel_map`: the loop does the same on a list and on its image.
-/

import Mathlib.Algebra.BigOperators.Group.List.Basic
import Mathlib.Tactic.Abel

namespace ListCursor

variable {α : Type} (p : α → Bool)

/-- An entry of a list, and the entries on either side of it. -/
structure Cursor (α : Type) where
  before : List α
  entry : α
  after : List α
  deriving DecidableEq, Repr

namespace Cursor

def list (c : Cursor α) : List α := c.before ++ c.entry :: c.after

def del (c : Cursor α) : List α := c.before ++ c.after

theorem sum_map_list {M : Type} [AddCommMonoid M] (c : Cursor α) (f : α → M) :
    (c.list.map f).sum = f c.entry + (c.del.map f).sum := by
  simp only [list, del, List.map_append, List.map_cons, List.sum_append, List.sum_cons]
  abel

end Cursor

/-- The loop: break at the first match, else go on to the end. -/
def scan : List α → Option (Cursor α)
  | [] => none
  | x :: xs =>
    if p x then some ⟨[], x, xs⟩
    else match scan xs with
      | some c => some ⟨x :: c.before, c.entry, c.after⟩
      | none => some ⟨[], x, []⟩

@[simp] theorem scan_nil : scan p [] = none := rfl

theorem scan_eq_none {l : List α} : scan p l = none ↔ l = [] := by
  cases l with
  | nil => simp
  | cons x xs =>
    simp only [scan, reduceCtorEq, iff_false]
    split
    · simp
    · split <;> simp

/-- What the loop knows when it stops: its cursor stands in the list, it passed no
    match, and it is at a match or at the end. -/
theorem scan_spec {l : List α} {c : Cursor α} (h : scan p l = some c) :
    c.list = l ∧ (∀ x ∈ c.before, p x = false) ∧ (p c.entry = true ∨ c.after = []) := by
  induction l generalizing c with
  | nil => simp at h
  | cons x xs ih =>
    simp only [scan] at h
    split at h
    · rename_i hx
      cases h
      exact ⟨rfl, by simp, Or.inl hx⟩
    · rename_i hx
      split at h
      · rename_i c' hc'
        cases h
        obtain ⟨hl, hb, he⟩ := ih hc'
        refine ⟨by simpa [Cursor.list] using hl, fun y hy => ?_, he⟩
        rcases List.mem_cons.mp hy with rfl | hy
        · simpa using hx
        · exact hb y hy
      · rename_i hn
        cases h
        rw [scan_eq_none] at hn
        subst hn
        exact ⟨rfl, by simp, Or.inr rfl⟩

theorem scan_at {before after : List α} {e : α} (hb : ∀ x ∈ before, p x = false) (he : p e = true) :
    scan p (before ++ e :: after) = some ⟨before, e, after⟩ := by
  induction before with
  | nil => simp [scan, he]
  | cons x xs ih =>
    have hx := hb x List.mem_cons_self
    have hxs := ih fun y hy => hb y (List.mem_cons_of_mem _ hy)
    simp only [List.cons_append, scan, hx, Bool.false_eq_true, if_false, hxs]

theorem scan_matched {l : List α} {e : α} (hf : l.find? p = some e) :
    ∃ c, scan p l = some c ∧ c.entry = e ∧ c.del = l.eraseP p := by
  obtain ⟨he, before, after, rfl, hb⟩ := List.find?_eq_some_iff_append.mp hf
  have hb' : ∀ x ∈ before, p x = false := by simpa using hb
  refine ⟨⟨before, e, after⟩, scan_at p hb' he, rfl, ?_⟩
  rw [List.eraseP_append_right _ (by simpa using hb'), List.eraseP_cons_of_pos he]
  rfl

theorem scan_exhausted {l : List α} (hne : l ≠ []) (hm : ∀ x ∈ l, p x = false) :
    ∃ c, scan p l = some c ∧ l.getLast? = some c.entry ∧ c.del = l.dropLast := by
  cases hc : scan p l with
  | none => exact absurd ((scan_eq_none p).mp hc) hne
  | some c =>
    obtain ⟨hl, -, he⟩ := scan_spec p hc
    have hmem : c.entry ∈ l := by rw [← hl]; simp [Cursor.list]
    have ha : c.after = [] := he.resolve_left (by simp [hm _ hmem])
    refine ⟨c, rfl, ?_, ?_⟩ <;> rw [← hl] <;> simp [Cursor.list, Cursor.del, ha]

def scanDel (l : List α) : List α :=
  match scan p l with
  | some c => c.del
  | none => l

theorem scanDel_matched {l : List α} {e : α} (hf : l.find? p = some e) : scanDel p l = l.eraseP p := by
  obtain ⟨c, hc, -, hd⟩ := scan_matched p hf
  simp only [scanDel, hc, hd]

/-! ## Through a map -/

theorem scan_map {β : Type} (q : β → Bool) (f : α → β) (l : List α) :
    scan q (l.map f) = (scan (q ∘ f) l).map fun c => ⟨c.before.map f, f c.entry, c.after.map f⟩ := by
  induction l with
  | nil => rfl
  | cons x xs ih =>
    simp only [List.map_cons, scan, Function.comp_apply, ih]
    split
    · rfl
    · cases scan (q ∘ f) xs <;> rfl

theorem scanDel_map {β : Type} (q : β → Bool) (f : α → β) (l : List α) :
    scanDel q (l.map f) = (scanDel (q ∘ f) l).map f := by
  unfold scanDel
  rw [scan_map]
  cases scan (q ∘ f) l with
  | none => rfl
  | some c => simp [Cursor.del]

end ListCursor
