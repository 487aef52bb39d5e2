/-
  NvResourceController.Lib.Keyed — a list used as a map in which a newer entry shadows
  an older one of the same key: add at the head, look up the first entry of a key,
  remove the first entry of a key.

  - `first_cons_self`, `first_cons_ne`, `first_dropFirst_ne`: adding or removing under
    one key is invisible under every other.
  - `sum_dropFirst`: removing takes exactly the removed entry's share out of a sum.
  - `dropFirst_eq_filter`: where no key is used twice, removing under a key removes all
    of it; `dropFirst_congr`: and a coarser key removes what a finer one does, if it
    finds the same.
  - `sum_le_sum_of_first`: things with distinct keys, each of which the map shows with
    its own weight, weigh no more together than the map.
-/

import Mathlib.Algebra.BigOperators.Group.List.Basic
import Mathlib.Tactic.Abel

namespace Keyed

variable {α κ : Type} [DecidableEq κ] (key : α → κ)

/-- The newest entry of a key. -/
def first (k : κ) (l : List α) : Option α := l.find? (key · == k)

/-- The list without the newest entry of a key. -/
def dropFirst (k : κ) (l : List α) : List α := l.eraseP (key · == k)

@[simp] theorem first_nil (k : κ) : first key k [] = none := rfl

@[simp] theorem first_cons_self (a : α) (l : List α) : first key (key a) (a :: l) = some a := by
  simp [first]

theorem first_cons_ne {k : κ} {a : α} (h : key a ≠ k) (l : List α) : first key k (a :: l) = first key k l := by
  simp [first, h]

theorem first_mem {k : κ} {l : List α} {a : α} (h : first key k l = some a) : a ∈ l ∧ key a = k :=
  ⟨List.mem_of_find?_eq_some h, by simpa using List.find?_some h⟩

theorem first_eq_none {k : κ} {l : List α} : first key k l = none ↔ ∀ a ∈ l, key a ≠ k := by
  simp [first]

theorem first_isSome {k : κ} {l : List α} : (∃ a, first key k l = some a) ↔ ∃ a ∈ l, key a = k := by
  constructor
  · intro hf
    obtain ⟨a, ha⟩ := hf
    exact ⟨a, first_mem key ha⟩
  · intro hm
    obtain ⟨a, ha, hk⟩ := hm
    cases h : first key k l with
    | some b => exact ⟨b, rfl⟩
    | none => exact absurd hk ((first_eq_none key).mp h a ha)

@[simp] theorem dropFirst_cons_self (a : α) (l : List α) : dropFirst key (key a) (a :: l) = l := by
  simp [dropFirst]

theorem dropFirst_cons_ne {k : κ} {a : α} (h : key a ≠ k) (l : List α) :
    dropFirst key k (a :: l) = a :: dropFirst key k l := by
  simp [dropFirst, h]

theorem mem_of_mem_dropFirst {k : κ} {l : List α} {a : α} (h : a ∈ dropFirst key k l) : a ∈ l :=
  List.mem_of_mem_eraseP h

theorem first_dropFirst_ne {k k' : κ} (h : k' ≠ k) (l : List α) :
    first key k' (dropFirst key k l) = first key k' l := by
  induction l with
  | nil => rfl
  | cons a l ih =>
    by_cases ha : key a = k
    · subst ha
      rw [dropFirst_cons_self, first_cons_ne key (Ne.symm h)]
    · rw [dropFirst_cons_ne key ha]
      by_cases ha' : key a = k'
      · subst ha'
        rw [first_cons_self, first_cons_self]
      · rw [first_cons_ne key ha', first_cons_ne key ha', ih]

theorem filter_dropFirst_ne {k k' : κ} (h : k' ≠ k) (l : List α) :
    (dropFirst key k l).filter (key · == k') = l.filter (key · == k') := by
  induction l with
  | nil => rfl
  | cons a l ih =>
    by_cases ha : key a = k
    · subst ha
      rw [dropFirst_cons_self, List.filter_cons_of_neg (by simpa using Ne.symm h)]
    · rw [dropFirst_cons_ne key ha, List.filter_cons, List.filter_cons, ih]

theorem sum_dropFirst {M : Type} [AddCommMonoid M] (f : α → M) {k : κ} {l : List α} {a : α}
    (h : first key k l = some a) : (l.map f).sum = f a + ((dropFirst key k l).map f).sum := by
  induction l with
  | nil => simp at h
  | cons b l ih =>
    by_cases hb : key b = k
    · subst hb
      rw [first_cons_self] at h
      cases h
      rw [dropFirst_cons_self, List.map_cons, List.sum_cons]
    · rw [first_cons_ne key hb] at h
      rw [dropFirst_cons_ne key hb, List.map_cons, List.map_cons, List.sum_cons, List.sum_cons, ih h]
      abel

/-! ## Keys used once -/

theorem first_of_mem {l : List α} {a : α} (hd : (l.map key).Nodup) (h : a ∈ l) : first key (key a) l = some a := by
  induction l with
  | nil => cases h
  | cons b l ih =>
    rw [List.map_cons, List.nodup_cons] at hd
    rcases List.mem_cons.mp h with rfl | h
    · exact first_cons_self key a l
    · have hne : key b ≠ key a := fun e => hd.1 (e ▸ List.mem_map_of_mem h)
      rw [first_cons_ne key hne]
      exact ih hd.2 h

omit [DecidableEq κ] in
theorem nodup_cons_of_fresh {l : List α} {a : α} (hd : (l.map key).Nodup) (hfresh : ∀ b ∈ l, key b ≠ key a) :
    ((a :: l).map key).Nodup := by
  rw [List.map_cons, List.nodup_cons]
  refine ⟨?_, hd⟩
  intro hmem
  obtain ⟨b, hb, hba⟩ := List.mem_map.mp hmem
  exact hfresh b hb hba

theorem nodup_dropFirst {k : κ} {l : List α} (hd : (l.map key).Nodup) : ((dropFirst key k l).map key).Nodup :=
  hd.sublist (List.eraseP_sublist.map _)

/-- Removing under a key used once removes all of the key, and nothing else. -/
theorem dropFirst_eq_filter {k : κ} {l : List α} (hd : (l.map key).Nodup) :
    dropFirst key k l = l.filter fun a => !(key a == k) := by
  induction l with
  | nil => rfl
  | cons a l ih =>
    rw [List.map_cons, List.nodup_cons] at hd
    by_cases ha : key a = k
    · subst ha
      rw [dropFirst_cons_self, List.filter_cons_of_neg (by simp), List.filter_eq_self.mpr]
      intro b hb
      have hne : key b ≠ key a := fun e => hd.1 (e ▸ List.mem_map_of_mem hb)
      simpa using hne
    · rw [dropFirst_cons_ne key ha, List.filter_cons_of_pos (by simpa using ha), ih hd.2]

theorem mem_dropFirst {k : κ} {l : List α} {a : α} (hd : (l.map key).Nodup) :
    a ∈ dropFirst key k l ↔ a ∈ l ∧ key a ≠ k := by
  rw [dropFirst_eq_filter key hd]
  simp

/-- A coarser key removes the same entry as a finer one, when it finds the same. -/
theorem dropFirst_congr {κ' : Type} [DecidableEq κ'] {key' : α → κ'} {k : κ} {k' : κ'} {l : List α} {a : α}
    (hf : first key k l = some a) (hk : key' a = k') (hfine : ∀ b ∈ l, key' b = k' → key b = k) :
    dropFirst key k l = dropFirst key' k' l := by
  induction l with
  | nil => rfl
  | cons b l ih =>
    by_cases hb : key b = k
    · subst hb
      rw [first_cons_self] at hf
      cases hf
      subst hk
      rw [dropFirst_cons_self, dropFirst_cons_self]
    · have hb' : key' b ≠ k' := fun e => hb (hfine b List.mem_cons_self e)
      rw [first_cons_ne key hb] at hf
      rw [dropFirst_cons_ne key hb, dropFirst_cons_ne key' hb',
        ih hf fun c hc => hfine c (List.mem_cons_of_mem _ hc)]

/-- Things with distinct keys, each shown by the map with its own weight, weigh no more
    together than the map's entries. -/
theorem sum_le_sum_of_first {β : Type} (kb : β → κ) (wb : β → ℕ) (w : α → ℕ) {things : List β} {l : List α}
    (hd : (things.map kb).Nodup) (hf : ∀ b ∈ things, ∃ a, first key (kb b) l = some a ∧ w a = wb b) :
    (things.map wb).sum ≤ (l.map w).sum := by
  induction things generalizing l with
  | nil => simp
  | cons b bs ih =>
    rw [List.map_cons, List.nodup_cons] at hd
    obtain ⟨a, ha, hw⟩ := hf b List.mem_cons_self
    -- the rest is weighed against the map without `b`'s entry
    have hrest : (bs.map wb).sum ≤ ((dropFirst key (kb b) l).map w).sum := by
      refine ih hd.2 ?_
      intro c hc
      have hne : kb c ≠ kb b := fun e => hd.1 (e ▸ List.mem_map_of_mem hc)
      rw [first_dropFirst_ne key hne]
      exact hf c (List.mem_cons_of_mem _ hc)
    rw [List.map_cons, List.sum_cons, sum_dropFirst key w ha, hw]
    omega

end Keyed
