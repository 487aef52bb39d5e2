/-
  NvResourceController.Lib.FirstFound — what a search of a list finds first.

  - `find?_eq_iff`: two lists in which every search finds the same are, each element where
    it comes first, one list.
  - `findSome?_eq_iff`: where the values tell the elements apart, two searches come to one
    value exactly when they find one element.
-/

import Mathlib.Data.List.Nodup

namespace FirstFound

variable {α β : Type}

theorem find?_congr {l : List α} {p q : α → Bool} (h : ∀ a ∈ l, p a = q a) : l.find? p = l.find? q := by
  induction l with
  | nil => rfl
  | cons a l ih =>
    rw [List.find?_cons, List.find?_cons, h a List.mem_cons_self, ih fun b hb => h b (List.mem_cons_of_mem a hb)]

theorem find?_unique {l : List α} {p : α → Bool} {a : α} (ha : a ∈ l) (hp : p a = true)
    (h : ∀ b ∈ l, p b = true → b = a) : l.find? p = some a := by
  obtain ⟨b, hb⟩ := Option.isSome_iff_exists.mp (List.find?_isSome.mpr ⟨a, ha, hp⟩)
  rw [hb, h b (List.mem_of_find?_eq_some hb) (List.find?_some hb)]

/-- A search for less finds the same where what is found is looked for. -/
theorem find?_eq_of_imp {l : List α} {p q : α → Bool} (hqp : ∀ a, q a = true → p a = true) :
    l.find? q = l.find? p ↔ ∀ a, l.find? p = some a → q a = true := by
  induction l with
  | nil => simp
  | cons a l ih =>
    rw [List.find?_cons, List.find?_cons]
    cases hp : p a with
    | false =>
      have hq : q a = false := by
        by_contra hq
        rw [hqp a (by simpa using hq)] at hp
        cases hp
      rw [hq]
      exact ih
    | true =>
      dsimp only
      constructor
      · intro h b hb
        cases hb
        cases hq : q a with
        | true => rfl
        | false =>
          rw [hq] at h
          exact hq.symm.trans (List.find?_some h)
      · intro h
        rw [h a rfl]

section

variable [DecidableEq α]

theorem find?_eraseDups (l : List α) (p : α → Bool) : l.eraseDups.find? p = l.find? p := by
  induction hn : l.length using Nat.strongRecOn generalizing l with
  | ind n ih =>
    cases l with
    | nil => rfl
    | cons a l =>
      rw [List.eraseDups_cons, List.find?_cons, List.find?_cons]
      cases ha : p a with
      | true => rfl
      | false =>
        have hlt : (l.filter fun b => !b == a).length < n := by
          rw [← hn, List.length_cons]
          exact Nat.lt_succ_of_le (List.length_filter_le _ _)
        dsimp only
        rw [ih _ hlt _ rfl, List.find?_filter]
        -- `a` itself is not looked for
        refine find?_congr fun b _ => ?_
        by_cases hb : b = a
        · simp [hb, ha]
        · simp [hb]

theorem nodup_eraseDups (l : List α) : l.eraseDups.Nodup := by
  induction hn : l.length using Nat.strongRecOn generalizing l with
  | ind n ih =>
    cases l with
    | nil => exact List.nodup_nil
    | cons a l =>
      have hlt : (l.filter fun b => !b == a).length < n := by
        rw [← hn, List.length_cons]
        exact Nat.lt_succ_of_le (List.length_filter_le _ _)
      rw [List.eraseDups_cons]
      exact List.nodup_cons.mpr ⟨by simp, ih _ hlt _ rfl⟩

theorem eq_of_find? {l m : List α} (hl : l.Nodup) (hm : m.Nodup)
    (h : ∀ p : α → Bool, l.find? p = m.find? p) : l = m := by
  induction l generalizing m with
  | nil =>
    cases m with
    | nil => rfl
    | cons b m => cases h fun _ => true
  | cons a l ih =>
    cases m with
    | nil => cases h fun _ => true
    | cons b m =>
      cases h fun _ => true
      rw [List.nodup_cons] at hl hm
      have hrest : ∀ p : α → Bool, l.find? p = m.find? p := by
        intro p
        have hskip : ∀ l' : List α, a ∉ l' → l'.find? p = (a :: l').find? fun x => p x && !x == a := by
          intro l' ha
          rw [List.find?_cons_of_neg (by simp)]
          refine find?_congr fun x hx => ?_
          have hne : x ≠ a := fun he => ha (he ▸ hx)
          simp [hne]
        rw [hskip l hl.1, hskip m hm.1, h]
      rw [ih hl.2 hm.2 hrest]

theorem eraseDups_of_nodup {l : List α} (h : l.Nodup) : l.eraseDups = l :=
  eq_of_find? (nodup_eraseDups l) h (find?_eraseDups l)

/-- Each element counts where it comes first. -/
theorem find?_eq_iff {l m : List α} : (∀ p : α → Bool, l.find? p = m.find? p) ↔ l.eraseDups = m.eraseDups := by
  constructor
  · intro h
    refine eq_of_find? (nodup_eraseDups l) (nodup_eraseDups m) fun p => ?_
    rw [find?_eraseDups, find?_eraseDups, h]
  · intro h p
    rw [← find?_eraseDups l, ← find?_eraseDups m, h]

end

theorem findSome?_eq_find? (f : α → Option β) (l : List α) :
    l.findSome? f = (l.find? fun a => (f a).isSome).bind f := by
  induction l with
  | nil => rfl
  | cons a l ih =>
    rw [List.findSome?_cons, List.find?_cons]
    cases ha : f a with
    | some b => simp [ha]
    | none => simpa using ih

theorem findSome?_eq_iff {f : α → Option β} {l m : List α}
    (hf : ∀ a ∈ l ++ m, ∀ a' ∈ l ++ m, ∀ b, f a = some b → f a' = some b → a = a') :
    l.findSome? f = m.findSome? f ↔ (l.find? fun a => (f a).isSome) = m.find? fun a => (f a).isSome := by
  rw [findSome?_eq_find?, findSome?_eq_find?]
  constructor
  · intro h
    cases hl : l.find? fun a => (f a).isSome with
    | none =>
      cases hm : m.find? fun a => (f a).isSome with
      | none => rfl
      | some a' =>
        obtain ⟨b, hb⟩ := Option.isSome_iff_exists.mp (@List.find?_some _ (fun a => (f a).isSome) _ _ hm)
        rw [hl, hm, Option.bind_none, Option.bind_some, hb] at h
        cases h
    | some a =>
      obtain ⟨b, hb⟩ := Option.isSome_iff_exists.mp (@List.find?_some _ (fun a => (f a).isSome) _ _ hl)
      rw [hl, Option.bind_some, hb] at h
      obtain ⟨a', hm, hb'⟩ := Option.bind_eq_some_iff.mp h.symm
      rw [hm, hf a (List.mem_append_left _ (List.mem_of_find?_eq_some hl)) a'
        (List.mem_append_right _ (List.mem_of_find?_eq_some hm)) b hb hb']
  · intro h
    rw [h]

end FirstFound
