/-
  NvResourceController.Lib.CString — strings that end at a NUL, in buffers of a fixed
  size: what is read from a buffer, copies of bounded length, comparison.

  Reading past the end of a buffer is undefined, `none`.

  - `str_strncpy`, `str_strncpy_full`: a bounded copy is a string again only if it has
    room for the NUL.
  - `str_terminated`: with a NUL put at its last place it is the string cut short.
  - `strcmp_iff`: two buffers compare equal when both hold the same string; if each holds
    one, `strcmp_eq`, that is when they are one.
-/

import Mathlib.Data.List.TakeWhile

namespace CString

/-- What stands before the first NUL. -/
def content (buf : List UInt8) : List UInt8 := buf.takeWhile (· ≠ 0)

/-- The string a buffer holds. -/
def str (buf : List UInt8) : Option (List UInt8) := if 0 ∈ buf then some (content buf) else none

/-- `strncpy`: at most `n` bytes of the string, and NULs up to `n`. -/
def strncpy (dst src : List UInt8) (n : ℕ) : List UInt8 :=
  let copied := (content src).take n
  copied ++ List.replicate (n - copied.length) 0 ++ dst.drop n

/-- Whether `strcmp` is 0. -/
def strcmp : List UInt8 → List UInt8 → Option Bool
  | a :: as, b :: bs => if a ≠ b then some false else if a = 0 then some true else strcmp as bs
  | _, _ => none

/-- Whether `strstr` finds a string. -/
def strstr (needle : List UInt8) : List UInt8 → Bool
  | [] => needle.isEmpty
  | a :: as => needle.isPrefixOf (content (a :: as)) || (a ≠ 0 && strstr needle as)

/-- What follows the last `c`. -/
def afterLast (c : UInt8) : List UInt8 → Option (List UInt8)
  | [] => none
  | x :: xs =>
    match afterLast c xs with
    | some tail => some tail
    | none => if x = c then some xs else none

/-! ## Reading -/

@[simp] theorem content_nil : content [] = [] := rfl

@[simp] theorem content_zero (l : List UInt8) : content (0 :: l) = [] := by simp [content]

theorem content_cons {a : UInt8} (h : a ≠ 0) (l : List UInt8) : content (a :: l) = a :: content l := by
  simp [content, h]

theorem zero_not_mem_content (l : List UInt8) : 0 ∉ content l := by
  intro h
  have := List.mem_takeWhile_imp h
  simp at this

theorem content_append {s : List UInt8} (h : 0 ∉ s) (l : List UInt8) : content (s ++ l) = s ++ content l := by
  refine List.takeWhile_append_of_pos ?_
  intro x hx
  have : x ≠ 0 := fun e => h (e ▸ hx)
  simpa using this

/-- A buffer is its content and, unless that is all, a NUL and more. -/
theorem content_spec (l : List UInt8) : l = content l ∨ ∃ rest, l = content l ++ 0 :: rest := by
  induction l with
  | nil => exact Or.inl rfl
  | cons a l ih =>
    by_cases ha : a = 0
    · subst ha
      exact Or.inr ⟨l, by simp⟩
    · rw [content_cons ha]
      rcases ih with h | ⟨rest, h⟩
      · exact Or.inl (congrArg (a :: ·) h)
      · exact Or.inr ⟨rest, congrArg (a :: ·) h⟩

theorem strstr_iff {needle buf : List UInt8} : strstr needle buf = true ↔ needle <:+: content buf := by
  induction buf with
  | nil => simp [strstr]
  | cons a as ih =>
    rw [strstr, Bool.or_eq_true, List.isPrefixOf_iff_prefix]
    by_cases ha : a = 0
    · subst ha
      simp [List.infix_nil]
    · rw [content_cons ha, List.infix_cons_iff, ← ih]
      simp [ha]

theorem str_append_zero {s : List UInt8} (h : 0 ∉ s) (l : List UInt8) : str (s ++ 0 :: l) = some s := by
  rw [str, if_pos (by simp), content_append h, content_zero, List.append_nil]

/-! ## Copies -/

theorem length_strncpy {dst src : List UInt8} {n : ℕ} (h : n ≤ dst.length) :
    (strncpy dst src n).length = dst.length := by
  simp only [strncpy, List.length_append, List.length_take, List.length_replicate, List.length_drop]
  omega

theorem str_strncpy {dst src : List UInt8} {n : ℕ} (h : (content src).length < n) :
    str (strncpy dst src n) = some (content src) := by
  obtain ⟨k, rfl⟩ := Nat.exists_eq_add_of_lt h
  rw [strncpy, List.take_of_length_le (by omega),
    show (content src).length + k + 1 - (content src).length = k + 1 by omega,
    List.replicate_succ, List.append_assoc, List.cons_append]
  exact str_append_zero (zero_not_mem_content src) _

theorem str_strncpy_full {dst src : List UInt8} {n : ℕ} (h : n ≤ (content src).length) (hd : dst.length ≤ n) :
    str (strncpy dst src n) = none := by
  have hlen : ((content src).take n).length = n := List.length_take_of_le h
  rw [str, if_neg]
  simp only [strncpy, hlen, Nat.sub_self, List.replicate_zero, List.append_nil, List.drop_of_length_le hd]
  exact fun hm => zero_not_mem_content src (List.mem_of_mem_take hm)

theorem str_terminated {dst src : List UInt8} {n : ℕ} (hn : 0 < n) :
    str ((strncpy dst src n).set (n - 1) 0) = some ((content src).take (n - 1)) := by
  have hcut : 0 ∉ (content src).take (n - 1) := fun hm => zero_not_mem_content src (List.mem_of_mem_take hm)
  by_cases h : (content src).length < n - 1
  · -- the copy has a NUL before that place
    obtain ⟨k, hk⟩ := Nat.exists_eq_add_of_lt h
    rw [strncpy, List.take_of_length_le (by omega), List.take_of_length_le (by omega),
      show n - (content src).length = k + 1 + 1 by omega, List.replicate_succ, List.append_assoc, List.cons_append,
      List.set_append_right _ _ (by omega), show n - 1 - (content src).length = k + 1 by omega, List.set_cons_succ]
    exact str_append_zero (zero_not_mem_content src) _
  · have hlen : n - 1 < (strncpy dst src n).length := by
      simp only [strncpy, List.length_append, List.length_replicate, List.length_take]
      omega
    rw [List.set_eq_take_append_cons_drop, if_pos hlen]
    have htake : (strncpy dst src n).take (n - 1) = (content src).take (n - 1) := by
      rw [strncpy, List.append_assoc, List.take_append_of_le_length (by rw [List.length_take]; omega), List.take_take,
        Nat.min_eq_left (by omega)]
    rw [htake]
    exact str_append_zero hcut _

/-! ## Comparison -/

theorem str_cons {a : UInt8} (h : a ≠ 0) (l : List UInt8) : str (a :: l) = (str l).map (a :: ·) := by
  have hne : ¬ 0 = a := fun e => h e.symm
  unfold str
  rw [content_cons h]
  by_cases hl : 0 ∈ l <;> simp [hl, hne]

@[simp] theorem str_zero (l : List UInt8) : str (0 :: l) = some [] := by simp [str]

@[simp] theorem str_nil : str [] = none := rfl

theorem strcmp_iff {a b : List UInt8} : strcmp a b = some true ↔ ∃ s, str a = some s ∧ str b = some s := by
  fun_induction strcmp a b with
  | case1 a as b bs hne =>
    refine iff_of_false (by simp) fun hs => ?_
    obtain ⟨s, ha, hb⟩ := hs
    by_cases ha0 : a = 0
    · subst ha0
      rw [str_zero] at ha
      cases ha
      rw [str_cons (Ne.symm hne)] at hb
      simp at hb
    · by_cases hb0 : b = 0
      · subst hb0
        rw [str_zero] at hb
        cases hb
        rw [str_cons ha0] at ha
        simp at ha
      · rw [str_cons ha0] at ha
        rw [str_cons hb0] at hb
        obtain ⟨s₁, -, rfl⟩ := Option.map_eq_some_iff.mp ha
        obtain ⟨s₂, -, he⟩ := Option.map_eq_some_iff.mp hb
        exact hne (List.cons.inj he).1.symm
  | case2 as b bs he =>
    obtain rfl : 0 = b := by simpa using he
    exact iff_of_true rfl ⟨[], by simp⟩
  | case3 a as b bs he h0 ih =>
    obtain rfl : a = b := by simpa using he
    rw [ih, str_cons h0, str_cons h0]
    constructor
    · intro hs
      obtain ⟨s, ha, hb⟩ := hs
      exact ⟨a :: s, by rw [ha]; rfl, by rw [hb]; rfl⟩
    · intro hs
      obtain ⟨s, ha, hb⟩ := hs
      obtain ⟨s₁, ha', rfl⟩ := Option.map_eq_some_iff.mp ha
      obtain ⟨s₂, hb', he⟩ := Option.map_eq_some_iff.mp hb
      exact ⟨s₁, ha', (List.cons.inj he).2 ▸ hb'⟩
  | case4 a b hne =>
    refine iff_of_false (by simp) fun hs => ?_
    obtain ⟨s, ha, hb⟩ := hs
    cases a with
    | nil => cases ha
    | cons a as =>
      cases b with
      | nil => cases hb
      | cons b bs => exact hne _ _ _ _ rfl rfl

theorem strcmp_eq {a b s t : List UInt8} (ha : str a = some s) (hb : str b = some t) :
    strcmp a b = some (decide (s = t)) := by
  have hsome : ∃ eq, strcmp a b = some eq := by
    fun_induction strcmp a b generalizing s t with
    | case1 a as b bs hne => exact ⟨false, rfl⟩
    | case2 as b bs he => exact ⟨true, rfl⟩
    | case3 a as b bs he h0 ih =>
      obtain rfl : a = b := by simpa using he
      rw [str_cons h0] at ha hb
      obtain ⟨s', ha', -⟩ := Option.map_eq_some_iff.mp ha
      obtain ⟨t', hb', -⟩ := Option.map_eq_some_iff.mp hb
      exact ih ha' hb'
    | case4 a b hne =>
      cases a with
      | nil => cases ha
      | cons a as =>
        cases b with
        | nil => cases hb
        | cons b bs => exact absurd rfl (hne _ _ _ _ rfl)
  obtain ⟨eq, he⟩ := hsome
  have hiff : eq = true ↔ s = t := by
    rw [← Option.some_inj, ← he, strcmp_iff, ha, hb]
    simp [eq_comm]
  rw [he, Option.some_inj]
  cases eq with
  | false => exact (decide_eq_false fun h => Bool.false_ne_true (hiff.mpr h)).symm
  | true => exact (decide_eq_true (hiff.mp rfl)).symm

/-! ## The last separator -/

theorem afterLast_eq_none {c : UInt8} {l : List UInt8} : afterLast c l = none ↔ c ∉ l := by
  induction l with
  | nil => simp [afterLast]
  | cons x xs ih =>
    rw [afterLast, List.mem_cons, not_or, ← ih]
    cases afterLast c xs with
    | some tail => simp
    | none => simp [eq_comm]

theorem afterLast_append {c : UInt8} {r tail : List UInt8} (h : afterLast c r = some tail) (l : List UInt8) :
    afterLast c (l ++ r) = some tail := by
  induction l with
  | nil => exact h
  | cons x xs ih => rw [List.cons_append, afterLast, ih]

theorem afterLast_cons_self {c : UInt8} {l : List UInt8} (h : c ∉ l) : afterLast c (c :: l) = some l := by
  rw [afterLast, afterLast_eq_none.mpr h, if_pos rfl]

theorem afterLast_append_of_notMem {c : UInt8} {r : List UInt8} (h : c ∉ r) (l : List UInt8) :
    afterLast c (l ++ r) = (afterLast c l).map (· ++ r) := by
  induction l with
  | nil => exact afterLast_eq_none.mpr h
  | cons x xs ih =>
    rw [List.cons_append, afterLast, ih, afterLast]
    cases afterLast c xs with
    | some tail => rfl
    | none =>
      by_cases hx : x = c
      · simp [hx]
      · simp [hx]

theorem afterLast_suffix {c : UInt8} {l tail : List UInt8} (h : afterLast c l = some tail) : tail <:+ l := by
  induction l with
  | nil => cases h
  | cons x xs ih =>
    rw [afterLast] at h
    cases hxs : afterLast c xs with
    | some t =>
      rw [hxs] at h
      cases h
      exact (ih hxs).trans (List.suffix_cons x xs)
    | none =>
      rw [hxs] at h
      dsimp only at h
      rw [Option.ite_none_right_eq_some] at h
      rw [← Option.some.inj h.2]
      exact List.suffix_cons x xs

end CString
