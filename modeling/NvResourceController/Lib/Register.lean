/-
  NvResourceController.Lib.Register — a register, empty at first, with two kinds of
  write: one that overwrites and one that fills the register if it is empty.

  - `after_eq`: the register holds what was overwritten last or, if nothing was, what
    was filled in first.
  - `after_agree`: so writes that agree are all read back.
-/

namespace Register

inductive Write (α : Type) where
  | overwrite (a : α)
  | fill (a : α)
  deriving DecidableEq, Repr

variable {α : Type}

def Write.value : Write α → α
  | overwrite a => a
  | fill a => a

def Write.apply (r : Option α) : Write α → Option α
  | overwrite a => some a
  | fill a => r.or (some a)

/-- The register after a list of writes, newest first. -/
def after : List (Write α) → Option α
  | [] => none
  | w :: ws => w.apply (after ws)

@[simp] theorem after_nil : after ([] : List (Write α)) = none := rfl

@[simp] theorem after_cons (w : Write α) (ws : List (Write α)) : after (w :: ws) = w.apply (after ws) := rfl

def lastOverwrite : List (Write α) → Option α
  | [] => none
  | .overwrite a :: _ => some a
  | .fill _ :: ws => lastOverwrite ws

def firstFill : List (Write α) → Option α
  | [] => none
  | .overwrite _ :: ws => firstFill ws
  | .fill a :: ws => (firstFill ws).or (some a)

theorem after_eq (ws : List (Write α)) : after ws = (lastOverwrite ws).or (firstFill ws) := by
  induction ws with
  | nil => rfl
  | cons w ws ih =>
    cases w with
    | overwrite a => rfl
    | fill a => rw [after_cons, Write.apply, ih, Option.or_assoc, lastOverwrite, firstFill]

theorem apply_ne_none (r : Option α) (w : Write α) : w.apply r ≠ none := by
  cases w with
  | overwrite a => simp [Write.apply]
  | fill a => cases r <;> simp [Write.apply]

theorem after_ne_none {ws : List (Write α)} {w : Write α} (h : w ∈ ws) : after ws ≠ none := by
  cases ws with
  | nil => cases h
  | cons v ws => exact apply_ne_none _ v

theorem after_mem {ws : List (Write α)} {a : α} (h : after ws = some a) : ∃ w ∈ ws, w.value = a := by
  induction ws with
  | nil => cases h
  | cons w ws ih =>
    cases w with
    | overwrite b =>
      cases h
      exact ⟨_, List.mem_cons_self, rfl⟩
    | fill b =>
      rw [after_cons, Write.apply] at h
      cases hr : after ws with
      | none =>
        rw [hr] at h
        cases h
        exact ⟨_, List.mem_cons_self, rfl⟩
      | some c =>
        rw [hr] at h
        cases h
        obtain ⟨v, hv, he⟩ := ih hr
        exact ⟨v, List.mem_cons_of_mem _ hv, he⟩

theorem after_agree {ws : List (Write α)} {a : α} (hne : ws ≠ []) (h : ∀ w ∈ ws, w.value = a) :
    after ws = some a := by
  obtain ⟨w, hw⟩ := List.exists_mem_of_ne_nil ws hne
  obtain ⟨b, hb⟩ := Option.ne_none_iff_exists'.mp (after_ne_none hw)
  obtain ⟨v, hv, rfl⟩ := after_mem hb
  rw [hb, h v hv]

end Register
