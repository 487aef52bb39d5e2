/-
  NvResourceController.Lib.Critical — threads that share a state under one lock: a
  section run one access at a time, between any steps of the others, does what it does
  in one step.

  A thread is out of the sections, where its steps touch nothing shared, or inside one,
  at some statement of it. It enters when the lock is not held. A section may end with
  the lock still held; then nobody enters again.

  - `Refines`: what is to be shown of each section alone, started in any state that
    stands for an abstract one: it faults nowhere, holds the lock until its last
    statement, and ends in a state that stands for the abstract one after the section's
    abstract step.
  - `Refines.simulation`: then the threads do what the abstract ones do.
  - `Related.one_inside`: at most one thread is in a section; `Stands.free`: with the lock
    not held none is, and the shared state stands for the abstract one.
  - `Related.moves`, `finishes`: a thread in a section can take a step, and get to the
    section's end without the others.
-/

import NvResourceController.Lib.Command
import NvResourceController.Lib.Transition
import Mathlib.Logic.Function.Basic

namespace Critical

open Command

/-- Threads with states of their own beside a shared one; a step is one thread's. -/
def threads {σ κ : Type} (ι : Type) [DecidableEq ι] (init : σ → Prop) (first : κ) (step : σ → κ → σ → κ → Prop) :
    System (σ × (ι → κ)) ι where
  init p := init p.1 ∧ p.2 = fun _ => first
  step p t p' := ∃ s k, step p.1 (p.2 t) s k ∧ p' = (s, Function.update p.2 t k)

/-- The code of a thread: `ν` is where it can be outside the sections, `l` the local
    variables of a section. -/
structure Code (σ l ν : Type) where
  held : σ → Bool
  acquire : σ → σ
  /-- The section at whose lock the thread is, and its variables at the start. -/
  enter : ν → Option (Cmd (σ × l) × l)
  leave : ν → l → ν
  outside : ν → ν → Prop

inductive Local (σ l ν : Type) where
  | out (n : ν)
  | inside (n : ν) (c : Cmd (σ × l)) (x : l)

variable {ι σ l ν δ κ : Type} [DecidableEq ι]

/-- The thread has statements of its section left. -/
def Local.running : Local σ l ν → Prop
  | .out _ => False
  | .inside _ c _ => c.exit = none

namespace Code

variable (P : Code σ l ν)

inductive Step : σ → Local σ l ν → σ → Local σ l ν → Prop
  | outside {s : σ} {n n' : ν} : P.outside n n' → Step s (.out n) s (.out n')
  | enter {s : σ} {n : ν} {c : Cmd (σ × l)} {x : l} : P.enter n = some (c, x) → P.held s = false →
      Step s (.out n) (P.acquire s) (.inside n c x)
  | inside {s s' : σ} {n : ν} {c c' : Cmd (σ × l)} {x x' : l} : Command.Step c (s, x) c' (s', x') →
      Step s (.inside n c x) s' (.inside n c' x')
  | leave {s : σ} {n : ν} {c : Cmd (σ × l)} {x : l} {e : Cmd.Exit} : c.exit = some e →
      Step s (.inside n c x) s (.out (P.leave n x))

/-- The abstract place of a thread: a section happens when its last statement does. -/
def place (a : ν → κ) : Local σ l ν → κ
  | .out n => a n
  | .inside n c x => if c.exit = none then a n else a (P.leave n x)

end Code

/-- The sections do in many steps what `abstract` does in one. -/
structure Refines (P : Code σ l ν) (abstract : δ → κ → δ → κ → Prop) (R : σ → δ → Prop) (a : ν → κ) : Prop where
  outside : ∀ {n n'}, P.outside n n' → a n' = a n ∨ ∀ d, abstract d (a n) d (a n')
  starts : ∀ {n c x}, P.enter n = some (c, x) → c.exit = none
  section_ends : ∀ {n c x s d}, P.enter n = some (c, x) → P.held s = false → R s d →
    Ends (fun p => P.held p.1 = true) (fun _ p => ∃ d', abstract d (a n) d' (a (P.leave n p.2)) ∧ R p.1 d')
      c (P.acquire s, x)

variable {P : Code σ l ν} {abstract : δ → κ → δ → κ → Prop} {R : σ → δ → Prop} {a : ν → κ}

/-- The thread is inside a section that is as good as done: from `d`, whatever its
    statements choose. -/
def Midway (P : Code σ l ν) (abstract : δ → κ → δ → κ → Prop) (R : σ → δ → Prop) (a : ν → κ) (s : σ) (d : δ) :
    Local σ l ν → Prop
  | .out _ => False
  | .inside n c x => c.exit = none ∧
      Ends (fun p => P.held p.1 = true) (fun _ p => ∃ d', abstract d (a n) d' (a (P.leave n p.2)) ∧ R p.1 d') c (s, x)

theorem Midway.running {s : σ} {d : δ} {k : Local σ l ν} (h : Midway P abstract R a s d k) : k.running := by
  cases k with
  | out n => exact h
  | inside n c x => exact h.1

theorem Midway.held {s : σ} {d : δ} {k : Local σ l ν} (h : Midway P abstract R a s d k) : P.held s = true := by
  cases k with
  | out n => exact h.elim
  | inside n c x => exact (h.2.running h.1).1

/-- Either nobody is in a section and the shared state stands for the abstract one, or
    one thread is, and will make it so. -/
def Stands (P : Code σ l ν) (abstract : δ → κ → δ → κ → Prop) (R : σ → δ → Prop) (a : ν → κ) (s : σ) (d : δ)
    (th : ι → Local σ l ν) : Prop :=
  (R s d ∧ ∀ t, ¬ (th t).running) ∨ ∃ t, Midway P abstract R a s d (th t) ∧ ∀ u, u ≠ t → ¬ (th u).running

structure Related (P : Code σ l ν) (abstract : δ → κ → δ → κ → Prop) (R : σ → δ → Prop) (a : ν → κ)
    (p : σ × (ι → Local σ l ν)) (q : δ × (ι → κ)) : Prop where
  place : ∀ t, q.2 t = P.place a (p.2 t)
  stands : Stands P abstract R a p.1 q.1 p.2

section
variable {s : σ} {d : δ} {th : ι → Local σ l ν} {t : ι} {k : Local σ l ν}

theorem running_update (hk : ¬ k.running) {u : ι} (hu : ¬ (th u).running) :
    ¬ (Function.update th t k u).running := by
  by_cases h : u = t
  · subst h
    rwa [Function.update_self]
  · rwa [Function.update_of_ne h]

theorem Stands.idle_move (h : Stands P abstract R a s d th) (ht : ¬ (th t).running) (hk : ¬ k.running) :
    Stands P abstract R a s d (Function.update th t k) := by
  rcases h with ⟨hr, hno⟩ | ⟨u, hu, hno⟩
  · exact .inl ⟨hr, fun v => running_update hk (hno v)⟩
  · have hut : u ≠ t := fun e => ht (e ▸ hu.running)
    refine .inr ⟨u, by rwa [Function.update_of_ne hut], fun v hv => running_update hk (hno v hv)⟩

omit [DecidableEq ι] in
theorem Stands.free (h : Stands P abstract R a s d th) (hs : P.held s = false) :
    R s d ∧ ∀ t, ¬ (th t).running := by
  rcases h with h | ⟨u, hu, -⟩
  · exact h
  · rw [hu.held] at hs
    cases hs

omit [DecidableEq ι] in
theorem Stands.midway (h : Stands P abstract R a s d th) (ht : (th t).running) :
    Midway P abstract R a s d (th t) ∧ ∀ u, u ≠ t → ¬ (th u).running := by
  rcases h with ⟨-, hno⟩ | ⟨u, hu, hno⟩
  · exact absurd ht (hno t)
  · have hut : u = t := by_contra fun e => hno t (Ne.symm e) ht
    exact hut ▸ ⟨hu, hno⟩

omit [DecidableEq ι] in
theorem place_running {n : ν} {c : Cmd (σ × l)} {x : l} (hc : c.exit = none) : P.place a (.inside n c x) = a n :=
  if_pos hc

omit [DecidableEq ι] in
theorem place_stopped {n : ν} {c : Cmd (σ × l)} {x : l} {e : Cmd.Exit} (hc : c.exit = some e) :
    P.place a (.inside n c x) = a (P.leave n x) := by
  simp [Code.place, hc]

end

section
variable {s s' : σ} {d : δ} {th : ι → Local σ l ν} {ks : ι → κ} {t : ι} {n n' : ν} {c c' : Cmd (σ × l)} {x x' : l}
  {init' : δ → Prop} {k0 : κ}

theorem place_update {k : Local σ l ν} (h : ∀ u, ks u = P.place a (th u)) (u : ι) :
    Function.update ks t (P.place a k) u = P.place a (Function.update th t k u) := by
  by_cases hu : u = t
  · subst hu
    simp
  · simp [Function.update_of_ne hu, h u]

theorem place_same {k : Local σ l ν} (h : ∀ u, ks u = P.place a (th u)) (hk : P.place a k = P.place a (th t)) (u : ι) :
    ks u = P.place a (Function.update th t k u) := by
  have hsame := place_update (t := t) (k := k) h u
  rwa [hk, ← h t, Function.update_eq_self] at hsame

/-! ### One lemma for each kind of step -/

variable (h : Related P abstract R a (s, th) (d, ks))
include h

theorem Related.step_outside (hR : Refines P abstract R a) (ht : th t = .out n) (hout : P.outside n n') :
    ∃ q', (q' = (d, ks) ∨ (threads ι init' k0 abstract).step (d, ks) t q') ∧
      Related P abstract R a (s, Function.update th t (.out n')) q' := by
  have hst : Stands P abstract R a s d (Function.update th t (.out n')) :=
    h.stands.idle_move (show ¬ (th t).running by rw [ht]; exact id) id
  have hat : ks t = a n := by
    have := h.place t
    rwa [show (s, th).2 t = .out n from ht] at this
  rcases hR.outside hout with hsame | habs
  · exact ⟨_, .inl rfl, place_same h.place (by rw [ht]; exact hsame), hst⟩
  · refine ⟨(d, Function.update ks t (a n')), .inr ⟨d, a n', ?_, rfl⟩, place_update (t := t) (k := .out n') h.place,
      hst⟩
    rw [show (d, ks).2 t = a n from hat]
    exact habs d

theorem Related.step_enter (hR : Refines P abstract R a) (ht : th t = .out n) (henter : P.enter n = some (c, x))
    (hheld : P.held s = false) :
    Related P abstract R a (P.acquire s, Function.update th t (.inside n c x)) (d, ks) := by
  obtain ⟨hr, hno⟩ := h.stands.free hheld
  have hc := hR.starts henter
  refine ⟨place_same h.place ?_, .inr ⟨t, ?_, fun u hu => ?_⟩⟩
  · rw [ht, place_running hc]
    rfl
  · show Midway P abstract R a (P.acquire s) d (Function.update th t (.inside n c x) t)
    rw [Function.update_self]
    exact ⟨hc, hR.section_ends henter hheld hr⟩
  · show ¬ (Function.update th t (.inside n c x) u).running
    rw [Function.update_of_ne hu]
    exact hno u

theorem Related.step_inside (ht : th t = .inside n c x) (hstep : Command.Step c (s, x) c' (s', x')) :
    ∃ q', (q' = (d, ks) ∨ (threads ι init' k0 abstract).step (d, ks) t q') ∧
      Related P abstract R a (s', Function.update th t (.inside n c' x')) q' := by
  have hc : c.exit = none := by
    cases hstep <;> rfl
  have hrun : (th t).running := by
    rw [ht]
    exact hc
  have hat : ks t = a n := by
    have := h.place t
    rwa [show (s, th).2 t = .inside n c x from ht, place_running hc] at this
  obtain ⟨hmid, hno⟩ := h.stands.midway hrun
  rw [show (s, th).2 t = .inside n c x from ht] at hmid
  have hnext := (hmid.2.running hmid.1).2.2 _ _ hstep
  have hothers : ∀ u, u ≠ t → ¬ (Function.update th t (.inside n c' x') u).running := by
    intro u hu
    rw [Function.update_of_ne hu]
    exact hno u hu
  cases he : c'.exit with
  | none =>
    refine ⟨_, .inl rfl, place_same h.place ?_, .inr ⟨t, ?_, hothers⟩⟩
    · rw [ht, place_running he, place_running hc]
    · show Midway P abstract R a s' d (Function.update th t (.inside n c' x') t)
      rw [Function.update_self]
      exact ⟨he, hnext⟩
  | some e =>
    -- the last statement is the section's abstract step
    obtain ⟨d', habs, hr'⟩ := hnext.stopped he
    refine ⟨(d', Function.update ks t (a (P.leave n x'))), .inr ⟨d', _, ?_, rfl⟩, fun u => ?_,
      .inl ⟨hr', fun u => ?_⟩⟩
    · rw [show (d, ks).2 t = a n from hat]
      exact habs
    · have hu := place_update (t := t) (k := .inside n c' x') h.place u
      rwa [place_stopped he] at hu
    · show ¬ (Function.update th t (.inside n c' x') u).running
      by_cases hu : u = t
      · subst hu
        rw [Function.update_self]
        simp [Local.running, he]
      · exact hothers u hu

theorem Related.step_leave {e : Cmd.Exit} (ht : th t = .inside n c x) (he : c.exit = some e) :
    Related P abstract R a (s, Function.update th t (.out (P.leave n x))) (d, ks) := by
  have hnot : ¬ (th t).running := by
    rw [ht]
    simp [Local.running, he]
  refine ⟨place_same h.place ?_, h.stands.idle_move hnot id⟩
  rw [ht, place_stopped he]
  rfl

omit [DecidableEq ι] in
theorem Related.one_inside {t u : ι} (ht : (th t).running) (hu : (th u).running) : t = u := by
  obtain ⟨-, hno⟩ := h.stands.midway ht
  exact by_contra fun e => hno u (Ne.symm e) hu

omit [DecidableEq ι] in
theorem Related.moves (ht : th t = .inside n c x) (hc : c.exit = none) :
    P.held s = true ∧ ∃ c' s' x', Command.Step c (s, x) c' (s', x') := by
  have hrun : (th t).running := by
    rw [ht]
    exact hc
  have hmid := (h.stands.midway hrun).1
  rw [show (s, th).2 t = .inside n c x from ht] at hmid
  obtain ⟨hheld, ⟨c', p', hstep⟩, -⟩ := hmid.2.running hc
  exact ⟨hheld, c', p'.1, p'.2, hstep⟩

end

/-- A step of a thread is one of the abstract thread's, or none. -/
theorem Refines.step {init : σ → Prop} {init' : δ → Prop} {n0 : ν} {k0 : κ} (hR : Refines P abstract R a) {t : ι}
    {p p' : σ × (ι → Local σ l ν)} {q : δ × (ι → κ)} (hrel : Related P abstract R a p q)
    (hstep : (threads ι init (.out n0) P.Step).step p t p') :
    ∃ q', (q' = q ∨ (threads ι init' k0 abstract).step q t q') ∧ Related P abstract R a p' q' := by
  obtain ⟨s, th⟩ := p
  obtain ⟨d, ks⟩ := q
  obtain ⟨s', k, hstep, rfl⟩ := hstep
  dsimp only at hstep
  generalize hk : th t = k0 at hstep
  cases hstep with
  | outside hout => exact hrel.step_outside hR hk hout
  | enter henter hheld => exact ⟨_, .inl rfl, hrel.step_enter hR hk henter hheld⟩
  | inside hc => exact hrel.step_inside hk hc
  | leave he => exact ⟨_, .inl rfl, hrel.step_leave hk he⟩

theorem Refines.simulation {init : σ → Prop} {init' : δ → Prop} {n0 : ν} (hR : Refines P abstract R a)
    (h0 : ∀ s, init s → ∃ d, init' d ∧ R s d) :
    System.Simulation (threads ι init (.out n0) P.Step) (threads ι init' (a n0) abstract) (Related P abstract R a) where
  init := by
    intro p hp
    obtain ⟨s, th⟩ := p
    obtain ⟨hs, hth⟩ := hp
    obtain ⟨d, hd, hr⟩ := h0 s hs
    obtain rfl : th = fun _ => .out n0 := hth
    exact ⟨(d, fun _ => a n0), ⟨hd, rfl⟩, fun _ => rfl, .inl ⟨hr, fun _ => id⟩⟩
  step := by
    intro p t p' q hrel hstep
    obtain ⟨q', hq, hrel'⟩ := hR.step hrel hstep
    rcases hq with rfl | hq
    · exact ⟨[], _, .nil _, hrel'⟩
    · exact ⟨[t], _, .cons hq (.nil _), hrel'⟩

theorem finishes {init : σ → Prop} {n0 : ν} {Q : Cmd.Exit → σ × l → Prop} {I : σ × l → Prop} {th : ι → Local σ l ν}
    {t : ι} {n : ν} {c : Cmd (σ × l)} {s : σ} {x : l} (h : Ends I Q c (s, x)) (ht : th t = .inside n c x) :
    ∃ ts s' c' x' e, (threads ι init (.out n0) P.Step).Run (s, th) ts (s', Function.update th t (.inside n c' x')) ∧
      c'.exit = some e ∧ Q e (s', x') := by
  generalize hp : (s, x) = p at h
  induction h generalizing s x th with
  | @stop c p e he hq =>
    subst hp
    refine ⟨[], s, c, x, e, ?_, he, hq⟩
    rw [← ht, Function.update_eq_self]
    exact .nil _
  | @step c p hc hi hex hall ih =>
    subst hp
    obtain ⟨c', p', hstep⟩ := hex
    have hself : Function.update th t (.inside n c' p'.2) t = .inside n c' p'.2 := Function.update_self ..
    obtain ⟨ts, s', c'', x', e, hrun, he, hq⟩ := ih c' p' hstep hself rfl
    rw [Function.update_idem] at hrun
    refine ⟨t :: ts, s', c'', x', e, .cons ⟨p'.1, .inside n c' p'.2, ?_, rfl⟩ hrun, he, hq⟩
    show P.Step s (th t) p'.1 (.inside n c' p'.2)
    rw [ht]
    exact .inside hstep

section
variable {init : σ → Prop} {n0 n : ν} {s : σ} {d : δ} {th : ι → Local σ l ν} {ks : ι → κ} {t : ι} {c : Cmd (σ × l)} {x : l}

/-- From anywhere the thread that is in a section, if one is, can be brought to its end. -/
theorem Related.settles (h : Related P abstract R a (s, th) (d, ks)) :
    ∃ ts s' th', (threads ι init (.out n0) P.Step).Run (s, th) ts (s', th') ∧ ∀ u, ¬ (th' u).running := by
  rcases h.stands with ⟨-, hno⟩ | ⟨u, hu, hno⟩
  · exact ⟨[], s, th, .nil _, hno⟩
  · cases hk : th u with
    | out n =>
      rw [show (s, th).2 u = .out n from hk] at hu
      exact hu.elim
    | inside n c x =>
      rw [show (s, th).2 u = .inside n c x from hk] at hu
      obtain ⟨ts, s', c', x', e, hrun, he, -⟩ := finishes hu.2 hk
      refine ⟨ts, s', _, hrun, fun v => ?_⟩
      by_cases hv : v = u
      · subst hv
        rw [Function.update_self]
        simp [Local.running, he]
      · rw [Function.update_of_ne hv]
        exact hno v hv

theorem Related.through (h : Related P abstract R a (s, th) (d, ks)) (hR : Refines P abstract R a) (ht : th t = .out n)
    (henter : P.enter n = some (c, x)) (hheld : P.held s = false) :
    ∃ ts s' x', (threads ι init (.out n0) P.Step).Run (s, th) ts (s', Function.update th t (.out (P.leave n x'))) := by
  have hends := hR.section_ends henter hheld (h.stands.free hheld).1
  have hself : Function.update th t (.inside n c x) t = .inside n c x := Function.update_self ..
  obtain ⟨ts, s', c', x', e, hrun, he, -⟩ := finishes hends hself
  rw [Function.update_idem] at hrun
  have hin : (threads ι init (.out n0) P.Step).step (s, th) t (P.acquire s, Function.update th t (.inside n c x)) := by
    refine ⟨_, .inside n c x, ?_, rfl⟩
    show P.Step s (th t) _ _
    rw [ht]
    exact .enter henter hheld
  have hout : (threads ι init (.out n0) P.Step).step (s', Function.update th t (.inside n c' x')) t
      (s', Function.update th t (.out (P.leave n x'))) := by
    refine ⟨s', .out (P.leave n x'), ?_, by rw [Function.update_idem]⟩
    show P.Step s' (Function.update th t (.inside n c' x') t) _ _
    rw [Function.update_self]
    exact .leave he
  exact ⟨t :: ts ++ [t], s', x', (System.Run.cons hin hrun).snoc hout⟩

end

end Critical
