/-
  NvResourceController.Lib.Transition — labelled transition systems: what their runs
  reach, the invariant rule, runs all of whose steps meet a condition, and simulation.

  - `Reach.inv`: what holds initially and survives every step holds in every reachable
    state; `Run.inv` is the same along one run from any state, and `Run.fold` with a
    summary of the labels so far beside the state.
  - `restrict`: the system whose steps all meet a condition. Its reachable states are
    reachable (`Reach.of_restrict`), and a theorem about them is a theorem about the
    runs that keep to the condition.
  - `recording`: the system with the list of what its steps put out; each run of the
    system has its record (`Run.recorded`).
  - `tracking`: the system with a summary of its steps so far; it reaches what the system
    does (`Reach.tracked`).
  - `Simulation`: every step of one system is matched by a run of another; so an
    invariant of the other system is one of this (`Simulation.transfer`).
-/

/-- Initial states and labelled steps. -/
structure System (σ ε : Type) where
  init : σ → Prop
  step : σ → ε → σ → Prop

namespace System

variable {σ ε : Type} {S : System σ ε}

/-- The states a run of the system reaches. -/
inductive Reach (S : System σ ε) : σ → Prop
  | init {s : σ} : S.init s → Reach S s
  | step {s s' : σ} {e : ε} : Reach S s → S.step s e s' → Reach S s'

/-- The runs from one state to another, by the labels of their steps. -/
inductive Run (S : System σ ε) : σ → List ε → σ → Prop
  | nil (s : σ) : Run S s [] s
  | cons {s t u : σ} {e : ε} {es : List ε} : S.step s e t → Run S t es u → Run S s (e :: es) u

theorem Reach.inv {I : σ → Prop} (h0 : ∀ s, S.init s → I s) (hs : ∀ s e s', I s → S.step s e s' → I s')
    {s : σ} (h : S.Reach s) : I s := by
  induction h with
  | init hi => exact h0 _ hi
  | step _ hstep ih => exact hs _ _ _ ih hstep

theorem Run.inv {I : σ → Prop} (hs : ∀ s e s', I s → S.step s e s' → I s') {s t : σ} {es : List ε}
    (h : S.Run s es t) (h0 : I s) : I t := by
  induction h with
  | nil => exact h0
  | cons hstep _ ih => exact ih (hs _ _ _ h0 hstep)

theorem Run.fold {τ : Type} {f : τ → ε → τ} {I : σ → τ → Prop}
    (hs : ∀ s x e s', I s x → S.step s e s' → I s' (f x e)) {s t : σ} {es : List ε} (h : S.Run s es t)
    {x : τ} (h0 : I s x) : I t (es.foldl f x) := by
  induction h generalizing x with
  | nil => exact h0
  | cons hstep _ ih => exact ih (hs _ _ _ _ h0 hstep)

theorem Run.snoc {s t u : σ} {es : List ε} {e : ε} (h : S.Run s es t) (hstep : S.step t e u) :
    S.Run s (es ++ [e]) u := by
  induction h with
  | nil => exact .cons hstep (.nil _)
  | cons hfirst _ ih => exact .cons hfirst (ih hstep)

theorem Run.append {s t u : σ} {es ds : List ε} (h : S.Run s es t) (hrest : S.Run t ds u) : S.Run s (es ++ ds) u := by
  induction h with
  | nil => exact hrest
  | cons hfirst _ ih => exact .cons hfirst (ih hrest)

theorem Reach.run {s t : σ} {es : List ε} (hs : S.Reach s) (h : S.Run s es t) : S.Reach t := by
  induction h with
  | nil => exact hs
  | cons hstep _ ih => exact ih (hs.step hstep)

/-- The runs whose every step meets `ok`. -/
def restrict (S : System σ ε) (ok : σ → ε → Prop) : System σ ε :=
  { S with step := fun s e s' => ok s e ∧ S.step s e s' }

theorem Reach.of_restrict {ok : σ → ε → Prop} {s : σ} (h : (S.restrict ok).Reach s) : S.Reach s := by
  induction h with
  | init hi => exact .init hi
  | step _ hstep ih => exact ih.step hstep.2

/-- The system, with what its steps put out so far. -/
def recording {α : Type} (S : System σ ε) (out : σ → ε → List α) : System (σ × List α) ε where
  init x := S.init x.1 ∧ x.2 = []
  step x e x' := S.step x.1 e x'.1 ∧ x'.2 = x.2 ++ out x.1 e

theorem Run.recorded {α : Type} (out : σ → ε → List α) {s t : σ} {es : List ε} (h : S.Run s es t) (l : List α) :
    ∃ l', (S.recording out).Run (s, l) es (t, l') := by
  induction h generalizing l with
  | nil s => exact ⟨l, .nil _⟩
  | @cons s _ _ e _ hstep _ ih =>
    obtain ⟨l', hrun⟩ := ih (l ++ out s e)
    exact ⟨l', .cons ⟨hstep, rfl⟩ hrun⟩

/-- The system, with a summary of its steps so far. -/
def tracking {τ : Type} (S : System σ ε) (x0 : τ) (f : τ → σ → ε → τ) : System (σ × τ) ε where
  init p := S.init p.1 ∧ p.2 = x0
  step p e p' := S.step p.1 e p'.1 ∧ p'.2 = f p.2 p.1 e

theorem Reach.tracked {τ : Type} {x0 : τ} {f : τ → σ → ε → τ} {s : σ} (h : S.Reach s) :
    ∃ x, (S.tracking x0 f).Reach (s, x) := by
  induction h with
  | init hi => exact ⟨x0, .init ⟨hi, rfl⟩⟩
  | step _ hstep ih =>
    obtain ⟨x, hx⟩ := ih
    exact ⟨_, hx.step ⟨hstep, rfl⟩⟩

/-- Every step of `S` is matched, under `R`, by a run of `A`. -/
structure Simulation {α δ : Type} (S : System σ ε) (A : System α δ) (R : σ → α → Prop) : Prop where
  init : ∀ s, S.init s → ∃ a, A.init a ∧ R s a
  step : ∀ s e s' a, R s a → S.step s e s' → ∃ ds a', A.Run a ds a' ∧ R s' a'

theorem Simulation.transfer {α δ : Type} {A : System α δ} {R : σ → α → Prop} (hR : Simulation S A R)
    {s : σ} (h : S.Reach s) : ∃ a, A.Reach a ∧ R s a := by
  induction h with
  | init hi =>
    obtain ⟨a, ha, hr⟩ := hR.init _ hi
    exact ⟨a, .init ha, hr⟩
  | step _ hstep ih =>
    obtain ⟨a, ha, hr⟩ := ih
    obtain ⟨ds, a', hrun, hr'⟩ := hR.step _ _ _ _ hr hstep
    exact ⟨a', ha.run hrun, hr'⟩

end System
