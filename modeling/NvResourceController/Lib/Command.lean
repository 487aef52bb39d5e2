/-
  NvResourceController.Lib.Command — statements of one thread, one shared access a step.

  A statement is a relation between the states before and after it; one that relates a
  state to nothing faults there. `scope c body` is an iteration of `for (;;) body` of
  which `c` is left, and `brk` leaves the innermost one.

  `Ends I Q c s`: from `s` the command `c` takes no faulting step, stops after finitely
  many whatever its statements choose, keeps `I` true until it stops, and stops in `Q`.

  - `Ends.seq`, `Ends.scope`, `Ends.loop`: the rules of the constructs; `Ends.exec`,
    `Ends.test`: of a statement that is a function and of a test.
  - `Ends.mono`: the rule of consequence.
  - `Ends.zoom`: what a command does to a part of the state, it does to the whole.
-/

namespace Command

variable {S : Type}

inductive Cmd (S : Type) where
  | skip
  | brk
  | act (r : S → S → Prop)
  | seq (c d : Cmd S)
  /-- A test that reads what is not there faults. -/
  | ite (b : S → Option Bool) (c d : Cmd S)
  | scope (c body : Cmd S)

namespace Cmd

/-- `for (;;) body`. -/
def loop (body : Cmd S) : Cmd S := scope body body

/-- A statement that is a function of the state, where it does not fault. -/
def exec (f : S → Option S) : Cmd S := act fun s s' => f s = some s'

/-- `if (b) c`. -/
def when (b : S → Option Bool) (c : Cmd S) : Cmd S := ite b c skip

/-- Statements one after the other. -/
def block : List (Cmd S) → Cmd S
  | [] => skip
  | [c] => c
  | c :: cs => seq c (block cs)

/-- What is left of `c; d` when `c` is left of the first. -/
def next : Cmd S → Cmd S → Cmd S
  | skip, d => d
  | brk, _ => brk
  | c, d => seq c d

/-- What is left of the loop when `c` is left of the iteration. -/
def again : Cmd S → Cmd S → Cmd S
  | skip, body => scope body body
  | brk, _ => skip
  | c, body => scope c body

/-- How a command that has stopped was left. -/
inductive Exit where
  | fell
  | broke
  deriving DecidableEq

def exit : Cmd S → Option Exit
  | skip => some .fell
  | brk => some .broke
  | _ => none

theorem exit_fell {c : Cmd S} (h : c.exit = some .fell) : c = skip := by
  cases c <;> simp_all [exit]

theorem exit_broke {c : Cmd S} (h : c.exit = some .broke) : c = brk := by
  cases c <;> simp_all [exit]

theorem next_running {c : Cmd S} (h : c.exit = none) (d : Cmd S) : c.next d = seq c d := by
  cases c <;> simp_all [exit, next]

theorem again_running {c : Cmd S} (h : c.exit = none) (body : Cmd S) : c.again body = scope c body := by
  cases c <;> simp_all [exit, again]

end Cmd

open Cmd

/-- One statement. -/
inductive Step : Cmd S → S → Cmd S → S → Prop
  | act {r : S → S → Prop} {s s' : S} : r s s' → Step (.act r) s .skip s'
  | ite {b : S → Option Bool} {c d : Cmd S} {s : S} {v : Bool} :
      b s = some v → Step (.ite b c d) s (if v then c else d) s
  | seq {c c' d : Cmd S} {s s' : S} : Step c s c' s' → Step (.seq c d) s (c'.next d) s'
  | scope {c c' body : Cmd S} {s s' : S} : Step c s c' s' → Step (.scope c body) s (c'.again body) s'

/-! ## Ending without a fault -/

inductive Ends (I : S → Prop) (Q : Exit → S → Prop) : Cmd S → S → Prop
  | stop {c : Cmd S} {s : S} {e : Exit} : c.exit = some e → Q e s → Ends I Q c s
  | step {c : Cmd S} {s : S} : c.exit = none → I s → (∃ c' s', Step c s c' s') →
      (∀ c' s', Step c s c' s' → Ends I Q c' s') → Ends I Q c s

/-- What a statement list that was left by falling off its end goes on to, and what it
    leaves with when it was broken out of. -/
def Then (k : S → Prop) (broke : S → Prop) : Exit → S → Prop
  | .fell, s => k s
  | .broke, s => broke s

namespace Ends

variable {I J : S → Prop} {Q Q' : Exit → S → Prop} {c d body : Cmd S} {s s' : S}

theorem stopped {e : Exit} (h : Ends I Q c s) (he : c.exit = some e) : Q e s := by
  cases h with
  | stop he' hq =>
    rw [he] at he'
    cases he'
    exact hq
  | step hn =>
    rw [he] at hn
    cases hn

theorem running (h : Ends I Q c s) (hc : c.exit = none) :
    I s ∧ (∃ c' s', Step c s c' s') ∧ ∀ c' s', Step c s c' s' → Ends I Q c' s' := by
  cases h with
  | stop he =>
    rw [hc] at he
    cases he
  | step _ hi hex hall => exact ⟨hi, hex, hall⟩

theorem mono (h : Ends I Q c s) (hi : ∀ s, I s → J s) (hq : ∀ e s, Q e s → Q' e s) : Ends J Q' c s := by
  induction h with
  | stop he hs => exact .stop he (hq _ _ hs)
  | step hc hs hex _ ih => exact .step hc (hi _ hs) hex ih

theorem skip (h : Q .fell s) : Ends I Q .skip s := .stop rfl h

theorem brk (h : Q .broke s) : Ends I Q .brk s := .stop rfl h

theorem act {r : S → S → Prop} (hi : I s) (hex : ∃ s', r s s') (hall : ∀ s', r s s' → Q .fell s') :
    Ends I Q (.act r) s := by
  obtain ⟨s', hs'⟩ := hex
  refine .step rfl hi ⟨_, _, .act hs'⟩ fun c' t hstep => ?_
  cases hstep with
  | act hr => exact skip (hall _ hr)

theorem exec {f : S → Option S} (hi : I s) (hf : f s = some s') (h : Q .fell s') : Ends I Q (.exec f) s := by
  refine act hi ⟨s', hf⟩ fun t ht => ?_
  rw [hf] at ht
  cases ht
  exact h

theorem test {b : S → Option Bool} {v : Bool} (hi : I s) (hb : b s = some v)
    (h : Ends I Q (if v then c else d) s) : Ends I Q (.ite b c d) s := by
  refine .step rfl hi ⟨_, _, .ite hb⟩ fun c' t hstep => ?_
  cases hstep with
  | ite hv =>
    rw [hb] at hv
    cases hv
    exact h

theorem next (h : Ends I (Then (Ends I Q d) (Q .broke)) c s) : Ends I Q (c.next d) s := by
  induction h with
  | @stop c s e he hs =>
    cases e with
    | fell =>
      rw [exit_fell he]
      exact hs
    | broke =>
      rw [exit_broke he]
      exact brk hs
  | @step c s hc hi hex _ ih =>
    rw [next_running hc]
    obtain ⟨c', s', hstep⟩ := hex
    refine .step rfl hi ⟨_, _, .seq hstep⟩ fun c'' t hseq => ?_
    cases hseq with
    | seq hfirst => exact ih _ _ hfirst

theorem seq (hc : c.exit = none) (h : Ends I (Then (Ends I Q d) (Q .broke)) c s) : Ends I Q (.seq c d) s := by
  rw [← next_running hc]
  exact next h

theorem again (h : Ends I (Then (Ends I Q (loop body)) (Q .fell)) c s) : Ends I Q (c.again body) s := by
  induction h with
  | @stop c s e he hs =>
    cases e with
    | fell =>
      rw [exit_fell he]
      exact hs
    | broke =>
      rw [exit_broke he]
      exact skip hs
  | @step c s hc hi hex _ ih =>
    rw [again_running hc]
    obtain ⟨c', s', hstep⟩ := hex
    refine .step rfl hi ⟨_, _, .scope hstep⟩ fun c'' t hscope => ?_
    cases hscope with
    | scope hfirst => exact ih _ _ hfirst

theorem loop (hb : body.exit = none) (h : Ends I (Then (Ends I Q (loop body)) (Q .fell)) body s) :
    Ends I Q (loop body) s := by
  unfold Cmd.loop
  rw [← again_running hb]
  exact again h

/-! ### Statements in a row -/

theorem exec_seq {f : S → Option S} (hi : I s) (hf : f s = some s') (h : Ends I Q d s') :
    Ends I Q (.seq (.exec f) d) s := seq rfl (exec hi hf h)

theorem act_seq {r : S → S → Prop} (hi : I s) (hex : ∃ s', r s s') (hall : ∀ s', r s s' → Ends I Q d s') :
    Ends I Q (.seq (.act r) d) s := seq rfl (act hi hex hall)

theorem test_seq {b : S → Option Bool} {c₁ c₂ : Cmd S} {v : Bool} (hi : I s) (hb : b s = some v)
    (h : Ends I (Then (Ends I Q d) (Q .broke)) (if v then c₁ else c₂) s) : Ends I Q (.seq (.ite b c₁ c₂) d) s :=
  seq rfl (test hi hb h)

end Ends

/-! ## A part of the state -/

/-- A part that can be read and replaced. -/
structure Part (S T : Type) where
  get : S → T
  put : S → T → S
  get_put : ∀ s t, get (put s t) = t
  put_get : ∀ s, put s (get s) = s
  put_put : ∀ s t u, put (put s t) u = put s u

namespace Part

variable {T : Type}

/-- The command on the whole that does `c` to the part. -/
def zoom (P : Part S T) : Cmd T → Cmd S
  | .skip => .skip
  | .brk => .brk
  | .act r => .act fun s s' => ∃ t, r (P.get s) t ∧ s' = P.put s t
  | .seq c d => .seq (P.zoom c) (P.zoom d)
  | .ite b c d => .ite (fun s => b (P.get s)) (P.zoom c) (P.zoom d)
  | .scope c body => .scope (P.zoom c) (P.zoom body)

variable (P : Part S T)

theorem zoom_exit (c : Cmd T) : (P.zoom c).exit = c.exit := by
  cases c <;> rfl

theorem zoom_next (c d : Cmd T) : P.zoom (c.next d) = (P.zoom c).next (P.zoom d) := by
  cases c <;> rfl

theorem zoom_again (c body : Cmd T) : P.zoom (c.again body) = (P.zoom c).again (P.zoom body) := by
  cases c <;> rfl

theorem zoom_step {c c' : Cmd T} {s : S} {t : T} (h : Step c (P.get s) c' t) :
    Step (P.zoom c) s (P.zoom c') (P.put s t) := by
  generalize hg : P.get s = g at h
  induction h with
  | act hr => exact .act ⟨_, hg ▸ hr, rfl⟩
  | @ite b c d g v hb =>
    subst hg
    rw [P.put_get, apply_ite P.zoom]
    exact .ite hb
  | seq _ ih =>
    rw [zoom_next]
    exact .seq (ih hg)
  | scope _ ih =>
    rw [zoom_again]
    exact .scope (ih hg)

theorem zoom_step_inv {c : Cmd T} {d : Cmd S} {s s' : S} (h : Step (P.zoom c) s d s') :
    ∃ c' t, Step c (P.get s) c' t ∧ d = P.zoom c' ∧ s' = P.put s t := by
  induction c generalizing d s' with
  | skip => cases h
  | brk => cases h
  | act r =>
    cases h with
    | act hr =>
      obtain ⟨t, hr, rfl⟩ := hr
      exact ⟨_, t, .act hr, rfl, rfl⟩
  | seq c₁ c₂ ih =>
    cases h with
    | seq hfirst =>
      obtain ⟨c', t, hstep, rfl, rfl⟩ := ih hfirst
      exact ⟨_, t, .seq hstep, (P.zoom_next _ _).symm, rfl⟩
  | ite b c₁ c₂ =>
    cases h with
    | ite hb => exact ⟨_, _, .ite hb, (apply_ite P.zoom _ _ _).symm, (P.put_get _).symm⟩
  | scope c₁ body ih =>
    cases h with
    | scope hfirst =>
      obtain ⟨c', t, hstep, rfl, rfl⟩ := ih hfirst
      exact ⟨_, t, .scope hstep, (P.zoom_again _ _).symm, rfl⟩

end Part

/-- The frame rule: a command that ends on the part ends on the whole, with the rest as
    it was. -/
theorem Ends.zoom {T : Type} (P : Part S T) {I : S → Prop} {Q : Exit → S → Prop} {c : Cmd T} {s : S}
    (h : Ends (fun t => I (P.put s t)) (fun e t => Q e (P.put s t)) c (P.get s)) : Ends I Q (P.zoom c) s := by
  have key : ∀ {c : Cmd T} {t : T}, Ends (fun t => I (P.put s t)) (fun e t => Q e (P.put s t)) c t →
      Ends I Q (P.zoom c) (P.put s t) := by
    intro c t h
    induction h with
    | stop he hq => exact .stop (by rw [P.zoom_exit, he]) hq
    | @step c t hc hi hex _ ih =>
      have hput : P.get (P.put s t) = t := P.get_put s t
      refine .step (by rw [P.zoom_exit, hc]) hi ?_ fun d s' hstep => ?_
      · obtain ⟨c', t', hstep⟩ := hex
        exact ⟨_, _, P.zoom_step (by rw [hput]; exact hstep)⟩
      · obtain ⟨c', t', hpart, rfl, rfl⟩ := P.zoom_step_inv hstep
        rw [hput] at hpart
        rw [P.put_put]
        exact ih _ _ hpart
  have := key h
  rwa [P.put_get] at this

end Command
