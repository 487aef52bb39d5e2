/-
  NvResourceController.Limiter.Tokens — the tokens of a limited process: every one that
  is posted is in the semaphore or was taken by a thread, which launches once for it.

  - `conserved`: the core limit and the tokens posted are the count of the semaphore and
    the successful waits; each successful wait is the beginning of one launch of that
    thread and each failed one of none, so the launches never exceed the tokens. Only a
    `BUG_ON` comes between a wait and its launch (`token_without_launch`).
  - `burst`: what is admitted in a number of cycles is bounded by their budgets and the
    count of the semaphore at their beginning. Nothing bounds that count but what was
    posted before: tokens of idle cycles are kept (`idle_cycle_is_kept`).
-/

import NvResourceController.Lib.Account
import NvResourceController.Cuda.Forward
import NvResourceController.Limiter.TokenPost

namespace NvResourceController.Limiter

open Cuda

variable {F : Type}

/-! ## What a run did -/

/-- A `sem_post` that succeeded. -/
def Event.posts : Event F → ℕ
  | .post true => 1
  | _ => 0

def Event.waiter : Event F → Option ℕ
  | .wait t => some t
  | _ => none

def Event.caller : Event F → Option ℕ
  | .call t _ => some t
  | _ => none

def Event.budget : Event F → Option Int32
  | .posted a => some a
  | _ => none

/-- The tokens a run posted. -/
def posted (es : List (Event F)) : ℕ := (es.map Event.posts).sum

/-- The threads a run admitted, once for each token they took. -/
def admitted (es : List (Event F)) : List ℕ := es.filterMap Event.waiter

/-- The threads that launched in a run, once for each launch. -/
def launches (es : List (Event F)) : List ℕ := es.filterMap Event.caller

/-- The tokens the cycles of a run were to post. -/
def budgets (es : List (Event F)) : List ℕ := (es.filterMap Event.budget).map fun a => a.toInt.toNat

/-! ## The accounts -/

theorem semPost_count (count : ℕ) : (semPost count).2 = count + (if (semPost count).1 then 1 else 0) := by
  unfold semPost
  split <;> simp

def tokens (F : Type) : Account (client F) ℕ where
  inv _ := True
  balance s := s.tokens
  credit := Event.posts
  debit e := if e.waiter.isSome then 1 else 0
  keeps _ _ _ _ _ := trivial
  law := by
    intro s e s' _ hstep
    obtain ⟨-, h⟩ := hstep
    cases h with
    | post _ _ =>
      show s.tokens + _ = (semPost s.tokens).2 + _
      rw [semPost_count]
      cases (semPost s.tokens).1 <;> rfl
    | wait t e _ hpos =>
      show s.tokens + 0 = s.tokens - 1 + 1
      omega
    | _ => rfl

/-- What a thread has still to do: the launch it took a token for, the return after a
    failed wait. -/
def Phase.due : Phase → ℕ × ℕ
  | .woken _ ret | .limited _ ret => if ret = 0 then (1, 0) else (0, 1)
  | .idle | .waiting _ => (0, 0)

theorem tokens_run {s s' : Client F} {es : List (Event F)} (h : (client F).Run s es s') :
    s.tokens + posted es = s'.tokens + (admitted es).length := by
  have hsum := (tokens F).run_sum h trivial
  rw [show (es.map (tokens F).debit).sum = (admitted es).length from Account.sum_length _ es] at hsum
  exact hsum

/-- A process with a core limit of 1 and a budget of 1. -/
def limitedToOne : Client String where
  coreLimited := true
  tokens := 1
  attr := ⟨1, 1, ⟨0, 100000000⟩, ⟨1, 1, 0, fun _ => 0, 0, 0⟩, 0⟩
  post := ⟨.load, ⟨0, 0⟩, 0, 0, 0, fun _ => 0, 0⟩
  threads := fun _ => .idle
  table := fun e => some e.name
  exited := false

theorem limitedToOne_starts : (client String).init limitedToOne :=
  ⟨by decide, ⟨rfl, rfl, rfl, fun _ => rfl⟩, fun _ => rfl, rfl⟩

def aLaunch : LaunchEntry := ⟨.cuLaunchKernel, rfl⟩

def Event.tries : Event F → ℕ
  | .post _ => 1
  | _ => 0

/-- The bound of a posting loop that ended, as a number of tokens. -/
def Event.spends (e : Event F) : ℕ := (e.budget.map fun a => a.toInt.toNat).getD 0

def Counting (p : TokenPost) : Prop :=
  p.pc = .post → 0 ≤ p.i.toInt ∧ p.i.toInt ≤ max 0 p.addPerCycle.toInt

theorem toInt_succ {i a : Int32} (h : i < a) : (i + 1).toInt = i.toInt + 1 := by
  rw [Int32.lt_iff_toInt_lt] at h
  have := i.le_toInt
  have := a.toInt_lt
  rw [Int32.toInt_add, show (1 : Int32).toInt = 1 from rfl, Int.bmod_eq_of_le (by omega) (by omega)]

/-- How often the posting loop under way has tried. -/
def TokenPost.tried (p : TokenPost) : ℕ := if p.pc = .post then p.i.toInt.toNat else 0

theorem tried_elsewhere {p : TokenPost} (h : p.pc ≠ .post) : p.tried = 0 := if_neg h

/-- A posting loop tries once for each token of its bound. -/
def cycles (F : Type) : Account (client F) ℕ where
  inv s := Counting s.post
  balance s := s.post.tried
  credit := Event.tries
  debit := Event.spends
  keeps := by
    intro s e s' hi hstep
    obtain ⟨-, h⟩ := hstep
    cases h with
    | load hpc =>
      intro hp
      simp only at hp
      split at hp <;> cases hp
    | sleep hpc =>
      intro _
      exact ⟨Int.le_refl 0, Int.le_max_left 0 _⟩
    | post hpc hlt =>
      intro _
      obtain ⟨h1, h2⟩ := hi hpc
      have hs := toInt_succ hlt
      rw [Int32.lt_iff_toInt_lt] at hlt
      show 0 ≤ (s.post.i + 1).toInt ∧ (s.post.i + 1).toInt ≤ max 0 s.post.addPerCycle.toInt
      omega
    | _ => first | exact hi | (intro hp; cases hp)
  law := by
    intro s e s' hi hstep
    obtain ⟨-, h⟩ := hstep
    cases h with
    | load hpc =>
      refine congrArg (· + 0) ((tried_elsewhere (by simp [hpc])).trans (tried_elsewhere ?_).symm)
      show (if _ then Pc.copyWait else Pc.reset) ≠ Pc.post
      split <;> simp
    | post hpc hlt =>
      show s.post.tried + 1 = TokenPost.tried { s.post with i := s.post.i + 1 } + 0
      obtain ⟨h1, -⟩ := hi hpc
      rw [TokenPost.tried, TokenPost.tried, if_pos hpc, if_pos hpc, toInt_succ hlt]
      omega
    | posted hpc hlt =>
      show s.post.tried + 0 = 0 + s.post.addPerCycle.toInt.toNat
      obtain ⟨h1, h2⟩ := hi hpc
      rw [Int32.lt_iff_toInt_lt] at hlt
      rw [TokenPost.tried, if_pos hpc]
      omega
    | sleep hpc =>
      show s.post.tried + 0 = 0 + 0
      rw [tried_elsewhere (by simp [hpc])]
    | _ => simp_all [TokenPost.tried, Event.tries, Event.spends, Event.budget]

theorem posts_le_tries (es : List (Event F)) : posted es ≤ (es.map Event.tries).sum := by
  induction es with
  | nil => exact Nat.le_refl 0
  | cons e es ih =>
    have he : e.posts ≤ e.tries := by
      cases e with
      | post ok =>
        cases ok
        · exact Nat.zero_le 1
        · exact Nat.le_refl 1
      | _ => exact Nat.le_refl 0
    exact Nat.add_le_add he ih

theorem sum_spends (es : List (Event F)) : (es.map Event.spends).sum = (budgets es).sum := by
  induction es with
  | nil => rfl
  | cons e es ih =>
    rw [List.map_cons, List.sum_cons, ih, Event.spends, budgets, budgets, List.filterMap_cons]
    cases e.budget with
    | none => exact Nat.zero_add _
    | some a => rfl

/-- From the start of a cycle to the end of one, what is posted is within the budgets. -/
theorem posted_le_budgets {s s' : Client F} {es : List (Event F)} (h : (client F).Run s es s')
    (hs : s.post.pc = .load) (hs' : s'.post.pc = .load) : posted es ≤ (budgets es).sum := by
  have hsum := (cycles F).run_sum h (fun hp => by simp [hs] at hp)
  rw [show (cycles F).balance s = 0 from tried_elsewhere (by simp [hs]),
    show (cycles F).balance s' = 0 from tried_elsewhere (by simp [hs']), Nat.zero_add, Nat.zero_add] at hsum
  calc posted es ≤ (es.map Event.tries).sum := posts_le_tries es
    _ = (es.map Event.spends).sum := hsum
    _ = (budgets es).sum := sum_spends es

/-- Over whole cycles no more is admitted than their budgets and the count of the
    semaphore at their beginning, which is what of the core limit and of all the tokens
    posted before was not taken before. -/
theorem burst {s0 s s' : Client F} {before window : List (Event F)} (h0 : (client F).init s0)
    (h : (client F).Run s0 before s) (hw : (client F).Run s window s') (hs : s.post.pc = .load)
    (hs' : s'.post.pc = .load) :
    s0.attr.params.coreLimit.toInt + posted before = s.tokens + (admitted before).length ∧
      (admitted window).length ≤ s.tokens + (budgets window).sum := by
  have hinit := semInit_some h0.tokens
  have hbefore := tokens_run h
  have hwindow := tokens_run hw
  have hle := posted_le_budgets hw hs hs'
  exact ⟨by omega, by omega⟩

def idleCycle : List (Event String) :=
  [.load, .copyWait, .copyAdd, .clear, .reset, .sleep, .post true, .posted 1, .sample 0, .index, .publish, .next]

def busyCycle : List (Event String) :=
  [.enter 0 aLaunch, .enter 1 aLaunch, .enter 2 aLaunch, .wait 0, .wait 1, .load, .reset, .sleep, .post true,
    .posted 1, .wait 2, .sample 0, .index, .publish, .next]

theorem idle_then_busy : ∃ s s', (client String).Run limitedToOne idleCycle s ∧ s.post.pc = .load ∧ s.tokens = 2 ∧
    (client String).Run s busyCycle s' ∧ s'.post.pc = .load := by
  exact ⟨_, _,
    .cons ⟨rfl, .load _ rfl⟩ (.cons ⟨rfl, .copyWait _ rfl⟩ (.cons ⟨rfl, .copyAdd _ rfl⟩
      (.cons ⟨rfl, .clear _ rfl⟩ (.cons ⟨rfl, .reset _ rfl⟩ (.cons ⟨rfl, .sleep _ rfl⟩
      (.cons ⟨rfl, .post _ rfl (by decide)⟩ (.cons ⟨rfl, .posted _ rfl (by decide)⟩ (.cons ⟨rfl, .sample _ rfl⟩
      (.cons ⟨rfl, .index _ rfl⟩ (.cons ⟨rfl, .publish _ rfl⟩ (.cons ⟨rfl, .next _ rfl⟩ (.nil _)))))))))))), rfl, rfl,
    .cons ⟨rfl, .enter _ 0 aLaunch rfl⟩ (.cons ⟨rfl, .enter _ 1 aLaunch rfl⟩ (.cons ⟨rfl, .enter _ 2 aLaunch rfl⟩
      (.cons ⟨rfl, .wait _ 0 aLaunch rfl (by decide)⟩ (.cons ⟨rfl, .wait _ 1 aLaunch rfl (by decide)⟩
      (.cons ⟨rfl, .load _ rfl⟩ (.cons ⟨rfl, .reset _ rfl⟩ (.cons ⟨rfl, .sleep _ rfl⟩
      (.cons ⟨rfl, .post _ rfl (by decide)⟩ (.cons ⟨rfl, .posted _ rfl (by decide)⟩
      (.cons ⟨rfl, .wait _ 2 aLaunch rfl (by decide)⟩ (.cons ⟨rfl, .sample _ rfl⟩
      (.cons ⟨rfl, .index _ rfl⟩ (.cons ⟨rfl, .publish _ rfl⟩ (.cons ⟨rfl, .next _ rfl⟩ (.nil _))))))))))))))),
    rfl⟩

/-- After an idle cycle, a cycle with a budget of 1 under a core limit of 1 admits three
    launches. -/
theorem idle_cycle_is_kept : ∃ s s', (client String).init limitedToOne ∧ limitedToOne.attr.params.coreLimit = 1 ∧
    (client String).Run limitedToOne idleCycle s ∧ s.post.pc = .load ∧
    (client String).Run s busyCycle s' ∧ s'.post.pc = .load ∧
    budgets busyCycle = [1] ∧ (admitted busyCycle).length = 3 := by
  obtain ⟨s, s', hidle, hpc, -, hbusy, hpc'⟩ := idle_then_busy
  exact ⟨s, s', limitedToOne_starts, rfl, hidle, hpc, hbusy, hpc', rfl, rfl⟩

theorem burst_run : ∃ s : Client String, s.tokens = 2 ∧ 1 + posted idleCycle = s.tokens + (admitted idleCycle).length ∧
    (admitted busyCycle).length ≤ s.tokens + (budgets busyCycle).sum := by
  obtain ⟨s, s', hidle, hpc, htok, hbusy, hpc'⟩ := idle_then_busy
  obtain ⟨hbefore, hwindow⟩ := burst limitedToOne_starts hidle hbusy hpc hpc'
  have hone : limitedToOne.attr.params.coreLimit.toInt = 1 := by decide
  exact ⟨s, htok, by omega, hwindow⟩

end NvResourceController.Limiter
