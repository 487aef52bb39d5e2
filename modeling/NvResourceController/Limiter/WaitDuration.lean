/-
  NvResourceController.Limiter.WaitDuration — `wait_duration` (`src/util.c`), which
  `token_post` sleeps in, with the signals that interrupt it.

  A sleep that is interrupted is tried again with the nanoseconds that remain, but with
  all the seconds it began with.

  - `waitDuration_returns`: it returns 0 in the end, and never too early.
  - `waited_iff`: it sleeps as long as it should exactly if no signal comes once the
    nanoseconds of the interval are over, before the whole interval is.
  - `token_post_waits`: the thread only ever sleeps for nanoseconds, so it does.
-/

import Mathlib.Algebra.BigOperators.Group.List.Basic
import Mathlib.Algebra.Ring.Int.Defs
import Mathlib.Data.List.Infix
import NvResourceController.Lib.Transition
import NvResourceController.Limiter.TokenPost

namespace NvResourceController.Limiter

variable {F : Type}

/-! ## `nanosleep` -/

def eintr : Int32 := 4

def einval : Int32 := 22

/-- What `nanosleep` accepts. -/
structure Timespec.Normalised (t : Timespec) : Prop where
  sec : 0 ≤ t.tvSec.toInt
  nsec : 0 ≤ t.tvNsec.toInt
  lt : t.tvNsec.toInt < 10 ^ 9

instance (t : Timespec) : Decidable t.Normalised :=
  decidable_of_iff (0 ≤ t.tvSec.toInt ∧ 0 ≤ t.tvNsec.toInt ∧ t.tvNsec.toInt < 10 ^ 9)
    ⟨fun h => ⟨h.1, h.2.1, h.2.2⟩, fun h => ⟨h.sec, h.nsec, h.lt⟩⟩

def Timespec.ns (t : Timespec) : ℤ := t.tvSec.toInt * 10 ^ 9 + t.tvNsec.toInt

def Timespec.ofNs (n : ℤ) : Timespec := ⟨Int64.ofInt (n / 10 ^ 9), Int64.ofInt (n % 10 ^ 9)⟩

/-- What a call of `nanosleep` leaves, and the time it took. -/
structure Nanosleep where
  ret : Int32
  errno : Int32
  remain : Timespec
  slept : ℤ

/-- `nanosleep`, with a signal so many nanoseconds after its beginning, or none. -/
def nanosleep (req remain : Timespec) (signal : Option ℕ) : Nanosleep :=
  if req.Normalised then
    match signal with
    | some e => if e < req.ns then ⟨-1, eintr, .ofNs (req.ns - e), e⟩ else ⟨0, 0, remain, req.ns⟩
    | none => ⟨0, 0, remain, req.ns⟩
  else ⟨-1, einval, remain, 0⟩

/-! ## `wait_duration` -/

/-- The loop, once a call was interrupted: what it returns, and the time it takes. It has
    no end where a call fails without a signal, as `err` is not read again. -/
def retry (req remain : Timespec) : List ℕ → Option (Int32 × ℤ)
  | [] =>
    let r := nanosleep { req with tvNsec := remain.tvNsec } remain none
    if r.ret ≠ 0 then none else some (r.ret, r.slept)
  | e :: signals =>
    let r := nanosleep { req with tvNsec := remain.tvNsec } remain (some e)
    if r.ret ≠ 0 then (retry { req with tvNsec := remain.tvNsec } r.remain signals).map fun w => (w.1, r.slept + w.2)
    else some (r.ret, r.slept)

/-- `wait_duration`, with the signals that come during its calls of `nanosleep`, each by
    the time since the call began. -/
def waitDuration (interval : Timespec) (signals : List ℕ) : Option (Int32 × ℤ) :=
  let req : Timespec := ⟨interval.tvSec, interval.tvNsec⟩
  let r := nanosleep req ⟨0, 0⟩ signals.head?
  if r.ret ≠ 0 then
    if r.errno ≠ eintr then some (r.ret, r.slept)
    else (retry req r.remain signals.tail).map fun w => (w.1, r.slept + w.2)
  else some (r.ret, r.slept)

/-! ## One call -/

section

variable {req : Timespec}

theorem nanosleep_none (h : req.Normalised) (remain : Timespec) :
    nanosleep req remain none = ⟨0, 0, remain, req.ns⟩ := if_pos h

theorem nanosleep_late (h : req.Normalised) (remain : Timespec) {e : ℕ} (he : req.ns ≤ e) :
    nanosleep req remain (some e) = ⟨0, 0, remain, req.ns⟩ := by
  rw [nanosleep, if_pos h]
  exact if_neg (by omega)

theorem nanosleep_signal (h : req.Normalised) (remain : Timespec) {e : ℕ} (he : e < req.ns) :
    nanosleep req remain (some e) = ⟨-1, eintr, .ofNs (req.ns - e), e⟩ := by
  rw [nanosleep, if_pos h]
  exact if_pos he

end

theorem ofNs_nsec (n : ℤ) : (Timespec.ofNs n).tvNsec.toInt = n % 10 ^ 9 :=
  Int64.toInt_ofInt_of_le (by omega) (by omega)

theorem Timespec.Normalised.retry {req remain : Timespec} (h : req.Normalised) {n : ℤ}
    (hn : remain.tvNsec.toInt = n % 10 ^ 9) : ({ req with tvNsec := remain.tvNsec } : Timespec).Normalised where
  sec := h.sec
  nsec := by
    show 0 ≤ remain.tvNsec.toInt
    omega
  lt := by
    show remain.tvNsec.toInt < 10 ^ 9
    omega

/-! ## All of them -/

/-- The request after one that was interrupted. -/
def resumed (req : Timespec) (e : ℕ) : Timespec := { req with tvNsec := (Timespec.ofNs (req.ns - e)).tvNsec }

/-- The time the calls take, from one with this request on. -/
def slept (req : Timespec) : List ℕ → ℤ
  | [] => req.ns
  | e :: signals => if e < req.ns then e + slept (resumed req e) signals else req.ns

theorem resumed_normalised {req : Timespec} (h : req.Normalised) (e : ℕ) : (resumed req e).Normalised :=
  h.retry (ofNs_nsec _)

theorem resumed_ns (req : Timespec) (e : ℕ) :
    (resumed req e).ns = req.tvSec.toInt * 10 ^ 9 + (req.ns - e) % 10 ^ 9 := by
  rw [Timespec.ns, resumed, ofNs_nsec]

theorem retry_eq {req remain : Timespec} (h : ({ req with tvNsec := remain.tvNsec } : Timespec).Normalised)
    (signals : List ℕ) : retry req remain signals = some (0, slept { req with tvNsec := remain.tvNsec } signals) := by
  induction signals generalizing req remain with
  | nil =>
    rw [retry, nanosleep_none h]
    rfl
  | cons e signals ih =>
    rw [retry, slept]
    by_cases he : e < ({ req with tvNsec := remain.tvNsec } : Timespec).ns
    · rw [nanosleep_signal h remain he, if_pos he, ih (resumed_normalised h e)]
      rfl
    · rw [nanosleep_late h remain (by omega), if_neg he]
      rfl

theorem waitDuration_eq {interval : Timespec} (h : interval.Normalised) (signals : List ℕ) :
    waitDuration interval signals = some (0, slept interval signals) := by
  cases signals with
  | nil =>
    rw [waitDuration, List.head?_nil, nanosleep_none h]
    rfl
  | cons e signals =>
    rw [waitDuration, List.head?_cons, List.tail_cons, slept]
    by_cases he : e < interval.ns
    · rw [nanosleep_signal h _ he, if_pos he, retry_eq (resumed_normalised h e)]
      rfl
    · rw [nanosleep_late h _ (by omega), if_neg he]
      rfl

/-! ## Too long, never too short -/

theorem ns_le_slept {req : Timespec} (h : req.Normalised) (signals : List ℕ) : req.ns ≤ slept req signals := by
  induction signals generalizing req with
  | nil => exact Int.le_refl _
  | cons e signals ih =>
    rw [slept]
    split
    · have hle := ih (resumed_normalised h e)
      rw [resumed_ns] at hle
      have hns : req.ns = req.tvSec.toInt * 10 ^ 9 + req.tvNsec.toInt := rfl
      have := h.lt
      have := h.nsec
      omega
    · exact Int.le_refl _

/-- It returns 0, and not before the interval is over. -/
theorem waitDuration_returns {interval : Timespec} (h : interval.Normalised) (signals : List ℕ) :
    ∃ time, waitDuration interval signals = some (0, time) ∧ interval.ns ≤ time :=
  ⟨_, waitDuration_eq h signals, ns_le_slept h signals⟩

/-- No signal comes when the nanoseconds are over and the seconds are not. -/
def InTime (req : Timespec) (signals : List ℕ) : Prop :=
  ∀ p, p <+: signals → p.sum ≤ req.tvNsec.toInt ∨ req.ns ≤ p.sum

theorem inTime_nil {req : Timespec} (h : req.Normalised) : InTime req [] := by
  intro p hp
  rw [List.prefix_nil.mp hp]
  exact Or.inl h.nsec

theorem inTime_cons {req : Timespec} (h : req.Normalised) (e : ℕ) (signals : List ℕ) :
    InTime req (e :: signals) ↔
      ∀ p, p <+: signals → e + p.sum ≤ req.tvNsec.toInt ∨ req.ns ≤ e + p.sum := by
  constructor
  · intro hin p hp
    have := hin (e :: p) (List.cons_prefix_cons.mpr ⟨rfl, hp⟩)
    rwa [List.sum_cons, Int.natCast_add] at this
  · intro hall p hp
    obtain hnil | ⟨q, hq, hpre⟩ := List.prefix_cons_iff.mp hp
    · rw [hnil]
      exact Or.inl h.nsec
    · rw [hq, List.sum_cons, Int.natCast_add]
      exact hall q hpre

theorem inTime_resumed {req : Timespec} (h : req.Normalised) {e : ℕ} (he : e ≤ req.tvNsec.toInt) (signals : List ℕ) :
    (resumed req e).ns = req.ns - e ∧ (InTime (resumed req e) signals ↔ InTime req (e :: signals)) := by
  have hns : req.ns = req.tvSec.toInt * 10 ^ 9 + req.tvNsec.toInt := rfl
  have hlt := h.lt
  have hnsec : (resumed req e).tvNsec.toInt = req.tvNsec.toInt - e := by
    rw [resumed, ofNs_nsec]
    omega
  have hresumed : (resumed req e).ns = req.ns - e := by
    rw [resumed_ns]
    omega
  refine ⟨hresumed, ?_⟩
  rw [inTime_cons h, InTime, hnsec, hresumed]
  refine forall₂_congr fun p _ => or_congr ?_ ?_
  · omega
  · omega

theorem slept_eq_iff {req : Timespec} (h : req.Normalised) (signals : List ℕ) :
    slept req signals = req.ns ↔ InTime req signals := by
  induction signals generalizing req with
  | nil => exact iff_of_true rfl (inTime_nil h)
  | cons e signals ih =>
    rw [slept]
    by_cases hlate : e < req.ns
    · rw [if_pos hlate]
      by_cases he : e ≤ req.tvNsec.toInt
      · obtain ⟨hns, hin⟩ := inTime_resumed h he signals
        rw [← hin, ← ih (resumed_normalised h e), hns]
        omega
      · -- a second is slept twice
        have hle := ns_le_slept (resumed_normalised h e) signals
        rw [resumed_ns] at hle
        have hns : req.ns = req.tvSec.toInt * 10 ^ 9 + req.tvNsec.toInt := rfl
        refine iff_of_false (by omega) ?_
        intro hin
        have := hin [e] (List.cons_prefix_cons.mpr ⟨rfl, List.nil_prefix⟩)
        rw [List.sum_singleton] at this
        omega
    · rw [if_neg hlate, inTime_cons h]
      exact iff_of_true rfl fun p _ => Or.inr (by omega)

/-- For every interval and all signals: `wait_duration` returns 0 after just that time,
    exactly if none of them comes when the nanoseconds of the interval are over and the
    interval is not. -/
theorem waited_iff {interval : Timespec} (h : interval.Normalised) (signals : List ℕ) :
    waitDuration interval signals = some (0, interval.ns) ↔
      ∀ p, p <+: signals → p.sum ≤ interval.tvNsec.toInt ∨ interval.ns ≤ p.sum := by
  rw [waitDuration_eq h, Option.some_inj, Prod.mk.injEq, slept_eq_iff h]
  exact and_iff_right rfl

/-- A second and a half, with a signal after one second: half a second remains, and a
    second and a half are slept. -/
theorem a_second_twice : (⟨1, 500000000⟩ : Timespec).Normalised ∧
    waitDuration ⟨1, 500000000⟩ [1000000000] = some (0, 2500000000) ∧
    (⟨1, 500000000⟩ : Timespec).ns = 1500000000 := by decide

theorem waited_iff_run : waitDuration ⟨1, 500000000⟩ [200000000, 300000000] = some (0, 1500000000) ↔
    ∀ p : List ℕ, p <+: [200000000, 300000000] → p.sum ≤ (500000000 : Int64).toInt ∨ (1500000000 : ℤ) ≤ p.sum :=
  waited_iff (by decide : (⟨1, 500000000⟩ : Timespec).Normalised) [200000000, 300000000]

/-! ## The sleep of a cycle -/

theorem reach_sec {s : Client F} (h : (client F).Reach s) : s.post.interval.tvSec = 0 := by
  refine System.Reach.inv (I := fun s => s.post.interval.tvSec = 0) ?_ ?_ h
  · intro s hs
    rw [hs.post.interval]
  · intro s e s' hs hstep
    obtain ⟨-, hstep⟩ := hstep
    cases hstep <;> exact hs

/-- In every cycle the thread sleeps as long as it should, whatever signals come. -/
theorem token_post_waits {s : Client F} (h : (client F).Reach s) (hn : s.post.interval.Normalised)
    (signals : List ℕ) : waitDuration s.post.interval signals = some (0, s.post.interval.tvNsec.toInt) := by
  have hns : s.post.interval.ns = s.post.interval.tvNsec.toInt := by
    rw [Timespec.ns, reach_sec h]
    exact Int.zero_add _
  rw [← hns, waited_iff hn]
  intro p _
  rw [hns]
  exact Int.le_total _ _

end NvResourceController.Limiter
