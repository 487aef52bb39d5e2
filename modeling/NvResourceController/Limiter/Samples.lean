/-
  NvResourceController.Limiter.Samples — the statistics of a limited process: which of
  the increments of `launch_times` by `rate_limit` the samples of `token_post` have.

  - `sampled`: each increment is in one sample, or still in the counter, or was made
    between a sample and the reset of the next cycle, which discards it
    (`launch_between_cycles`).

  The thread stores 0 in the counter and loads it at different points of its loop. A
  tally of a run keeps what the counter held after the last such access and what was
  added since, so the counter is the sum of the two in every state.
-/

import Mathlib.Algebra.BigOperators.Group.List.Basic
import Mathlib.Data.Nat.ModEq
import NvResourceController.Limiter.Tokens

namespace NvResourceController.Limiter

variable {F : Type}

/-- No other client of the attribute counts in it. -/
def OneClient (s : Client F) : Event F → Prop
  | .shared attr => attr.params.launchTimes = s.attr.params.launchTimes
  | _ => True

def Event.counts : Event F → ℕ
  | .count _ => 1
  | _ => 0

def Event.loaded : Event F → Option UInt32
  | .sample value => some value
  | _ => none

def increments (es : List (Event F)) : ℕ := (es.map Event.counts).sum

def samples (es : List (Event F)) : List UInt32 := es.filterMap Event.loaded

/-! ## The tally -/

/-- The increments of a run, by the accesses of `token_post` they fall between. -/
structure Tally where
  /-- What the counter held after the last access. -/
  base : UInt32
  /-- The increments since. -/
  pending : ℕ
  /-- The increments before each sample, and its value. -/
  samples : List (ℕ × UInt32)
  /-- The increments before all resets. -/
  discarded : ℕ

def Tally.add (x : Tally) : Event F → Tally
  | .count _ => { x with pending := x.pending + 1 }
  | .reset => { x with base := 0, pending := 0, discarded := x.discarded + x.pending }
  | .sample value => { x with base := value, pending := 0, samples := x.samples ++ [(x.pending, value)] }
  | _ => x

/-- The tally of a run that finds the counter at `start`. -/
def tally (start : UInt32) (es : List (Event F)) : Tally := es.foldl Tally.add ⟨start, 0, [], 0⟩

def Tally.total (x : Tally) : ℕ := (x.samples.map Prod.fst).sum + x.pending + x.discarded

theorem add_total (x : Tally) (e : Event F) : (x.add e).total = x.total + e.counts := by
  cases e with
  | count t =>
    simp only [Tally.add, Tally.total, Event.counts]
    omega
  | reset =>
    simp only [Tally.add, Tally.total, Event.counts]
    omega
  | sample value =>
    simp only [Tally.add, Tally.total, Event.counts, List.map_append, List.map_cons, List.map_nil, List.sum_append,
      List.sum_cons, List.sum_nil]
    omega
  | _ => rfl

/-- No increment is tallied twice, and none is missed. -/
theorem foldl_total (es : List (Event F)) (x : Tally) : (es.foldl Tally.add x).total = x.total + increments es := by
  induction es generalizing x with
  | nil => rfl
  | cons e es ih =>
    rw [List.foldl_cons, ih, add_total, increments, increments, List.map_cons, List.sum_cons, Nat.add_assoc]

theorem tally_total (start : UInt32) (es : List (Event F)) : (tally start es).total = increments es := by
  rw [tally, foldl_total]
  exact Nat.zero_add _

theorem foldl_samples (es : List (Event F)) (x : Tally) :
    (es.foldl Tally.add x).samples.map Prod.snd = x.samples.map Prod.snd ++ samples es := by
  induction es generalizing x with
  | nil => simp [samples]
  | cons e es ih =>
    rw [List.foldl_cons, ih, samples, samples, List.filterMap_cons]
    cases e <;> simp [Tally.add, Event.loaded]

theorem tally_samples (start : UInt32) (es : List (Event F)) :
    (tally start es).samples.map Prod.snd = samples es := by
  rw [tally, foldl_samples]
  rfl

/-! ## What the counter holds -/

/-- Between the reset and the sample of a cycle. -/
def Pc.sampling : Pc → Prop
  | .sleep | .post | .sample => True
  | _ => False

/-- What the tally says of the counter. -/
structure Tallied (s : Client F) (x : Tally) : Prop where
  counter : s.attr.params.launchTimes = x.base + UInt32.ofNat x.pending
  base : s.post.pc.sampling → x.base = 0
  samples : ∀ p ∈ x.samples, p.2 = UInt32.ofNat p.1

theorem tallied_step (s : Client F) (x : Tally) (e : Event F) (s' : Client F) (hx : Tallied s x)
    (h : ((client F).restrict OneClient).step s e s') : Tallied s' (x.add e) := by
  obtain ⟨hone, -, h⟩ := h
  have hcounter := hx.counter
  cases h with
  | load hpc =>
    refine ⟨hcounter, ?_, hx.samples⟩
    intro hp
    simp only at hp
    split at hp <;> cases hp
  | copyWait _ => exact ⟨hcounter, False.elim, hx.samples⟩
  | copyAdd _ => exact ⟨hcounter, False.elim, hx.samples⟩
  | clear _ => exact ⟨hcounter, False.elim, hx.samples⟩
  | reset _ => exact ⟨rfl, fun _ => rfl, hx.samples⟩
  | sleep hpc => exact ⟨hcounter, fun _ => hx.base (by rw [hpc]; trivial), hx.samples⟩
  | posted hpc _ => exact ⟨hcounter, fun _ => hx.base (by rw [hpc]; trivial), hx.samples⟩
  | sample hpc =>
    -- the reset of this cycle left 0
    have hbase : x.base = 0 := hx.base (by rw [hpc]; trivial)
    have hvalue : s.attr.params.launchTimes = UInt32.ofNat x.pending := by
      rw [hcounter, hbase, UInt32.zero_add]
    refine ⟨(UInt32.add_zero _).symm, False.elim, ?_⟩
    intro p hp
    obtain hp | hp := List.mem_append.mp hp
    · exact hx.samples p hp
    · rw [List.mem_singleton.mp hp]
      exact hvalue
  | index _ => exact ⟨hcounter, False.elim, hx.samples⟩
  | publish _ => exact ⟨hcounter, False.elim, hx.samples⟩
  | next _ => exact ⟨hcounter, False.elim, hx.samples⟩
  | count t e ret _ =>
    refine ⟨?_, hx.base, hx.samples⟩
    show s.attr.params.launchTimes + 1 = x.base + UInt32.ofNat (x.pending + 1)
    rw [hcounter, UInt32.ofNat_add, UInt32.add_assoc]
    rfl
  | shared attr => exact ⟨Eq.trans hone hcounter, hx.base, hx.samples⟩
  | _ => exact ⟨hcounter, hx.base, hx.samples⟩

theorem tally_run {s0 s : Client F} {es : List (Event F)} (h0 : (client F).init s0)
    (h : ((client F).restrict OneClient).Run s0 es s) : Tallied s (tally s0.attr.params.launchTimes es) := by
  refine System.Run.fold tallied_step h ⟨(UInt32.add_zero _).symm, ?_, fun p hp => nomatch hp⟩
  intro hp
  rw [h0.post.pc] at hp
  exact hp.elim

/-! ## The samples -/

theorem ofNat_toNat_mod (n : ℕ) : (UInt32.ofNat n).toNat = n % 2 ^ 32 := UInt32.toNat_ofNat'

theorem sum_samples {s : Client F} {x : Tally} (hx : Tallied s x) :
    ((x.samples.map Prod.snd).map UInt32.toNat).sum ≡ (x.samples.map Prod.fst).sum [MOD 2 ^ 32] ∧
      ((∀ p ∈ x.samples, p.1 < 2 ^ 32) →
        ((x.samples.map Prod.snd).map UInt32.toNat).sum = (x.samples.map Prod.fst).sum) := by
  have hmod : (x.samples.map Prod.snd).map UInt32.toNat = (x.samples.map Prod.fst).map (· % 2 ^ 32) := by
    rw [List.map_map, List.map_map]
    refine List.map_congr_left ?_
    intro p hp
    show p.2.toNat = p.1 % 2 ^ 32
    rw [hx.samples p hp, ofNat_toNat_mod]
  refine ⟨?_, ?_⟩
  · rw [hmod]
    exact (List.sum_nat_mod _ _).symm
  · intro hlt
    rw [hmod, List.map_map]
    exact congrArg List.sum (List.map_congr_left fun p hp => Nat.mod_eq_of_lt (hlt p hp))

theorem rest_pending {s : Client F} {x : Tally} (hx : Tallied s x) :
    (s.attr.params.launchTimes - x.base).toNat = x.pending % 2 ^ 32 := by
  rw [hx.counter, UInt32.add_comm, UInt32.add_sub_cancel, ofNat_toNat_mod]

/-- In every run of one client: the increments are the sum of the samples, what the
    counter holds beyond its value at the last access, and what the resets discarded,
    modulo the width of the counter; and exactly that, where it did not wrap around
    between two accesses. From a reset to the next sample all of the counter is beyond. -/
theorem sampled {s0 s : Client F} {es : List (Event F)} (h0 : (client F).init s0)
    (h : ((client F).restrict OneClient).Run s0 es s) :
    let x := tally s0.attr.params.launchTimes es
    increments es ≡ ((samples es).map UInt32.toNat).sum + (s.attr.params.launchTimes - x.base).toNat + x.discarded
        [MOD 2 ^ 32] ∧
      ((∀ n ∈ x.pending :: x.samples.map Prod.fst, n < 2 ^ 32) →
        increments es = ((samples es).map UInt32.toNat).sum + (s.attr.params.launchTimes - x.base).toNat
          + x.discarded) ∧
      (s.post.pc.sampling → s.attr.params.launchTimes - x.base = s.attr.params.launchTimes) := by
  intro x
  have hx : Tallied s x := tally_run h0 h
  have htotal : x.total = increments es := tally_total _ es
  have hsamples : x.samples.map Prod.snd = samples es := tally_samples _ es
  obtain ⟨hmod, hexact⟩ := sum_samples hx
  rw [hsamples] at hmod hexact
  rw [rest_pending hx, ← htotal]
  refine ⟨?_, ?_, ?_⟩
  · exact ((hmod.add (Nat.mod_modEq _ _)).add_right _).symm
  · intro hlt
    have hpending := hlt x.pending (List.mem_cons_self ..)
    have hsum := hexact fun p hp => hlt p.1 (List.mem_cons_of_mem _ (List.mem_map_of_mem hp))
    rw [hsum, Nat.mod_eq_of_lt hpending]
    rfl
  · intro hp
    rw [hx.base hp, UInt32.sub_zero]

/-- A launch is admitted between the sample of a cycle and the reset of the next. -/
def launchBetweenCycles : List (Event String) :=
  [.load, .copyWait, .copyAdd, .clear, .reset, .sleep, .post true, .posted 1, .sample 0, .enter 0 aLaunch, .wait 0,
    .count 0, .index, .publish, .next, .load, .reset]

theorem launchBetweenCycles_run : ∃ s, ((client String).restrict OneClient).Run limitedToOne launchBetweenCycles s ∧
    s.attr.params.launchTimes = 0 :=
  ⟨_, .cons ⟨trivial, rfl, .load _ rfl⟩ (.cons ⟨trivial, rfl, .copyWait _ rfl⟩
    (.cons ⟨trivial, rfl, .copyAdd _ rfl⟩ (.cons ⟨trivial, rfl, .clear _ rfl⟩ (.cons ⟨trivial, rfl, .reset _ rfl⟩
    (.cons ⟨trivial, rfl, .sleep _ rfl⟩ (.cons ⟨trivial, rfl, .post _ rfl (by decide)⟩
    (.cons ⟨trivial, rfl, .posted _ rfl (by decide)⟩ (.cons ⟨trivial, rfl, .sample _ rfl⟩
    (.cons ⟨trivial, rfl, .enter _ 0 aLaunch rfl⟩ (.cons ⟨trivial, rfl, .wait _ 0 aLaunch rfl (by decide)⟩
    (.cons ⟨trivial, rfl, .count _ 0 aLaunch 0 rfl⟩ (.cons ⟨trivial, rfl, .index _ rfl⟩
    (.cons ⟨trivial, rfl, .publish _ rfl⟩ (.cons ⟨trivial, rfl, .next _ rfl⟩ (.cons ⟨trivial, rfl, .load _ rfl⟩
    (.cons ⟨trivial, rfl, .reset _ rfl⟩ (.nil _))))))))))))))))), rfl⟩

/-- It is in no sample and not in the counter. -/
theorem launch_between_cycles : ∃ s, (client String).init limitedToOne ∧
    ((client String).restrict OneClient).Run limitedToOne launchBetweenCycles s ∧
    increments launchBetweenCycles = 1 ∧ ((samples launchBetweenCycles).map UInt32.toNat).sum = 0 ∧
    s.attr.params.launchTimes = 0 := by
  obtain ⟨s, hrun, hcounter⟩ := launchBetweenCycles_run
  exact ⟨s, limitedToOne_starts, hrun, rfl, rfl, hcounter⟩

/-- The reset discarded it. -/
theorem sampled_run : (tally limitedToOne.attr.params.launchTimes launchBetweenCycles).discarded = 1 ∧
    ∃ s : Client String, s.attr.params.launchTimes = 0 ∧
      1 ≡ 0 + (s.attr.params.launchTimes - 0).toNat + 1 [MOD 2 ^ 32] := by
  obtain ⟨s, hrun, hcounter⟩ := launchBetweenCycles_run
  exact ⟨rfl, s, hcounter, (sampled limitedToOne_starts hrun).1⟩

end NvResourceController.Limiter
