/-
  NvResourceController.Monitor.Indices — the array indices that are computed from counters:
  of the samples and the averages in `token_post` (`src/ioctl_hook.c`), and of the
  averages in `delta_change` (`src/server_monitor.c`).

  The counters are `int`s that wrap around, and the remainder of a negative one is not
  positive. A run is taken with the numbers the counters stand for.

  - `inArray_iff`: the numbers whose counter gives an index of the array.
  - `counts_reach`: the counters are these numbers, wrapped around, whatever the order of
    the steps.
  - `in_bounds_iff`: so an index is outside its array exactly at the other numbers, and
    there is none before the first of them (`in_bounds_early`).
  - `spins`: a process gets to every number of cycles.
-/

import Mathlib.Algebra.Order.Ring.Int
import NvResourceController.Lib.Transition
import NvResourceController.Monitor.Container

namespace NvResourceController.Monitor

open Limiter System

variable {ι F : Type}

/-! ## Remainders -/

/-- An index of an array. -/
def InArray (length : ℕ) (i : Int32) : Prop := 0 ≤ i.toInt ∧ i.toInt < length

/-- A number of steps after which the counter is not negative, or divides. -/
def Fits (length n : ℕ) : Prop := n % 2 ^ 32 < 2 ^ 31 ∨ length ∣ 2 ^ 32 - n % 2 ^ 32

theorem ofNat_toInt (n : ℕ) :
    (Int32.ofNat n).toInt = if n % 2 ^ 32 < 2 ^ 31 then ((n % 2 ^ 32 : ℕ) : ℤ) else -((2 ^ 32 - n % 2 ^ 32 : ℕ) : ℤ) := by
  rw [Int32.toInt_ofNat', Int.bmod_def, Int32.size]
  split_ifs <;> omega

theorem inArray_iff {length : ℕ} (hpos : 0 < length) (hlt : length < 2 ^ 31) (n : ℕ) :
    InArray length (Int32.ofNat n % Int32.ofNat length) ↔ Fits length n := by
  have hlength : (Int32.ofNat length).toInt = length := Int32.toInt_ofNat_of_lt hlt
  rw [InArray, Fits, Int32.toInt_mod, hlength, ofNat_toInt]
  have hbelow : ∀ z : ℤ, z.tmod length < length := fun z => Int.tmod_lt_of_pos z (by omega)
  rw [and_iff_left (hbelow _)]
  by_cases h : n % 2 ^ 32 < 2 ^ 31
  · rw [if_pos h]
    exact iff_of_true (Int.tmod_nonneg _ (by omega)) (Or.inl h)
  · -- the remainder of a negative number
    rw [if_neg h, Int.neg_tmod, ← Int.ofNat_tmod, or_iff_right h, Nat.dvd_iff_mod_eq_zero]
    omega

/-! ## The accesses -/

/-- Every index that is used next is one of its array. -/
structure InBounds (s : Container ι F) : Prop where
  sample : ∀ i c copied, s.clients i = .running c copied → c.post.pc = .sample →
    InArray 10 (c.post.loop % launchSamples)
  publish : ∀ i c copied, s.clients i = .running c copied → c.post.pc = .publish → InArray 2 (c.post.launchIdx % 2)
  cur : ∀ util idx, s.server = .delta util (.cur idx) → InArray 2 (idx % 2)
  last : ∀ util idx cur, s.server = .delta util (.last idx cur) → InArray 2 ((idx + 1) % 2)

/-- What the counters stand for. -/
structure Counters (ι : Type) where
  /-- The cycles each thread has begun. -/
  cycles : ι → ℕ
  /-- The averages published since `launch_idx` was set to 0. -/
  published : ℕ
  /-- How many there were when a thread, or `delta_change`, last read `launch_idx`. -/
  read : ι → ℕ
  seen : ℕ

def Counters.zero : Counters ι := ⟨fun _ => 0, 0, fun _ => 0, 0⟩

def Counters.server (n : Counters ι) : Server → Counters ι
  | .zero | .init .launchIdx => { n with published := 0 }
  | .delta _ .idx => { n with seen := n.published }
  | _ => n

def Counters.start (n : Counters ι) : Proc F → Counters ι
  | .starting .zero => { n with published := 0 }
  | _ => n

def Counters.client [DecidableEq ι] (n : Counters ι) (i : ι) : Limiter.Event F → Counters ι
  | .load => { n with cycles := Function.update n.cycles i (n.cycles i + 1) }
  | .index => { n with read := Function.update n.read i n.published }
  | .next => { n with published := n.published + 1 }
  | _ => n

def Counters.add [DecidableEq ι] (n : Counters ι) (s : Container ι F) : Event ι F → Counters ι
  | .server => n.server s.server
  | .start i => n.start (s.clients i)
  | .create i _ => { n with cycles := Function.update n.cycles i 0 }
  | .client i e => n.client i e
  | _ => n

/-- The numbers of the accesses that come next are such that the index is in the array. -/
structure Counters.Fit (n : Counters ι) (s : Container ι F) : Prop where
  sample : ∀ i c copied, s.clients i = .running c copied → c.post.pc = .sample → Fits 10 (n.cycles i)
  publish : ∀ i c copied, s.clients i = .running c copied → c.post.pc = .publish → Fits 2 (n.read i)
  cur : ∀ util idx, s.server = .delta util (.cur idx) → Fits 2 n.seen
  last : ∀ util idx cur, s.server = .delta util (.last idx cur) → Fits 2 (n.seen + 1)

/-! ## The counters wrap around -/

/-- What `delta_change` has read of `launch_idx`. -/
def Server.idx : Server → Option Int32
  | .delta _ (.cur idx) | .delta _ (.last idx _) => some idx
  | _ => none

def Thread (cycles read : ℕ) : Proc F → Prop
  | .running c _ => c.post.loop = Int32.ofNat cycles ∧ (c.post.pc = .publish → c.post.launchIdx = Int32.ofNat read)
  | _ => True

/-- The counters are these numbers, wrapped around. -/
structure Wrapped (s : Container ι F) (n : Counters ι) : Prop where
  published : s.attr.params.launchIdx = Int32.ofNat n.published
  threads : ∀ i, Thread (n.cycles i) (n.read i) (s.clients i)
  seen : ∀ idx, s.server.idx = some idx → idx = Int32.ofNat n.seen

theorem Counters.server_same (n : Counters ι) (server : Server) :
    (n.server server).cycles = n.cycles ∧ (n.server server).read = n.read := by
  unfold Counters.server
  split <;> exact ⟨rfl, rfl⟩

theorem init_counts (limit : Int32) {attr : TokenAttr} {n : Counters ι}
    (hidx : attr.params.launchIdx = Int32.ofNat n.published) (pc : InitPc) :
    (initStep limit attr pc).1.params.launchIdx = Int32.ofNat (n.server (.init pc)).published ∧
      (initStep limit attr pc).2.idx = none := by
  cases pc with
  | testInited => exact ⟨hidx, rfl⟩
  | launchIdx => exact ⟨rfl, rfl⟩
  | _ => exact ⟨hidx, rfl⟩

theorem delta_counts (limit : Int32) {util : Int32} {attr : TokenAttr} {n : Counters ι}
    (hidx : attr.params.launchIdx = Int32.ofNat n.published) {pc : DeltaPc}
    (hseen : ∀ idx, (Server.delta util pc).idx = some idx → idx = Int32.ofNat n.seen) :
    (deltaStep limit util attr pc).1.params.launchIdx = Int32.ofNat (n.server (.delta util pc)).published ∧
      ∀ idx, (deltaStep limit util attr pc).2.idx = some idx →
        idx = Int32.ofNat (n.server (.delta util pc)).seen := by
  cases pc with
  | changed =>
    refine ⟨hidx, ?_⟩
    intro idx h
    simp only [deltaStep] at h
    split at h <;> cases h
  | idx =>
    refine ⟨hidx, ?_⟩
    intro idx h
    cases h
    exact hidx
  | cur idx => exact ⟨hidx, hseen⟩
  | last idx cur => exact ⟨hidx, nofun⟩
  | old cur last => exact ⟨hidx, nofun⟩
  | count cur last old =>
    refine ⟨hidx, ?_⟩
    intro idx h
    simp only [deltaStep] at h
    split_ifs at h <;> cases h
  | store newCycle => exact ⟨hidx, nofun⟩
  | announce => exact ⟨hidx, nofun⟩

section

variable [DecidableEq ι]

theorem Counters.client_seen (n : Counters ι) (i : ι) (e : Limiter.Event F) : (n.client i e).seen = n.seen := by
  cases e <;> rfl

theorem Counters.client_other (n : Counters ι) {i j : ι} (hj : j ≠ i) (e : Limiter.Event F) :
    (n.client i e).cycles j = n.cycles j ∧ (n.client i e).read j = n.read j := by
  cases e with
  | load => exact ⟨Function.update_of_ne hj .., rfl⟩
  | index => exact ⟨rfl, Function.update_of_ne hj ..⟩
  | _ => exact ⟨rfl, rfl⟩

theorem threads_put {s : Container ι F} {i : ι} {p : Proc F} {cycles read cycles' read' : ι → ℕ}
    (h : ∀ j, Thread (cycles j) (read j) (s.clients j)) (hother : ∀ j, j ≠ i → cycles' j = cycles j ∧ read' j = read j)
    (hp : Thread (cycles' i) (read' i) p) (j : ι) : Thread (cycles' j) (read' j) ((s.put i p).clients j) := by
  by_cases hj : j = i
  · subst hj
    rw [put_self]
    exact hp
  · obtain ⟨hcycles, hread⟩ := hother j hj
    rw [put_other hj, hcycles, hread]
    exact h j

theorem threads_same {s : Container ι F} {i : ι} {p : Proc F} {cycles read : ι → ℕ}
    (h : ∀ j, Thread (cycles j) (read j) (s.clients j)) (hp : Thread (cycles i) (read i) p) (j : ι) :
    Thread (cycles j) (read j) ((s.put i p).clients j) := threads_put h (fun _ _ => ⟨rfl, rfl⟩) hp j

theorem ofNat_succ (n : ℕ) : Int32.ofNat (n + 1) = Int32.ofNat n + 1 := Int32.ofNat_add n 1

/-- A step of a process: it is counted as what it does to the counters. -/
theorem client_counts {c c' : Client F} {e : Limiter.Event F} {n : Counters ι} (i : ι)
    (hidx : c.attr.params.launchIdx = Int32.ofNat n.published) (hloop : c.post.loop = Int32.ofNat (n.cycles i))
    (hread : c.post.pc = .publish → c.post.launchIdx = Int32.ofNat (n.read i)) (hown : IsOwn e)
    (h : Limiter.Step c e c') :
    c'.attr.params.launchIdx = Int32.ofNat (n.client i e).published ∧
      c'.post.loop = Int32.ofNat ((n.client i e).cycles i) ∧
      (c'.post.pc = .publish → c'.post.launchIdx = Int32.ofNat ((n.client i e).read i)) := by
  cases h with
  | load _ =>
    refine ⟨hidx, ?_, ?_⟩
    · show c.post.loop + 1 = Int32.ofNat (Function.update n.cycles i (n.cycles i + 1) i)
      rw [Function.update_self, ofNat_succ, hloop]
    · intro hpc
      simp only at hpc
      split at hpc <;> cases hpc
  | index _ =>
    refine ⟨hidx, hloop, fun _ => ?_⟩
    show c.attr.params.launchIdx = Int32.ofNat (Function.update n.read i n.published i)
    rw [Function.update_self, hidx]
  | next _ =>
    refine ⟨?_, hloop, nofun⟩
    show c.attr.params.launchIdx + 1 = Int32.ofNat (n.published + 1)
    rw [ofNat_succ, hidx]
  | copyWait _ => exact ⟨hidx, hloop, nofun⟩
  | copyAdd _ => exact ⟨hidx, hloop, nofun⟩
  | clear _ => exact ⟨hidx, hloop, nofun⟩
  | reset _ => exact ⟨hidx, hloop, nofun⟩
  | sleep _ => exact ⟨hidx, hloop, nofun⟩
  | posted _ _ => exact ⟨hidx, hloop, nofun⟩
  | sample _ => exact ⟨hidx, hloop, nofun⟩
  | publish _ => exact ⟨hidx, hloop, nofun⟩
  | shared _ => exact absurd hown id
  | _ => exact ⟨hidx, hloop, hread⟩

theorem wrapped_step (s : Container ι F) (n : Counters ι) (e : Event ι F) (s' : Container ι F) (hw : Wrapped s n)
    (h : Step s e s') : Wrapped s' (n.add s e) := by
  cases h with
  | attachServer hserver =>
    rw [Counters.add, hserver]
    refine ⟨hw.published, hw.threads, ?_⟩
    intro idx hidx
    simp only at hidx
    split at hidx <;> cases hidx
  | zeroServer hserver =>
    rw [Counters.add, hserver]
    exact ⟨rfl, hw.threads, nofun⟩
  | init pc hserver =>
    obtain ⟨hidx, hnone⟩ := init_counts s.limit hw.published pc
    obtain ⟨hcycles, hread⟩ := n.server_same (.init pc)
    rw [Counters.add, hserver]
    refine ⟨hidx, ?_, ?_⟩
    · rw [hcycles, hread]
      exact hw.threads
    · intro idx h
      rw [hnone] at h
      cases h
  | delta util pc hserver =>
    have hseen := hw.seen
    rw [hserver] at hseen
    obtain ⟨hidx, hseen⟩ := delta_counts s.limit hw.published hseen
    obtain ⟨hcycles, hread⟩ := n.server_same (.delta util pc)
    rw [Counters.add, hserver]
    refine ⟨hidx, ?_, hseen⟩
    rw [hcycles, hread]
    exact hw.threads
  | restart limit hserver _ => exact ⟨hw.published, hw.threads, nofun⟩
  | measure util hserver => exact ⟨hw.published, hw.threads, nofun⟩
  | attach i hp =>
    rw [Counters.add, hp]
    exact ⟨hw.published, threads_same hw.threads trivial, hw.seen⟩
  | zero i hp =>
    rw [Counters.add, hp]
    exact ⟨rfl, threads_same hw.threads trivial, hw.seen⟩
  | semInit i hp =>
    rw [Counters.add, hp]
    exact ⟨hw.published, threads_same hw.threads trivial, hw.seen⟩
  | test i hp =>
    rw [Counters.add, hp]
    exact ⟨hw.published, threads_same hw.threads trivial, hw.seen⟩
  | wait i hp hpos =>
    rw [Counters.add, hp]
    exact ⟨hw.published, threads_same hw.threads trivial, hw.seen⟩
  | interrupted i hp => exact hw
  | failed i hp => exact ⟨hw.published, threads_same hw.threads trivial, hw.seen⟩
  | noTokens i hp hnone => exact ⟨hw.published, threads_same hw.threads trivial, hw.seen⟩
  | create i client hp hattr hlimited hstarts =>
    refine ⟨hw.published, threads_put hw.threads ?_ ?_, hw.seen⟩
    · intro j hj
      exact ⟨Function.update_of_ne hj .., rfl⟩
    · refine ⟨?_, ?_⟩
      · rw [hstarts.post.loop]
        show 0 = Int32.ofNat (Function.update n.cycles i 0 i)
        rw [Function.update_self]
        rfl
      · intro hpc
        rw [hstarts.post.pc] at hpc
        cases hpc
  | client i c c' copied e hp hrun hown hstep =>
    have hthread := hw.threads i
    rw [hp] at hthread
    obtain ⟨hidx, hloop, hread⟩ :=
      client_counts (c := { c with attr := s.attr }) i hw.published hthread.1 hthread.2 hown hstep
    refine ⟨hidx, threads_put hw.threads (fun j hj => n.client_other hj e) ⟨hloop, hread⟩, ?_⟩
    show ∀ idx, s.server.idx = some idx → idx = Int32.ofNat (n.client i e).seen
    rw [n.client_seen]
    exact hw.seen

/-- A container, with what its counters stand for. -/
def counting (ι F : Type) [DecidableEq ι] (mapped : Bool) : System (Container ι F × Counters ι) (Event ι F) :=
  (container ι F mapped).tracking .zero Counters.add

theorem counts_reach {mapped : Bool} {s : Container ι F} {n : Counters ι} (h : (counting ι F mapped).Reach (s, n)) :
    Wrapped s n := by
  refine Reach.inv (I := fun p => Wrapped p.1 p.2) ?_ ?_ h
  · intro p hp
    obtain ⟨⟨hfresh, -⟩, hn⟩ := hp
    rw [hn]
    refine ⟨?_, ?_, ?_⟩
    · rw [hfresh.attr]
      rfl
    · intro i
      rw [hfresh.clients i]
      trivial
    · rw [hfresh.server]
      nofun
  · intro p e p' hw hstep
    rw [hstep.2]
    exact wrapped_step _ _ _ _ hw hstep.1

end

/-! ## In the arrays -/

theorem Wrapped.sample_iff {s : Container ι F} {n : Counters ι} (hw : Wrapped s n) {i : ι} {c : Client F}
    {copied : Option ℕ} (hc : s.clients i = .running c copied) :
    InArray 10 (c.post.loop % launchSamples) ↔ Fits 10 (n.cycles i) := by
  have h := hw.threads i
  rw [hc] at h
  rw [h.1]
  exact inArray_iff (by decide) (by decide) _

theorem Wrapped.publish_iff {s : Container ι F} {n : Counters ι} (hw : Wrapped s n) {i : ι} {c : Client F}
    {copied : Option ℕ} (hc : s.clients i = .running c copied) (hpc : c.post.pc = .publish) :
    InArray 2 (c.post.launchIdx % 2) ↔ Fits 2 (n.read i) := by
  have h := hw.threads i
  rw [hc] at h
  rw [h.2 hpc]
  exact inArray_iff (by decide) (by decide) _

theorem Wrapped.cur_iff {s : Container ι F} {n : Counters ι} (hw : Wrapped s n) {idx : Int32}
    (h : s.server.idx = some idx) : InArray 2 (idx % 2) ↔ Fits 2 n.seen := by
  rw [hw.seen idx h]
  exact inArray_iff (by decide) (by decide) _

theorem Wrapped.last_iff {s : Container ι F} {n : Counters ι} (hw : Wrapped s n) {idx : Int32}
    (h : s.server.idx = some idx) : InArray 2 ((idx + 1) % 2) ↔ Fits 2 (n.seen + 1) := by
  rw [hw.seen idx h, ← ofNat_succ]
  exact inArray_iff (by decide) (by decide) _

theorem Wrapped.in_bounds {s : Container ι F} {n : Counters ι} (hw : Wrapped s n) : InBounds s ↔ n.Fit s := by
  constructor
  · intro hb
    exact ⟨fun i c copied hc hpc => (hw.sample_iff hc).mp (hb.sample i c copied hc hpc),
      fun i c copied hc hpc => (hw.publish_iff hc hpc).mp (hb.publish i c copied hc hpc),
      fun util idx hs => (hw.cur_iff (congrArg Server.idx hs)).mp (hb.cur util idx hs),
      fun util idx cur hs => (hw.last_iff (congrArg Server.idx hs)).mp (hb.last util idx cur hs)⟩
  · intro hf
    exact ⟨fun i c copied hc hpc => (hw.sample_iff hc).mpr (hf.sample i c copied hc hpc),
      fun i c copied hc hpc => (hw.publish_iff hc hpc).mpr (hf.publish i c copied hc hpc),
      fun util idx hs => (hw.cur_iff (congrArg Server.idx hs)).mpr (hf.cur util idx hs),
      fun util idx cur hs => (hw.last_iff (congrArg Server.idx hs)).mpr (hf.last util idx cur hs)⟩

theorem fits_of_lt {length n : ℕ} (h : n < 2 ^ 31) : Fits length n := by
  refine Or.inl ?_
  rw [Nat.mod_eq_of_lt (by omega)]
  exact h

/-- The indices are in their arrays until a counter is negative. -/
theorem in_bounds_early [DecidableEq ι] {mapped : Bool} {s : Container ι F} {n : Counters ι}
    (h : (counting ι F mapped).Reach (s, n)) (hcycles : ∀ i, n.cycles i < 2 ^ 31) (hread : ∀ i, n.read i < 2 ^ 31)
    (hseen : n.seen + 1 < 2 ^ 31) : InBounds s :=
  (counts_reach h).in_bounds.mpr ⟨fun i _ _ _ _ => fits_of_lt (hcycles i), fun i _ _ _ _ => fits_of_lt (hread i),
    fun _ _ _ => fits_of_lt (by omega), fun _ _ _ _ => fits_of_lt hseen⟩

/-- In every state of every run: the indices used next are in their arrays exactly if the
    numbers their counters stand for fit. -/
theorem in_bounds_iff [DecidableEq ι] {mapped : Bool} {s : Container ι F} {n : Counters ι}
    (h : (counting ι F mapped).Reach (s, n)) : InBounds s ↔ n.Fit s := (counts_reach h).in_bounds

/-! ## Running on -/

/-- A process of a container gets here. -/
def Runs (c : Client F) : Prop :=
  ∃ (s : Container Unit F) (copied : Option ℕ), (container Unit F true).Reach s ∧
    s.clients () = .running c copied ∧ c.attr = s.attr

theorem Runs.step {c c' : Client F} {e : Limiter.Event F} (h : Runs c) (hrun : c.exited = false)
    (hstep : Limiter.Step c e c') (hown : IsOwn e) : Runs c' := by
  obtain ⟨s, copied, hs, hc, hattr⟩ := h
  have hstep : Limiter.Step { c with attr := s.attr } e c' := by
    rw [← hattr]
    exact hstep
  exact ⟨_, _, hs.step (.client s () c c' copied e hc hrun hown hstep), put_self s () _, rfl⟩

/-- It begins a cycle of one token, after so many. -/
structure Spins (c : Client F) (n : ℕ) : Prop where
  runs : Runs c
  running : c.exited = false
  pc : c.post.pc = .load
  changed : c.attr.changed = 0
  addPerCycle : c.post.addPerCycle = 1
  loop : c.post.loop = Int32.ofNat n

/-- It has posted the token. -/
structure Samples (c : Client F) (n : ℕ) : Prop where
  runs : Runs c
  running : c.exited = false
  pc : c.post.pc = .sample
  changed : c.attr.changed = 0
  addPerCycle : c.post.addPerCycle = 1
  loop : c.post.loop = Int32.ofNat n

theorem Spins.samples {c : Client F} {n : ℕ} (h : Spins c n) : ∃ c' : Client F, Samples c' (n + 1) := by
  have hone : (0 : Int32) < c.post.addPerCycle := by
    rw [h.addPerCycle]
    decide
  have hloop : c.post.loop + 1 = Int32.ofNat (n + 1) := by rw [ofNat_succ, h.loop]
  have hr := h.runs.step h.running (.load c h.pc) trivial
  rw [if_neg (not_not.mpr h.changed)] at hr
  have hr := hr.step h.running (.reset _ rfl) trivial
  have hr := hr.step h.running (.sleep _ rfl) trivial
  have hr := hr.step h.running (.post _ rfl hone) trivial
  have hdone : ¬ (0 + 1 : Int32) < c.post.addPerCycle := by
    rw [h.addPerCycle]
    decide
  have hr := hr.step h.running (.posted _ rfl hdone) trivial
  exact ⟨_, hr, h.running, rfl, h.changed, h.addPerCycle, hloop⟩

theorem Samples.spins {c : Client F} {n : ℕ} (h : Samples c n) : ∃ c' : Client F, Spins c' n := by
  have hr := h.runs.step h.running (.sample c h.pc) trivial
  have hr := hr.step h.running (.index _ rfl) trivial
  have hr := hr.step h.running (.publish _ rfl) trivial
  have hr := hr.step h.running (.next _ rfl) trivial
  exact ⟨_, hr, h.running, rfl, h.changed, h.addPerCycle, h.loop⟩

theorem first_sample : ∃ c : Client Unit, Samples c 1 := by
  have h : ((container Unit Unit true).restrict fun _ _ => True).Reach _ :=
    reach_announced (fun _ _ => trivial) (reach_posted (fun _ _ => trivial) reach_fresh)
  have h := reach_joined (fun _ => trivial) (fun _ _ => trivial) rfl h
  have hr : Runs (joined { announcedAttr with ready := 0 }) := ⟨_, _, h.of_restrict, rfl, rfl⟩
  have hr := hr.step rfl (.load _ rfl) trivial
  have hr := hr.step rfl (.copyWait _ rfl) trivial
  have hr := hr.step rfl (.copyAdd _ rfl) trivial
  have hr := hr.step rfl (.clear _ rfl) trivial
  have hr := hr.step rfl (.reset _ rfl) trivial
  have hr := hr.step rfl (.sleep _ rfl) trivial
  have hr := hr.step rfl (.post _ rfl (by decide)) trivial
  have hr := hr.step rfl (.posted _ rfl (by decide)) trivial
  exact ⟨_, hr, rfl, rfl, rfl, rfl, rfl⟩

/-- Every number of cycles is reached. -/
theorem spins (n : ℕ) : ∃ c : Client Unit, Samples c (n + 1) := by
  induction n with
  | zero => exact first_sample
  | succ n ih =>
    obtain ⟨c, hc⟩ := ih
    obtain ⟨c, hc⟩ := hc.spins
    exact hc.samples

/-- In the 2147483648th cycle, -8 is the index of the sample. -/
theorem index_wraps : ∃ (s : Container Unit Unit) (c : Client Unit) (copied : Option ℕ),
    (container Unit Unit true).Reach s ∧ s.clients () = .running c copied ∧ c.post.pc = .sample ∧
      c.post.loop % launchSamples = -8 ∧ ¬ InBounds s := by
  obtain ⟨c, hc⟩ := spins (2 ^ 31 - 1)
  obtain ⟨s, copied, hs, hclient, -⟩ := hc.runs
  have hindex : c.post.loop % launchSamples = -8 := by
    rw [hc.loop]
    decide
  refine ⟨s, c, copied, hs, hclient, hc.pc, hindex, ?_⟩
  intro hb
  have hin := (hb.sample () c copied hclient hc.pc).1
  rw [hindex] at hin
  exact absurd hin (by decide)

theorem in_bounds_first : ∃ (s : Container Unit Unit) (n : Counters Unit) (c : Client Unit) (copied : Option ℕ),
    s.clients () = .running c copied ∧ c.post.pc = .sample ∧ c.post.loop = 1 ∧ (InBounds s ↔ n.Fit s) := by
  obtain ⟨c, hc⟩ := first_sample
  obtain ⟨s, copied, hs, hclient, -⟩ := hc.runs
  obtain ⟨n, hn⟩ := hs.tracked
  exact ⟨s, n, c, copied, hclient, hc.pc, hc.loop, in_bounds_iff hn⟩

end NvResourceController.Monitor
