/-
  NvResourceController.Monitor.Supply — that no launch waits for the others: a process
  whose thread has once copied a budget gives itself tokens from then on, whatever has
  become of the monitor and of the other processes.

  - `supplied_step`: what a thread has copied is a budget of at least 1, as long as the
    segment is there from the start.
  - `cycle_ends`: from anywhere in its loop the thread gets to a `sem_post` by itself.
  - `launch_goes_through`: so from every state of every run the launch that waits at the
    semaphore can be brought to the real function by steps of its own process.
-/

import NvResourceController.Limiter.Tokens
import NvResourceController.Monitor.Notify
import NvResourceController.Monitor.Startup

namespace NvResourceController.Monitor

open Limiter System

variable {ι F : Type}

/-! ## One process -/

/-- The thread goes by a budget of at least 1, and finds one. -/
structure Fed (c : Client F) : Prop where
  running : c.exited = false
  budget : 1 ≤ c.post.addPerCycle.toInt
  attr : 1 ≤ c.attr.params.addPerCycle.toInt

def Posts (p : TokenPost) : Prop := p.pc = .post ∧ p.i < p.addPerCycle

instance : DecidablePred Posts := fun _ => inferInstanceAs (Decidable (_ ∧ _))

def OfThread : Limiter.Event F → Prop
  | .load | .copyWait | .copyAdd | .clear | .reset | .sleep | .post _ | .posted _ | .sample _ | .index | .publish
  | .next => True
  | _ => False

theorem OfThread.own {d : Limiter.Event F} (h : OfThread d) : IsOwn d := by
  cases d with
  | shared attr => exact h.elim
  | _ => trivial

/-- How far the thread is from a `sem_post`. -/
def toPost : Pc → ℕ
  | .sleep => 1
  | .reset => 2
  | .clear => 3
  | .copyAdd => 4
  | .copyWait => 5
  | .load => 6
  | .next => 7
  | .publish => 8
  | .index => 9
  | .sample => 10
  | .post => 11

theorem nearer {c : Client F} (h : Fed c) (hp : ¬ Posts c.post) :
    ∃ d c', Limiter.Step c d c' ∧ OfThread d ∧ Fed c' ∧ c'.threads = c.threads ∧ c'.table = c.table ∧
      (Posts c'.post ∨ toPost c'.post.pc < toPost c.post.pc) := by
  cases hpc : c.post.pc with
  | load =>
    refine ⟨.load, _, .load c hpc, trivial, ⟨h.running, h.budget, h.attr⟩, rfl, rfl, Or.inr ?_⟩
    dsimp only
    split <;> decide
  | copyWait =>
    exact ⟨.copyWait, _, .copyWait c hpc, trivial, ⟨h.running, h.budget, h.attr⟩, rfl, rfl, Or.inr (Nat.lt_succ_self 4)⟩
  | copyAdd =>
    exact ⟨.copyAdd, _, .copyAdd c hpc, trivial, ⟨h.running, h.attr, h.attr⟩, rfl, rfl, Or.inr (Nat.lt_succ_self 3)⟩
  | clear =>
    exact ⟨.clear, _, .clear c hpc, trivial, ⟨h.running, h.budget, h.attr⟩, rfl, rfl, Or.inr (Nat.lt_succ_self 2)⟩
  | reset =>
    exact ⟨.reset, _, .reset c hpc, trivial, ⟨h.running, h.budget, h.attr⟩, rfl, rfl, Or.inr (Nat.lt_succ_self 1)⟩
  | sleep =>
    refine ⟨.sleep, _, .sleep c hpc, trivial, ⟨h.running, h.budget, h.attr⟩, rfl, rfl, Or.inl ⟨rfl, ?_⟩⟩
    exact Int32.lt_iff_toInt_lt.mpr (Int.lt_of_lt_of_le (by decide : (0 : Int32).toInt < 1) h.budget)
  | post =>
    have hlt : ¬ c.post.i < c.post.addPerCycle := fun hlt => hp ⟨hpc, hlt⟩
    exact ⟨_, _, .posted c hpc hlt, trivial, ⟨h.running, h.budget, h.attr⟩, rfl, rfl, Or.inr (Nat.lt_succ_self 10)⟩
  | sample =>
    exact ⟨_, _, .sample c hpc, trivial, ⟨h.running, h.budget, h.attr⟩, rfl, rfl, Or.inr (Nat.lt_succ_self 9)⟩
  | index =>
    exact ⟨.index, _, .index c hpc, trivial, ⟨h.running, h.budget, h.attr⟩, rfl, rfl, Or.inr (Nat.lt_succ_self 8)⟩
  | publish =>
    exact ⟨.publish, _, .publish c hpc, trivial, ⟨h.running, h.budget, h.attr⟩, rfl, rfl, Or.inr (Nat.lt_succ_self 7)⟩
  | next =>
    exact ⟨.next, _, .next c hpc, trivial, ⟨h.running, h.budget, h.attr⟩, rfl, rfl, Or.inr (Nat.lt_succ_self 6)⟩

theorem toPost_le (pc : Pc) : toPost pc ≤ 11 := by
  cases pc <;> decide

theorem cycle_ends {c : Client F} (h : Fed c) :
    ∃ ds c', (client F).Run c ds c' ∧ ds.length ≤ toPost c.post.pc ∧ (∀ d ∈ ds, OfThread d) ∧ Fed c' ∧
      c'.threads = c.threads ∧ c'.table = c.table ∧ Posts c'.post := by
  induction hn : toPost c.post.pc using Nat.strong_induction_on generalizing c with
  | _ n ih =>
    subst hn
    by_cases hp : Posts c.post
    · exact ⟨[], c, .nil _, Nat.zero_le _, nofun, h, rfl, rfl, hp⟩
    · obtain ⟨d, c1, hstep, hown, hfed, hthreads, htable, hposts | hlt⟩ := nearer h hp
      · have hpos : 1 ≤ toPost c.post.pc := by
          cases c.post.pc <;> decide
        exact ⟨[d], c1, .cons ⟨h.running, hstep⟩ (.nil _), hpos, List.forall_mem_singleton.mpr hown, hfed, hthreads,
          htable, hposts⟩
      · obtain ⟨ds, c', hrun, hlen, hall, hfed', hthreads', htable', hposts⟩ := ih _ hlt hfed rfl
        exact ⟨d :: ds, c', .cons ⟨h.running, hstep⟩ hrun, Nat.succ_le_of_lt (Nat.lt_of_le_of_lt hlen hlt),
          List.forall_mem_cons.mpr ⟨hown, hall⟩, hfed', hthreads'.trans hthreads, htable'.trans htable, hposts⟩

/-- A launch that waits goes through to the function it is for. -/
theorem launches_through {c : Client F} (h : Fed c) {t : ℕ} {e : LaunchEntry} (ht : c.threads t = .waiting e) {f : F}
    (hf : c.table e.val = some f) :
    ∃ ds c', (client F).Run c (ds ++ [.wait t, .count t, .call t f]) c' ∧ ds.length ≤ 12 ∧ ∀ d ∈ ds, OfThread d := by
  obtain ⟨ds, c1, hrun, hlen, hall, hfed, hthreads, htable, hpc, hlt⟩ := cycle_ends h
  have hlen := Nat.le_trans hlen (toPost_le _)
  have ht1 : c1.threads t = .waiting e := by rw [hthreads, ht]
  have hf1 : c1.table e.val = some f := by rw [htable, hf]
  have hlaunch : (Cuda.Ptr.hook e.val).launch 0 c1.table = .calls f := Cuda.launch_admitted (p := .hook e.val) hf1
  have hrun := hrun.snoc ⟨hfed.running, .post c1 hpc hlt⟩
  have hrun := hrun.snoc ⟨hfed.running, .wait _ t e ht1 (semPost_pos _)⟩
  have hrun := hrun.snoc ⟨hfed.running, .count _ t e 0 (phase_self _ _ _)⟩
  have hrun := hrun.snoc ⟨hfed.running, .call _ t e 0 f (phase_self _ _ _) hlaunch⟩
  rw [List.append_assoc, List.append_assoc] at hrun
  refine ⟨ds ++ [.post (semPost c1.tokens).1], _, hrun, ?_, ?_⟩
  · rw [List.length_append]
    exact Nat.succ_le_succ hlen
  intro d hd
  rcases List.mem_append.mp hd with hd | hd
  · exact hall d hd
  · rw [List.mem_singleton.mp hd]
    trivial

/-! ## A process of the container -/

variable [DecidableEq ι]

/-- What a process can do by itself, it can do in the container. -/
theorem own_run {mapped : Bool} {s : Container ι F} {i : ι} {c c' : Client F} {copied : Option ℕ}
    {ds : List (Limiter.Event F)} (hi : s.clients i = .running c copied)
    (h : (client F).Run { c with attr := s.attr } ds c') (hown : ∀ d ∈ ds, IsOwn d) :
    ∃ s', (container ι F mapped).Run s (ds.map (.client i)) s' := by
  generalize hc : ({ c with attr := s.attr } : Client F) = c0 at h
  induction h generalizing s c copied with
  | nil => exact ⟨s, .nil _⟩
  | @cons c0 c1 c' d ds hstep _ ih =>
    obtain ⟨hd, hds⟩ := List.forall_mem_cons.mp hown
    obtain ⟨hrun, hstep⟩ := hstep
    subst hc
    have hmove : Step s (.client i d) { s.put i (.running c1 (copiedAfter s.stores copied d)) with attr := c1.attr } :=
      .client s i c c1 copied d hi hrun hd hstep
    obtain ⟨s', hrest⟩ := ih (s := { s.put i (.running c1 (copiedAfter s.stores copied d)) with attr := c1.attr })
      (put_self s i _) hds rfl
    exact ⟨s', .cons hmove hrest⟩

/-- What a thread has copied is a budget of at least 1. -/
def ProcSupplied : Proc F → Prop
  | .running c copied => copied.isSome → 1 ≤ c.post.addPerCycle.toInt
  | _ => True

theorem clientStep_supplied {c c' : Client F} {copied : Option ℕ} {e : Limiter.Event F} (stores : ℕ)
    (h : copied.isSome → 1 ≤ c.post.addPerCycle.toInt) (hattr : 1 ≤ c.attr.params.addPerCycle.toInt)
    (ha : Acts c e c') : (copiedAfter stores copied e).isSome → 1 ≤ c'.post.addPerCycle.toInt := by
  cases ha with
  | saw hpc hraised => exact h
  | passed hpc hlow => exact h
  | copiedWait hpc => exact h
  | copiedAdd hpc => exact fun _ => hattr
  | cleared hpc => exact h
  | other e c' hload hadd hclear hq =>
    rw [copiedAfter_other hadd, hq.addPerCycle]
    exact h

theorem supplied_step {s s' : Container ι F} {e : Event ι F} (hinv : Inv s) (hi : ∀ i, ProcSupplied (s.clients i))
    (h : Step s e s') : ∀ i, ProcSupplied (s'.clients i) := by
  have hput : ∀ i p, ProcSupplied p → ∀ j, ProcSupplied ((s.put i p).clients j) := fun i p hp => put_clients hp hi
  cases h with
  | attachServer hserver => exact hi
  | zeroServer hserver => exact hi
  | init pc hserver => exact hi
  | delta util pc hserver => exact hi
  | restart limit hserver hlimit => exact hi
  | measure util hserver => exact hi
  | attach i hp => exact hput i _ trivial
  | zero i hp => exact hput i _ trivial
  | semInit i hp => exact hput i _ trivial
  | test i hp => exact hput i _ trivial
  | wait i hp hpos => exact hput i _ trivial
  | interrupted i hp => exact hi
  | failed i hp => exact hput i _ trivial
  | create i client hp hattr hlimited hstarts => exact hput i _ nofun
  | noTokens i hp hnone => exact hput i _ trivial
  | client i c c' copied e hp hrun hown hstep =>
    have hreleased := hinv.released.clients i
    have hclient := hi i
    rw [hp] at hreleased hclient
    have hready := hinv.stage.ready hreleased.1
    have hacts := client_cases hstep hown
    exact hput i _ (clientStep_supplied (c := { c with attr := s.attr }) s.stores hclient hready.addPerCycle hacts)

theorem supplied {s : Container ι F} (h : (container ι F true).Reach s) : Inv s ∧ ∀ i, ProcSupplied (s.clients i) := by
  refine Reach.inv (I := fun s => Inv s ∧ ∀ i, ProcSupplied (s.clients i)) ?_ ?_ h
  · intro s h0
    refine ⟨inv_init h0, fun i => ?_⟩
    rw [h0.1.clients i]
    trivial
  · intro s e s' hi hstep
    exact ⟨inv_step hi.1 hstep, supplied_step hi.1 hi.2 hstep⟩

/-- From every state of every run: a launch that waits in a process whose thread has once
    copied a budget gets to the function it is for within twelve steps of that thread and
    three of its own. -/
theorem launch_goes_through {s : Container ι F} (h : (container ι F true).Reach s) {i : ι} {c : Client F} {n : ℕ}
    (hi : s.clients i = .running c (some n)) (hrun : c.exited = false) {t : ℕ} {e : LaunchEntry}
    (ht : c.threads t = .waiting e) {f : F} (hf : c.table e.val = some f) :
    ∃ ds s', (container ι F true).Run s ((ds ++ [.wait t, .count t, .call t f]).map (.client i)) s' ∧ ds.length ≤ 12 ∧
      ∀ d ∈ ds, OfThread d := by
  obtain ⟨hinv, hall⟩ := supplied h
  have hreleased := hinv.released.clients i
  have hsupplied := hall i
  rw [hi] at hreleased hsupplied
  have hfed : Fed { c with attr := s.attr } := ⟨hrun, hsupplied rfl, (hinv.stage.ready hreleased.1).addPerCycle⟩
  obtain ⟨ds, c', hown, hlen, hds⟩ := launches_through hfed ht hf
  obtain ⟨s', hs'⟩ := own_run hi hown fun d hd => by
    rcases List.mem_append.mp hd with hd | hd
    · exact (hds d hd).own
    · simp only [List.mem_cons, List.not_mem_nil, or_false] at hd
      rcases hd with rfl | rfl | rfl <;> trivial
  exact ⟨ds, s', hs', hlen, hds⟩

/-- A process that finds its `cuLaunchKernel`. -/
def launching : Client Unit := { joined { announcedAttr with ready := 0 } with table := fun _ => some () }

theorem launch_goes_through_run : ∃ s s' : Container Unit Unit, ∃ ds, (container Unit Unit true).Reach s ∧
    (container Unit Unit true).Run s ((ds ++ [.wait 0, .count 0, .call 0 ()]).map (.client ())) s' := by
  have h : ((container Unit Unit true).restrict fun _ _ => True).Reach
      (limitTen .idle announcedAttr (fun _ => .starting .attach) 1) :=
    reach_announced (fun _ _ => trivial) (reach_posted (fun _ _ => trivial) reach_fresh)
  have h := reach_step (.start ()) h trivial (.attach _ _ rfl)
  have h := reach_step (.start ()) h trivial (.semInit _ _ rfl)
  have h := reach_step (.start ()) h trivial (.test _ _ rfl)
  have h := reach_step (.create () launching) h trivial
    (.create _ _ _ rfl rfl rfl ⟨rfl, ⟨rfl, rfl, rfl, fun _ => rfl⟩, fun _ => rfl, rfl⟩)
  have h := reach_step (.client () .load) h trivial (.client _ _ _ _ _ _ rfl rfl trivial (.load _ rfl))
  have h := reach_step (.client () .copyWait) h trivial (.client _ _ _ _ _ _ rfl rfl trivial (.copyWait _ rfl))
  have h := reach_step (.client () .copyAdd) h trivial (.client _ _ _ _ _ _ rfl rfl trivial (.copyAdd _ rfl))
  have h := reach_step (.client () (.enter 0 aLaunch)) h trivial
    (.client _ _ _ _ _ _ rfl rfl trivial (.enter _ 0 aLaunch rfl))
  have h := h.of_restrict
  obtain ⟨ds, s', hrun, -⟩ := launch_goes_through h (i := ()) (t := 0) (e := aLaunch) (f := ()) rfl rfl rfl rfl
  exact ⟨_, s', ds, h, hrun⟩

end NvResourceController.Monitor
