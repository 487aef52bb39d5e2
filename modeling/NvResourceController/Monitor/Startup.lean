/-
  NvResourceController.Monitor.Startup — the start of a limited process
  (`_init_device_prop`, `src/ioctl_hook.c`) beside `init_attr` (`src/server_monitor.c`).
  The process clears the semaphore `ready`, and waits on it unless the attribute is
  initialised; the monitor posts once, and raises the flag after that.

  - `none_stuck`: in runs in which a process goes to wait when no other does, clears the
    semaphore only when it is 0 or nobody waits, and a new segment is cleared before
    `init_attr` marks it initialised, whoever waits once `init_attr` has returned has a
    post to take.
  - `one_stuck`: of two processes that wait, one takes the post, and the other waits for
    ever (`stuck_forever`).
  - `sleeps_on_copy`: in runs in which the thread of a single process looks at the flag for
    the first time after `init_attr` has returned, and a new segment is cleared before
    `init_attr` stores the interval, every cycle sleeps and posts by what was copied.
  - `sleeps_on_nothing`: released by the post, the thread looks before the flag is up.
-/

import NvResourceController.Monitor.Container

namespace NvResourceController.Monitor

open Limiter

variable {ι F : Type}

/-! ## Waiting for the attribute -/

def Waits (s : Container ι F) (i : ι) : Prop := s.clients i = .starting .wait

/-- `init_attr` has marked the attribute as initialised. -/
def InitPc.Marked : InitPc → Prop
  | .post => True
  | .testLimit => True
  | .newLimit => True
  | .newModTimes => True
  | .scale => True
  | .storeScaled _ => True
  | .changed => True
  | _ => False

def Server.Marked : Server → Prop
  | .attach => False
  | .zero => False
  | .init pc => pc.Marked
  | .idle => True
  | .delta _ _ => True

def Server.Returned : Server → Prop
  | .idle => True
  | .delta _ _ => True
  | _ => False

theorem Server.Returned.marked {server : Server} (h : server.Returned) : server.Marked := by
  cases server with
  | idle => trivial
  | delta util pc => trivial
  | _ => exact absurd h id

theorem Server.Returned.ne_post {server : Server} (h : server.Returned) : server ≠ .init .post := by
  intro heq
  subst heq
  exact h

/-- A process goes to wait when no other does, and takes nothing from who waits. -/
def Timely (s : Container ι F) : Event ι F → Prop
  | .start i =>
    match s.clients i with
    | .starting .zero => s.attr.inited = 0
    | .starting .semInit => s.attr.ready = 0 ∨ ∀ j, ¬ Waits s j
    | .starting .test => s.attr.inited ≠ 0 ∨ ∀ j, ¬ Waits s j
    | _ => True
  | _ => True

structure Awaited (s : Container ι F) : Prop where
  alone : ∀ i j, Waits s i → Waits s j → i = j
  marked : s.server.Marked → s.attr.inited ≠ 0
  posted : s.attr.inited ≠ 0 → s.server ≠ .init .post → ∀ i, Waits s i → 0 < s.attr.ready

theorem initStep_marked {limit : Int32} {attr : TokenAttr} {pc : InitPc} (h : pc.Marked → attr.inited ≠ 0) :
    (initStep limit attr pc).2.Marked → (initStep limit attr pc).1.inited ≠ 0 := by
  intro hmarked
  cases pc with
  | testInited =>
    simp only [initStep] at hmarked ⊢
    split at hmarked
    · exact absurd hmarked id
    · assumption
  | inited => exact (by decide : (1 : Int32) ≠ 0)
  | post => exact h trivial
  | testLimit => exact h trivial
  | newLimit => exact h trivial
  | newModTimes => exact h trivial
  | scale => exact h trivial
  | storeScaled newCycle => exact h trivial
  | changed => exact h trivial
  | _ => exact absurd hmarked id

theorem semPost_pos (count : ℕ) : 0 < (semPost count).2 := by
  by_cases h : count < semValueMax
  · rw [semPost, if_pos h]
    exact Nat.succ_pos _
  · rw [semPost, if_neg h]
    have hmax : 0 < semValueMax := by decide
    exact Nat.lt_of_lt_of_le hmax (Nat.le_of_not_lt h)

theorem initStep_posted {limit : Int32} {attr : TokenAttr} {pc : InitPc} (hpc : pc ≠ .inited)
    (h : attr.inited ≠ 0 → pc ≠ .post → 0 < attr.ready) (hinited : (initStep limit attr pc).1.inited ≠ 0) :
    0 < (initStep limit attr pc).1.ready := by
  cases pc with
  | inited => exact absurd rfl hpc
  | post => exact semPost_pos _
  | _ => exact h hinited nofun

theorem awaited_init {s : Container ι F} {pc : InitPc} (hi : Awaited s) (hserver : s.server = .init pc) :
    Awaited { s with
      attr := (initStep s.limit s.attr pc).1
      server := (initStep s.limit s.attr pc).2
      stores := s.stores + pc.stores } := by
  have hmarked : pc.Marked → s.attr.inited ≠ 0 := fun h => hi.marked (by rw [hserver]; exact h)
  refine ⟨hi.alone, initStep_marked hmarked, ?_⟩
  intro h hpost i hw
  have hpc : pc ≠ .inited := by
    intro hpc
    subst hpc
    exact hpost rfl
  refine initStep_posted hpc (fun h hne => hi.posted h ?_ i hw) h
  rw [hserver]
  intro heq
  cases heq
  exact hne rfl

section

variable [DecidableEq ι]

theorem waits_put {s : Container ι F} {i j : ι} {p : Proc F} (hp : p ≠ .starting .wait) (h : Waits (s.put i p) j) :
    j ≠ i ∧ Waits s j := by
  have hne : j ≠ i := by
    intro hj
    subst hj
    exact hp (by rw [← put_self s j p]; exact h)
  refine ⟨hne, ?_⟩
  rw [Waits, put_other hne] at h
  exact h

/-- A process changed and does not wait; the mark is the same, and who waits has a post. -/
theorem Awaited.put {s : Container ι F} (hi : Awaited s) (i : ι) {p : Proc F} (attr : TokenAttr)
    (hp : p ≠ .starting .wait) (hinited : attr.inited = s.attr.inited)
    (hready : ∀ j, j ≠ i → Waits s j → 0 < s.attr.ready → 0 < attr.ready) :
    Awaited { s.put i p with attr := attr } where
  alone j k hj hk := hi.alone j k (waits_put hp hj).2 (waits_put hp hk).2
  marked h := by
    rw [hinited]
    exact hi.marked h
  posted h hserver j hj := by
    rw [hinited] at h
    obtain ⟨hne, hj⟩ := waits_put hp hj
    exact hready j hne hj (hi.posted h hserver j hj)

/-- The first to wait, before the attribute is marked. -/
theorem Awaited.wait {s : Container ι F} (hi : Awaited s) (i : ι) (hinited : s.attr.inited = 0)
    (hnobody : ∀ j, ¬ Waits s j) : Awaited (s.put i (.starting .wait)) := by
  refine ⟨?_, hi.marked, fun h => absurd hinited h⟩
  intro j k hj hk
  have hself : ∀ j, Waits (s.put i (.starting .wait)) j → j = i := by
    intro j hj
    by_contra hne
    rw [Waits, put_other hne] at hj
    exact hnobody j hj
  rw [hself j hj, hself k hk]

theorem awaited_step {s s' : Container ι F} {e : Event ι F} (hi : Awaited s) (hok : Timely s e) (h : Step s e s') :
    Awaited s' := by
  cases h with
  | attachServer hserver =>
    refine ⟨hi.alone, fun h => ?_, fun h hpost => hi.posted h (by rw [hserver]; nofun)⟩
    simp only at h
    split at h
    · exact absurd h id
    · exact absurd h id
  | zeroServer hserver =>
    exact ⟨hi.alone, fun h => absurd h id, fun h => absurd rfl h⟩
  | init pc hserver => exact awaited_init hi hserver
  | delta util pc hserver =>
    obtain ⟨hinited, hready⟩ := deltaStep_inited s.limit util s.attr pc
    have hmarked : s.attr.inited ≠ 0 := hi.marked (by rw [hserver]; trivial)
    refine ⟨hi.alone, ?_, ?_⟩
    · intro _
      rw [hinited]
      exact hmarked
    · intro _ _ i hw
      rw [hready]
      exact hi.posted hmarked (by rw [hserver]; nofun) i hw
  | restart limit hserver hlimit =>
    exact ⟨hi.alone, fun h => absurd h id, fun h _ => hi.posted h (by rw [hserver]; nofun)⟩
  | measure util hserver =>
    exact ⟨hi.alone, fun _ => hi.marked (by rw [hserver]; trivial), fun h _ => hi.posted h (by rw [hserver]; nofun)⟩
  | attach i hp =>
    have hput := hi.put i (p := .starting (if s.mapped then .semInit else .zero)) s.attr
      (by split <;> nofun) rfl (fun _ _ _ h => h)
    exact ⟨hput.alone, hput.marked, hput.posted⟩
  | zero i hp =>
    have hinited : s.attr.inited = 0 := by
      simp only [Timely, hp] at hok
      exact hok
    have hput := hi.put i (p := .starting .semInit) s.attr nofun rfl (fun _ _ _ h => h)
    exact ⟨hput.alone, fun h => absurd hinited (hi.marked h), fun h => absurd rfl h⟩
  | semInit i hp =>
    have hsafe : s.attr.ready = 0 ∨ ∀ j, ¬ Waits s j := by
      simp only [Timely, hp] at hok
      exact hok
    refine hi.put i _ nofun rfl ?_
    intro j _ hj hpos
    rcases hsafe with hzero | hnobody
    · omega
    · exact absurd hj (hnobody j)
  | test i hp =>
    have hsafe : s.attr.inited ≠ 0 ∨ ∀ j, ¬ Waits s j := by
      simp only [Timely, hp] at hok
      exact hok
    by_cases hinited : s.attr.inited = 0
    · have hnobody := hsafe.resolve_left (not_not.mpr hinited)
      rw [if_pos hinited]
      exact hi.wait i hinited hnobody
    · rw [if_neg hinited]
      exact hi.put i s.attr nofun rfl fun _ _ _ h => h
  | wait i hp hpos => exact hi.put i _ nofun rfl fun j hne hj _ => absurd (hi.alone j i hj hp) hne
  | interrupted i hp => exact hi
  | failed i hp => exact hi.put i s.attr nofun rfl fun _ _ _ h => h
  | create i client hp hattr hlimited hstarts => exact hi.put i s.attr nofun rfl fun _ _ _ h => h
  | noTokens i hp hnone => exact hi.put i s.attr nofun rfl fun _ _ _ h => h
  | client i c c' copied e hp hrun hown hstep =>
    have hacts := client_cases hstep hown
    exact hi.put i _ nofun hacts.budget.inited fun _ _ _ h => by rw [hacts.ready]; exact h

theorem awaited {mapped : Bool} {s : Container ι F} (h : ((container ι F mapped).restrict Timely).Reach s) :
    Awaited s := by
  refine System.Reach.inv (I := Awaited) ?_ ?_ h
  · intro s h0
    obtain ⟨hfresh, -⟩ := h0
    have hnobody : ∀ i, ¬ Waits s i := by
      intro i hw
      rw [Waits, hfresh.clients i] at hw
      cases hw
    refine ⟨fun i _ hw => absurd hw (hnobody i), ?_, fun _ _ i hw => absurd hw (hnobody i)⟩
    intro h
    rw [hfresh.server] at h
    exact absurd h id
  · intro s e s' hi hstep
    exact awaited_step hi hstep.1 hstep.2

/-- Once `init_attr` has returned, whoever waits has a post to take. -/
theorem none_stuck {mapped : Bool} {s : Container ι F} (h : ((container ι F mapped).restrict Timely).Reach s)
    (hserver : s.server.Returned) {i : ι} (hi : s.clients i = .starting .wait) : 0 < s.attr.ready := by
  have ha := awaited h
  exact ha.posted (ha.marked hserver.marked) hserver.ne_post i hi

/-- The process that waits takes the only post. -/
theorem none_stuck_run : ∃ s : Container Bool Unit, ((container Bool Unit true).restrict Timely).Reach s ∧
    s.server = .idle ∧ s.clients false = .starting .wait ∧ 0 < s.attr.ready := by
  have h : ((container Bool Unit true).restrict Timely).Reach _ := reach_fresh
  have h := reach_step (.start false) h trivial (.attach _ _ rfl)
  have h := reach_step (.start false) h (Or.inl rfl) (.semInit _ _ rfl)
  have h := reach_step (.start false) h (Or.inr nofun) (.test _ _ rfl)
  have h := reach_announced (fun _ _ => trivial) (reach_posted (fun _ _ => trivial) h)
  exact ⟨_, h, rfl, rfl, none_stuck (i := false) h trivial rfl⟩

/-! ### Two that wait -/

/-- The semaphore is 0, and the post is past. -/
structure Stuck (s : Container ι F) : Prop where
  mapped : s.mapped = true
  ready : s.attr.ready = 0
  inited : s.attr.inited ≠ 0
  server : s.server.Marked ∧ s.server ≠ .init .post ∨ s.server = .init .testInited
  clients : ∀ i, s.clients i ≠ .starting .zero

theorem Stuck.put {s : Container ι F} (hi : Stuck s) (i : ι) {p : Proc F} (attr : TokenAttr) (hp : p ≠ .starting .zero)
    (hinited : attr.inited = s.attr.inited) (hready : attr.ready = 0) : Stuck { s.put i p with attr := attr } where
  mapped := hi.mapped
  ready := hready
  inited := by
    rw [hinited]
    exact hi.inited
  server := hi.server
  clients := put_clients (P := fun p => p ≠ .starting .zero) hp hi.clients

theorem initStep_stuck (limit : Int32) {attr : TokenAttr} {pc : InitPc}
    (hpc : pc.Marked ∧ pc ≠ .post ∨ pc = .testInited) (hinited : attr.inited ≠ 0) :
    (initStep limit attr pc).1.inited = attr.inited ∧ (initStep limit attr pc).1.ready = attr.ready ∧
      (initStep limit attr pc).2.Marked ∧ (initStep limit attr pc).2 ≠ .init .post := by
  rcases hpc with ⟨hmarked, hpost⟩ | rfl
  · cases pc with
    | testLimit =>
      refine ⟨rfl, rfl, ?_, ?_⟩
      · simp only [initStep]
        split <;> trivial
      · simp only [initStep]
        split <;> simp
    | post => exact absurd rfl hpost
    | newLimit => exact ⟨rfl, rfl, trivial, by simp [initStep]⟩
    | newModTimes => exact ⟨rfl, rfl, trivial, by simp [initStep]⟩
    | scale => exact ⟨rfl, rfl, trivial, by simp [initStep]⟩
    | storeScaled newCycle => exact ⟨rfl, rfl, trivial, by simp [initStep]⟩
    | changed => exact ⟨rfl, rfl, trivial, by simp [initStep]⟩
    | _ => exact absurd hmarked id
  · simp only [initStep, if_neg hinited]
    exact ⟨trivial, trivial, trivial, by simp⟩

theorem deltaStep_returned (limit util : Int32) (attr : TokenAttr) (pc : DeltaPc) :
    (deltaStep limit util attr pc).2.Returned := by
  cases pc with
  | changed =>
    simp only [deltaStep]
    split <;> trivial
  | count cur last old =>
    simp only [deltaStep]
    split_ifs <;> trivial
  | _ => trivial

theorem stuck_step {s s' : Container ι F} {e : Event ι F} (hi : Stuck s) (h : Step s e s') : Stuck s' := by
  have hserver := hi.server
  cases h with
  | attachServer hs =>
    rw [hs] at hserver
    rcases hserver with ⟨h, -⟩ | h
    · exact absurd h id
    · cases h
  | zeroServer hs =>
    rw [hs] at hserver
    rcases hserver with ⟨h, -⟩ | h
    · exact absurd h id
    · cases h
  | init pc hs =>
    have hpc : pc.Marked ∧ pc ≠ .post ∨ pc = .testInited := by
      rw [hs] at hserver
      rcases hserver with ⟨h, hne⟩ | h
      · exact Or.inl ⟨h, fun hpc => hne (by rw [hpc])⟩
      · cases h
        exact Or.inr rfl
    obtain ⟨hinited, hready, hafter⟩ := initStep_stuck s.limit hpc hi.inited
    exact ⟨hi.mapped, hready.trans hi.ready, by rw [hinited]; exact hi.inited, Or.inl hafter, hi.clients⟩
  | delta util pc hs =>
    obtain ⟨hinited, hready⟩ := deltaStep_inited s.limit util s.attr pc
    have hreturned := deltaStep_returned s.limit util s.attr pc
    exact ⟨hi.mapped, hready.trans hi.ready, by rw [hinited]; exact hi.inited,
      Or.inl ⟨hreturned.marked, hreturned.ne_post⟩, hi.clients⟩
  | restart limit hs hlimit => exact ⟨hi.mapped, hi.ready, hi.inited, Or.inr rfl, hi.clients⟩
  | measure util hs => exact ⟨hi.mapped, hi.ready, hi.inited, Or.inl ⟨trivial, nofun⟩, hi.clients⟩
  | attach i hp =>
    have hput := hi.put i (p := .starting (if s.mapped then .semInit else .zero)) s.attr
      (by rw [if_pos hi.mapped]; nofun) rfl hi.ready
    exact ⟨rfl, hput.ready, hput.inited, hput.server, hput.clients⟩
  | zero i hp => exact absurd hp (hi.clients i)
  | semInit i hp => exact hi.put i _ nofun rfl rfl
  | test i hp => exact hi.put i s.attr (by split <;> nofun) rfl hi.ready
  | wait i hp hpos =>
    rw [hi.ready] at hpos
    exact absurd hpos (Nat.lt_irrefl 0)
  | interrupted i hp => exact hi
  | failed i hp => exact hi.put i s.attr nofun rfl hi.ready
  | create i client hp hattr hlimited hstarts => exact hi.put i s.attr nofun rfl hi.ready
  | noTokens i hp hnone => exact hi.put i s.attr nofun rfl hi.ready
  | client i c c' copied e hp hrun hown hstep =>
    have hacts := client_cases hstep hown
    exact hi.put i _ nofun hacts.budget.inited (hacts.ready.trans hi.ready)

theorem stuck_forever {mapped : Bool} {s t : Container ι F} {es : List (Event ι F)} (hs : Stuck s)
    (h : (container ι F mapped).Run s es t) : t.attr.ready = 0 :=
  (h.inv (I := Stuck) (fun _ _ _ hi hstep => stuck_step hi hstep) hs).ready

/-- Both processes have waited; one has taken the post. -/
theorem one_stuck : ∃ s : Container Bool Unit, (container Bool Unit true).Reach s ∧ s.server = .idle ∧
    (∀ i, s.clients i = .starting .wait ∨ s.clients i = .starting .tokens) ∧ s.clients false = .starting .wait ∧
    s.attr.ready = 0 ∧ ∀ es t, (container Bool Unit true).Run s es t → t.attr.ready = 0 := by
  have h : ((container Bool Unit true).restrict fun _ _ => True).Reach _ := reach_fresh
  have h := reach_step (.start false) h trivial (.attach _ _ rfl)
  have h := reach_step (.start true) h trivial (.attach _ _ rfl)
  have h := reach_step (.start false) h trivial (.semInit _ _ rfl)
  have h := reach_step (.start true) h trivial (.semInit _ _ rfl)
  have h := reach_step (.start false) h trivial (.test _ _ rfl)
  have h := reach_step (.start true) h trivial (.test _ _ rfl)
  have h := reach_announced (fun _ _ => trivial) (reach_posted (fun _ _ => trivial) h)
  have h := reach_step (.start true) h trivial (.wait _ true rfl (by decide))
  refine ⟨_, h.of_restrict, rfl, Bool.forall_bool.mpr ⟨Or.inl rfl, Or.inr rfl⟩, rfl, rfl, ?_⟩
  intro es t hrun
  refine stuck_forever ?_ hrun
  exact ⟨rfl, rfl, (by decide : (1 : Int32) ≠ 0), Or.inl ⟨trivial, nofun⟩, Bool.forall_bool.mpr ⟨nofun, nofun⟩⟩

end

/-! ## The interval -/

/-- Where the mark and the interval are at a step of `init_attr`. -/
def InitTimed (attr : TokenAttr) : InitPc → Prop
  | .testInited => attr.inited ≠ 0 → attr.waitTime = ⟨0, 100000000⟩
  | .coreLimit => attr.inited = 0
  | .modTimes => attr.inited = 0
  | .addPerCycle => attr.inited = 0
  | .avg0 => attr.inited = 0
  | .avg1 => attr.inited = 0
  | .launchIdx => attr.inited = 0
  | .waitSec => attr.inited = 0
  | .waitNsec => attr.inited = 0 ∧ attr.waitTime.tvSec = 0
  | .inited => attr.inited = 0 ∧ attr.waitTime = ⟨0, 100000000⟩
  | _ => attr.inited ≠ 0 ∧ attr.waitTime = ⟨0, 100000000⟩

def Timed (attr : TokenAttr) : Server → Prop
  | .attach => attr.inited = 0
  | .zero => attr.inited = 0
  | .init pc => InitTimed attr pc
  | .idle => attr.inited ≠ 0 ∧ attr.waitTime = ⟨0, 100000000⟩
  | .delta _ _ => attr.inited ≠ 0 ∧ attr.waitTime = ⟨0, 100000000⟩

theorem Timed.same {attr attr' : TokenAttr} {server : Server} (h : Timed attr server)
    (hinited : attr'.inited = attr.inited) (hwait : attr'.waitTime = attr.waitTime) : Timed attr' server := by
  cases server with
  | init pc => cases pc <;> simpa only [Timed, InitTimed, hinited, hwait] using h
  | _ => simpa only [Timed, hinited, hwait] using h

theorem timed_returned {attr : TokenAttr} {server : Server} (h : server.Returned) :
    Timed attr server ↔ attr.inited ≠ 0 ∧ attr.waitTime = ⟨0, 100000000⟩ := by
  cases server with
  | idle => exact Iff.rfl
  | delta util pc => exact Iff.rfl
  | _ => exact absurd h id

theorem Timed.interval {attr : TokenAttr} {server : Server} (h : Timed attr server) (hinited : attr.inited ≠ 0) :
    attr.waitTime = ⟨0, 100000000⟩ := by
  cases server with
  | attach => exact absurd h hinited
  | zero => exact absurd h hinited
  | idle => exact h.2
  | delta util pc => exact h.2
  | init pc =>
    cases pc with
    | testInited => exact h hinited
    | waitNsec => exact absurd h.1 hinited
    | inited => exact h.2
    | post => exact h.2
    | testLimit => exact h.2
    | newLimit => exact h.2
    | newModTimes => exact h.2
    | scale => exact h.2
    | storeScaled newCycle => exact h.2
    | changed => exact h.2
    | _ => exact absurd h hinited

/-- Before the interval is stored the attribute may be cleared. -/
theorem Timed.cleared {attr : TokenAttr} {server : Server} (h : Timed attr server) (hwait : attr.waitTime.tvNsec = 0) :
    attr.inited = 0 ∧ Timed zeroedAttr server := by
  have hne : attr.waitTime ≠ ⟨0, 100000000⟩ := by
    intro heq
    rw [heq] at hwait
    exact absurd hwait (by decide)
  have hinited : attr.inited = 0 := by
    by_contra hinited
    exact hne (h.interval hinited)
  refine ⟨hinited, ?_⟩
  cases server with
  | attach => rfl
  | zero => rfl
  | idle => exact absurd h.2 hne
  | delta util pc => exact absurd h.2 hne
  | init pc =>
    cases pc with
    | testInited => exact fun h => absurd rfl h
    | waitNsec => exact ⟨rfl, rfl⟩
    | inited => exact absurd h.2 hne
    | post => exact absurd h.2 hne
    | testLimit => exact absurd h.2 hne
    | newLimit => exact absurd h.2 hne
    | newModTimes => exact absurd h.2 hne
    | scale => exact absurd h.2 hne
    | storeScaled newCycle => exact absurd h.2 hne
    | changed => exact absurd h.2 hne
    | _ => rfl

theorem initStep_timed {limit : Int32} {attr : TokenAttr} {pc : InitPc} (h : InitTimed attr pc) :
    Timed (initStep limit attr pc).1 (initStep limit attr pc).2 := by
  cases pc with
  | testInited =>
    by_cases hinited : attr.inited = 0
    · simp only [initStep, hinited, if_true]
      exact hinited
    · simp only [initStep, hinited, if_false]
      exact ⟨hinited, h hinited⟩
  | waitSec => exact ⟨h, rfl⟩
  | waitNsec =>
    obtain ⟨hinited, hsec⟩ := h
    refine ⟨hinited, ?_⟩
    simp only [initStep, hsec]
    decide
  | inited => exact ⟨(by decide : (1 : Int32) ≠ 0), h.2⟩
  | testLimit =>
    simp only [initStep]
    split <;> exact h
  | _ => exact h

theorem deltaStep_timed {limit util : Int32} {attr : TokenAttr} {pc : DeltaPc}
    (h : attr.inited ≠ 0 ∧ attr.waitTime = ⟨0, 100000000⟩) :
    Timed (deltaStep limit util attr pc).1 (deltaStep limit util attr pc).2 := by
  have hattr : (deltaStep limit util attr pc).1.inited = attr.inited ∧
      (deltaStep limit util attr pc).1.waitTime = attr.waitTime := by cases pc <;> exact ⟨rfl, rfl⟩
  rw [← hattr.1, ← hattr.2] at h
  exact (timed_returned (deltaStep_returned limit util attr pc)).mpr h

/-! ## The first look at the flag -/

def HasCopied (s : Container ι F) : Prop := ∃ i c r, s.clients i = .running c (some r)

/-- The thread looks at the flag for the first time after `init_attr` has returned; a new
    segment is cleared before the interval is stored. -/
def InOrder (s : Container ι F) : Event ι F → Prop
  | .client i .load => (∃ c r, s.clients i = .running c (some r)) ∨ s.server.Returned
  | .start i =>
    match s.clients i with
    | .starting .zero => s.attr.waitTime.tvNsec = 0
    | _ => True
  | _ => True

theorem InOrder.early {s : Container ι F} {i : ι} (h : InOrder s (.start i)) (hp : s.clients i = .starting .zero) :
    s.attr.waitTime.tvNsec = 0 := by
  simp only [InOrder, hp] at h
  exact h

def Proc.Runs : Proc F → Prop
  | .running _ _ => True
  | _ => False

theorem not_running {p : Proc F} (h : ¬ p.Runs) (c : Client F) (copied : Option ℕ) : p ≠ .running c copied := by
  intro heq
  subst heq
  exact h trivial

/-- Past the flag the thread has copied, and the flag stays up until one has. -/
structure Heard (s : Container ι F) : Prop where
  flagged : s.server.Returned → s.attr.changed ≠ 0 ∨ HasCopied s
  copied : ∀ i c copied, s.clients i = .running c copied →
    c.post.pc ≠ .load → c.post.pc ≠ .copyWait → c.post.pc ≠ .copyAdd → copied.isSome

/-- A thread that looks late at a lowered flag has copied. -/
theorem Heard.of_low [Subsingleton ι] {s : Container ι F} (hi : Heard s) {i : ι} {c : Client F} {copied : Option ℕ}
    (hp : s.clients i = .running c copied) (hlow : s.attr.changed = 0) (hok : InOrder s (.client i .load)) :
    copied.isSome := by
  rcases hok with ⟨d, r, hd⟩ | hreturned
  · cases hp.symm.trans hd
    rfl
  · rcases hi.flagged hreturned with hraised | ⟨j, d, r, hd⟩
    · exact absurd hlow hraised
    · obtain rfl := Subsingleton.elim i j
      cases hp.symm.trans hd
      rfl

variable [DecidableEq ι]

theorem hasCopied_put {s : Container ι F} {i : ι} {p : Proc F} (h : HasCopied s)
    (hp : ∀ c r, s.clients i = .running c (some r) → ∃ c' r', p = .running c' (some r')) : HasCopied (s.put i p) := by
  obtain ⟨j, c, r, hj⟩ := h
  by_cases hji : j = i
  · subst hji
    obtain ⟨c', r', hp⟩ := hp c r hj
    exact ⟨j, c', r', by rw [put_self, hp]⟩
  · exact ⟨j, c, r, by rw [put_other hji, hj]⟩

theorem Heard.put {s : Container ι F} (hi : Heard s) (i : ι) {p : Proc F} (attr : TokenAttr)
    (hstart : ¬ (s.clients i).Runs) (hp : ∀ c copied, p = .running c copied → c.post.pc = .load)
    (hchanged : attr.changed = s.attr.changed) :
    Heard { s.put i p with attr := attr } where
  flagged h := by
    rw [hchanged]
    exact (hi.flagged h).imp id fun h => hasCopied_put h fun c r hi => absurd hi (not_running hstart c _)
  copied := put_clients (P := fun p => ∀ c copied, p = .running c copied →
      c.post.pc ≠ .load → c.post.pc ≠ .copyWait → c.post.pc ≠ .copyAdd → copied.isSome)
    (fun c copied h hload => absurd (hp c copied h) hload) hi.copied

theorem Heard.put_stopped {s : Container ι F} (hi : Heard s) (i : ι) {p : Proc F} (attr : TokenAttr)
    (hstart : ¬ (s.clients i).Runs) (hp : ¬ p.Runs) (hchanged : attr.changed = s.attr.changed) :
    Heard { s.put i p with attr := attr } :=
  hi.put i attr hstart (fun c copied h => absurd h (not_running hp c copied)) hchanged

theorem initStep_changed {limit : Int32} {attr : TokenAttr} {pc : InitPc} (h : (initStep limit attr pc).2.Returned) :
    (initStep limit attr pc).1.changed ≠ 0 := by
  cases pc with
  | changed => exact (by decide : (1 : Int32) ≠ 0)
  | _ => exact absurd h id

theorem deltaStep_changed (limit util : Int32) (attr : TokenAttr) (pc : DeltaPc) :
    (deltaStep limit util attr pc).1.changed = attr.changed ∨ (deltaStep limit util attr pc).1.changed ≠ 0 := by
  cases pc with
  | announce => exact Or.inr (by decide : (1 : Int32) ≠ 0)
  | _ => exact Or.inl rfl

theorem Heard.run {s : Container ι F} (hi : Heard s) {i : ι} {c c' : Client F} {copied copied' : Option ℕ}
    {attr : TokenAttr} (hp : s.clients i = .running c copied)
    (hchanged : attr.changed = s.attr.changed ∨ copied'.isSome) (hkeep : copied.isSome → copied'.isSome)
    (hpast : c'.post.pc ≠ .load → c'.post.pc ≠ .copyWait → c'.post.pc ≠ .copyAdd → copied'.isSome) :
    Heard { s.put i (.running c' copied') with attr := attr } where
  flagged h := by
    rcases hchanged with hchanged | hsome
    · rw [hchanged]
      refine (hi.flagged h).imp id fun h => hasCopied_put h ?_
      intro d r hd
      have hsome : copied.isSome := by
        cases hp.symm.trans hd
        rfl
      obtain ⟨r', hr'⟩ := Option.isSome_iff_exists.mp (hkeep hsome)
      exact ⟨c', r', by rw [hr']⟩
    · obtain ⟨r', hr'⟩ := Option.isSome_iff_exists.mp hsome
      exact Or.inr ⟨i, c', r', by rw [← hr']; exact put_self _ _ _⟩
  copied := put_clients (P := fun p => ∀ c copied, p = .running c copied →
      c.post.pc ≠ .load → c.post.pc ≠ .copyWait → c.post.pc ≠ .copyAdd → copied.isSome)
    (fun d copied h => by cases h; exact hpast) hi.copied

theorem heard_client [Subsingleton ι] {s : Container ι F} {i : ι} {c c' : Client F} {copied : Option ℕ}
    {e : Limiter.Event F} (hi : Heard s) (hok : InOrder s (.client i e)) (hp : s.clients i = .running c copied)
    (ha : Acts { c with attr := s.attr } e c') :
    Heard { s.put i (.running c' (copiedAfter s.stores copied e)) with attr := c'.attr } := by
  have hcopied := hi.copied i c copied hp
  cases ha with
  | saw hpc hraised => exact hi.run hp (Or.inl rfl) id fun _ hwait => absurd rfl hwait
  | passed hpc hlow =>
    have hsome := hi.of_low hp hlow hok
    exact hi.run hp (Or.inl rfl) id fun _ _ _ => hsome
  | copiedWait hpc => exact hi.run hp (Or.inl rfl) id fun _ _ hadd => absurd rfl hadd
  | copiedAdd hpc => exact hi.run hp (Or.inl rfl) (fun _ => rfl) fun _ _ _ => rfl
  | cleared hpc =>
    have hpc : c.post.pc = .clear := hpc
    have hsome := hcopied (by rw [hpc]; nofun) (by rw [hpc]; nofun) (by rw [hpc]; nofun)
    exact hi.run hp (Or.inr hsome) id fun _ _ _ => hsome
  | other e c' hload hadd hclear hq =>
    rw [copiedAfter_other hadd]
    refine hi.run hp (Or.inl hq.changed) id ?_
    intro hnload hnwait hnadd
    rcases hq.pc with hpc | ⟨hpast, hcopies, -⟩
    · have hpc : c'.post.pc = c.post.pc := hpc
      rw [hpc] at hnload hnwait hnadd
      exact hcopied hnload hnwait hnadd
    · exact hcopied hpast (fun h => hcopies (Or.inl h)) fun h => hcopies (Or.inr (Or.inl h))

theorem timed_step {s s' : Container ι F} {e : Event ι F} (hi : Timed s.attr s.server) (hok : InOrder s e)
    (h : Step s e s') : Timed s'.attr s'.server := by
  cases h with
  | attachServer hserver =>
    rw [hserver] at hi
    by_cases hmapped : s.mapped = true
    · simp only [hmapped, if_true]
      exact fun h => absurd hi h
    · simp only [hmapped]
      exact hi
  | zeroServer hserver => exact fun h => absurd rfl h
  | init pc hserver =>
    rw [hserver] at hi
    exact initStep_timed hi
  | delta util pc hserver =>
    rw [hserver] at hi
    exact deltaStep_timed hi
  | restart limit hserver hlimit =>
    rw [hserver] at hi
    exact fun _ => hi.2
  | measure util hserver =>
    rw [hserver] at hi
    exact hi
  | attach i hp => exact hi
  | zero i hp => exact (hi.cleared (hok.early hp)).2
  | semInit i hp => exact hi.same rfl rfl
  | test i hp => exact hi
  | wait i hp hpos => exact hi.same rfl rfl
  | interrupted i hp => exact hi
  | failed i hp => exact hi
  | create i client hp hattr hlimited hstarts => exact hi
  | noTokens i hp hnone => exact hi
  | client i c c' copied e hp hrun hown hstep =>
    have hbudget := (client_cases hstep hown).budget
    exact hi.same hbudget.inited hbudget.waitTime

theorem heard_step [Subsingleton ι] {s s' : Container ι F} {e : Event ι F} (hi : Heard s)
    (htimed : Timed s.attr s.server) (hok : InOrder s e) (h : Step s e s') : Heard s' := by
  cases h with
  | attachServer hserver =>
    refine ⟨?_, hi.copied⟩
    intro h
    simp only at h
    split at h
    · exact absurd h id
    · exact absurd h id
  | zeroServer hserver => exact ⟨fun h => absurd h id, hi.copied⟩
  | init pc hserver => exact ⟨fun h => Or.inl (initStep_changed h), hi.copied⟩
  | delta util pc hserver =>
    refine ⟨?_, hi.copied⟩
    intro _
    rcases deltaStep_changed s.limit util s.attr pc with hsame | hraised
    · rw [hsame]
      exact hi.flagged (by rw [hserver]; trivial)
    · exact Or.inl hraised
  | restart limit hserver hlimit => exact ⟨fun h => absurd h id, hi.copied⟩
  | measure util hserver => exact ⟨fun _ => hi.flagged (by rw [hserver]; trivial), hi.copied⟩
  | attach i hp =>
    have hput := hi.put_stopped i (p := .starting (if s.mapped then .semInit else .zero)) s.attr
      (by rw [hp]; exact id) id rfl
    exact ⟨hput.flagged, hput.copied⟩
  | zero i hp =>
    have hput := hi.put_stopped i (p := .starting .semInit) s.attr (by rw [hp]; exact id) id rfl
    refine ⟨?_, hput.copied⟩
    intro hreturned
    exact absurd (htimed.cleared (hok.early hp)).1 ((timed_returned hreturned).mp htimed).1
  | semInit i hp => exact hi.put_stopped i _ (by rw [hp]; exact id) id rfl
  | test i hp => exact hi.put_stopped i s.attr (by rw [hp]; exact id) id rfl
  | wait i hp hpos => exact hi.put_stopped i _ (by rw [hp]; exact id) id rfl
  | interrupted i hp => exact hi
  | failed i hp => exact hi.put_stopped i s.attr (by rw [hp]; exact id) id rfl
  | create i client hp hattr hlimited hstarts =>
    refine hi.put i s.attr (by rw [hp]; exact id) (fun c copied h => ?_) rfl
    cases h
    exact hstarts.post.pc
  | noTokens i hp hnone => exact hi.put_stopped i s.attr (by rw [hp]; exact id) id rfl
  | client i c c' copied e hp hrun hown hstep => exact heard_client hi hok hp (client_cases hstep hown)

/-- What is known in every state of such a run. -/
structure Ordered (s : Container ι F) : Prop where
  heard : Heard s
  timed : Timed s.attr s.server
  released : Released s

theorem ordered [Subsingleton ι] {mapped : Bool} {s : Container ι F}
    (h : ((container ι F mapped).restrict InOrder).Reach s) : Ordered s := by
  refine System.Reach.inv (I := Ordered) ?_ ?_ h
  · intro s h0
    obtain ⟨hfresh, -⟩ := h0
    refine ⟨⟨?_, ?_⟩, ?_, hfresh.released⟩
    · intro h
      rw [hfresh.server] at h
      exact absurd h id
    · intro i c copied hp
      rw [hfresh.clients i] at hp
      cases hp
    · rw [hfresh.server, hfresh.attr]
      rfl
  · intro s e s' hi hstep
    obtain ⟨hok, hstep⟩ := hstep
    have htimed := hi.timed
    refine ⟨heard_step hi.heard htimed hok hstep, timed_step htimed hok hstep,
      released_step hi.released htimed.interval ?_ ?_ hstep⟩
    · intro h
      rw [h] at htimed
      exact htimed.1
    · intro h
      rcases h with h | ⟨i, rfl, h⟩
      · rw [h] at htimed
        exact htimed
      · exact (htimed.cleared (hok.early h)).1

/-- Whoever sleeps or posts goes by an interval and a budget it has copied. -/
theorem sleeps_on_copy [Subsingleton ι] {mapped : Bool} {s : Container ι F}
    (h : ((container ι F mapped).restrict InOrder).Reach s) {i : ι} {c : Client F} {copied : Option ℕ}
    (hi : s.clients i = .running c copied) (hpc : c.post.pc = .sleep ∨ c.post.pc = .post) :
    copied.isSome ∧ c.post.interval = ⟨0, 100000000⟩ := by
  have ho := ordered h
  have hsome : copied.isSome := by
    rcases hpc with hpc | hpc
    · exact ho.heard.copied i c copied hi (by rw [hpc]; nofun) (by rw [hpc]; nofun) (by rw [hpc]; nofun)
    · exact ho.heard.copied i c copied hi (by rw [hpc]; nofun) (by rw [hpc]; nofun) (by rw [hpc]; nofun)
  have hclient := ho.released.clients i
  rw [hi] at hclient
  exact ⟨hsome, hclient.2.interval (Or.inr (Or.inr hsome))⟩

/-- The process starts when the flag is up. -/
theorem sleeps_on_copy_run : ∃ (s : Container Unit Unit) (c : Client Unit),
    ((container Unit Unit true).restrict InOrder).Reach s ∧ s.clients () = .running c (some 1) ∧
      c.post.pc = .sleep ∧ c.post.interval = ⟨0, 100000000⟩ := by
  have h : ((container Unit Unit true).restrict InOrder).Reach _ :=
    reach_announced (fun _ _ => trivial) (reach_posted (fun _ _ => trivial) reach_fresh)
  have h := reach_step (.start ()) h trivial (.attach _ _ rfl)
  have h := reach_step (.start ()) h trivial (.semInit _ _ rfl)
  have h := reach_step (.start ()) h trivial (.test _ _ rfl)
  have h := reach_step (.create () (joined { announcedAttr with ready := 0 })) h trivial
    (.create _ _ _ rfl rfl rfl (joined_starts rfl))
  have h := reach_step (.client () .load) h (Or.inr trivial) (.client _ _ _ _ _ _ rfl rfl trivial (.load _ rfl))
  have h := reach_step (.client () .copyWait) h trivial (.client _ _ _ _ _ _ rfl rfl trivial (.copyWait _ rfl))
  have h := reach_step (.client () .copyAdd) h trivial (.client _ _ _ _ _ _ rfl rfl trivial (.copyAdd _ rfl))
  have h := reach_step (.client () .clear) h trivial (.client _ _ _ _ _ _ rfl rfl trivial (.clear _ rfl))
  have h := reach_step (.client () .reset) h trivial (.client _ _ _ _ _ _ rfl rfl trivial (.reset _ rfl))
  exact ⟨_, _, h, rfl, rfl, (sleeps_on_copy (i := ()) h rfl (Or.inl rfl)).2⟩

/-- Released between the post and the flag, it sleeps no time and posts what was on its
    stack. -/
theorem sleeps_on_nothing : ∃ (s : Container Unit Unit) (c : Client Unit), (container Unit Unit true).Reach s ∧
    s.clients () = .running c none ∧ c.post.pc = .sleep ∧ c.post.interval = ⟨0, 0⟩ ∧ c.post.addPerCycle = 1000000 := by
  have h : ((container Unit Unit true).restrict fun _ _ => True).Reach _ := reach_fresh
  have h := reach_step (.start ()) h trivial (.attach _ _ rfl)
  have h := reach_step (.start ()) h trivial (.semInit _ _ rfl)
  have h := reach_step (.start ()) h trivial (.test _ _ rfl)
  have h := reach_posted (fun _ _ => trivial) h
  have h := reach_step (.start ()) h trivial (.wait _ () rfl (by decide))
  have h := reach_step (.create () { joined { postedAttr with ready := 0 } with
      post := { (joined postedAttr).post with addPerCycle := 1000000 } }) h trivial
    (.create _ _ _ rfl rfl rfl ⟨rfl, ⟨rfl, rfl, rfl, fun _ => rfl⟩, fun _ => rfl, rfl⟩)
  have h := reach_step (.client () .load) h trivial (.client _ _ _ _ _ _ rfl rfl trivial (.load _ rfl))
  have h := reach_step (.client () .reset) h trivial (.client _ _ _ _ _ _ rfl rfl trivial (.reset _ rfl))
  exact ⟨_, _, h.of_restrict, rfl, rfl, rfl, rfl⟩

end NvResourceController.Monitor
