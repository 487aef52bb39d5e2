/-
  NvResourceController.Ioctl.Threads — the threads of a process in the hooked `ioctl`,
  where it goes with `mem_limited` set, statement by statement.

  A thread waits for `gpu_device.mu`, then runs the stage's section one access to memory
  at a time, between any steps of the others.

  - `code_refines`: the sections are what `Critical.Refines` asks for.
  - `sections_are_atomic`: whatever these threads do, the ones of `Ioctl.Stages` do, up to
    the thread that is inside; the calls return the same.
  - `memory_is_safe`: no thread ever takes a link or a field out of an entry that is not
    allocated, frees one twice, or is inside with another; between sections nothing that
    is allocated is in no list.
  - `calls_return`: while `malloc` gives memory, each thread's call can be brought to its
    end from wherever the threads are.
-/

import NvResourceController.Ioctl.Sections
import NvResourceController.Ioctl.Stages

namespace NvResourceController.Ioctl

open Command Critical LinkedList

variable (ι : Type) [DecidableEq ι] (calls : Call → Prop)

def Call.preStage (c : Call) : Stage := Ioctl.preStage c.cmd.toUInt32 c.args

def Call.postStage (c : Call) : Stage :=
  Ioctl.postStage c.malloc c.os c.number.2.1 c.number.2.2 c.cmd.toUInt32 c.reply.2

/-! ## The code -/

/-- Where a thread is out of the sections: in what it is in, or at the lock of a stage,
    about to run the stage's section. -/
inductive Place where
  | doing (x : Doing)
  | lockPre (c : Call) (last : Option (Int32 × Args)) (body : Cmd Config) (result : Frame → Int32 × Args)
      (h : (calls c ∧ c.Hooked) ∧ c.preStage = .locked body result)
  | lockPost (c : Call) (body : Cmd Config) (result : Frame → Int32 × Args) (h : c.postStage = .locked body result)

variable {calls}

def Place.toDoing : Place calls → Doing
  | .doing x => x
  | .lockPre _ last _ _ _ => .idle last
  | .lockPost c _ _ _ => .replied c

/-- A stage that takes no lock, or the way up to it. -/
inductive Place.Step : Place calls → Place calls → Prop
  | foreign {last : Option (Int32 × Args)} {c : Call} : calls c → ¬ c.Hooked →
      Step (.doing (.idle last)) (.doing (.checked c))
  | pass {last : Option (Int32 × Args)} {c : Call} {ret : Int32} : calls c → c.Hooked →
      c.preStage = .unlocked ret → Step (.doing (.idle last)) (.doing (c.after ret false c.args))
  | lockPre {last : Option (Int32 × Args)} {c : Call} {body : Cmd Config} {result : Frame → Int32 × Args}
      (h : (calls c ∧ c.Hooked) ∧ c.preStage = .locked body result) :
      Step (.doing (.idle last)) (.lockPre c last body result h)
  | kernel {c : Call} : Step (.doing (.checked c)) (.doing c.answered)
  | answer {c : Call} {ret : Int32} : c.postStage = .unlocked ret →
      Step (.doing (.replied c)) (.doing (.idle (some (ret, c.reply.2))))
  | lockPost {c : Call} {body : Cmd Config} {result : Frame → Int32 × Args} (h : c.postStage = .locked body result) :
      Step (.doing (.replied c)) (.lockPost c body result h)

variable (calls)

def ioctlCode : Code DeviceMemory Frame (Place calls) where
  held dev := dev.mu
  acquire := DeviceMemory.lock
  enter
    | .doing _ => none
    | .lockPre c _ body _ _ => some (body, .start c.args)
    | .lockPost c body _ _ => some (body, .start c.reply.2)
  leave
    | .doing y, _ => .doing y
    | .lockPre c _ _ result _, x => .doing (c.after (result x).1 x.success (result x).2)
    | .lockPost _ _ result _, x => .doing (.idle (some (result x)))
  outside := Place.Step

/-- The threads of a process whose memory represents `d0` at first, a statement a step. -/
def memoryThreads (d0 : DeviceProp) : System (DeviceMemory × (ι → Local DeviceMemory Frame (Place calls))) ι :=
  threads ι (fun dev => Represents dev d0) (.out (.doing (.idle none))) (ioctlCode calls).Step

/-! ## Refinement -/

variable {ι calls}

theorem preStage_unlocked {c : Call} {ret : Int32} (h : c.preStage = .unlocked ret) (d : DeviceProp) :
    c.pre d = some (.of (ret, c.args) false d) := by
  have hdoes := preStage_does c.cmd.toUInt32 c.args
  rw [show preStage c.cmd.toUInt32 c.args = .unlocked ret from h] at hdoes
  exact hdoes d

theorem preStage_locked {c : Call} {body : Cmd Config} {result : Frame → Int32 × Args}
    (h : c.preStage = .locked body result) : (Stage.locked body result).Does c.args PreOut.of c.pre := by
  have hdoes := preStage_does c.cmd.toUInt32 c.args
  rwa [show preStage c.cmd.toUInt32 c.args = .locked body result from h] at hdoes

theorem postStage_unlocked {c : Call} {ret : Int32} (h : c.postStage = .unlocked ret) (d : DeviceProp) :
    c.post d = some (.of (ret, c.reply.2) false d) := by
  have hdoes := postStage_does c.malloc c.os c.number.2.1 c.number.2.2 c.cmd.toUInt32 c.reply.2
  rw [show postStage c.malloc c.os c.number.2.1 c.number.2.2 c.cmd.toUInt32 c.reply.2 = .unlocked ret from h] at hdoes
  exact hdoes d

theorem postStage_locked {c : Call} {body : Cmd Config} {result : Frame → Int32 × Args}
    (h : c.postStage = .locked body result) : (Stage.locked body result).Does c.reply.2 PostOut.of c.post := by
  have hdoes := postStage_does c.malloc c.os c.number.2.1 c.number.2.2 c.cmd.toUInt32 c.reply.2
  rwa [show postStage c.malloc c.os c.number.2.1 c.number.2.2 c.cmd.toUInt32 c.reply.2 = .locked body result
    from h] at hdoes

/-- Each section does in memory what its stage does in one step. -/
theorem code_refines : Refines (ioctlCode calls) (Doing.Step calls) Represents Place.toDoing where
  outside := by
    intro n n' h
    have hstep : Place.Step n n' := h
    cases hstep with
    | foreign hc hf => exact .inr fun d => .foreign hc hf
    | pass hc hh hs => exact .inr fun d => .pre hc hh (preStage_unlocked hs d)
    | lockPre => exact .inl rfl
    | kernel => exact .inr fun d => .kernel
    | answer hs => exact .inr fun d => .post (postStage_unlocked hs d)
    | lockPost => exact .inl rfl
  starts := by
    intro n c x h
    cases n with
    | doing y => cases h
    | lockPre call last body result hl =>
      cases h
      exact (preStage_locked hl.2).1
    | lockPost call body result hl =>
      cases h
      exact (postStage_locked hl).1
  section_ends := by
    intro n c x σ d h hheld hr
    have hmu : d.mu = false := by
      obtain ⟨m, rfl, -⟩ := hr
      exact hheld
    cases n with
    | doing y => cases h
    | lockPre call last body result hl =>
      cases h
      refine ((preStage_locked hl.2).2 σ d hr hmu).mono (fun _ hi => hi) fun e p hp => ?_
      obtain ⟨d', hpre, hrep⟩ := hp
      exact ⟨d', .pre hl.1.1 hl.1.2 hpre, hrep⟩
    | lockPost call body result hl =>
      cases h
      refine ((postStage_locked hl).2 σ d hr hmu).mono (fun _ hi => hi) fun e p hp => ?_
      obtain ⟨d', hpost, hrep⟩ := hp
      exact ⟨d', .post hpost, hrep⟩

theorem memory_simulates (d0 : DeviceProp) :
    System.Simulation (memoryThreads ι calls d0) (threadsOf ι calls d0)
      (Related (ioctlCode calls) (Doing.Step calls) Represents Place.toDoing) :=
  code_refines.simulation fun _ hs => ⟨d0, rfl, hs⟩

/-! ## What holds of every interleaving -/

section
variable {d0 : DeviceProp} {p : DeviceMemory × (ι → Local DeviceMemory Frame (Place calls))}

/-- Whatever the threads do in memory, they do a stage at a time: a section happens
    when its last statement does, and each call returns what it does there. -/
theorem sections_are_atomic (h : (memoryThreads ι calls d0).Reach p) :
    ∃ q, (threadsOf ι calls d0).Reach q ∧ (∀ t, q.2 t = (ioctlCode calls).place Place.toDoing (p.2 t)) ∧
      ((∀ t, ¬ (p.2 t).running) → Represents p.1 q.1) := by
  obtain ⟨q, hq, hrel⟩ := (memory_simulates d0).transfer h
  refine ⟨q, hq, hrel.place, fun hno => ?_⟩
  rcases hrel.stands with hst | ⟨t, ht, -⟩
  · exact hst.1
  · exact absurd ht.running (hno t)

theorem represents_initial {d : DeviceProp} (hh : d.heapMemList = []) (hr : d.rmMemList = []) :
    Represents (.of (initial ListHead ℕ Entry) d) d := by
  have he : d.entries = fun _ => [] := by
    funext h
    cases h <;> simp [DeviceProp.entries, hh, hr]
  exact ⟨_, rfl, he ▸ initial_holds⟩

theorem represents_started {memLimit : UInt32 × UInt64} {segment : UInt32 → Option FbInfo} {lstat : Int32 → Lstat}
    {pid : Int32} {dev d : DeviceProp} (h : initMemLimit (some memLimit) segment lstat pid dev = some d) :
    Represents (.of (initial ListHead ℕ Entry) d) d := by
  obtain ⟨fbInfo, -, rfl⟩ := Option.map_eq_some_iff.mp h
  exact represents_initial rfl rfl

theorem memory_races (hcalls : ∀ c, calls c → c.stat = nvidiactl) (h : (memoryThreads ι calls d0).Reach p)
    (hno : ∀ t, ¬ (p.2 t).running) : ∃ s, (race ι d0).Reach s ∧ Represents p.1 s.dev := by
  obtain ⟨q, hq, hrel⟩ := (memory_simulates d0).transfer h
  obtain ⟨s, hs, hrace⟩ := (threads_race hcalls d0).transfer hq
  refine ⟨s, hs, ?_⟩
  rw [hrace.dev]
  rcases hrel.stands with hst | ⟨t, ht, -⟩
  · exact hst.1
  · exact absurd ht.running (hno t)

def deviceCall (object : UInt32) : Call := .grant nvEscRmAlloc (.rmAlloc 1 1 object .nv01Device0 .zero)

/-- Thread 1 has filed device 5, in the entry at 0, and waits at the lock with another
    call; thread 0 is filing device 6, in the entry at 1, and `list_add` has made the first
    of its stores: the list's first entry points back at the new one, the head does not yet
    point to it. -/
theorem filing_inside :
    ∃ p, (memoryThreads (Fin 2) (fun c => c.malloc = true) firstProcess).Reach p ∧ (p.2 0).running ∧
      p.1.heap.next (.head .rmMemList) = .loc (.node 0) ∧ p.1.heap.prev (.node 0) = .loc (.node 1) := by
  have hpass5 : (deviceCall 5).preStage = .unlocked 0 := rfl
  have hpass6 : (deviceCall 6).preStage = .unlocked 0 := rfl
  have h : (memoryThreads (Fin 2) (fun c => c.malloc = true) firstProcess).Reach (_, fun _ => .out (.doing (.idle none))) :=
    .init ⟨represents_initial rfl rfl, rfl⟩
  have h := h.step (e := 1) ⟨_, _, .outside (.pass (c := deviceCall 5) rfl ⟨rfl, rfl⟩ hpass5), rfl⟩
  have h := h.step (e := 1) ⟨_, _, .outside .kernel, rfl⟩
  have h := h.step (e := 1) ⟨_, .out (.lockPost (deviceCall 5) _ _ rfl), .outside (.lockPost _), rfl⟩
  have h := h.step (e := 1) ⟨_, _, .enter rfl rfl, rfl⟩
  have h := h.step (e := 1) ⟨_, _,
    .inside (.seq (.seq (.act ⟨_, ⟨0, .rmMem ⟨0, 0⟩, .null, .null, rfl, trivial, rfl⟩, rfl⟩))), rfl⟩
  have h := h.step (e := 1) ⟨_, _, .inside (.seq (.ite (v := false) rfl)), rfl⟩
  have h := h.step (e := 1) ⟨_, _, .inside (.seq (.seq (.act rfl))), rfl⟩
  have h := h.step (e := 1) ⟨_, _, .inside (.seq (.seq (.act rfl))), rfl⟩
  have h := h.step (e := 1) ⟨_, _, .inside (.seq (.seq (.act ⟨_, rfl, rfl⟩))), rfl⟩
  have h := h.step (e := 1) ⟨_, _, .inside (.seq (.seq (.act ⟨_, rfl, rfl⟩))), rfl⟩
  have h := h.step (e := 1) ⟨_, _, .inside (.seq (.seq (.act ⟨_, rfl, rfl⟩))), rfl⟩
  have h := h.step (e := 1) ⟨_, _, .inside (.seq (.seq (.act ⟨_, rfl, rfl⟩))), rfl⟩
  have h := h.step (e := 1) ⟨_, _, .inside (.seq (.act ⟨_, rfl, rfl⟩)), rfl⟩
  have h := h.step (e := 1) ⟨_, _, .inside (.act rfl), rfl⟩
  have h := h.step (e := 1) ⟨_, _, .leave rfl, rfl⟩
  have h := h.step (e := 1) ⟨_, .out (.lockPre (sixty 8) _ _ _ ⟨⟨rfl, rfl, rfl⟩, rfl⟩), .outside (.lockPre _), rfl⟩
  -- thread 1 is out, and thread 0 comes
  have h := h.step (e := 0) ⟨_, _, .outside (.pass (c := deviceCall 6) rfl ⟨rfl, rfl⟩ hpass6), rfl⟩
  have h := h.step (e := 0) ⟨_, _, .outside .kernel, rfl⟩
  have h := h.step (e := 0) ⟨_, .out (.lockPost (deviceCall 6) _ _ rfl), .outside (.lockPost _), rfl⟩
  have h := h.step (e := 0) ⟨_, _, .enter rfl rfl, rfl⟩
  have h := h.step (e := 0) ⟨_, _,
    .inside (.seq (.seq (.act ⟨_, ⟨1, .rmMem ⟨0, 0⟩, .null, .null, rfl, trivial, rfl⟩, rfl⟩))), rfl⟩
  have h := h.step (e := 0) ⟨_, _, .inside (.seq (.ite (v := false) rfl)), rfl⟩
  have h := h.step (e := 0) ⟨_, _, .inside (.seq (.seq (.act rfl))), rfl⟩
  have h := h.step (e := 0) ⟨_, _, .inside (.seq (.seq (.act rfl))), rfl⟩
  have h := h.step (e := 0) ⟨_, _, .inside (.seq (.seq (.act ⟨_, rfl, rfl⟩))), rfl⟩
  have h := h.step (e := 0) ⟨_, _, .inside (.seq (.seq (.act ⟨_, rfl, rfl⟩))), rfl⟩
  exact ⟨_, h, rfl, rfl, rfl⟩

theorem sections_are_atomic_run :
    ∃ p q, (memoryThreads (Fin 2) (fun c => c.malloc = true) firstProcess).Reach p ∧ (p.2 0).running ∧
      p.1.heap.prev (.node 0) = .loc (.node 1) ∧ (threadsOf (Fin 2) (fun c => c.malloc = true) firstProcess).Reach q ∧
      ∀ t, q.2 t = (ioctlCode fun c => c.malloc = true).place Place.toDoing (p.2 t) := by
  obtain ⟨p, hp, hrun, -, hprev⟩ := filing_inside
  obtain ⟨q, hq, hplace, -⟩ := sections_are_atomic hp
  exact ⟨p, q, hp, hrun, hprev, hq, hplace⟩

/-- A thread in a section is alone there, holds the mutex and makes no access to what is
    not allocated; between sections the lists are linked up and hold all that is. -/
theorem memory_is_safe (h : (memoryThreads ι calls d0).Reach p) :
    (∀ t n c x, p.2 t = .inside n c x → c.exit = none →
      p.1.mu = true ∧ (∃ c' dev x', Command.Step c (p.1, x) c' (dev, x')) ∧ ∀ u, (p.2 u).running → u = t) ∧
    ((∀ t, ¬ (p.2 t).running) →
      ∃ ls, Lists p.1.heap ls ∧ ∀ a, p.1.heap.cell a ≠ none ↔ ∃ h, a ∈ (ls h).map Prod.fst) := by
  obtain ⟨q, hq, hrel⟩ := (memory_simulates d0).transfer h
  obtain ⟨σ, th⟩ := p
  obtain ⟨d, ks⟩ := q
  constructor
  · intro t n c x ht hc
    obtain ⟨hheld, hmove⟩ := hrel.moves ht hc
    refine ⟨hheld, hmove, fun u hu => hrel.one_inside hu ?_⟩
    rw [show th t = .inside n c x from ht]
    exact hc
  · intro hno
    have hr : Represents σ d := by
      rcases hrel.stands with hst | ⟨t, ht, -⟩
      · exact hst.1
      · exact absurd ht.running (hno t)
    obtain ⟨m, rfl, ls, hl, -, hall⟩ := hr
    refine ⟨ls, hl, fun a => ⟨fun ha => ?_, fun ha => ?_⟩⟩
    · obtain ⟨h, hmem⟩ := not_forall.mp (hall a ha)
      exact ⟨h, not_not.mp hmem⟩
    · obtain ⟨h, hmem⟩ := ha
      obtain ⟨x, hx, rfl⟩ := List.mem_map.mp hmem
      show m.cell x.1 ≠ none
      rw [hl.cell h x hx]
      simp

/-- The thread in `list_add`, between two of its stores, is alone and can make the next. -/
theorem memory_is_safe_run :
    ∃ p n c x, (memoryThreads (Fin 2) (fun c => c.malloc = true) firstProcess).Reach p ∧
      p.1.heap.next (.head .rmMemList) = .loc (.node 0) ∧ p.1.heap.prev (.node 0) = .loc (.node 1) ∧
      p.2 0 = .inside n c x ∧ p.1.mu = true ∧ (∃ c' dev x', Command.Step c (p.1, x) c' (dev, x')) ∧
      ¬ (p.2 1).running := by
  obtain ⟨p, hp, hrun, hnext, hprev⟩ := filing_inside
  cases hk : p.2 0 with
  | out n =>
    rw [hk] at hrun
    exact hrun.elim
  | inside n c x =>
    rw [hk] at hrun
    obtain ⟨hmu, hmove, halone⟩ := (memory_is_safe hp).1 0 n c x hk hrun
    exact ⟨p, n, c, x, hp, hnext, hprev, hk, hmu, hmove, fun h1 => absurd (halone 1 h1) (by decide)⟩

end

/-! ## Progress -/

/-- The mutex is free between stages, and stays so. -/
structure Unheld (q : DeviceProp × (ι → Doing)) : Prop where
  free : q.1.mu = false
  malloc : ∀ t, ∀ c ∈ (q.2 t).call, c.malloc = true

theorem post_free {c : Call} {d : DeviceProp} {o : PostOut} (hm : d.mu = false) (hc : c.malloc = true)
    (h : c.post d = some o) : o.dev.mu = false := by
  unfold Call.post at h
  rw [hc] at h
  by_cases hmaj : c.number.2.1 = nvidiaDeviceMajor
  · rw [hmaj] at h
    obtain ⟨ret, args', he⟩ := postIoctl_dev true c.os c.number.2.2 c.cmd.toUInt32 c.reply.2 hm
    rw [he] at h
    cases h
    exact (apply_mu_malloc d _).trans hm
  · rw [postIoctl, if_pos hmaj] at h
    cases h
    exact hm

theorem step_unheld (hcalls : ∀ c, calls c → c.malloc = true) {d d' : DeviceProp} {x x' : Doing} (hm : d.mu = false)
    (hx : ∀ c ∈ x.call, c.malloc = true) (h : Doing.Step calls d x d' x') :
    d'.mu = false ∧ ∀ c ∈ x'.call, c.malloc = true := by
  cases h with
  | foreign hc hf =>
    refine ⟨hm, fun c' hc' => ?_⟩
    cases hc'
    exact hcalls _ hc
  | @pre last c o hc hh hpre =>
    refine ⟨(preIoctl_cases hpre).devSame ▸ hm, fun c' hc' => ?_⟩
    unfold Call.after at hc'
    split at hc'
    · cases hc'
    · cases hc'
      exact hcalls c hc
  | @kernel c =>
    refine ⟨hm, fun c' hc' => ?_⟩
    unfold Call.answered at hc'
    split at hc'
    · cases hc'
      exact hx c rfl
    · cases hc'
  | @post c o hpost => exact ⟨post_free hm (hx c rfl) hpost, by simp [Doing.call]⟩

theorem unheld_reach (hcalls : ∀ c, calls c → c.malloc = true) {d0 : DeviceProp} (h0 : d0.mu = false)
    {q : DeviceProp × (ι → Doing)} (h : (threadsOf ι calls d0).Reach q) : Unheld q := by
  refine h.inv ?_ ?_
  · intro q hq
    obtain ⟨d, ks⟩ := q
    obtain ⟨hd, hks⟩ := hq
    obtain rfl : d = d0 := hd
    obtain rfl : ks = fun _ => .idle none := hks
    exact ⟨h0, by simp [Doing.call]⟩
  · intro q t q' hq hstep
    obtain ⟨d', x', hstep, rfl⟩ := hstep
    obtain ⟨hm, hx'⟩ := step_unheld hcalls hq.free (hq.malloc t) hstep
    refine ⟨hm, fun u => ?_⟩
    show ∀ c ∈ (Function.update q.2 t x' u).call, c.malloc = true
    by_cases hu : u = t
    · subst hu
      rw [Function.update_self]
      exact hx'
    · rw [Function.update_of_ne hu]
      exact hq.malloc u

/-- How far a thread is from the end of its call. -/
def Place.rank : Place calls → ℕ
  | .doing (.idle _) => 0
  | .lockPost _ _ _ _ => 1
  | .doing (.replied _) => 2
  | .doing (.checked _) => 3
  | .lockPre _ _ _ _ _ => 4

section
variable {d0 : DeviceProp} {σ : DeviceMemory} {th : ι → Local DeviceMemory Frame (Place calls)} {t : ι}
  {n n' : Place calls}

theorem run_outside (ht : th t = .out n) (h : Place.Step n n') :
    (memoryThreads ι calls d0).Run (σ, th) [t] (σ, Function.update th t (.out n')) := by
  refine .cons ⟨σ, .out n', ?_, rfl⟩ (.nil _)
  show (ioctlCode calls).Step σ (th t) _ _
  rw [ht]
  exact .outside h

theorem rank_decreases (hcalls : ∀ c, calls c → c.malloc = true) (h0 : d0.mu = false)
    (hr : (memoryThreads ι calls d0).Reach (σ, th)) (hno : ∀ u, ¬ (th u).running) (ht : th t = .out n)
    (hn : n.rank ≠ 0) :
    ∃ ts σ' n', (memoryThreads ι calls d0).Run (σ, th) ts (σ', Function.update th t (.out n')) ∧ n'.rank < n.rank := by
  obtain ⟨⟨d, ks⟩, hq, hrel⟩ := (memory_simulates d0).transfer hr
  have hmu : σ.mu = false := by
    have hd := (unheld_reach hcalls h0 hq).free
    rcases hrel.stands with hst | ⟨u, hu, -⟩
    · obtain ⟨m, he, -⟩ := hst.1
      rw [show σ = .of m d from he]
      exact hd
    · exact absurd hu.running (hno u)
  cases n with
  | doing x =>
    cases x with
    | idle last => exact absurd rfl hn
    | checked c =>
      refine ⟨_, σ, _, run_outside ht .kernel, ?_⟩
      unfold Call.answered
      split <;> simp [Place.rank]
    | replied c =>
      cases hs : c.postStage with
      | unlocked ret => exact ⟨_, σ, _, run_outside ht (.answer hs), by simp [Place.rank]⟩
      | locked body result => exact ⟨_, σ, _, run_outside ht (.lockPost hs), by simp [Place.rank]⟩
  | lockPre c last body result hl =>
    obtain ⟨ts, σ', x', hrun⟩ := hrel.through code_refines ht rfl hmu
    refine ⟨ts, σ', _, hrun, ?_⟩
    show Place.rank (.doing (Call.after ..)) < 4
    unfold Call.after
    split <;> simp [Place.rank]
  | lockPost c body result hl =>
    obtain ⟨ts, σ', x', hrun⟩ := hrel.through code_refines ht rfl hmu
    exact ⟨ts, σ', _, hrun, by simp [ioctlCode, Place.rank]⟩

theorem reaches_idle (hcalls : ∀ c, calls c → c.malloc = true) (h0 : d0.mu = false) (k : ℕ)
    (hr : (memoryThreads ι calls d0).Reach (σ, th)) (hno : ∀ u, ¬ (th u).running) (ht : th t = .out n)
    (hk : n.rank ≤ k) :
    ∃ ts p last, (memoryThreads ι calls d0).Run (σ, th) ts p ∧ p.2 t = .out (.doing (.idle last)) := by
  induction k generalizing σ th n with
  | zero =>
    cases n with
    | doing x =>
      cases x with
      | idle last => exact ⟨[], _, last, .nil _, ht⟩
      | checked c => simp [Place.rank] at hk
      | replied c => simp [Place.rank] at hk
    | lockPre c last body result hl => simp [Place.rank] at hk
    | lockPost c body result hl => simp [Place.rank] at hk
  | succ k ih =>
    by_cases hn : n.rank = 0
    · exact ih hr hno ht (by omega)
    obtain ⟨ts, σ', n', hrun, hlt⟩ := rank_decreases hcalls h0 hr hno ht hn
    have hno' : ∀ u, ¬ (Function.update th t (.out n') u).running := fun u => running_update id (hno u)
    obtain ⟨ts', p, last, hrun', hp⟩ := ih (hr.run hrun) hno' (Function.update_self ..) (by omega)
    exact ⟨ts ++ ts', p, last, hrun.append hrun', hp⟩

/-- While `malloc` gives memory, no interleaving gets the threads stuck: from wherever
    they are each thread's call can be brought to its end. -/
theorem calls_return (hcalls : ∀ c, calls c → c.malloc = true) (h0 : d0.mu = false)
    {p : DeviceMemory × (ι → Local DeviceMemory Frame (Place calls))} (h : (memoryThreads ι calls d0).Reach p) (t : ι) :
    ∃ ts p' last, (memoryThreads ι calls d0).Run p ts p' ∧ p'.2 t = .out (.doing (.idle last)) := by
  obtain ⟨σ, th⟩ := p
  obtain ⟨q, hq, hrel⟩ := (memory_simulates d0).transfer h
  obtain ⟨ts, σ', th', hrun, hno⟩ := hrel.settles
  have hr' := h.run hrun
  cases ht : th' t with
  | out n =>
    obtain ⟨ts', p, last, hrun', hp⟩ := reaches_idle hcalls h0 n.rank hr' hno ht (Nat.le_refl _)
    exact ⟨ts ++ ts', p, last, hrun.append hrun', hp⟩
  | inside n c x =>
    have hexit : ∃ e, c.exit = some e := by
      cases hc : c.exit with
      | none =>
        have := hno t
        rw [ht] at this
        exact absurd hc this
      | some e => exact ⟨e, rfl⟩
    obtain ⟨e, he⟩ := hexit
    have hleave : (memoryThreads ι calls d0).step (σ', th') t
        (σ', Function.update th' t (.out ((ioctlCode calls).leave n x))) := by
      refine ⟨σ', _, ?_, rfl⟩
      show (ioctlCode calls).Step σ' (th' t) _ _
      rw [ht]
      exact .leave he
    have hno' : ∀ u, ¬ (Function.update th' t (.out ((ioctlCode calls).leave n x)) u).running :=
      fun u => running_update id (hno u)
    obtain ⟨ts', p, last, hrun', hp⟩ := reaches_idle hcalls h0 _ (hr'.step hleave) hno' (Function.update_self ..)
      (Nat.le_refl _)
    exact ⟨ts ++ [t] ++ ts', p, last, (hrun.snoc hleave).append hrun', hp⟩

/-- The one that waits at the lock gets its call through. -/
theorem calls_return_run :
    ∃ p ts p' last, (memoryThreads (Fin 2) (fun c => c.malloc = true) firstProcess).Run p ts p' ∧ (p.2 0).running ∧
      p.1.heap.prev (.node 0) = .loc (.node 1) ∧ p'.2 1 = .out (.doing (.idle last)) := by
  obtain ⟨p, hp, hrun, -, hprev⟩ := filing_inside
  obtain ⟨ts, p', last, hto, hidle⟩ := calls_return (fun _ h => h) rfl hp 1
  exact ⟨p, ts, p', last, hto, hrun, hprev, hidle⟩

end

end NvResourceController.Ioctl
