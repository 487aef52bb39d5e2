/-
  NvResourceController.Ioctl.Stages — the threads of a process in the hooked `ioctl`,
  where it goes with `mem_limited` set, with each stage of a call in one step.

  A thread takes the stage before the kernel, the kernel's `ioctl` and the stage after
  it one after the other; a stage is the function of `Ioctl.Hook`. A thread keeps what
  its last call returned.

  - `ioctl_in_stages`: one thread alone, the stages are the hooked `ioctl`.
  - `threads_race`: with every call on `/dev/nvidiactl` the threads are those of `race`.
-/

import NvResourceController.Lib.Critical
import NvResourceController.Ioctl.Race

namespace NvResourceController.Ioctl

open Critical

/-! ## The hooked call, by stages -/

def Call.number (c : Call) : Int32 × UInt32 × UInt32 := getDeviceNumber c.stat 0 0

/-- The descriptor is of an NVIDIA device, so the stage before the kernel runs. -/
def Call.Hooked (c : Call) : Prop := c.number.1 = 0 ∧ c.number.2.1 = nvidiaDeviceMajor

def Call.pre (c : Call) (d : DeviceProp) : Option PreOut := preIoctl c.cmd.toUInt32 c.args false d

def Call.post (c : Call) (d : DeviceProp) : Option PostOut :=
  postIoctl c.malloc c.os c.number.2.1 c.number.2.2 c.cmd.toUInt32 c.reply.2 d

/-- What a thread is in: `idle` keeps what its last call returned. -/
inductive Doing where
  | idle (last : Option (Int32 × Args))
  | checked (c : Call)
  | replied (c : Call)

def Call.after (c : Call) (ret : Int32) (success : Bool) (args : Args) : Doing :=
  if ret ≠ 0 ∨ success = true then .idle (some (ret, args)) else .checked { c with args := args }

def Call.answered (c : Call) : Doing :=
  if c.reply.1 = 0 then .replied c else .idle (some c.reply)

/-- A stage in one step; `calls` are the calls the threads may make. -/
inductive Doing.Step (calls : Call → Prop) : DeviceProp → Doing → DeviceProp → Doing → Prop
  | foreign {d : DeviceProp} {last : Option (Int32 × Args)} {c : Call} : calls c → ¬ c.Hooked →
      Step calls d (.idle last) d (.checked c)
  | pre {d : DeviceProp} {last : Option (Int32 × Args)} {c : Call} {o : PreOut} : calls c → c.Hooked →
      c.pre d = some o → Step calls d (.idle last) o.dev (c.after o.ret o.success o.args)
  | kernel {d : DeviceProp} {c : Call} : Step calls d (.checked c) d c.answered
  | post {d : DeviceProp} {c : Call} {o : PostOut} : c.post d = some o →
      Step calls d (.replied c) o.dev (.idle (some (o.ret, o.args)))

variable (ι : Type) [DecidableEq ι] (calls : Call → Prop)

/-- The threads of a process, a stage a step. -/
def threadsOf (d0 : DeviceProp) : System (DeviceProp × (ι → Doing)) ι :=
  threads ι (· = d0) (.idle none) (Doing.Step calls)

variable {ι calls}

section
variable (d0 : DeviceProp) {d : DeviceProp} {ks : ι → Doing} {t : ι} {c : Call} {o : Outcome}

theorem redirect_in_stages (hl : d.memLimited = true) (ht : ks t = .checked c)
    (h : redirect c c.number.2.1 c.number.2.2 c.args d = some o) :
    ∃ ts, (threadsOf ι calls d0).Run (d, ks) ts (o.dev, Function.update ks t (.idle (some (o.ret, o.args)))) := by
  have hkernel : (threadsOf ι calls d0).step (d, ks) t (d, Function.update ks t c.answered) := by
    refine ⟨d, c.answered, ?_, rfl⟩
    show Doing.Step calls d (ks t) d c.answered
    rw [ht]
    exact .kernel
  by_cases hret : c.reply.1 = 0
  · rw [redirect, show c.kernel c.cmd c.args = c.reply from rfl] at h
    dsimp only at h
    rw [if_pos ⟨hl, hret⟩] at h
    obtain ⟨q, hq, rfl⟩ := Option.map_eq_some_iff.mp h
    have hself : Function.update ks t c.answered t = .replied c := by simp [Call.answered, hret]
    have hpost : (threadsOf ι calls d0).step (d, Function.update ks t c.answered) t
        (q.dev, Function.update ks t (.idle (some (q.ret, q.args)))) := by
      refine ⟨q.dev, .idle (some (q.ret, q.args)), ?_, by rw [Function.update_idem]⟩
      show Doing.Step calls d (Function.update ks t c.answered t) _ _
      rw [hself]
      exact .post hq
    exact ⟨_, .cons hkernel (.cons hpost (.nil _))⟩
  · rw [redirect, show c.kernel c.cmd c.args = c.reply from rfl] at h
    dsimp only at h
    rw [if_neg fun e => hret e.2] at h
    cases h
    rw [show c.answered = .idle (some c.reply) by simp [Call.answered, hret]] at hkernel
    exact ⟨_, .cons hkernel (.nil _)⟩

/-- One thread alone, the stages are the hooked call. -/
theorem ioctl_in_stages {last : Option (Int32 × Args)} (hc : calls c) (hl : d.memLimited = true)
    (ht : ks t = .idle last) (h : ioctl c d = some o) :
    ∃ ts, (threadsOf ι calls d0).Run (d, ks) ts (o.dev, Function.update ks t (.idle (some (o.ret, o.args)))) := by
  have hfirst : ∀ d' x, Doing.Step calls d (.idle last) d' x →
      (threadsOf ι calls d0).step (d, ks) t (d', Function.update ks t x) := by
    intro d' x hx
    refine ⟨d', x, ?_, rfl⟩
    show Doing.Step calls d (ks t) d' x
    rwa [ht]
  have hgo : redirect c c.number.2.1 c.number.2.2 c.args d = some o →
      Doing.Step calls d (.idle last) d (.checked c) →
      ∃ ts, (threadsOf ι calls d0).Run (d, ks) ts (o.dev, Function.update ks t (.idle (some (o.ret, o.args)))) := by
    intro hred hx
    obtain ⟨ts, hrun⟩ := redirect_in_stages d0 hl (Function.update_self t (.checked c) ks) hred
    rw [Function.update_idem] at hrun
    exact ⟨_, .cons (hfirst d _ hx) hrun⟩
  rw [ioctl, if_pos hl, show getDeviceNumber c.stat 0 0 = c.number from rfl] at h
  dsimp only at h
  by_cases hret : c.number.1 = 0
  · rw [if_neg (by simp [hret])] at h
    by_cases hmaj : c.number.2.1 = nvidiaDeviceMajor
    · rw [if_neg (by simp [hmaj])] at h
      obtain ⟨p, hp, ho⟩ := Option.bind_eq_some_iff.mp h
      have hspec := preIoctl_cases hp
      have hpre : Doing.Step calls d (.idle last) p.dev (c.after p.ret p.success p.args) := .pre hc ⟨hret, hmaj⟩ hp
      split at ho
      · rename_i hstop
        cases ho
        rw [Call.after, if_pos hstop] at hpre
        exact ⟨_, .cons (hfirst _ _ hpre) (.nil _)⟩
      · rename_i hstop
        obtain ⟨hargs, -⟩ := hspec.pass (by simpa using fun e => hstop (.inr e))
        rw [Call.after, if_neg hstop, hargs, hspec.devSame] at hpre
        rw [hargs, hspec.devSame] at ho
        exact hgo ho hpre
    · rw [if_pos hmaj] at h
      exact hgo h (.foreign hc fun hh => hmaj hh.2)
  · rw [if_pos hret] at h
    exact hgo h (.foreign hc fun hh => hret hh.1)

end

/-! ### The race of allocations

`race` is these threads where every call is on `/dev/nvidiactl`. -/

def Doing.phase : Doing → Phase
  | .idle _ => .idle
  | .checked c => .checked c
  | .replied c => .replied c

def Doing.call : Doing → Option Call
  | .idle _ => none
  | .checked c => some c
  | .replied c => some c

/-- The threads of a race, without what their calls returned. -/
structure Races (q : DeviceProp × (ι → Doing)) (s : Race ι) : Prop where
  dev : s.dev = q.1
  thread : ∀ t, s.thread t = (q.2 t).phase
  control : ∀ t, ∀ c ∈ (q.2 t).call, c.stat = nvidiactl

theorem number_control {c : Call} (h : c.stat = nvidiactl) : c.number = (0, nvidiaDeviceMajor, nvidiaCtlMinor) := by
  simp [Call.number, h, nvidiactl, getDeviceNumber]

theorem stage_is_turn (hcalls : ∀ c, calls c → c.stat = nvidiactl) {d d' : DeviceProp} {x x' : Doing} {s : Race ι}
    {t : ι} (hd : s.dev = d) (hx : s.thread t = x.phase) (hctl : ∀ c ∈ x.call, c.stat = nvidiactl)
    (h : Doing.Step calls d x d' x') :
    (∃ turn, s.step turn ⟨d', Function.update s.thread t x'.phase⟩) ∧ ∀ c ∈ x'.call, c.stat = nvidiactl := by
  subst hd
  cases h with
  | @foreign last c hc hf =>
    have hn := number_control (hcalls c hc)
    exact absurd (show c.Hooked from ⟨by rw [hn], by rw [hn]⟩) hf
  | @pre last c o hc hh hpre =>
    have hspec := preIoctl_cases hpre
    constructor
    · refine ⟨.pre t c, hx, o, hpre, ?_⟩
      cases hs : o.success <;> simp [Call.after, hspec.retZero, Doing.phase]
    · intro c' hc'
      unfold Call.after at hc'
      split at hc'
      · cases hc'
      · cases hc'
        exact hcalls c hc
  | @kernel c =>
    constructor
    · refine ⟨.kernel t, c, hx, ?_⟩
      by_cases hr : c.reply.1 = 0 <;> simp [Call.answered, hr, Doing.phase]
    · intro c' hc'
      unfold Call.answered at hc'
      split at hc'
      · cases hc'
        exact hctl c rfl
      · cases hc'
  | @post c o hpost =>
    have hn := number_control (hctl c rfl)
    rw [Call.post, hn] at hpost
    exact ⟨⟨.post t, c, o, hx, hpost, rfl⟩, by simp [Doing.call]⟩

theorem threads_race (hcalls : ∀ c, calls c → c.stat = nvidiactl) (d0 : DeviceProp) :
    System.Simulation (threadsOf ι calls d0) (race ι d0) Races where
  init := by
    intro q hq
    obtain ⟨d, ks⟩ := q
    obtain ⟨hd, hks⟩ := hq
    obtain rfl : d = d0 := hd
    obtain rfl : ks = fun _ => .idle none := hks
    exact ⟨_, rfl, rfl, fun _ => rfl, by simp [Doing.call]⟩
  step := by
    intro q t q' s hq hstep
    obtain ⟨d', x', hstep, rfl⟩ := hstep
    obtain ⟨⟨turn, hturn⟩, hctl⟩ := stage_is_turn hcalls hq.dev (hq.thread t) (hq.control t) hstep
    refine ⟨[turn], _, .cons hturn (.nil _), rfl, fun u => ?_, fun u => ?_⟩
    · by_cases hu : u = t
      · subst hu
        simp
      · simp [Function.update_of_ne hu, hq.thread u]
    · by_cases hu : u = t
      · subst hu
        simpa using hctl
      · simpa [Function.update_of_ne hu] using hq.control u

end NvResourceController.Ioctl
