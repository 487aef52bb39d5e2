/-
  NvResourceController.Ioctl.Race — threads of one process that allocate memory at the
  same time.

  A hooked allocation is three atomic steps: the check in `pre_ioctl`, under the mutex;
  the kernel's `ioctl`; the debit in `post_ioctl`, under the mutex again. The check
  looks at the free memory alone, not at what other threads were told would fit and
  have not paid yet. `owed` is that sum.

  - `ioctl_in_steps`: one thread alone, the three steps are the hooked `ioctl`.
  - `never_wraps`: if every call that passes the check also fits next to what is owed
    (`Fits`), the free memory pays for all that is owed, and no debit wraps. A call that
    passes the check while nothing is owed fits (`fits_alone`).
  - `debit_wraps`: two threads pass the check for 60 of 100 bytes, and both debit.
-/

import NvResourceController.Ioctl.Ledger
import Mathlib.Algebra.BigOperators.Group.Finset.Piecewise
import Mathlib.Data.Fintype.BigOperators
import Mathlib.Algebra.Order.Group.Nat

namespace NvResourceController.Ioctl

/-! ## Threads -/

/-- Where a thread is in its hooked call. -/
inductive Phase where
  | idle
  /-- The call passed the check. -/
  | checked (c : Call)
  /-- The kernel has answered. -/
  | replied (c : Call)

structure Race (ι : Type) where
  dev : DeviceProp
  thread : ι → Phase

inductive Turn (ι : Type) where
  | pre (t : ι) (c : Call)
  | kernel (t : ι)
  | post (t : ι)

variable {ι : Type} [DecidableEq ι]

def Race.step (s : Race ι) : Turn ι → Race ι → Prop
  | .pre t c, s' => s.thread t = .idle ∧ ∃ o, preIoctl c.cmd.toUInt32 c.args false s.dev = some o ∧
      s' = ⟨o.dev, Function.update s.thread t (if o.success then .idle else .checked { c with args := o.args })⟩
  | .kernel t, s' => ∃ c, s.thread t = .checked c ∧
      s' = ⟨s.dev, Function.update s.thread t (if c.reply.1 = 0 then .replied c else .idle)⟩
  | .post t, s' => ∃ c o, s.thread t = .replied c ∧
      postIoctl c.malloc c.os nvidiaDeviceMajor nvidiaCtlMinor c.cmd.toUInt32 c.reply.2 s.dev = some o ∧
      s' = ⟨o.dev, Function.update s.thread t .idle⟩

/-- The threads of a process, all idle at first. -/
def race (ι : Type) [DecidableEq ι] (d0 : DeviceProp) : System (Race ι) (Turn ι) where
  init s := s = ⟨d0, fun _ => .idle⟩
  step := Race.step

theorem ioctl_in_steps {d0 dev : DeviceProp} {thread : ι → Phase} {t : ι} {c : Call} {o : Outcome}
    (hidle : thread t = .idle) (hs : c.stat = nvidiactl) (hl : dev.memLimited = true) (h : ioctl c dev = some o) :
    ∃ turns, (race ι d0).Run ⟨dev, thread⟩ turns ⟨o.dev, thread⟩ := by
  have hback : ∀ p, Function.update (Function.update thread t p) t .idle = thread := by
    intro p
    rw [Function.update_idem, ← hidle, Function.update_eq_self]
  simp only [ioctl, hl, hs, nvidiactl, getDeviceNumber, if_true, ne_eq, not_true_eq_false, if_false] at h
  obtain ⟨p, hp, ho⟩ := Option.bind_eq_some_iff.mp h
  have hspec := preIoctl_cases hp
  split at ho
  · rename_i hstop
    have hsucc : p.success = true := hstop.resolve_left (by simp [hspec.retZero])
    cases ho
    refine ⟨[.pre t c], .cons ⟨hidle, p, hp, ?_⟩ (.nil _)⟩
    rw [if_pos hsucc, ← hidle, Function.update_eq_self]
  · rename_i hgo
    have hpass : p.success = false := by simpa using fun e => hgo (Or.inr e)
    obtain ⟨hargs, -⟩ := hspec.pass hpass
    have hpre : (race ι d0).step ⟨dev, thread⟩ (.pre t c) ⟨dev, Function.update thread t (.checked c)⟩ :=
      ⟨hidle, p, hp, by simp [hpass, hargs, hspec.devSame]⟩
    rw [hargs, hspec.devSame] at ho
    obtain ⟨-, hrep⟩ := redirect_cases hl ho
    rcases hrep with ⟨hret, hdev, -, -⟩ | ⟨hret, q, hq, hdev, -, -⟩
    · refine ⟨[.pre t c, .kernel t], .cons hpre (.cons ⟨c, by simp, ?_⟩ (.nil _))⟩
      simp [hret, hback, hdev]
    · refine ⟨[.pre t c, .kernel t, .post t], .cons hpre (.cons ⟨c, by simp, rfl⟩
        (.cons ⟨c, q, by simp [hret], hq, ?_⟩ (.nil _)))⟩
      simp [hret, hback, hdev]

/-! ## What is owed -/

def Call.asked (c : Call) : ℕ :=
  match memRequest c.cmd.toUInt32 c.args with
  | some (size, _) => size.toNat
  | none => 0

/-- The bytes a thread was told would fit, may yet be granted and has not paid. -/
def Phase.owed : Phase → ℕ
  | .idle => 0
  | .checked c => c.asked
  | .replied c => if (created c.cmd.toUInt32 c.reply.2).isSome then c.asked else 0

def Phase.call : Phase → Option Call
  | .idle => none
  | .checked c => some c
  | .replied c => some c

/-- An allocation with an alignment, not near the top of a word, that the kernel leaves
    as it was. -/
structure Call.Aligned (c : Call) : Prop where
  asks : ∃ size alignment, memRequest c.cmd.toUInt32 c.args = some (size, alignment) ∧ alignment ≠ 0 ∧
    size.toNat + alignment.toNat - 1 < 2 ^ 64
  echoed : memRequest c.cmd.toUInt32 c.reply.2 = memRequest c.cmd.toUInt32 c.args

theorem aligned_update {s : Race ι} {t : ι} {p : Phase} (h : ∀ u, ∀ c ∈ (s.thread u).call, c.Aligned)
    (hp : ∀ c ∈ p.call, c.Aligned) : ∀ u, ∀ c ∈ (Function.update s.thread t p u).call, c.Aligned := by
  intro u c hc
  by_cases hu : u = t
  · subst hu
    rw [Function.update_self] at hc
    exact hp c hc
  · rw [Function.update_of_ne hu] at hc
    exact h u c hc

variable [Fintype ι]

def Race.owed (s : Race ι) : ℕ := ∑ t, (s.thread t).owed

theorem owed_update (s : Race ι) (dev : DeviceProp) (t : ι) (p : Phase) :
    (⟨dev, Function.update s.thread t p⟩ : Race ι).owed + (s.thread t).owed = s.owed + p.owed := by
  have hpoint : (fun u => (Function.update s.thread t p u).owed)
      = Function.update (fun u => (s.thread u).owed) t p.owed := by
    funext u
    by_cases h : u = t
    · subst h
      simp
    · simp [Function.update_of_ne h]
  have hrest := Finset.sum_eq_add_sum_sdiff_singleton_of_mem (Finset.mem_univ t) fun u => (s.thread u).owed
  unfold Race.owed
  show (∑ u, (Function.update s.thread t p u).owed) + _ = _
  rw [hpoint, Finset.sum_update_of_mem (Finset.mem_univ t), hrest]
  omega

/-! ## The invariant -/

/-- What passes the check also fits next to what is owed. -/
def Fits (s : Race ι) (c : Call) : Prop := c.asked + s.owed ≤ s.dev.fbInfo.freeMem.toNat

/-- The condition on a step: a call that passes the check fits. -/
def Turn.Fits (s : Race ι) : Turn ι → Prop
  | .pre _ c => ¬ Rejects c.cmd.toUInt32 c.args s.dev → Ioctl.Fits s c
  | _ => True

def Turn.Aligned : Turn ι → Prop
  | .pre _ c => c.Aligned
  | _ => True

omit [DecidableEq ι] in
theorem fits_alone {s : Race ι} {c : Call} (hc : c.Aligned) (hs : s.owed = 0)
    (h : ¬ Rejects c.cmd.toUInt32 c.args s.dev) : Fits s c := by
  obtain ⟨size, alignment, hreq, ha, hlt⟩ := hc.asks
  have hfit := fits_of_not_rejects h hreq ha hlt
  rw [Fits, hs, Call.asked, hreq]
  exact hfit

/-- The free memory pays for all that is owed, and is no more than there is. -/
structure Paid (total : UInt64) (s : Race ι) : Prop where
  owed : s.owed ≤ s.dev.fbInfo.freeMem.toNat
  free : s.dev.fbInfo.freeMem ≤ total
  limit : s.dev.fbInfo.totalMem = total
  aligned : ∀ t, ∀ c ∈ (s.thread t).call, c.Aligned

theorem post_ledger {c : Call} {dev : DeviceProp} {o : PostOut} (hc : c.Aligned)
    (h : postIoctl c.malloc c.os nvidiaDeviceMajor nvidiaCtlMinor c.cmd.toUInt32 c.reply.2 dev = some o) :
    o.dev.fbInfo = dev.fbInfo ∨ ((created c.cmd.toUInt32 c.reply.2).isSome = true ∧ ∃ size : UInt64,
      c.asked = size.toNat ∧ o.dev.fbInfo = { dev.fbInfo with freeMem := dev.fbInfo.freeMem - size }) := by
  by_cases hm : dev.mu = true
  · exact Or.inl (by rw [postIoctl_held hm h])
  have hm : dev.mu = false := by simpa using hm
  obtain ⟨ret, args', he⟩ := postIoctl_dev c.malloc c.os nvidiaCtlMinor c.cmd.toUInt32 c.reply.2 hm
  rw [he] at h
  cases h
  obtain ⟨size, alignment, hreq, ha, -⟩ := hc.asks
  cases hcr : created c.cmd.toUInt32 c.reply.2 with
  | none =>
    have hf : freed c.cmd.toUInt32 c.reply.2 = none := freed_of_memRequest (hc.echoed.trans hreq)
    exact Or.inl ((effect_unreported _ hcr hf).apply _ _).2.1
  | some x =>
    have hk : x.kind = .memory size alignment := kind_of_memRequest hcr (hc.echoed.trans hreq)
    dsimp only
    rw [effect_memory _ hcr hk, if_neg ha]
    cases c.malloc with
    | true => exact Or.inr ⟨rfl, size, by rw [Call.asked, hreq], rfl⟩
    | false => exact Or.inl rfl

theorem paid_pre {total : UInt64} {s s' : Race ι} {t : ι} {c : Call} (hi : Paid total s) (hal : c.Aligned)
    (hfits : (Turn.pre t c).Fits s) (h : Race.step s (.pre t c) s') : Paid total s' := by
  obtain ⟨hidle, o, ho, rfl⟩ := h
  have hspec := preIoctl_cases ho
  rw [hspec.devSame]
  have hsum := fun p => owed_update s s.dev t p
  rw [hidle] at hsum
  cases hsucc : o.success with
  | true =>
    have hsum := hsum .idle
    have hpaid := hi.owed
    refine ⟨?_, hi.free, hi.limit, aligned_update hi.aligned (by simp [Phase.call])⟩
    simp only [if_true, Phase.owed] at hsum ⊢
    omega
  | false =>
    obtain ⟨hargs, hfit⟩ := hspec.pass hsucc
    have hroom : c.asked + s.owed ≤ s.dev.fbInfo.freeMem.toNat := hfits hfit
    have hsum := hsum (.checked c)
    have hcall : ({ c with args := o.args } : Call) = c := by rw [hargs]
    rw [hcall]
    have hc : ∀ c' ∈ (Phase.checked c).call, c'.Aligned := by
      intro c' hc'
      cases hc'
      exact hal
    refine ⟨?_, hi.free, hi.limit, aligned_update hi.aligned hc⟩
    simp only [Bool.false_eq_true, if_false, Phase.owed] at hsum ⊢
    omega

theorem paid_kernel {total : UInt64} {s s' : Race ι} {t : ι} (hi : Paid total s) (h : Race.step s (.kernel t) s') :
    Paid total s' := by
  obtain ⟨c, hc, rfl⟩ := h
  have hcal : c.Aligned := hi.aligned t c (by rw [hc]; rfl)
  have hsum := owed_update s s.dev t (if c.reply.1 = 0 then .replied c else .idle)
  rw [hc] at hsum
  refine ⟨?_, hi.free, hi.limit, aligned_update hi.aligned ?_⟩
  · have hpaid := hi.owed
    have hle : (if c.reply.1 = 0 then Phase.replied c else .idle).owed ≤ c.asked := by
      split
      · unfold Phase.owed
        dsimp only
        split <;> omega
      · exact Nat.zero_le _
    simp only [Phase.owed] at hsum hle ⊢
    omega
  · intro c' hc'
    split at hc'
    · cases hc'
      exact hcal
    · cases hc'

theorem paid_post {total : UInt64} {s s' : Race ι} {t : ι} (hi : Paid total s) (h : Race.step s (.post t) s') :
    Paid total s' := by
  obtain ⟨c, o, hc, ho, rfl⟩ := h
  have hcal : c.Aligned := hi.aligned t c (by rw [hc]; rfl)
  have hsum := owed_update s o.dev t .idle
  have hpaid := hi.owed
  have hfree := hi.free
  rw [hc] at hsum
  have hother := aligned_update (t := t) (p := .idle) hi.aligned (by simp [Phase.call])
  rcases post_ledger hcal ho with hfb | ⟨hgranted, size, hasked, hfb⟩
  · refine ⟨?_, by rw [hfb]; exact hfree, by rw [hfb]; exact hi.limit, hother⟩
    simp only [Phase.owed] at hsum
    rw [hfb]
    omega
  · simp only [Phase.owed, hgranted, if_true, hasked] at hsum
    have hle : size ≤ s.dev.fbInfo.freeMem := by
      rw [UInt64.le_iff_toNat_le]
      omega
    have hsub := UInt64.toNat_sub_of_le _ _ hle
    refine ⟨?_, ?_, by rw [hfb]; exact hi.limit, hother⟩
    · rw [hfb]
      dsimp only at hsub ⊢
      omega
    · rw [hfb, UInt64.le_iff_toNat_le]
      rw [UInt64.le_iff_toNat_le] at hfree
      dsimp only at hsub ⊢
      omega

theorem paid_step {total : UInt64} {s s' : Race ι} {turn : Turn ι} (hi : Paid total s) (hal : turn.Aligned)
    (hfits : turn.Fits s) (h : Race.step s turn s') : Paid total s' := by
  cases turn with
  | pre t c => exact paid_pre hi hal hfits h
  | kernel t => exact paid_kernel hi h
  | post t => exact paid_post hi h

/-- No debit wraps, in any interleaving of calls that fit. -/
theorem never_wraps {d0 : DeviceProp} {s : Race ι} (hf : d0.fbInfo.freeMem = d0.fbInfo.totalMem)
    (h : ((race ι d0).restrict fun s turn => turn.Aligned ∧ turn.Fits s).Reach s) :
    s.dev.fbInfo.freeMem ≤ s.dev.fbInfo.totalMem ∧ s.dev.fbInfo.totalMem = d0.fbInfo.totalMem := by
  have hp : Paid d0.fbInfo.totalMem s := by
    refine System.Reach.inv ?_ ?_ h
    · intro s hs
      rw [show s = ⟨d0, fun _ => .idle⟩ from hs]
      refine ⟨?_, hf ▸ UInt64.le_refl _, rfl, by simp [Phase.call]⟩
      simp [Race.owed, Phase.owed]
    · intro s turn s' hi hstep'
      obtain ⟨⟨hal, hfits⟩, hstep⟩ := hstep'
      exact paid_step hi hal hfits hstep
  exact ⟨hp.limit ▸ hp.free, hp.limit⟩

/-! ## Two threads, 60 of 100 bytes each -/

def sixty (handle : UInt32) : Call := .grant nvEscRmVidHeapControl (.allocSize 1 2 handle 60 1)

theorem sixty_aligned (handle : UInt32) : (sixty handle).Aligned := by
  have hnr : iocNr (sixty handle).cmd.toUInt32 = nvEscRmVidHeapControl := by
    show iocNr nvEscRmVidHeapControl.toUInt64.toUInt32 = _
    decide
  exact ⟨⟨60, 1, by rw [memRequest, if_pos hnr]; rfl, by decide, by decide⟩, rfl⟩

/-- Two threads pass the check before either debits. -/
theorem debit_wraps :
    ∃ s : Race (Fin 2), ((race (Fin 2) firstProcess).restrict fun _ turn => turn.Aligned).Reach s ∧
      ¬ s.dev.fbInfo.freeMem ≤ s.dev.fbInfo.totalMem := by
  have h : ((race (Fin 2) firstProcess).restrict fun _ turn => turn.Aligned).Reach
    ⟨firstProcess, fun _ => .idle⟩ := .init rfl
  have h := h.step (e := Turn.pre (0 : Fin 2) (sixty 7)) ⟨sixty_aligned 7, rfl, _, rfl, rfl⟩
  have h := h.step (e := Turn.pre (1 : Fin 2) (sixty 8)) ⟨sixty_aligned 8, rfl, _, rfl, rfl⟩
  have h := h.step (e := Turn.kernel (0 : Fin 2)) ⟨trivial, _, rfl, rfl⟩
  have h := h.step (e := Turn.kernel (1 : Fin 2)) ⟨trivial, _, rfl, rfl⟩
  have h := h.step (e := Turn.post (0 : Fin 2)) ⟨trivial, _, _, rfl, rfl, rfl⟩
  have h := h.step (e := Turn.post (1 : Fin 2)) ⟨trivial, _, _, rfl, rfl, rfl⟩
  exact ⟨_, h, by decide⟩

theorem never_wraps_run :
    ∃ s : Race (Fin 2), s.dev.fbInfo.freeMem = 40 ∧ s.dev.fbInfo.freeMem ≤ s.dev.fbInfo.totalMem ∧
      s.dev.fbInfo.totalMem = 100 := by
  let ok : Race (Fin 2) → Turn (Fin 2) → Prop := fun s turn => turn.Aligned ∧ turn.Fits s
  have h : ((race (Fin 2) firstProcess).restrict ok).Reach ⟨firstProcess, fun _ => .idle⟩ := .init rfl
  have h := h.step (e := Turn.pre (0 : Fin 2) (sixty 7))
    ⟨⟨sixty_aligned 7, fun hr => fits_alone (sixty_aligned 7) (by decide) hr⟩, rfl, _, rfl, rfl⟩
  have h := h.step (e := Turn.kernel (0 : Fin 2)) ⟨⟨trivial, trivial⟩, _, rfl, rfl⟩
  have h := h.step (e := Turn.post (0 : Fin 2)) ⟨⟨trivial, trivial⟩, _, _, rfl, rfl, rfl⟩
  have h := h.step (e := Turn.pre (1 : Fin 2) (sixty 8))
    ⟨⟨sixty_aligned 8, fun hr => fits_alone (sixty_aligned 8) (by decide) hr⟩, rfl, _, rfl, rfl⟩
  exact ⟨_, by decide, never_wraps rfl h⟩

end NvResourceController.Ioctl
