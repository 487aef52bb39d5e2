/-
  NvResourceController.Ioctl.Calls — the hooked `ioctl` as its caller sees it, on any
  descriptor: whether the kernel is asked, what is returned, and what a call whose
  `malloc` failed leaves behind.

  - `reject_or_forward`: a call that returns is rejected, with nothing changed but the request's
    status, exactly when `Rejects` says so of a limited call on an NVIDIA device;
    otherwise the kernel is asked once, with the caller's command and buffer.
  - `ret_of_device`: the caller gets the kernel's return value, except that three
    handlers refuse every minor but the control device's after the kernel has acted.
  - `malloc_failure`: `post_memory_rm_alloc` and `post_vid_heap_alloc` jump over the
    unlock when `malloc` fails; `post_device_rm_alloc` and `post_ctrl_rm_alloc` do not.
    A call returns with the mutex free and the books restored exactly when it is no such
    charge, and `lost_charge_deadlocks` is a run in which the next call blocks.
-/

import NvResourceController.Ioctl.Refused

namespace NvResourceController.Ioctl

/-! ## Rejected or forwarded -/

theorem preVidHeapAlloc_told {args : Args} {dev : DeviceProp} {o : PreOut} (h : preVidHeapAlloc args dev = some o)
    (hs : o.success = true) : o.args.nvos32.status = .errNoMemory := by
  unfold preVidHeapAlloc at h
  dsimp only at h
  split at h
  · split at h
    · obtain ⟨d, -, rfl⟩ := Option.map_eq_some_iff.mp h
      split
      · rfl
      · rename_i hlt
        simp [hlt] at hs
    · cases h
      cases hs
  · obtain ⟨d, -, rfl⟩ := Option.map_eq_some_iff.mp h
    rw [if_neg (not_lt_zero _)] at hs
    cases hs
  · cases h
    cases hs

theorem preRmAlloc_told {args : Args} {dev : DeviceProp} {o : PreOut} (h : preRmAlloc args dev = some o)
    (hs : o.success = true) : o.args.nvos21.status = .errNoMemory := by
  unfold preRmAlloc at h
  dsimp only at h
  split at h
  · split at h
    · obtain ⟨d, -, rfl⟩ := Option.map_eq_some_iff.mp h
      split
      · rfl
      · rename_i hlt
        simp [hlt] at hs
    · cases h
      cases hs
  · cases h
    cases hs

theorem preIoctl_told {cmd : UInt32} {args : Args} {dev : DeviceProp} {o : PreOut}
    (h : preIoctl cmd args false dev = some o) (hs : o.success = true) : statusOf cmd o.args = .errNoMemory := by
  obtain ⟨h1, h2, h3, -, -⟩ := nvEsc_ne
  unfold preIoctl at h
  dsimp only at h
  split at h
  · rename_i hc
    simpa [statusOf, hc] using preVidHeapAlloc_told h hs
  split at h
  · rename_i hc
    simpa [statusOf, hc, h1, h2, h3] using preRmAlloc_told h hs
  · cases h
    cases hs

/-- Every call either is rejected, or reaches the kernel once with the caller's command
    and buffer; on a descriptor of no NVIDIA device it is the kernel's own. A call that
    finds the mutex free returns. -/
theorem reject_or_forward (c : Call) (dev : DeviceProp) :
    (dev.mu = false → ∃ o, ioctl c dev = some o) ∧
      ∀ o, ioctl c dev = some o →
        (o.calls = [] ↔ dev.memLimited = true ∧ c.device.isSome = true ∧ Rejects c.cmd.toUInt32 c.args dev) ∧
        (o.calls = [] → o.ret = 0 ∧ statusOf c.cmd.toUInt32 o.args = .errNoMemory ∧ o.dev = dev) ∧
        (o.calls ≠ [] → o.calls = [(c.cmd, c.args)] ∧
          (c.device = none → o.ret = c.reply.1 ∧ o.args = c.reply.2 ∧ o.dev = dev)) := by
  refine ⟨ioctl_returns, ?_⟩
  intro o h
  by_cases hf : dev.memLimited = false ∨ c.device = none
  · rw [ioctl_foreign hf] at h
    cases h
    refine ⟨iff_of_false (by simp) ?_, by simp, fun _ => ⟨rfl, fun _ => ⟨rfl, rfl, rfl⟩⟩⟩
    intro hrej
    rcases hf with hf | hf
    · simp [hf] at hrej
    · simp [hf] at hrej
  · simp only [not_or, Bool.not_eq_false] at hf
    obtain ⟨minor, hd⟩ := Option.ne_none_iff_exists'.mp hf.2
    rcases ioctl_device hd hf.1 h with ⟨p, hp, hs, rfl⟩ | ⟨hfit, hcalls, -⟩
    · refine ⟨iff_of_true rfl ⟨hf.1, by simp [hd], (preIoctl_cases hp).reject hs⟩, fun _ => ?_, by simp⟩
      exact ⟨rfl, preIoctl_told hp hs, rfl⟩
    · refine ⟨iff_of_false (by simp [hcalls]) (fun hrej => hfit hrej.2.2), by simp [hcalls], fun _ => ⟨hcalls, ?_⟩⟩
      intro hnone
      exact absurd hnone hf.2

/-! ## What is returned -/

theorem effect_elsewhere {minor cmd : UInt32} (reply : Args) (rm : List RmMem)
    (h : minor ≠ nvidiaCtlMinor ∧ ControlOnly cmd) : effect minor cmd reply rm = .none := by
  unfold effect
  rw [if_neg h.1, if_neg h.1]
  split
  · rfl
  split
  · rfl
  split
  · rfl
  · rename_i h1 h2 h3
    exact absurd h.2 (by simp [ControlOnly, h1, h2, h3])

theorem ioctl_answered {c : Call} {dev : DeviceProp} {o : Outcome} {minor : UInt32} (hm : dev.mu = false)
    (hl : dev.memLimited = true) (hd : c.device = some minor) (hfit : ¬ Rejects c.cmd.toUInt32 c.args dev)
    (hr : c.reply.1 = 0) (h : ioctl c dev = some o) :
    o.ret = postRet c.malloc minor c.cmd.toUInt32 c.reply.2 dev.rmMemList ∧
      o.dev = (effect minor c.cmd.toUInt32 c.reply.2 dev.rmMemList).apply c.malloc dev := by
  rcases ioctl_device hd hl h with ⟨p, hp, hs, -⟩ | ⟨-, -, hans⟩
  · exact absurd ((preIoctl_cases hp).reject hs) hfit
  · rcases hans with ⟨hne, -⟩ | ⟨-, p, hp, hdev, hret, -⟩
    · exact absurd hr hne
    · obtain ⟨args', he⟩ := postIoctl_out c.malloc c.os minor c.cmd.toUInt32 c.reply.2 hm
      rw [he] at hp
      cases hp
      exact ⟨hret, hdev⟩

/-- Outside the limit, on no NVIDIA device, rejected or failed by the kernel, a call
    leaves the books alone. -/
theorem ioctl_unanswered {c : Call} {dev : DeviceProp} {o : Outcome} (h : ioctl c dev = some o)
    (hn : ¬ (dev.memLimited = true ∧ c.device.isSome = true ∧ ¬ Rejects c.cmd.toUInt32 c.args dev ∧ c.reply.1 = 0)) :
    o.dev = dev := by
  by_cases hf : dev.memLimited = false ∨ c.device = none
  · rw [ioctl_foreign hf] at h
    cases h
    rfl
  · simp only [not_or, Bool.not_eq_false] at hf
    obtain ⟨minor, hd⟩ := Option.ne_none_iff_exists'.mp hf.2
    rcases ioctl_device hd hf.1 h with ⟨p, -, -, rfl⟩ | ⟨hfit, -, hans⟩
    · rfl
    · rcases hans with ⟨-, hdev, -⟩ | ⟨hr, -⟩
      · exact hdev
      · exact absurd ⟨hf.1, by simp [hd], hfit, hr⟩ hn

/-- On an NVIDIA device, a call that is not rejected and gets its memory returns what
    the kernel's `ioctl` returned, but for the commands of `ControlOnly` on a minor that
    is not the control device's, which the kernel carried out and the hook calls
    invalid. -/
theorem ret_of_device {c : Call} {dev : DeviceProp} {minor : UInt32} (hd : c.device = some minor)
    (hmal : c.malloc = true) (hfit : ¬ (dev.memLimited = true ∧ Rejects c.cmd.toUInt32 c.args dev)) :
    (dev.mu = false → ∃ o, ioctl c dev = some o) ∧
      ∀ o, ioctl c dev = some o →
        o.ret = if dev.memLimited = true ∧ c.reply.1 = 0 ∧ minor ≠ nvidiaCtlMinor ∧ ControlOnly c.cmd.toUInt32
          then -einval else c.reply.1 := by
  refine ⟨ioctl_returns, ?_⟩
  intro o h
  by_cases hl : dev.memLimited = true
  swap
  · rw [if_neg (fun hc => hl hc.1)]
    rw [ioctl_foreign (.inl (by simpa using hl))] at h
    cases h
    rfl
  have hfit' : ¬ Rejects c.cmd.toUInt32 c.args dev := fun hrej => hfit ⟨hl, hrej⟩
  by_cases hr : c.reply.1 = 0
  swap
  · rw [if_neg (fun hc => hr hc.2.1)]
    rcases ioctl_device hd hl h with ⟨p, hp, hs, -⟩ | ⟨-, -, hans⟩
    · exact absurd ((preIoctl_cases hp).reject hs) hfit'
    · rcases hans with ⟨-, -, hret, -⟩ | ⟨h0, -⟩
      · exact hret
      · exact absurd h0 hr
  have hshape : o.ret = if minor ≠ nvidiaCtlMinor ∧ ControlOnly c.cmd.toUInt32 then -einval else 0 := by
    by_cases hm : dev.mu = true
    · rcases ioctl_device hd hl h with ⟨p, hp, hs, -⟩ | ⟨-, -, hans⟩
      · exact absurd ((preIoctl_cases hp).reject hs) hfit'
      · rcases hans with ⟨hne, -⟩ | ⟨-, p, hp, -, hret, -⟩
        · exact absurd hr hne
        · rw [hret, postIoctl_held_out hm hp]
          simp
    · rw [(ioctl_answered (by simpa using hm) hl hd hfit' hr h).1]
      simp [postRet, Effect.ret, hmal]
  rw [hshape, hr]
  simp [hl]

/-- A free the kernel carries out, on `/dev/nvidia0`. -/
def minorFree : Call :=
  { Call.grant nvEscRmFree (.rmFree 1 2 7) with stat := some ⟨true, nvidiaDeviceMajor, 0⟩ }

/-- The application is told that it failed. -/
theorem minor_free_is_failed : minorFree.device = some 0 ∧ minorFree.reply.1 = 0 ∧
    ∃ o, ioctl minorFree firstProcess = some o ∧ o.calls = [(minorFree.cmd, minorFree.args)] ∧ o.ret = -22 :=
  ⟨by decide, rfl, _, rfl, rfl, rfl⟩

theorem ret_of_device_run : ∃ o, ioctl { minorFree with cmd := nvEscRmAlloc.toUInt64 } firstProcess = some o ∧
    o.ret = 0 := by
  have hd : Call.device { minorFree with cmd := nvEscRmAlloc.toUInt64 } = some 0 := by decide
  have hfit : ¬ Rejects nvEscRmAlloc minorFree.args firstProcess := not_rejects (by decide) _
  obtain ⟨hreturns, hret⟩ := ret_of_device hd rfl (fun h => hfit h.2)
  obtain ⟨o, ho⟩ := hreturns rfl
  exact ⟨o, ho, (hret o ho).trans (by decide)⟩

/-! ## `malloc` fails -/

def Starts (memLimit : Option (UInt32 × UInt64)) (d0 : DeviceProp) : Prop :=
  ∃ segment lstat pid, initMemLimit memLimit segment lstat pid gpuDevice = some d0

theorem starts_unlocked {memLimit : Option (UInt32 × UInt64)} {d0 : DeviceProp} (h : Starts memLimit d0) :
    d0.mu = false := by
  obtain ⟨segment, lstat, pid, hi⟩ := h
  cases memLimit with
  | none =>
    cases hi
    rfl
  | some limit =>
    obtain ⟨fb, -, rfl⟩ := Option.map_eq_some_iff.mp hi
    rfl

/-- The kernel grants the call memory with an alignment, on a path that charges it. -/
structure Call.Granted (c : Call) (dev : DeviceProp) : Prop where
  limited : dev.memLimited = true
  fits : ¬ Rejects c.cmd.toUInt32 c.args dev
  returned : c.reply.1 = 0
  ok : statusOf c.cmd.toUInt32 c.reply.2 = .ok
  aligned : ∃ size alignment, memRequest c.cmd.toUInt32 c.reply.2 = some (size, alignment) ∧ alignment ≠ 0
  minor : ∃ minor, c.device = some minor ∧
    (iocNr c.cmd.toUInt32 = nvEscRmVidHeapControl → minor = nvidiaCtlMinor)

/-- The call gets as far as `malloc`: the kernel's answer has a record filed. -/
def Call.Mallocs (c : Call) (dev : DeviceProp) : Prop :=
  (dev.memLimited = true ∧ c.device.isSome = true ∧ ¬ Rejects c.cmd.toUInt32 c.args dev ∧ c.reply.1 = 0) ∧
    ∃ minor, c.device = some minor ∧ (effect minor c.cmd.toUInt32 c.reply.2 dev.rmMemList).allocates = true

/-- It gets its memory, or is no charge. -/
def Spared (dev : DeviceProp) (c : Call) : Prop := c.malloc = true ∨ ¬ c.Granted dev

theorem effect_memRequest {cmd : UInt32} {reply : Args} {size alignment : UInt64} (minor : UInt32) (rm : List RmMem)
    (hreq : memRequest cmd reply = some (size, alignment)) :
    ∃ key, effect minor cmd reply rm
      = if statusOf cmd reply = .ok ∧ alignment ≠ 0 ∧ (iocNr cmd = nvEscRmVidHeapControl → minor = nvidiaCtlMinor)
        then .charge ⟨key, size⟩ else .none := by
  obtain ⟨h1, h2, h3, -, -⟩ := nvEsc_ne
  unfold memRequest at hreq
  split at hreq
  · rename_i hc
    split at hreq
    · rename_i hf
      cases hreq
      refine ⟨reply.nvos32.allocSize.hMemory, ?_⟩
      by_cases hn : minor = nvidiaCtlMinor <;> simp [effect, hc, hn, vidHeapEffect, statusOf, hf]
    · cases hreq
  split at hreq
  · rename_i hc
    split at hreq
    · rename_i hcl
      cases hreq
      exact ⟨reply.nvos21.pAllocParms.memory.owner, by simp [effect, hc, h1, h2, h3, rmAllocEffect, statusOf, hcl]⟩
    · cases hreq
  · cases hreq

theorem memRequest_of_charge {minor cmd : UInt32} {reply : Args} {rm : List RmMem} {entry : DeviceMem}
    (h : effect minor cmd reply rm = .charge entry) :
    ∃ alignment, memRequest cmd reply = some (entry.size, alignment) ∧ alignment ≠ 0 := by
  obtain ⟨o, hc, hk, ha⟩ := created_of_charge h
  exact ⟨o.alignment, memRequest_memory hc hk, ha⟩

theorem granted_answered {c : Call} {dev : DeviceProp} (h : c.Granted dev) :
    dev.memLimited = true ∧ c.device.isSome = true ∧ ¬ Rejects c.cmd.toUInt32 c.args dev ∧ c.reply.1 = 0 := by
  obtain ⟨minor, hd, -⟩ := h.minor
  exact ⟨h.limited, by simp [hd], h.fits, h.returned⟩

theorem granted_iff {c : Call} {dev : DeviceProp} {minor : UInt32} (hl : dev.memLimited = true)
    (hd : c.device = some minor) (hfit : ¬ Rejects c.cmd.toUInt32 c.args dev) (hr : c.reply.1 = 0) :
    c.Granted dev ↔ ∃ entry, effect minor c.cmd.toUInt32 c.reply.2 dev.rmMemList = .charge entry := by
  constructor
  · intro hg
    obtain ⟨size, alignment, hreq, ha⟩ := hg.aligned
    obtain ⟨minor', hd', hmin⟩ := hg.minor
    obtain rfl : minor = minor' := Option.some.inj (hd.symm.trans hd')
    obtain ⟨key, he⟩ := effect_memRequest minor dev.rmMemList hreq
    exact ⟨⟨key, size⟩, he.trans (if_pos ⟨hg.ok, ha, hmin⟩)⟩
  · intro he
    obtain ⟨entry, he⟩ := he
    obtain ⟨alignment, hreq, ha⟩ := memRequest_of_charge he
    obtain ⟨key, he'⟩ := effect_memRequest minor dev.rmMemList hreq
    rw [he] at he'
    split at he'
    · rename_i hc
      exact ⟨hl, hfit, hr, hc.1, ⟨_, _, hreq, ha⟩, minor, hd, hc.2.2⟩
    · cases he'

theorem postRet_allocates {malloc : Bool} {minor cmd : UInt32} {reply : Args} {rm : List RmMem}
    (h : (effect minor cmd reply rm).allocates = true) :
    postRet malloc minor cmd reply rm = (effect minor cmd reply rm).ret malloc := by
  unfold postRet
  rw [if_neg]
  intro hc
  rw [effect_elsewhere reply rm hc] at h
  cases h

/-- A call that finds the mutex free returns with it free and, if its `malloc` failed,
    with `-ENOMEM` and the books as they were, exactly when it is `Spared`. -/
theorem ioctl_spared {c : Call} {dev : DeviceProp} (hm : dev.mu = false) :
    (∃ o, ioctl c dev = some o ∧ o.dev.mu = false ∧
      (c.Mallocs dev → c.malloc = false → o.ret = -enomem ∧ o.dev.heapMemList = dev.heapMemList ∧
        o.dev.rmMemList = dev.rmMemList ∧ o.dev.allocMem = dev.allocMem ∧ o.dev.fbInfo = dev.fbInfo)) ↔
      Spared dev c := by
  obtain ⟨o, ho⟩ := ioctl_returns (c := c) hm
  have hone : ∀ o', ioctl c dev = some o' → o' = o := by
    intro o' h
    rw [ho] at h
    exact (Option.some.inj h).symm
  by_cases ha : dev.memLimited = true ∧ c.device.isSome = true ∧ ¬ Rejects c.cmd.toUInt32 c.args dev ∧ c.reply.1 = 0
  swap
  · refine iff_of_true ⟨o, ho, ?_, fun hmal => absurd hmal.1 ha⟩ (Or.inr fun hg => ha (granted_answered hg))
    rw [ioctl_unanswered ho ha]
    exact hm
  obtain ⟨hl, hsome, hfit, hr⟩ := ha
  obtain ⟨minor, hd⟩ := Option.isSome_iff_exists.mp hsome
  obtain ⟨hret, hdev⟩ := ioctl_answered hm hl hd hfit hr ho
  cases hmalloc : c.malloc with
  | true =>
    refine iff_of_true ⟨o, ho, ?_, by simp⟩ (Or.inl hmalloc)
    rw [hdev, hmalloc, apply_mu_malloc, hm]
  | false =>
    rw [hmalloc] at hret hdev
    have hspared : Spared dev c ↔ ∀ entry, effect minor c.cmd.toUInt32 c.reply.2 dev.rmMemList ≠ .charge entry := by
      simp [Spared, hmalloc, granted_iff hl hd hfit hr]
    rw [hspared]
    cases he : effect minor c.cmd.toUInt32 c.reply.2 dev.rmMemList with
    | charge entry =>
      -- the jump over the unlock
      refine iff_of_false ?_ (fun h => h entry rfl)
      intro hok
      obtain ⟨o', ho', hmu, -⟩ := hok
      rw [hone o' ho', hdev, he] at hmu
      cases hmu
    | note entry =>
      refine iff_of_true ⟨o, ho, ?_, fun _ _ => ⟨?_, ?_⟩⟩ (by simp)
      · rw [hdev, he]
        exact hm
      · rw [hret, postRet_allocates (by rw [he]; rfl), he]
        rfl
      · rw [hdev, he]
        exact ⟨rfl, rfl, rfl, rfl⟩
    | _ =>
      refine iff_of_true ⟨o, ho, ?_, fun hmal => ?_⟩ (by simp)
      · rw [hdev, he]
        simpa [Effect.apply] using hm
      · obtain ⟨-, minor', hd', hall⟩ := hmal
        obtain rfl : minor = minor' := Option.some.inj (hd.symm.trans hd')
        rw [he] at hall
        cases hall

/-- So it is for every call in every state that `Spared` calls reach from start-up. -/
theorem malloc_failure {memLimit : Option (UInt32 × UInt64)} {d0 d : DeviceProp} (h0 : Starts memLimit d0)
    (h : ((process d0).restrict Spared).Reach d) (c : Call) :
    (∃ o, ioctl c d = some o ∧ o.dev.mu = false ∧
      (c.Mallocs d → c.malloc = false → o.ret = -enomem ∧ o.dev.heapMemList = d.heapMemList ∧
        o.dev.rmMemList = d.rmMemList ∧ o.dev.allocMem = d.allocMem ∧ o.dev.fbInfo = d.fbInfo)) ↔
      (c.malloc = true ∨ ¬ c.Granted d) := by
  have hm : d.mu = false := by
    refine System.Reach.inv (I := fun d => d.mu = false) ?_ ?_ h
    · intro s hs
      rw [show s = d0 from hs]
      exact starts_unlocked h0
    · intro s c s' hs hstep
      obtain ⟨hok, o, ho, rfl⟩ := hstep
      obtain ⟨o', ho', hmu, -⟩ := (ioctl_spared hs).mpr hok
      rw [ho] at ho'
      cases ho'
      exact hmu
  exact ioctl_spared hm

/-- Ten bytes under handle 7, granted, with no memory for the record. -/
def lostCharge : Call :=
  { Call.grant nvEscRmVidHeapControl (.allocSize 1 2 7 10 1) with malloc := false }

/-- The call returns with the mutex held, and the same request blocks ever after. -/
theorem lost_charge_deadlocks : Starts (some (0, 100)) firstProcess ∧ lostCharge.malloc = false ∧
    ∃ o, ioctl lostCharge firstProcess = some o ∧ o.dev.mu = true ∧
      ioctl (.grant nvEscRmVidHeapControl (.allocSize 1 2 8 10 1)) o.dev = none :=
  ⟨⟨fun _ => some ⟨0, 0, 0⟩, fun _ => .found, 1, rfl⟩, rfl, _, rfl, rfl, rfl⟩

theorem not_granted_device (dev : DeviceProp) :
    ¬ Call.Granted { Call.grant nvEscRmAlloc (.rmAlloc 1 1 5 .nv01Device0 .zero) with malloc := false } dev := by
  intro hg
  obtain ⟨size, alignment, hreq, -⟩ := hg.aligned
  cases hreq

theorem malloc_failure_run : ∃ d o, d.rmMemList = [⟨5, 0⟩] ∧
    ioctl { Call.grant nvEscRmAlloc (.rmAlloc 1 1 5 .nv01Device0 .zero) with malloc := false } d = some o ∧
      o.dev.mu = false ∧ o.ret = -enomem ∧ o.dev.rmMemList = d.rmMemList := by
  have h0 : Starts (some (0, 100)) firstProcess := ⟨fun _ => some ⟨0, 0, 0⟩, fun _ => .found, 1, rfl⟩
  have h1 : ioctl (.grant nvEscRmAlloc (.rmAlloc 1 1 5 .nv01Device0 .zero)) firstProcess
      = some ⟨0, _, firstProcess.note ⟨5, 0⟩, _⟩ := rfl
  obtain ⟨o, ho, hmu, hfail⟩ := (malloc_failure h0 (.step (.init rfl) ⟨Or.inl rfl, _, h1, rfl⟩) _).mpr
    (Or.inr (not_granted_device _))
  obtain ⟨hret, -, hrm, -⟩ := hfail ⟨⟨rfl, rfl, not_rejects (by decide) _, rfl⟩, 0xFF, by decide, by decide⟩ rfl
  exact ⟨_, o, rfl, ho, hmu, hret, hrm⟩

end NvResourceController.Ioctl
