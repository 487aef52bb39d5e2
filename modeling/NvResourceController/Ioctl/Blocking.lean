/-
  NvResourceController.Ioctl.Blocking — the hooked `ioctl` when the mutex is held: a stage
  that locks never returns, and what it has not asked of the kernel by then it never
  asks.

  - `decides_iff`: a call is rejected or reaches the kernel exactly when the mutex is
    free, or the stage before the kernel takes no lock; and it returns exactly when the
    stage after it takes none either.
  - `lost_charge_undecided`: after the `malloc` of one charge failed, a request that fits
    is neither rejected nor forwarded.
-/

import NvResourceController.Ioctl.Calls

namespace NvResourceController.Ioctl

/-! ## Who locks -/

/-- The request makes the stage before the kernel lock. -/
def PreLocks (cmd : UInt32) (args : Args) : Prop :=
  (iocNr cmd = nvEscRmVidHeapControl ∧ args.nvos32.function = .info) ∨
    ∃ size alignment, memRequest cmd args = some (size, alignment) ∧ alignment ≠ 0

/-- The reply makes the stage after it lock. -/
def PostLocks (minor cmd : UInt32) (reply : Args) : Prop :=
  if iocNr cmd = nvEscRmVidHeapControl then
    minor = nvidiaCtlMinor ∧ reply.nvos32.function = .allocSize ∧ reply.nvos32.status = .ok ∧
      reply.nvos32.allocSize.alignment ≠ 0
  else if iocNr cmd = nvEscRmControl then
    minor = nvidiaCtlMinor ∧ reply.nvos54.status = .ok ∧
      (reply.nvos54.cmd = .fbGetInfo ∨ reply.nvos54.cmd = .fbGetInfoV2)
  else if iocNr cmd = nvEscRmFree then
    minor = nvidiaCtlMinor ∧ reply.nvos00.status = .ok ∧ reply.nvos00.hObjectOld ≠ reply.nvos00.hRoot
  else if iocNr cmd = nvEscRmAlloc then
    reply.nvos21.hClass = .nv01Device0 ∨ reply.nvos21.hClass = .nv20Subdevice0 ∨
      (reply.nvos21.hClass = .nv01MemoryLocalUser ∧ reply.nvos21.status = .ok ∧
        reply.nvos21.pAllocParms.memory.alignment ≠ 0)
  else False

section

variable {dev : DeviceProp}

theorem preVidHeapAlloc_none_iff (hm : dev.mu = true) (args : Args) :
    preVidHeapAlloc args dev = none ↔ args.nvos32.function = .info ∨
      (args.nvos32.function = .allocSize ∧ args.nvos32.allocSize.alignment ≠ 0) := by
  unfold preVidHeapAlloc
  dsimp only
  split
  · rename_i hf
    split
    · rename_i ha
      simp [lock_held hm, hf, ha]
    · rename_i ha
      simp [hf, ha]
  · rename_i hf
    simp [lock_held hm, hf]
  · rename_i hf
    simp [hf]

theorem preRmAlloc_none_iff (hm : dev.mu = true) (args : Args) :
    preRmAlloc args dev = none ↔
      args.nvos21.hClass = .nv01MemoryLocalUser ∧ args.nvos21.pAllocParms.memory.alignment ≠ 0 := by
  unfold preRmAlloc
  dsimp only
  split
  · rename_i hf
    split
    · rename_i ha
      simp [lock_held hm, hf, ha]
    · rename_i ha
      simp [hf, ha]
  · rename_i hf
    simpa using fun h => absurd h hf

theorem preIoctl_none_iff (hm : dev.mu = true) (cmd : UInt32) (args : Args) (success : Bool) :
    preIoctl cmd args success dev = none ↔ PreLocks cmd args := by
  have hne : nvEscRmAlloc ≠ nvEscRmVidHeapControl := by decide
  unfold preIoctl PreLocks memRequest
  dsimp only
  by_cases h1 : iocNr cmd = nvEscRmVidHeapControl
  · rw [if_pos h1, preVidHeapAlloc_none_iff hm]
    simp [h1]
  by_cases h2 : iocNr cmd = nvEscRmAlloc
  · rw [if_neg h1, if_pos h2, preRmAlloc_none_iff hm]
    simp [h2, hne]
  · simp [h1, h2]

theorem postRmAlloc_none_iff (hm : dev.mu = true) (malloc : Bool) (args : Args) :
    postRmAlloc malloc args dev = none ↔
      args.nvos21.hClass = .nv01Device0 ∨ args.nvos21.hClass = .nv20Subdevice0 ∨
        (args.nvos21.hClass = .nv01MemoryLocalUser ∧ args.nvos21.status = .ok ∧
          args.nvos21.pAllocParms.memory.alignment ≠ 0) := by
  unfold postRmAlloc postDeviceRmAlloc postCtrlRmAlloc postMemoryRmAlloc
  dsimp only
  split
  · rename_i hc
    simp [lock_held hm, hc]
  · rename_i hc
    simp [lock_held hm, hc]
  · rename_i hc
    by_cases hs : args.nvos21.status = .ok
    · by_cases ha : args.nvos21.pAllocParms.memory.alignment = 0
      · simp [hc, hs, ha]
      · simp [lock_held hm, hc, hs, ha]
    · simp [hc, hs]
  · rename_i hc
    simp [hc]

theorem postRmVidHeapControl_none_iff (hm : dev.mu = true) (malloc : Bool) (minor : UInt32) (args : Args) :
    postRmVidHeapControl malloc minor args dev = none ↔
      minor = nvidiaCtlMinor ∧ args.nvos32.function = .allocSize ∧ args.nvos32.status = .ok ∧
        args.nvos32.allocSize.alignment ≠ 0 := by
  unfold postRmVidHeapControl
  by_cases hn : minor = nvidiaCtlMinor
  swap
  · simp [hn]
  rw [if_neg (not_not.mpr hn)]
  split
  · rename_i hf
    unfold postVidHeapAlloc
    dsimp only
    by_cases hs : args.nvos32.status = .ok
    · by_cases ha : args.nvos32.allocSize.alignment = 0
      · simp [hs, ha]
      · simp [lock_held hm, hn, hf, hs, ha]
    · simp [hs]
  · rename_i hf
    simpa using fun _ h => absurd h hf

theorem postRmControl_none_iff (hm : dev.mu = true) (os : Os) (minor : UInt32) (args : Args) :
    postRmControl os minor args dev = none ↔
      minor = nvidiaCtlMinor ∧ args.nvos54.status = .ok ∧
        (args.nvos54.cmd = .fbGetInfo ∨ args.nvos54.cmd = .fbGetInfoV2) := by
  unfold postRmControl postRmControlFbGetInfo postRmControlFbGetInfoV2 fbGetInfo
  by_cases hn : minor = nvidiaCtlMinor
  swap
  · simp [hn]
  by_cases hs : args.nvos54.status = .ok
  swap
  · simp [hn, hs]
  dsimp only
  rw [if_neg (not_not.mpr hn), if_neg (not_not.mpr hs)]
  split
  · rename_i hc
    simp [lock_held hm, hn, hs, hc]
  · rename_i hc
    simp [lock_held hm, hn, hs, hc]
  · rename_i hc
    simp [hc]

theorem postRmFree_none_iff (hm : dev.mu = true) (minor : UInt32) (args : Args) :
    postRmFree minor args dev = none ↔
      minor = nvidiaCtlMinor ∧ args.nvos00.status = .ok ∧ args.nvos00.hObjectOld ≠ args.nvos00.hRoot := by
  unfold postRmFree
  dsimp only
  by_cases hn : minor = nvidiaCtlMinor
  swap
  · simp [hn]
  by_cases hs : args.nvos00.status = .ok
  swap
  · simp [hn, hs]
  by_cases ho : args.nvos00.hObjectOld = args.nvos00.hRoot
  · simp [hn, hs, ho]
  · simp [lock_held hm, hn, hs, ho]

theorem postIoctl_none_iff (hm : dev.mu = true) (malloc : Bool) (os : Os) (minor cmd : UInt32) (reply : Args) :
    postIoctl malloc os nvidiaDeviceMajor minor cmd reply dev = none ↔ PostLocks minor cmd reply := by
  unfold postIoctl PostLocks
  rw [if_neg (not_not.mpr rfl)]
  dsimp only
  split
  · exact postRmVidHeapControl_none_iff hm malloc minor reply
  split
  · exact postRmControl_none_iff hm os minor reply
  split
  · rw [Option.map_eq_none_iff]
    exact postRmFree_none_iff hm minor reply
  split
  · rw [Option.map_eq_none_iff]
    exact postRmAlloc_none_iff hm malloc reply
  · simp

end

/-! ## Rejected, forwarded or neither -/

/-- What the call has asked of the kernel when it returns or blocks. -/
def asks (c : Call) (dev : DeviceProp) : List (UInt64 × Args) :=
  if dev.memLimited then
    let (ret, major, _) := getDeviceNumber c.stat 0 0
    if ret ≠ 0 then [(c.cmd, c.args)]
    else if major ≠ nvidiaDeviceMajor then [(c.cmd, c.args)]
    else
      match preIoctl c.cmd.toUInt32 c.args false dev with
      | none => []
      | some o => if o.ret ≠ 0 ∨ o.success then [] else [(c.cmd, o.args)]
  else [(c.cmd, c.args)]

theorem redirect_asks {c : Call} {major minor : UInt32} {args : Args} {dev : DeviceProp} {o : Outcome}
    (h : redirect c major minor args dev = some o) : o.calls = [(c.cmd, args)] := by
  unfold redirect at h
  dsimp only at h
  split at h
  · obtain ⟨p, -, rfl⟩ := Option.map_eq_some_iff.mp h
    rfl
  · cases h
    rfl

/-- A call that returns made just these kernel calls. -/
theorem ioctl_asks {c : Call} {dev : DeviceProp} {o : Outcome} (h : ioctl c dev = some o) : o.calls = asks c dev := by
  unfold ioctl at h
  unfold asks
  dsimp only at h ⊢
  split at h
  swap
  · rename_i hl
    rw [if_neg hl]
    exact redirect_asks h
  rename_i hl
  rw [if_pos hl]
  split at h
  · rename_i hr
    rw [if_pos hr]
    exact redirect_asks h
  rename_i hr
  rw [if_neg hr]
  split at h
  · rename_i hmaj
    rw [if_pos hmaj]
    exact redirect_asks h
  rename_i hmaj
  rw [if_neg hmaj]
  obtain ⟨p, hp, ho⟩ := Option.bind_eq_some_iff.mp h
  rw [hp]
  dsimp only
  split at ho
  · rename_i hstop
    cases ho
    rw [if_pos hstop]
  · rename_i hgo
    rw [if_neg hgo]
    exact redirect_asks ho

theorem asks_device {c : Call} {dev : DeviceProp} {minor : UInt32} (hl : dev.memLimited = true)
    (hd : c.device = some minor) :
    asks c dev = match preIoctl c.cmd.toUInt32 c.args false dev with
      | none => []
      | some o => if o.success then [] else [(c.cmd, c.args)] := by
  simp only [asks, hl, getDeviceNumber_device hd, if_true, ne_eq, not_true_eq_false, if_false]
  cases hp : preIoctl c.cmd.toUInt32 c.args false dev with
  | none => rfl
  | some o =>
    have hspec := preIoctl_cases hp
    cases hs : o.success with
    | true => simp [hs]
    | false => simp [hspec.retZero, hs, (hspec.pass hs).1]

/-- The call is to be rejected. -/
def Rejectable (c : Call) (dev : DeviceProp) : Prop :=
  dev.memLimited = true ∧ c.device.isSome = true ∧ Rejects c.cmd.toUInt32 c.args dev

/-- The call takes the mutex before it asks the kernel. -/
def LocksBefore (c : Call) (dev : DeviceProp) : Prop :=
  dev.memLimited = true ∧ c.device.isSome = true ∧ PreLocks c.cmd.toUInt32 c.args

/-- It takes it when the kernel has answered. -/
def LocksAfter (c : Call) (dev : DeviceProp) : Prop :=
  dev.memLimited = true ∧ ¬ Rejects c.cmd.toUInt32 c.args dev ∧ c.reply.1 = 0 ∧
    ∃ minor, c.device = some minor ∧ PostLocks minor c.cmd.toUInt32 c.reply.2

/-- Rejected, and told so with nothing asked and nothing changed; or the kernel is asked
    once, and off the NVIDIA devices it is as if nobody had stood between. -/
def Decides (c : Call) (dev : DeviceProp) : Prop :=
  (Rejectable c dev ∧ asks c dev = [] ∧
    ∃ o, ioctl c dev = some o ∧ o.ret = 0 ∧ statusOf c.cmd.toUInt32 o.args = .errNoMemory ∧ o.dev = dev) ∨
  (¬ Rejectable c dev ∧ asks c dev = [(c.cmd, c.args)] ∧
    (c.device = none → ∃ o, ioctl c dev = some o ∧ o.ret = c.reply.1 ∧ o.args = c.reply.2 ∧ o.dev = dev))

theorem preLocks_of_rejects {cmd : UInt32} {args : Args} {dev : DeviceProp} (h : Rejects cmd args dev) :
    PreLocks cmd args := by
  obtain ⟨size, alignment, hreq, ha, -⟩ := h
  exact Or.inr ⟨size, alignment, hreq, ha⟩

theorem redirect_none_iff {c : Call} {dev : DeviceProp} (hm : dev.mu = true) (hl : dev.memLimited = true)
    (minor : UInt32) (args : Args) :
    redirect c nvidiaDeviceMajor minor args dev = none ↔
      (c.kernel c.cmd args).1 = 0 ∧ PostLocks minor c.cmd.toUInt32 (c.kernel c.cmd args).2 := by
  unfold redirect
  dsimp only
  by_cases hr : (c.kernel c.cmd args).1 = 0
  · rw [if_pos ⟨hl, hr⟩, Option.map_eq_none_iff, postIoctl_none_iff hm]
    simp [hr]
  · simp [hl, hr]

/-- A call that finds the mutex held never returns if a stage locks. -/
theorem ioctl_none_iff {c : Call} {dev : DeviceProp} (hm : dev.mu = true) :
    ioctl c dev = none ↔ LocksBefore c dev ∨ LocksAfter c dev := by
  by_cases hf : dev.memLimited = false ∨ c.device = none
  · rw [ioctl_foreign hf]
    refine iff_of_false (by simp) ?_
    intro h
    rcases hf with hf | hf
    · simp [LocksBefore, LocksAfter, hf] at h
    · simp [LocksBefore, LocksAfter, hf] at h
  simp only [not_or, Bool.not_eq_false] at hf
  obtain ⟨hl, hne⟩ := hf
  obtain ⟨minor, hd⟩ := Option.ne_none_iff_exists'.mp hne
  have hpre := preIoctl_none_iff hm c.cmd.toUInt32 c.args false
  simp only [ioctl, hl, getDeviceNumber_device hd, if_true, ne_eq, not_true_eq_false, if_false]
  simp only [LocksBefore, LocksAfter, hl, hd, Option.isSome_some, Option.some.injEq, true_and, exists_eq_left']
  cases hp : preIoctl c.cmd.toUInt32 c.args false dev with
  | none => exact iff_of_true rfl (Or.inl (hpre.mp hp))
  | some p =>
    have hspec := preIoctl_cases hp
    have hnl : ¬ PreLocks c.cmd.toUInt32 c.args := by
      rw [← hpre, hp]
      simp
    have hfit : ¬ Rejects c.cmd.toUInt32 c.args dev := fun h => hnl (preLocks_of_rejects h)
    have hs : p.success = false := by
      cases hs : p.success with
      | false => rfl
      | true => exact absurd (hspec.reject hs) hfit
    rw [Option.bind_some, if_neg (by simp [hspec.retZero, hs]), (hspec.pass hs).1, hspec.devSame,
      redirect_none_iff hm hl]
    simp [hnl, hfit, Call.reply]

theorem decides_of_return {c : Call} {dev : DeviceProp} {o : Outcome} (h : ioctl c dev = some o) : Decides c dev := by
  obtain ⟨-, hcases⟩ := reject_or_forward c dev
  obtain ⟨hiff, hrej, hfwd⟩ := hcases o h
  by_cases hc : o.calls = []
  · exact Or.inl ⟨hiff.mp hc, (ioctl_asks h).symm.trans hc, o, h, hrej hc⟩
  · obtain ⟨hone, hforeign⟩ := hfwd hc
    exact Or.inr ⟨fun hr => hc (hiff.mpr hr), (ioctl_asks h).symm.trans hone, fun hd => ⟨o, h, hforeign hd⟩⟩

/-- A call is rejected or reaches the kernel exactly when the mutex is free or nothing
    before the kernel locks; it returns exactly when nothing behind it does either. -/
theorem decides_iff (c : Call) (dev : DeviceProp) :
    (Decides c dev ↔ dev.mu = false ∨ ¬ LocksBefore c dev) ∧
      ((∃ o, ioctl c dev = some o) ↔ dev.mu = false ∨ ¬ (LocksBefore c dev ∨ LocksAfter c dev)) := by
  cases hm : dev.mu with
  | false =>
    obtain ⟨o, ho⟩ := ioctl_returns (c := c) hm
    exact ⟨iff_of_true (decides_of_return ho) (Or.inl rfl), iff_of_true ⟨o, ho⟩ (Or.inl rfl)⟩
  | true =>
    have hnone := ioctl_none_iff (c := c) hm
    simp only [Bool.true_eq_false, false_or]
    refine ⟨?_, ?_⟩
    swap
    · rw [← hnone, ← Option.ne_none_iff_exists']
    constructor
    · intro hdec hlock
      have hblocks := hnone.mpr (Or.inl hlock)
      obtain ⟨hl, hsome, hpl⟩ := hlock
      obtain ⟨minor, hd⟩ := Option.isSome_iff_exists.mp hsome
      rcases hdec with ⟨-, -, o, ho, -⟩ | ⟨-, hask, -⟩
      · rw [hblocks] at ho
        cases ho
      · rw [asks_device hl hd, (preIoctl_none_iff hm _ _ _).mpr hpl] at hask
        cases hask
    · intro hnl
      by_cases hf : dev.memLimited = false ∨ c.device = none
      · exact decides_of_return (ioctl_foreign hf)
      simp only [not_or, Bool.not_eq_false] at hf
      obtain ⟨hl, hne⟩ := hf
      obtain ⟨minor, hd⟩ := Option.ne_none_iff_exists'.mp hne
      have hpl : ¬ PreLocks c.cmd.toUInt32 c.args := fun h => hnl ⟨hl, by simp [hd], h⟩
      have hfit : ¬ Rejects c.cmd.toUInt32 c.args dev := fun h => hpl (preLocks_of_rejects h)
      refine Or.inr ⟨fun h => hfit h.2.2, ?_, fun h => absurd h hne⟩
      rw [asks_device hl hd]
      cases hp : preIoctl c.cmd.toUInt32 c.args false dev with
      | none => exact absurd ((preIoctl_none_iff hm _ _ _).mp hp) hpl
      | some p =>
        cases hs : p.success with
        | true => exact absurd ((preIoctl_cases hp).reject hs) hfit
        | false => simp [hs]

/-- Ten bytes of a hundred, asked for after the charge that kept the mutex, are not
    rejected and the kernel does not hear of them. -/
theorem lost_charge_undecided : Starts (some (0, 100)) firstProcess ∧
    ∃ o, ioctl lostCharge firstProcess = some o ∧
      ¬ Rejectable (.grant nvEscRmVidHeapControl (.allocSize 1 2 8 10 1)) o.dev ∧
      ¬ Decides (.grant nvEscRmVidHeapControl (.allocSize 1 2 8 10 1)) o.dev := by
  refine ⟨⟨fun _ => some ⟨0, 0, 0⟩, fun _ => .found, 1, rfl⟩, _, rfl, ?_, ?_⟩
  · intro hr
    exact absurd ((rejects_iff rfl).mp hr.2.2).2 (by decide)
  · intro hdec
    rcases hdec with ⟨-, -, o, ho, -⟩ | ⟨-, hask, -⟩
    · cases ho
    · cases hask

end NvResourceController.Ioctl
