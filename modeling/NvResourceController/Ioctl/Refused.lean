/-
  NvResourceController.Ioctl.Refused — calls to which the kernel's `ioctl` returned 0
  and whose status field says the resource manager refused them.

  Every handler of `post_ioctl` restores the books by hand, with a status check of its
  own. `post_device_rm_alloc` and `post_ctrl_rm_alloc` have none:
  - `refused_unchanged`: after a refused request the books are as they were, and the
    call returns 0, exactly when it is no device and no subdevice of a device the hook
    knows.
  - `refused_device_is_noted`: the phantom entry answers later searches for its handle.
-/

import NvResourceController.Ioctl.Ledger

namespace NvResourceController.Ioctl

def statusOf (cmd : UInt32) (args : Args) : NvStatus :=
  if iocNr cmd = nvEscRmVidHeapControl then args.nvos32.status
  else if iocNr cmd = nvEscRmControl then args.nvos54.status
  else if iocNr cmd = nvEscRmFree then args.nvos00.status
  else if iocNr cmd = nvEscRmAlloc then args.nvos21.status
  else .ok

theorem refused_checked {malloc : Bool} {os : Os} {cmd : UInt32} {reply : Args} {dev : DeviceProp}
    (hs : statusOf cmd reply ≠ .ok) (hc : iocNr cmd ≠ nvEscRmAlloc) :
    postIoctl malloc os nvidiaDeviceMajor nvidiaCtlMinor cmd reply dev = some ⟨0, reply, dev⟩ := by
  unfold statusOf at hs
  unfold postIoctl
  rw [if_neg (by simp)]
  dsimp only
  split at hs
  · rename_i h
    rw [if_pos h]
    cases hf : reply.nvos32.function <;> simp [postRmVidHeapControl, hf, postVidHeapAlloc, hs]
  rename_i h1
  rw [if_neg h1]
  split at hs
  · rename_i h
    rw [if_pos h]
    simp [postRmControl, hs]
  rename_i h2
  rw [if_neg h2]
  split at hs
  · rename_i h
    rw [if_pos h]
    simp [postRmFree, hs]
  · rename_i h3
    rw [if_neg h3, if_neg hc]

theorem refused_rmAlloc {cmd : UInt32} {reply : Args} (hs : statusOf cmd reply ≠ .ok) (hc : iocNr cmd = nvEscRmAlloc) :
    reply.nvos21.status ≠ .ok := by
  obtain ⟨h1, h2, h3, -, -⟩ := nvEsc_ne
  simpa [statusOf, hc, h1, h2, h3] using hs

theorem postIoctl_rmAlloc {malloc : Bool} {os : Os} {minor cmd : UInt32} {reply : Args} {dev : DeviceProp}
    (hc : iocNr cmd = nvEscRmAlloc) :
    postIoctl malloc os nvidiaDeviceMajor minor cmd reply dev
      = (postRmAlloc malloc reply dev).map fun (ret, dev) => ⟨ret, reply, dev⟩ := by
  obtain ⟨h1, h2, h3, -, -⟩ := nvEsc_ne
  simp only [postIoctl, hc, h1, h2, h3, ne_eq, not_true_eq_false, if_false, if_true]

theorem neg_enomem_ne : -enomem ≠ 0 := by decide

theorem postDeviceRmAlloc_changes {malloc : Bool} {pApi : NVOS21Parameters} {dev d : DeviceProp}
    (h : postDeviceRmAlloc malloc pApi dev = some (0, d)) : d.rmMemList ≠ dev.rmMemList := by
  obtain ⟨l, hl, he⟩ := Option.map_eq_some_iff.mp h
  obtain ⟨-, rfl⟩ := lock_some hl
  split at he
  · cases he
    exact List.cons_ne_self _ _
  · exact absurd (congrArg Prod.fst he) neg_enomem_ne

theorem postCtrlRmAlloc_changes {malloc : Bool} {pApi : NVOS21Parameters} {dev d : DeviceProp}
    (hf : findDeviceId pApi.hObjectParent dev.rmMemList ≠ -1) (h : postCtrlRmAlloc malloc pApi dev = some (0, d)) :
    d.rmMemList ≠ dev.rmMemList := by
  obtain ⟨l, hl, he⟩ := Option.map_eq_some_iff.mp h
  obtain ⟨-, rfl⟩ := lock_some hl
  simp only [if_neg hf] at he
  split at he
  · cases he
    exact List.cons_ne_self _ _
  · exact absurd (congrArg Prod.fst he) neg_enomem_ne

/-- A refused request leaves the books as they were and the call returns 0, exactly when
    the request is neither for a device nor for a subdevice of a known device (or, the
    mutex being held, for any subdevice). -/
theorem refused_unchanged {malloc : Bool} {os : Os} {cmd : UInt32} {reply : Args} {dev : DeviceProp}
    (hs : statusOf cmd reply ≠ .ok) :
    (∃ args d, postIoctl malloc os nvidiaDeviceMajor nvidiaCtlMinor cmd reply dev = some ⟨0, args, d⟩ ∧
        d.heapMemList = dev.heapMemList ∧ d.rmMemList = dev.rmMemList ∧ d.allocMem = dev.allocMem ∧
        d.fbInfo = dev.fbInfo) ↔
      ¬ (iocNr cmd = nvEscRmAlloc ∧ (reply.nvos21.hClass = .nv01Device0 ∨
        (reply.nvos21.hClass = .nv20Subdevice0 ∧
          (dev.mu = true ∨ findDeviceId reply.nvos21.hObjectParent dev.rmMemList ≠ -1)))) := by
  by_cases hc : iocNr cmd = nvEscRmAlloc
  swap
  · exact iff_of_true ⟨reply, dev, refused_checked hs hc, rfl, rfl, rfl, rfl⟩ (fun h => hc h.1)
  have hst := refused_rmAlloc hs hc
  rw [postIoctl_rmAlloc hc]
  cases hcl : reply.nvos21.hClass with
  | nv01Device0 =>
    refine iff_of_false ?_ (by simp [hc])
    intro hkeep
    obtain ⟨args, d, hd, -, hrm, -⟩ := hkeep
    obtain ⟨⟨ret, d'⟩, hp, he⟩ := Option.map_eq_some_iff.mp hd
    cases he
    rw [postRmAlloc, hcl] at hp
    exact postDeviceRmAlloc_changes hp hrm
  | nv20Subdevice0 =>
    by_cases hm : dev.mu = true
    · refine iff_of_false ?_ (by simp [hc, hm])
      intro hkeep
      obtain ⟨args, d, hd, -⟩ := hkeep
      simp [postRmAlloc, hcl, postCtrlRmAlloc, lock_held hm] at hd
    by_cases hf : findDeviceId reply.nvos21.hObjectParent dev.rmMemList = -1
    · have hm' : dev.mu = false := by simpa using hm
      refine iff_of_true ⟨reply, dev, ?_, rfl, rfl, rfl, rfl⟩ (by simp [hm, hf])
      simp [postRmAlloc, hcl, postCtrlRmAlloc, lock_free hm', hf, unlock_locked hm']
    · refine iff_of_false ?_ (by simp [hc, hf])
      intro hkeep
      obtain ⟨args, d, hd, -, hrm, -⟩ := hkeep
      obtain ⟨⟨ret, d'⟩, hp, he⟩ := Option.map_eq_some_iff.mp hd
      cases he
      rw [postRmAlloc, hcl] at hp
      exact postCtrlRmAlloc_changes hf hp hrm
  | nv01MemoryLocalUser =>
    refine iff_of_true ⟨reply, dev, ?_, rfl, rfl, rfl, rfl⟩ (by simp)
    simp [postRmAlloc, hcl, postMemoryRmAlloc, hst]
  | other n =>
    refine iff_of_true ⟨reply, dev, ?_, rfl, rfl, rfl, rfl⟩ (by simp)
    simp [postRmAlloc, hcl]

def refusedDevice : Args :=
  { Args.zero with nvos21 := ⟨1, 1, 7, .nv01Device0, ⟨3, ⟨0, 0, 0⟩⟩, .other 0x56⟩ }

/-- A refused device is noted, and found under its handle afterwards. -/
theorem refused_device_is_noted :
    statusOf nvEscRmAlloc refusedDevice ≠ .ok ∧ firstProcess.rmMemList = [] ∧
    ∃ o, postIoctl true ⟨fun _ => none, fun _ => -1⟩ nvidiaDeviceMajor nvidiaCtlMinor nvEscRmAlloc refusedDevice
        firstProcess = some o ∧ o.dev.rmMemList = [⟨7, 3⟩] ∧ findDeviceId 7 o.dev.rmMemList = 3 :=
  ⟨by decide, rfl, _, rfl, rfl, by decide⟩

theorem refused_memory_unchanged :
    ∃ args d, postIoctl true ⟨fun _ => none, fun _ => -1⟩ nvidiaDeviceMajor nvidiaCtlMinor nvEscRmVidHeapControl
        { Args.zero with nvos32 := ⟨1, 2, .allocSize, .errNoMemory, 0, 0, ⟨7, 10, 1⟩⟩ } firstProcess
          = some ⟨0, args, d⟩ ∧ d.heapMemList = firstProcess.heapMemList ∧
      d.rmMemList = firstProcess.rmMemList ∧ d.allocMem = firstProcess.allocMem ∧ d.fbInfo = firstProcess.fbInfo :=
  (refused_unchanged (by decide)).mpr (by decide)

end NvResourceController.Ioctl
