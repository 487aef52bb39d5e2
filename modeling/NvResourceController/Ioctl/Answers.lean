/-
  NvResourceController.Ioctl.Answers — what an application is told of the memory of its
  device: by `NVOS32_FUNCTION_INFO`, in the reply to `NVOS32_FUNCTION_ALLOC_SIZE`, and
  by `NV2080_CTRL_CMD_FB_GET_INFO` and its V2 form.

  The ledger is what it should be told. `rewritten_iff`: the two `FB_GET_INFO` handlers
  tell the total, and the total again for the free memory: `readlink` returns the length
  of the link, which is not 0 for a process that lives, so the branch that reads
  `free_mem` is never taken. `answers_iff`: and `NVOS32_FUNCTION_INFO` tells what the
  kernel says, since `align_size` is 0 where it is compared.
-/

import NvResourceController.Ioctl.Calls
import Mathlib.Data.List.Forall2

namespace NvResourceController.Ioctl

open System

/-! ## The lists of `FB_GET_INFO` -/

/-- An entry tells the ledger, in KiB; one of another index is left as it was. -/
structure Reports (fb : FbInfo) (info info' : CtrlFbInfo) : Prop where
  index : info'.index = info.index
  total : info.index = .totalRamSize ∨ info.index = .heapSize → info'.data.toNat = fb.totalMem.toNat / 1024
  free : info.index = .heapFree → info'.data.toNat = fb.freeMem.toNat / 1024
  other : ∀ n, info.index = .other n → info'.data = info.data

/-- The first `fbInfoListSize` entries tell the ledger, and nothing else is touched. -/
structure Rewritten (fb : FbInfo) (params params' : CtrlFbGetInfoParams) : Prop where
  size : params'.fbInfoListSize = params.fbInfoListSize
  entries : List.Forall₂ (Reports fb) (params.fbInfoList.take params.fbInfoListSize.toNat)
    (params'.fbInfoList.take params.fbInfoListSize.toNat)
  rest : params'.fbInfoList.drop params.fbInfoListSize.toNat = params.fbInfoList.drop params.fbInfoListSize.toNat

/-- What makes the ledger of what is written into an entry: the total in KiB for any of
    the three indices, if it is not 0, in 32 bits. -/
def Agrees (fb : FbInfo) (info : CtrlFbInfo) : Prop :=
  let totalMem := fb.totalMem.toNat / 1024
  match info.index with
  | .totalRamSize | .heapSize => if totalMem = 0 then info.data.toNat = 0 else totalMem < 2 ^ 32
  | .heapFree =>
    if totalMem = 0 then info.data.toNat = fb.freeMem.toNat / 1024
    else fb.freeMem.toNat / 1024 = totalMem % 2 ^ 32
  | .other _ => True

theorem getFbInfo_alive {os : Os} {deviceId : Int32} {fb : FbInfo} (hs : os.fbSegment deviceId.toUInt32 = some fb)
    (hpid : fb.pid ≠ 0) (hlive : 0 < os.readlink fb.pid) : getFbInfo os deviceId = (fb.totalMem >>> 10, -1) := by
  have hne : os.readlink fb.pid ≠ 0 := fun h => by simp [h] at hlive
  simp [getFbInfo, hs, hpid, hne]

theorem toNat_kib (x : UInt64) : (x >>> 10).toNat = x.toNat / 1024 := by
  rw [UInt64.toNat_shiftRight, Nat.shiftRight_eq_div_pow]
  rfl

theorem toNat_written (x : UInt64) (data : UInt32) :
    (if x >>> 10 > 0 then (x >>> 10).toUInt32 else data).toNat
      = if x.toNat / 1024 = 0 then data.toNat else x.toNat / 1024 % 2 ^ 32 := by
  have hpos : x >>> 10 > 0 ↔ ¬ x.toNat / 1024 = 0 := by
    rw [gt_iff_lt, UInt64.lt_iff_toNat_lt, toNat_kib, UInt64.toNat_zero]
    omega
  by_cases h : x.toNat / 1024 = 0
  · rw [if_neg (fun hp => hpos.mp hp h), if_pos h]
  · rw [if_pos (hpos.mpr h), if_neg h, UInt64.toNat_toUInt32, toNat_kib]

theorem reports_total {fb : FbInfo} {index : FbInfoIndex} {data data' : UInt32}
    (hi : index = .totalRamSize ∨ index = .heapSize) :
    Reports fb ⟨index, data⟩ ⟨index, data'⟩ ↔ data'.toNat = fb.totalMem.toNat / 1024 := by
  refine ⟨fun h => h.total hi, fun h => ⟨rfl, fun _ => h, ?_, ?_⟩⟩
  · intro hf
    rw [show index = .heapFree from hf] at hi
    simp at hi
  · intro n hn
    rw [show index = .other n from hn] at hi
    simp at hi

theorem reports_free {fb : FbInfo} {data data' : UInt32} :
    Reports fb ⟨.heapFree, data⟩ ⟨.heapFree, data'⟩ ↔ data'.toNat = fb.freeMem.toNat / 1024 :=
  ⟨fun h => h.free rfl, fun h => ⟨rfl, by simp, fun _ => h, by simp⟩⟩

/-- With the free memory unknown, an entry tells the ledger where it happens to. -/
theorem reports_iff (fb : FbInfo) (info : CtrlFbInfo) :
    Reports fb info (rewriteFbInfo (fb.totalMem >>> 10) (-1) info) ↔ Agrees fb info := by
  have htotal : ∀ t d : ℕ, (if t = 0 then d else t % 2 ^ 32) = t ↔ if t = 0 then d = 0 else t < 2 ^ 32 := by
    intro t d
    split <;> omega
  obtain ⟨index, data⟩ := info
  cases index with
  | totalRamSize =>
    simp only [rewriteFbInfo, Agrees]
    rw [reports_total (Or.inl rfl), toNat_written, htotal]
  | heapSize =>
    simp only [rewriteFbInfo, Agrees]
    rw [reports_total (Or.inr rfl), toNat_written, htotal]
  | heapFree =>
    simp only [rewriteFbInfo, Agrees, ne_eq, not_true_eq_false, if_false]
    rw [reports_free, toNat_written]
    split
    · rfl
    · exact eq_comm
  | other n => exact iff_of_true ⟨rfl, by simp, by simp, fun _ _ => rfl⟩ trivial

theorem rewriteFbInfoList_take (totalMem freeMem : UInt64) (n : ℕ) (l : List CtrlFbInfo) :
    (rewriteFbInfoList totalMem freeMem n l).take n = (l.take n).map (rewriteFbInfo totalMem freeMem) := by
  fun_induction rewriteFbInfoList totalMem freeMem n l with
  | case1 n info rest ih => simp [ih]
  | case2 n l hne =>
    cases n with
    | zero => rfl
    | succ n =>
      cases l with
      | nil => rfl
      | cons info rest => exact (hne n info rest rfl rfl).elim

theorem rewriteFbInfoList_drop (totalMem freeMem : UInt64) (n : ℕ) (l : List CtrlFbInfo) :
    (rewriteFbInfoList totalMem freeMem n l).drop n = l.drop n := by
  fun_induction rewriteFbInfoList totalMem freeMem n l with
  | case1 n info rest ih => simpa using ih
  | case2 n l hne => rfl

/-- Whether the list of a handle of the device `deviceId` is told right; the device id
    -1 is taken for none. -/
def ToldRight (deviceId : UInt32) (fb : FbInfo) (params : CtrlFbGetInfoParams) : Prop :=
  ∀ info ∈ params.fbInfoList.take params.fbInfoListSize.toNat,
    if deviceId = -1 then Reports fb info info else Agrees fb info

/-- The list is told right for a live owner where the total happens to be what is to be
    told. -/
theorem fbGetInfo_rewritten {os : Os} {handle : UInt32} {params params' : CtrlFbGetInfoParams} {dev dev' : DeviceProp}
    {entry : RmMem} {fb : FbInfo} (hf : dev.rmMemList.find? (·.object == handle) = some entry)
    (hs : os.fbSegment entry.deviceId = some fb) (hpid : fb.pid ≠ 0) (hlive : 0 < os.readlink fb.pid)
    (h : fbGetInfo os handle params dev = some (params', dev')) :
    Rewritten fb params params' ↔ ToldRight entry.deviceId fb params := by
  obtain ⟨d, hd, he⟩ := Option.map_eq_some_iff.mp h
  obtain ⟨-, rfl⟩ := lock_some hd
  have hid : findDeviceId handle dev.rmMemList = entry.deviceId.toInt32 := by simp only [findDeviceId, hf]
  have hneg : entry.deviceId.toInt32 = -1 ↔ entry.deviceId = -1 := by
    constructor
    · intro h
      rw [← entry.deviceId.toUInt32_toInt32, h]
      rfl
    · intro h
      rw [h]
      rfl
  simp only [hid, hneg] at he
  by_cases hdev : entry.deviceId = -1
  · rw [if_pos hdev] at he
    cases he
    simp only [ToldRight, if_pos hdev]
    exact ⟨fun hr => List.forall₂_same.mp hr.entries, fun hr => ⟨rfl, List.forall₂_same.mpr hr, rfl⟩⟩
  · rw [if_neg hdev, getFbInfo_alive hs hpid hlive] at he
    cases he
    simp only [ToldRight, if_neg hdev, ← reports_iff]
    have hentries := @List.forall₂_map_right_iff _ _ _ (Reports fb) (rewriteFbInfo (fb.totalMem >>> 10) (-1))
      (params.fbInfoList.take params.fbInfoListSize.toNat) (params.fbInfoList.take params.fbInfoListSize.toNat)
    rw [← rewriteFbInfoList_take, List.forall₂_same] at hentries
    exact ⟨fun hr => hentries.mp hr.entries,
      fun hr => ⟨rfl, hentries.mpr hr, rewriteFbInfoList_drop _ _ _ _⟩⟩

theorem rewritten_iff {os : Os} {handle : UInt32} {params p₁ p₂ : CtrlFbGetInfoParams} {dev d₁ d₂ : DeviceProp}
    {entry : RmMem} {fb : FbInfo} (hf : dev.rmMemList.find? (·.object == handle) = some entry)
    (hs : os.fbSegment entry.deviceId = some fb) (hpid : fb.pid ≠ 0) (hlive : 0 < os.readlink fb.pid)
    (h₁ : postRmControlFbGetInfo os handle params dev = some (p₁, d₁))
    (h₂ : postRmControlFbGetInfoV2 os handle params dev = some (p₂, d₂)) :
    (Rewritten fb params p₁ ∧ Rewritten fb params p₂) ↔ ToldRight entry.deviceId fb params := by
  rw [fbGetInfo_rewritten hf hs hpid hlive h₁, fbGetInfo_rewritten hf hs hpid hlive h₂, and_self]

/-- A device of 8 KiB with 4 free, owned by process 1, and a handle of it. -/
def eightKib : DeviceProp := ⟨false, 0, ⟨1, 8192, 4096⟩, 4096, true, [⟨7, 4096⟩], [⟨5, 0⟩]⟩

/-- What the process finds: the ledger, and its owner's link of nine bytes. -/
def eightKibOs : Os := ⟨fun _ => some eightKib.fbInfo, fun _ => 9⟩

theorem rewritten_iff_run : ∃ p₁ p₂ d₁ d₂,
    postRmControlFbGetInfo eightKibOs 5 ⟨1, [⟨.heapSize, 0⟩]⟩ eightKib = some (p₁, d₁) ∧
    postRmControlFbGetInfoV2 eightKibOs 5 ⟨1, [⟨.heapSize, 0⟩]⟩ eightKib = some (p₂, d₂) ∧
    Rewritten eightKib.fbInfo ⟨1, [⟨.heapSize, 0⟩]⟩ p₁ := by
  have h : postRmControlFbGetInfo eightKibOs 5 ⟨1, [⟨.heapSize, 0⟩]⟩ eightKib = some (_, eightKib) := rfl
  refine ⟨_, _, _, _, h, h, ((rewritten_iff rfl rfl (by decide) (by decide) h h).mpr ?_).1⟩
  intro info hinfo
  rw [List.mem_singleton.mp hinfo, if_neg (by decide)]
  show (8192 : ℕ) / 1024 < 2 ^ 32
  decide

/-- The free memory is told as 8 KiB, not 4, by both. -/
theorem free_told_as_total : ∃ p₁ p₂ d₁ d₂,
    postRmControlFbGetInfo eightKibOs 5 ⟨1, [⟨.heapFree, 0⟩]⟩ eightKib = some (p₁, d₁) ∧
    postRmControlFbGetInfoV2 eightKibOs 5 ⟨1, [⟨.heapFree, 0⟩]⟩ eightKib = some (p₂, d₂) ∧
    p₁.fbInfoList = [⟨.heapFree, 8⟩] ∧ p₂.fbInfoList = [⟨.heapFree, 8⟩] ∧
    ¬ Rewritten eightKib.fbInfo ⟨1, [⟨.heapFree, 0⟩]⟩ p₁ := by
  have h : postRmControlFbGetInfo eightKibOs 5 ⟨1, [⟨.heapFree, 0⟩]⟩ eightKib = some (⟨1, [⟨.heapFree, 8⟩]⟩, eightKib) :=
    rfl
  refine ⟨_, _, _, _, h, h, rfl, rfl, ?_⟩
  intro hr
  cases hr.entries with
  | cons hfree _ => exact absurd (hfree.free rfl) (by decide)

/-! ## `NV_ESC_RM_VID_HEAP_CONTROL` -/

def Outcome.TellsHeap (o : Outcome) : Prop :=
  o.args.nvos32.total = o.dev.fbInfo.totalMem ∧ o.args.nvos32.free = o.dev.fbInfo.freeMem

def Call.KernelTells (c : Call) (fb : FbInfo) : Prop :=
  c.reply.2.nvos32.total = fb.totalMem ∧ c.reply.2.nvos32.free = fb.freeMem

/-- On an NVIDIA device, one of its functions, which the kernel leaves in the buffer. -/
structure Call.AsksHeap (c : Call) (function : HeapFunction) : Prop where
  device : ∃ minor, c.device = some minor
  cmd : iocNr c.cmd.toUInt32 = nvEscRmVidHeapControl
  asked : c.args.nvos32.function = function
  kept : c.reply.2.nvos32.function = function

/-- The kernel's answer is charged and filed. -/
structure Call.FilesHeap (c : Call) : Prop where
  device : c.device = some nvidiaCtlMinor
  returned : c.reply.1 = 0
  ok : c.reply.2.nvos32.status = .ok
  aligned : c.reply.2.nvos32.allocSize.alignment ≠ 0
  malloc : c.malloc = true

theorem postIoctl_heap {malloc : Bool} {os : Os} {minor cmd : UInt32} {reply : Args} {dev : DeviceProp} {p : PostOut}
    (hc : iocNr cmd = nvEscRmVidHeapControl) (h : postIoctl malloc os nvidiaDeviceMajor minor cmd reply dev = some p) :
    postRmVidHeapControl malloc minor reply dev = some p := by
  simpa [postIoctl, hc] using h

theorem postRmVidHeapControl_other {malloc : Bool} {minor : UInt32} {reply : Args} {dev : DeviceProp} {p : PostOut}
    (hf : reply.nvos32.function ≠ .allocSize) (h : postRmVidHeapControl malloc minor reply dev = some p) :
    p.args = reply ∧ p.dev = dev := by
  unfold postRmVidHeapControl at h
  split at h
  · cases h
    exact ⟨rfl, rfl⟩
  · split at h
    · exact absurd ‹_› hf
    · cases h
      exact ⟨rfl, rfl⟩

theorem info_tells {c : Call} {dev : DeviceProp} {o : Outcome} (hl : dev.memLimited = true) (hc : c.AsksHeap .info)
    (h : ioctl c dev = some o) : o.TellsHeap ↔ c.KernelTells dev.fbInfo := by
  obtain ⟨minor, hd⟩ := hc.device
  have hreq : memRequest c.cmd.toUInt32 c.args = none := by simp [memRequest, hc.cmd, hc.asked]
  have hsame : o.args = c.reply.2 ∧ o.dev = dev := by
    rcases ioctl_device hd hl h with ⟨p, hp, hs, -⟩ | ⟨-, -, hans⟩
    · exact absurd ((preIoctl_cases hp).reject hs) (not_rejects hreq dev)
    · rcases hans with ⟨-, hdev, -, hargs⟩ | ⟨-, p, hp, hdev, -, hargs⟩
      · exact ⟨hargs, hdev⟩
      · obtain ⟨ha, hd'⟩ := postRmVidHeapControl_other (by simp [hc.kept]) (postIoctl_heap hc.cmd hp)
        exact ⟨hargs.trans ha, hdev.trans hd'⟩
  rw [Outcome.TellsHeap, Call.KernelTells, hsame.1, hsame.2]

theorem preVidHeapAlloc_tells {args : Args} {dev : DeviceProp} {p : PreOut} (h : preVidHeapAlloc args dev = some p)
    (hs : p.success = true) :
    p.args.nvos32.total = dev.fbInfo.totalMem ∧ p.args.nvos32.free = dev.fbInfo.freeMem := by
  unfold preVidHeapAlloc at h
  dsimp only at h
  split at h
  · split at h
    · obtain ⟨d, hd, rfl⟩ := Option.map_eq_some_iff.mp h
      obtain ⟨-, rfl⟩ := lock_some hd
      split
      · exact ⟨rfl, rfl⟩
      · rename_i hlt
        simp [hlt] at hs
    · cases h
      cases hs
  · obtain ⟨d, hd, rfl⟩ := Option.map_eq_some_iff.mp h
    rw [if_neg (not_lt_zero _)] at hs
    cases hs
  · cases h
    cases hs

theorem postVidHeapAlloc_tells {malloc : Bool} {reply : Args} {dev : DeviceProp} {p : PostOut}
    (h : postVidHeapAlloc malloc reply dev = some p) :
    if reply.nvos32.status = .ok ∧ reply.nvos32.allocSize.alignment ≠ 0 ∧ malloc = true then
      p.args.nvos32.total = p.dev.fbInfo.totalMem ∧ p.args.nvos32.free = p.dev.fbInfo.freeMem
    else p.args = reply ∧ p.dev.fbInfo = dev.fbInfo := by
  unfold postVidHeapAlloc at h
  dsimp only at h
  split at h
  · rename_i hs
    cases h
    rw [if_neg (fun hc => hs hc.1)]
    exact ⟨rfl, rfl⟩
  rename_i hs
  split at h
  · rename_i ha
    cases h
    rw [if_neg (fun hc => hc.2.1 ha)]
    exact ⟨rfl, rfl⟩
  · rename_i ha
    obtain ⟨d, hd, rfl⟩ := Option.map_eq_some_iff.mp h
    obtain ⟨-, rfl⟩ := lock_some hd
    cases malloc with
    | true =>
      rw [if_pos ⟨by simpa using hs, ha, rfl⟩]
      exact ⟨rfl, rfl⟩
    | false =>
      rw [if_neg (by simp)]
      exact ⟨rfl, rfl⟩

theorem allocSize_tells {c : Call} {dev : DeviceProp} {o : Outcome} (hl : dev.memLimited = true)
    (hc : c.AsksHeap .allocSize) (h : ioctl c dev = some o) :
    o.TellsHeap ↔ Rejects c.cmd.toUInt32 c.args dev ∨ c.FilesHeap ∨ c.KernelTells dev.fbInfo := by
  obtain ⟨minor, hd⟩ := hc.device
  have hkernel : ¬ Rejects c.cmd.toUInt32 c.args dev → ¬ c.FilesHeap → o.args = c.reply.2 →
      o.dev.fbInfo = dev.fbInfo →
      (o.TellsHeap ↔ Rejects c.cmd.toUInt32 c.args dev ∨ c.FilesHeap ∨ c.KernelTells dev.fbInfo) := by
    intro hfit hfile hargs hdev
    rw [Outcome.TellsHeap, hargs, hdev]
    simp [hfit, hfile, Call.KernelTells]
  rcases ioctl_device hd hl h with ⟨p, hp, hs, rfl⟩ | ⟨hfit, -, hans⟩
  · refine iff_of_true ?_ (Or.inl ((preIoctl_cases hp).reject hs))
    have hpre : preVidHeapAlloc c.args dev = some p := by simpa [preIoctl, hc.cmd] using hp
    exact preVidHeapAlloc_tells hpre hs
  rcases hans with ⟨hret, hdev, -, hargs⟩ | ⟨hret, p, hp, hdev, -, hargs⟩
  · exact hkernel hfit (fun hf => hret hf.returned) hargs (by rw [hdev])
  have hpost := postIoctl_heap hc.cmd hp
  by_cases hn : minor = nvidiaCtlMinor
  · subst hn
    simp only [postRmVidHeapControl, hc.kept, ne_eq, not_true_eq_false, if_false] at hpost
    have htells := postVidHeapAlloc_tells hpost
    split at htells
    · rename_i hfiles
      refine iff_of_true ?_ (Or.inr (Or.inl ⟨hd, hret, hfiles.1, hfiles.2.1, hfiles.2.2⟩))
      rw [Outcome.TellsHeap, hargs, hdev]
      exact htells
    · rename_i hfiles
      exact hkernel hfit (fun hf => hfiles ⟨hf.ok, hf.aligned, hf.malloc⟩) (hargs.trans htells.1)
        (by rw [hdev]; exact htells.2)
  · rw [postRmVidHeapControl, if_pos hn] at hpost
    cases hpost
    refine hkernel hfit (fun hf => hn ?_) hargs (by rw [hdev])
    exact Option.some.inj (hd.symm.trans hf.device)

/-! ## `NV_ESC_RM_CONTROL` -/

/-- On the control device, one of the two commands, done by the kernel, on a recorded
    handle of the limited device, whose ledger is where its owner put it. -/
structure Call.AsksFb (c : Call) (dev : DeviceProp) (cmd : CtrlCmd) : Prop where
  device : c.device = some nvidiaCtlMinor
  command : iocNr c.cmd.toUInt32 = nvEscRmControl
  returned : c.reply.1 = 0
  ok : c.reply.2.nvos54.status = .ok
  kept : c.reply.2.nvos54.cmd = cmd
  handle : ∃ entry, dev.rmMemList.find? (·.object == c.reply.2.nvos54.hObject) = some entry ∧ entry.deviceId = dev.minor
  segment : c.os.fbSegment dev.minor = some dev.fbInfo
  alive : 0 < c.os.readlink dev.fbInfo.pid

def Call.TellsFb (c : Call) (o : Outcome) : Prop :=
  Rewritten o.dev.fbInfo c.reply.2.nvos54.params o.args.nvos54.params

theorem fb_tells {c : Call} {dev : DeviceProp} {o : Outcome} {cmd : CtrlCmd} (hl : dev.memLimited = true)
    (hpid : dev.fbInfo.pid ≠ 0) (hcmd : cmd = .fbGetInfo ∨ cmd = .fbGetInfoV2) (hc : c.AsksFb dev cmd)
    (h : ioctl c dev = some o) : c.TellsFb o ↔ ToldRight dev.minor dev.fbInfo c.reply.2.nvos54.params := by
  have hne : nvEscRmControl ≠ nvEscRmVidHeapControl ∧ nvEscRmControl ≠ nvEscRmAlloc := by decide
  have hreq : memRequest c.cmd.toUInt32 c.args = none := by simp [memRequest, hc.command, hne.1, hne.2]
  obtain ⟨entry, hf, hid⟩ := hc.handle
  rcases ioctl_device hc.device hl h with ⟨p, hp, hs, -⟩ | ⟨-, -, hans⟩
  · exact absurd ((preIoctl_cases hp).reject hs) (not_rejects hreq dev)
  rcases hans with ⟨hret, -⟩ | ⟨-, p, hp, hdev, -, hargs⟩
  · exact absurd hc.returned hret
  have hpost : postRmControl c.os nvidiaCtlMinor c.reply.2 dev = some p := by
    simpa [postIoctl, hc.command, hne.1] using hp
  have hbody : (fbGetInfo c.os c.reply.2.nvos54.hObject c.reply.2.nvos54.params dev).map
      (fun r => (⟨0, { c.reply.2 with nvos54 := { c.reply.2.nvos54 with params := r.1 } }, r.2⟩ : PostOut))
        = some p := by
    rcases hcmd with rfl | rfl
    · simpa [postRmControl, hc.ok, hc.kept, postRmControlFbGetInfo] using hpost
    · simpa [postRmControl, hc.ok, hc.kept, postRmControlFbGetInfoV2] using hpost
  obtain ⟨⟨params, d⟩, hget, rfl⟩ := Option.map_eq_some_iff.mp hbody
  have hd : d = dev := by
    obtain ⟨d', hlock, -⟩ := Option.map_eq_some_iff.mp hget
    obtain ⟨params', he⟩ := fbGetInfo_free c.os c.reply.2.nvos54.hObject c.reply.2.nvos54.params (lock_some hlock).1
    rw [hget] at he
    cases he
    rfl
  subst hd
  rw [Call.TellsFb, hargs, hdev, ← hid]
  exact fbGetInfo_rewritten hf (by rw [hid]; exact hc.segment) hpid hc.alive hget

/-! ## All answers -/

/-- In one state, what the four requests tell is the ledger exactly when the kernel's
    numbers are, a reply that leaves the kernel's numbers in place says the same, and the
    lists are told right. -/
theorem answers_iff {dev : DeviceProp} {info size fb fbV2 : Call} {o₁ o₂ o₃ o₄ : Outcome} (hl : dev.memLimited = true)
    (hpid : dev.fbInfo.pid ≠ 0) (h₁ : info.AsksHeap .info) (h₂ : size.AsksHeap .allocSize)
    (h₃ : fb.AsksFb dev .fbGetInfo) (h₄ : fbV2.AsksFb dev .fbGetInfoV2) (ho₁ : ioctl info dev = some o₁)
    (ho₂ : ioctl size dev = some o₂) (ho₃ : ioctl fb dev = some o₃) (ho₄ : ioctl fbV2 dev = some o₄) :
    (o₁.TellsHeap ∧ o₂.TellsHeap ∧ fb.TellsFb o₃ ∧ fbV2.TellsFb o₄) ↔
      info.KernelTells dev.fbInfo ∧
        (Rejects size.cmd.toUInt32 size.args dev ∨ size.FilesHeap ∨ size.KernelTells dev.fbInfo) ∧
        ToldRight dev.minor dev.fbInfo fb.reply.2.nvos54.params ∧
        ToldRight dev.minor dev.fbInfo fbV2.reply.2.nvos54.params := by
  rw [info_tells hl h₁ ho₁, allocSize_tells hl h₂ ho₂, fb_tells hl hpid (Or.inl rfl) h₃ ho₃,
    fb_tells hl hpid (Or.inr rfl) h₄ ho₄]

/-! ### A device of 8 KiB -/

def eightKibStart : DeviceProp := ⟨false, 0, ⟨1, 8192, 8192⟩, 0, true, [], []⟩

theorem eightKibStart_initialises : Initialises 0 8192 eightKibStart :=
  ⟨fun _ => some ⟨0, 0, 0⟩, fun _ => .found, 1, ⟨0, 0, 0⟩, rfl, Or.inl rfl, rfl⟩

theorem eightKib_reached : (process eightKibStart).Reach eightKib := by
  have h1 : ioctl (.grant nvEscRmAlloc (.rmAlloc 1 1 5 .nv01Device0 ⟨0, ⟨0, 0, 0⟩⟩)) eightKibStart
      = some ⟨0, _, { eightKibStart with rmMemList := [⟨5, 0⟩] }, _⟩ := rfl
  have h2 : ioctl (.grant nvEscRmVidHeapControl (.allocSize 1 2 7 4096 4096))
      { eightKibStart with rmMemList := [⟨5, 0⟩] } = some ⟨0, _, eightKib, _⟩ := rfl
  exact .step (.step (.init rfl) ⟨_, h1, rfl⟩) ⟨_, h2, rfl⟩

/-- `NVOS32_FUNCTION_INFO`, which the kernel answers with the numbers of the board. -/
def askInfo (total free : UInt64) : Call where
  stat := nvidiactl
  cmd := nvEscRmVidHeapControl.toUInt64
  args := { Args.zero with nvos32 := ⟨1, 2, .info, .ok, 0, 0, ⟨0, 0, 0⟩⟩ }
  kernel := fun _ a => (0, { a with nvos32 := { a.nvos32 with total := total, free := free } })
  malloc := true
  os := eightKibOs

def askFb (cmd : CtrlCmd) (index : FbInfoIndex) : Call where
  stat := nvidiactl
  cmd := nvEscRmControl.toUInt64
  args := { Args.zero with nvos54 := ⟨5, cmd, ⟨1, [⟨index, 0⟩]⟩, .ok⟩ }
  kernel := fun _ a => (0, a)
  malloc := true
  os := eightKibOs

theorem askInfo_asks (total free : UInt64) : (askInfo total free).AsksHeap .info :=
  ⟨⟨nvidiaCtlMinor, rfl⟩, (by decide : iocNr nvEscRmVidHeapControl.toUInt64.toUInt32 = nvEscRmVidHeapControl), rfl, rfl⟩

theorem askFb_asks (cmd : CtrlCmd) (index : FbInfoIndex) : (askFb cmd index).AsksFb eightKib cmd :=
  ⟨rfl, (by decide : iocNr nvEscRmControl.toUInt64.toUInt32 = nvEscRmControl), rfl, rfl, rfl, ⟨⟨5, 0⟩, rfl, rfl⟩, rfl,
    (by decide : (0 : Int32) < 9)⟩

theorem askHeap_asks (handle : UInt32) (size : UInt64) :
    (Call.grant nvEscRmVidHeapControl (.allocSize 1 2 handle size 1)).AsksHeap .allocSize :=
  ⟨⟨nvidiaCtlMinor, rfl⟩, (by decide : iocNr nvEscRmVidHeapControl.toUInt64.toUInt32 = nvEscRmVidHeapControl), rfl, rfl⟩

theorem answers_iff_run : ∃ o₁ o₂ o₃ o₄ : Outcome, ioctl (askInfo 8192 4096) eightKib = some o₁ ∧
    ioctl (.grant nvEscRmVidHeapControl (.allocSize 1 2 8 10 1)) eightKib = some o₂ ∧
    ioctl (askFb .fbGetInfo .heapSize) eightKib = some o₃ ∧ ioctl (askFb .fbGetInfoV2 .heapSize) eightKib = some o₄ ∧
    o₁.TellsHeap ∧ o₂.TellsHeap ∧ (askFb .fbGetInfo .heapSize).TellsFb o₃ ∧
    (askFb .fbGetInfoV2 .heapSize).TellsFb o₄ := by
  have hright : ToldRight 0 eightKib.fbInfo ⟨1, [⟨.heapSize, 0⟩]⟩ := by
    intro info hinfo
    rw [List.mem_singleton.mp hinfo, if_neg (by decide)]
    show (8192 : ℕ) / 1024 < 2 ^ 32
    decide
  have hfiles : (Call.grant nvEscRmVidHeapControl (.allocSize 1 2 8 10 1)).FilesHeap :=
    ⟨rfl, rfl, rfl, by decide, rfl⟩
  have ho₁ : ioctl (askInfo 8192 4096) eightKib = some ⟨_, _, _, _⟩ := rfl
  have ho₂ : ioctl (.grant nvEscRmVidHeapControl (.allocSize 1 2 8 10 1)) eightKib = some ⟨_, _, _, _⟩ := rfl
  have ho₃ : ioctl (askFb .fbGetInfo .heapSize) eightKib = some ⟨_, _, _, _⟩ := rfl
  have ho₄ : ioctl (askFb .fbGetInfoV2 .heapSize) eightKib = some ⟨_, _, _, _⟩ := rfl
  exact ⟨_, _, _, _, ho₁, ho₂, ho₃, ho₄,
    (answers_iff rfl (by decide) (askInfo_asks _ _) (askHeap_asks _ _) (askFb_asks _ _) (askFb_asks _ _)
      ho₁ ho₂ ho₃ ho₄).mpr ⟨⟨rfl, rfl⟩, Or.inr (Or.inl hfiles), hright, hright⟩⟩

/-- With 4 KiB of 8 free, on a board of 16 GiB: `NVOS32_FUNCTION_INFO` tells of the
    board, and `FB_GET_INFO` of 8 KiB free. -/
theorem answers_differ : Initialises 0 8192 eightKibStart ∧ (process eightKibStart).Reach eightKib ∧
    ∃ o₁ o₃ : Outcome, ioctl (askInfo 0x400000000 0x200000000) eightKib = some o₁ ∧
      ioctl (askFb .fbGetInfo .heapFree) eightKib = some o₃ ∧ o₁.args.nvos32.total = 0x400000000 ∧
      o₃.args.nvos54.params.fbInfoList = [⟨.heapFree, 8⟩] ∧ ¬ o₁.TellsHeap ∧
      ¬ (askFb .fbGetInfo .heapFree).TellsFb o₃ := by
  have ho₃ : ioctl (askFb .fbGetInfo .heapFree) eightKib = some ⟨0, _, eightKib, _⟩ := rfl
  refine ⟨eightKibStart_initialises, eightKib_reached, _, _, rfl, ho₃, rfl, rfl, ?_, ?_⟩
  · intro h
    exact absurd h.1 (by decide)
  · intro h
    cases h.entries with
    | cons hfree _ => exact absurd (hfree.free rfl) (by decide)

end NvResourceController.Ioctl
