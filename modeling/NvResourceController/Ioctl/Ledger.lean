/-
  NvResourceController.Ioctl.Ledger — the ledger identity: the bytes a process has
  allocated, the bytes its records stand for and the bytes missing from the device's
  free memory are one number, modulo 2^64.

  It holds whatever the kernel replies and whatever the application asks: a record
  carries the size it was charged with, and no record leaves the list without that size
  going back. So it also survives a free that ends at the wrong record.

  - `ioctl_effect`: a call leaves the books alone, or they take the effect of the reply.
  - `apply_balanced`: every effect keeps the identity.
  - `ledger_identity`: it holds in every state the calls of a process that initialised
    the ledger reach, as long as `malloc` succeeds; and the calls all return
    (`ioctl_returns`).
-/

import NvResourceController.Ioctl.Kernel
import Mathlib.Data.UInt

namespace NvResourceController.Ioctl

open ListCursor

/-! ## One process -/

/-- A process and its hooked calls, from the state `d0`. -/
def process (d0 : DeviceProp) : System DeviceProp Call where
  init d := d = d0
  step d c d' := ∃ o, ioctl c d = some o ∧ d' = o.dev

/-- Start-up with the limit `total` for device `minor` left `d0`, and found no owner of
    the device's ledger alive. -/
def Initialises (minor : UInt32) (total : UInt64) (d0 : DeviceProp) : Prop :=
  ∃ segment lstat pid fb, segment minor = some fb ∧ (fb.pid = 0 ∨ lstat fb.pid = .failed enoent) ∧
    initMemLimit (some (minor, total)) segment lstat pid gpuDevice = some d0

theorem initFbInfo_fresh {lstat : Int32 → Lstat} {pid : Int32} {total : UInt64} {fb : FbInfo}
    (h : fb.pid = 0 ∨ lstat fb.pid = .failed enoent) : initFbInfo lstat pid total fb = ⟨pid, total, total⟩ := by
  unfold initFbInfo
  rcases h with h | h
  · simp [h]
  · by_cases h0 : fb.pid = 0
    · simp [h0]
    · simp [h0, h]

theorem initialises_eq {minor : UInt32} {total : UInt64} {d0 : DeviceProp} (h : Initialises minor total d0) :
    ∃ pid, d0 = ⟨false, minor, ⟨pid, total, total⟩, 0, true, [], []⟩ := by
  obtain ⟨segment, lstat, pid, fb, hs, hf, hi⟩ := h
  simp only [initMemLimit, hs, Option.map_some, Option.some.injEq, initFbInfo_fresh hf] at hi
  exact ⟨pid, hi.symm⟩

/-! ## What a call does, on any descriptor -/

/-- A call leaves the books alone, or it found the mutex free, was not rejected, and
    they took the effect of the reply. -/
theorem ioctl_effect {c : Call} {dev : DeviceProp} {o : Outcome} (h : ioctl c dev = some o) :
    o.dev = dev ∨ (dev.mu = false ∧ ¬ Rejects c.cmd.toUInt32 c.args dev ∧
      ∃ minor, o.dev = (effect minor c.cmd.toUInt32 c.reply.2 dev.rmMemList).apply c.malloc dev) := by
  by_cases hf : dev.memLimited = false ∨ c.device = none
  · rw [ioctl_foreign hf] at h
    cases h
    exact Or.inl rfl
  · simp only [not_or, Bool.not_eq_false] at hf
    obtain ⟨minor, hd⟩ := Option.ne_none_iff_exists'.mp hf.2
    rcases ioctl_device hd hf.1 h with ⟨p, -, -, rfl⟩ | ⟨hfit, -, hans⟩
    · exact Or.inl rfl
    · rcases hans with ⟨-, hdev, -, -⟩ | ⟨-, p, hp, hdev, -, -⟩
      · exact Or.inl hdev
      · by_cases hm : dev.mu = false
        · obtain ⟨ret, args', he⟩ := postIoctl_dev c.malloc c.os minor c.cmd.toUInt32 c.reply.2 hm
          rw [he] at hp
          cases hp
          exact Or.inr ⟨hm, hfit, minor, hdev⟩
        · exact Or.inl (hdev.trans (postIoctl_held (by simpa using hm) hp))

theorem preIoctl_returns (cmd : UInt32) (args : Args) (success : Bool) {dev : DeviceProp} (hm : dev.mu = false) :
    ∃ o, preIoctl cmd args success dev = some o := by
  have hlock := lock_free hm
  unfold preIoctl preVidHeapAlloc preRmAlloc
  dsimp only
  repeat' split
  all_goals simp [hlock]

theorem preIoctl_blocks {cmd : UInt32} {args : Args} {success : Bool} {dev : DeviceProp} {size alignment : UInt64}
    (hm : dev.mu = true) (hreq : memRequest cmd args = some (size, alignment)) (ha : alignment ≠ 0) :
    preIoctl cmd args success dev = none := by
  have hlock := lock_held hm
  unfold memRequest at hreq
  unfold preIoctl
  dsimp only
  split at hreq
  · rename_i hc
    split at hreq
    · rename_i hf
      cases hreq
      simp [hc, preVidHeapAlloc, hf, ha, hlock]
    · cases hreq
  · rename_i hc
    split at hreq
    · rename_i hc'
      split at hreq
      · rename_i hf
        cases hreq
        simp [hc', nvEsc_ne.1, preRmAlloc, hf, ha, hlock]
      · cases hreq
    · cases hreq

theorem redirect_returns {c : Call} {major minor : UInt32} {args : Args} {dev : DeviceProp} (hm : dev.mu = false) :
    ∃ o, redirect c major minor args dev = some o := by
  unfold redirect
  dsimp only
  split
  · by_cases hmaj : major = nvidiaDeviceMajor
    · subst hmaj
      obtain ⟨ret, args', he⟩ := postIoctl_dev c.malloc c.os minor c.cmd.toUInt32 (c.kernel c.cmd args).2 hm
      exact ⟨_, by rw [he]; rfl⟩
    · exact ⟨_, by rw [postIoctl, if_pos hmaj]; rfl⟩
  · exact ⟨_, rfl⟩

theorem ioctl_returns {c : Call} {dev : DeviceProp} (hm : dev.mu = false) : ∃ o, ioctl c dev = some o := by
  unfold ioctl
  dsimp only
  split
  · split
    · exact redirect_returns hm
    · split
      · exact redirect_returns hm
      · obtain ⟨p, hp⟩ := preIoctl_returns c.cmd.toUInt32 c.args false hm
        have hd := (preIoctl_cases hp).devSame
        rw [hp, Option.bind_some]
        split
        · exact ⟨_, rfl⟩
        · rw [hd]
          exact redirect_returns hm
  · exact redirect_returns hm

/-! ## The identity -/

/-- The bytes the records of a process stand for, in a `size_t`. -/
def DeviceProp.recorded (dev : DeviceProp) : UInt64 := (dev.heapMemList.map (·.size)).sum

/-- The bytes the records stand for. -/
def DeviceProp.booked (dev : DeviceProp) : ℕ := (dev.heapMemList.map fun e => e.size.toNat).sum

structure Balanced (total : UInt64) (dev : DeviceProp) : Prop where
  unlocked : dev.mu = false
  alloc : dev.allocMem = dev.recorded
  free : dev.fbInfo.freeMem + dev.allocMem = total
  total : dev.fbInfo.totalMem = total

theorem recorded_charge (dev : DeviceProp) (e : DeviceMem) : (dev.charge e).recorded = e.size + dev.recorded := by
  simp [DeviceProp.recorded]

theorem booked_charge (dev : DeviceProp) (e : DeviceMem) : (dev.charge e).booked = e.size.toNat + dev.booked := by
  simp [DeviceProp.booked]

theorem freeHeapPage_sums (page : UInt32) (dev : DeviceProp) :
    ∃ size, (freeHeapPage page dev).allocMem = dev.allocMem - size ∧
      (freeHeapPage page dev).fbInfo.freeMem = dev.fbInfo.freeMem + size ∧
      dev.recorded = size + (freeHeapPage page dev).recorded ∧
      dev.booked = size.toNat + (freeHeapPage page dev).booked := by
  unfold freeHeapPage DeviceProp.recorded DeviceProp.booked
  cases hc : scan (fun e : DeviceMem => e.object == page) dev.heapMemList with
  | none => exact ⟨0, by simp⟩
  | some c =>
    refine ⟨c.entry.size, rfl, rfl, ?_⟩
    rw [← (scan_spec _ hc).1]
    exact ⟨c.sum_map_list DeviceMem.size, c.sum_map_list fun e => e.size.toNat⟩

theorem apply_balanced {total : UInt64} {dev : DeviceProp} (h : Balanced total dev) (e : Effect) :
    Balanced total (e.apply true dev) := by
  obtain ⟨hm, ha, hf, ht⟩ := h
  cases e with
  | none => exact ⟨hm, ha, hf, ht⟩
  | charge entry =>
    refine ⟨hm, ?_, ?_, ht⟩
    · show dev.allocMem + entry.size = (dev.charge entry).recorded
      rw [recorded_charge, ha]
      exact UInt64.add_comm _ _
    · show (dev.fbInfo.freeMem - entry.size) + (dev.allocMem + entry.size) = total
      rw [← hf]
      abel
  | note entry => exact ⟨hm, ha, hf, ht⟩
  | freeHeap page =>
    obtain ⟨size, h1, h2, h3, -⟩ := freeHeapPage_sums page dev
    refine ⟨by simpa [Effect.apply] using hm, ?_, ?_, by simpa [Effect.apply] using ht⟩
    · show (freeHeapPage page dev).allocMem = (freeHeapPage page dev).recorded
      rw [h1, ha, h3]
      abel
    · show (freeHeapPage page dev).fbInfo.freeMem + (freeHeapPage page dev).allocMem = total
      rw [h1, h2, ← hf]
      abel
  | freeDevice page =>
    refine ⟨by simpa [Effect.apply] using hm, ?_, by simpa [Effect.apply] using hf, by simpa [Effect.apply] using ht⟩
    simpa [Effect.apply, DeviceProp.recorded] using ha

theorem ioctl_balanced {total : UInt64} {c : Call} {dev : DeviceProp} {o : Outcome} (h : Balanced total dev)
    (hc : c.malloc = true) (ho : ioctl c dev = some o) : Balanced total o.dev := by
  rcases ioctl_effect ho with e | ⟨-, -, minor, e⟩
  · rw [e]; exact h
  · rw [e, hc]; exact apply_balanced h _

theorem init_balanced {minor : UInt32} {total : UInt64} {d0 : DeviceProp} (h : Initialises minor total d0) :
    Balanced total d0 := by
  obtain ⟨pid, rfl⟩ := initialises_eq h
  exact ⟨rfl, rfl, by simp, rfl⟩

theorem balanced {minor : UInt32} {total : UInt64} {d0 d : DeviceProp} (h0 : Initialises minor total d0)
    (h : ((process d0).restrict fun _ c => c.malloc = true).Reach d) : Balanced total d := by
  refine System.Reach.inv (I := Balanced total) ?_ ?_ h
  · intro s he
    subst he
    exact init_balanced h0
  · intro s c s' hs hstep
    obtain ⟨hc, o, ho, rfl⟩ := hstep
    exact ioctl_balanced hs hc ho

theorem toNat_sum_map (l : List DeviceMem) :
    (l.map DeviceMem.size).sum.toNat = (l.map fun e => e.size.toNat).sum % 2 ^ 64 := by
  induction l with
  | nil => rfl
  | cons e l ih =>
    rw [List.map_cons, List.sum_cons, List.map_cons, List.sum_cons, UInt64.toNat_add, ih]
    omega

/-- The ledger identity, in every state the calls of a process that initialised the
    ledger reach. -/
theorem ledger_identity {minor : UInt32} {total : UInt64} {d0 d : DeviceProp} (h0 : Initialises minor total d0)
    (h : ((process d0).restrict fun _ c => c.malloc = true).Reach d) :
    d.allocMem.toNat = (d.heapMemList.map fun e => e.size.toNat).sum % 2 ^ 64 ∧
      (d.fbInfo.freeMem.toNat + d.allocMem.toNat) % 2 ^ 64 = d.fbInfo.totalMem.toNat ∧
      d.fbInfo.totalMem = total := by
  have hb := balanced h0 h
  refine ⟨?_, ?_, hb.total⟩
  · rw [hb.alloc, DeviceProp.recorded, toNat_sum_map]
  · rw [← UInt64.toNat_add, hb.free, hb.total]

/-- The first process of a device, limited to 100 bytes. -/
def firstProcess : DeviceProp := ⟨false, 0, ⟨1, 100, 100⟩, 0, true, [], []⟩

theorem firstProcess_initialises : Initialises 0 100 firstProcess :=
  ⟨fun _ => some ⟨0, 0, 0⟩, fun _ => .found, 1, ⟨0, 0, 0⟩, rfl, Or.inl rfl, rfl⟩

/-- Thirty bytes under handle 7 and ten under 8, then a free of a handle nothing was filed
    under, which takes the older record. -/
theorem ledger_identity_run : ∃ d : DeviceProp, ((process firstProcess).restrict fun _ c => c.malloc = true).Reach d ∧
    d.heapMemList = [⟨8, 10⟩] ∧ d.fbInfo.freeMem = 90 ∧
      d.allocMem.toNat = (d.heapMemList.map fun e => e.size.toNat).sum % 2 ^ 64 ∧
      (d.fbInfo.freeMem.toNat + d.allocMem.toNat) % 2 ^ 64 = d.fbInfo.totalMem.toNat ∧
      d.fbInfo.totalMem = 100 := by
  have h1 : ioctl (.grant nvEscRmVidHeapControl (.allocSize 1 2 7 30 1)) firstProcess
      = some ⟨0, _, firstProcess.charge ⟨7, 30⟩, _⟩ := rfl
  have h2 : ioctl (.grant nvEscRmVidHeapControl (.allocSize 1 2 8 10 1)) (firstProcess.charge ⟨7, 30⟩)
      = some ⟨0, _, (firstProcess.charge ⟨7, 30⟩).charge ⟨8, 10⟩, _⟩ := rfl
  have h3 : ioctl (.grant nvEscRmFree (.rmFree 1 2 9)) ((firstProcess.charge ⟨7, 30⟩).charge ⟨8, 10⟩)
      = some ⟨0, _, firstProcess.charge ⟨8, 10⟩, _⟩ := rfl
  have h : ((process firstProcess).restrict fun _ c => c.malloc = true).Reach (firstProcess.charge ⟨8, 10⟩) :=
    .step (.step (.step (.init rfl) ⟨rfl, _, h1, rfl⟩) ⟨rfl, _, h2, rfl⟩) ⟨rfl, _, h3, rfl⟩
  exact ⟨_, h, rfl, rfl, ledger_identity firstProcess_initialises h⟩

end NvResourceController.Ioctl
