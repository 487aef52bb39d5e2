/-
  NvResourceController.Ioctl.Isolation — the device a limit belongs to.

  `CUDA_MEM_LIMIT=<device index>=<limit>` names one device, and `rm_mem_list` tells to
  which device a handle belongs; the two `FB_GET_INFO` handlers look there. The two
  allocation paths do not, before the kernel or after: they weigh and charge every
  request against the one ledger of the process.
  - `metering_iff`: what decides is the request alone, not its parent.
  - `foreign_metered`: so memory of another device is left out exactly when the ledger
    would not have noticed it anyway; `other_device_is_charged` is a request that is
    rejected, and one that is charged.
-/

import NvResourceController.Ioctl.Calls

namespace NvResourceController.Ioctl

open MaskRound

def parentOf (cmd : UInt32) (args : Args) : UInt32 :=
  if iocNr cmd = nvEscRmVidHeapControl then args.nvos32.hObjectParent else args.nvos21.hObjectParent

/-! ## The device of the process -/

theorem apply_minor (malloc : Bool) (dev : DeviceProp) (e : Effect) : (e.apply malloc dev).minor = dev.minor := by
  cases e with
  | freeHeap page =>
    show (freeHeapPage page dev).minor = dev.minor
    unfold freeHeapPage
    split <;> rfl
  | freeDevice page =>
    show (freeDevicePage page dev).minor = dev.minor
    rw [freeDevicePage_eq]
  | _ => cases malloc <;> rfl

theorem minor_kept {minor : UInt32} {total : UInt64} {d0 d : DeviceProp} (h0 : Starts (some (minor, total)) d0)
    (h : (process d0).Reach d) : d.minor = minor := by
  refine System.Reach.inv (I := fun d => d.minor = minor) ?_ ?_ h
  · intro s hs
    obtain ⟨segment, lstat, pid, hi⟩ := h0
    obtain ⟨fb, -, rfl⟩ := Option.map_eq_some_iff.mp hi
    rw [show s = _ from hs]
  · intro s c s' hs hstep
    obtain ⟨o, ho, rfl⟩ := hstep
    rcases ioctl_effect ho with e | ⟨-, -, minor', e⟩
    · rw [e, hs]
    · rw [e, apply_minor, hs]

/-! ## What the ledger notices -/

theorem preIoctl_passes_iff {cmd : UInt32} {args : Args} {dev : DeviceProp} {size alignment : UInt64}
    (hreq : memRequest cmd args = some (size, alignment)) :
    (∀ o, preIoctl cmd args false dev = some o → o.success = false) ↔
      dev.mu = true ∨ alignment = 0 ∨ ¬ dev.fbInfo.freeMem < roundUp size alignment := by
  constructor
  · intro hpass
    by_cases hm : dev.mu = true
    · exact Or.inl hm
    · obtain ⟨o, ho⟩ := preIoctl_returns cmd args false (show dev.mu = false by simpa using hm)
      have hfit := ((preIoctl_cases ho).pass (hpass o ho)).2
      rw [rejects_iff hreq] at hfit
      refine Or.inr ?_
      by_cases ha : alignment = 0
      · exact Or.inl ha
      · exact Or.inr (fun hlt => hfit ⟨ha, hlt⟩)
  · intro h o ho
    by_contra hs
    have hrej := (rejects_iff hreq).mp ((preIoctl_cases ho).reject (by simpa using hs))
    rcases h with hm | ha | hlt
    · rw [preIoctl_blocks hm hreq hrej.1] at ho
      cases ho
    · exact hrej.1 ha
    · exact hlt hrej.2

theorem effect_freeHeap {minor cmd : UInt32} {reply : Args} {rm : List RmMem} {page : UInt32}
    (h : effect minor cmd reply rm = .freeHeap page) : memRequest cmd reply = none ∧ iocNr cmd = nvEscRmFree := by
  obtain ⟨-, -, h1, h2, -⟩ := nvEsc_ne
  unfold effect at h
  split at h
  · split at h
    · unfold vidHeapEffect at h
      split at h <;> cases h
    · cases h
  split at h
  · cases h
  split at h
  · rename_i hc
    exact ⟨by simp [memRequest, hc, h2, Ne.symm h1], hc⟩
  split at h
  · unfold rmAllocEffect at h
    split at h
    · cases h
    · dsimp only at h
      split at h <;> cases h
    · split at h <;> cases h
    · cases h
  · cases h

/-- The reply grants memory that is not nothing, on a path that charges it. -/
def Charges (malloc : Bool) (minor cmd : UInt32) (reply : Args) : Prop :=
  malloc = true ∧ statusOf cmd reply = .ok ∧ (iocNr cmd = nvEscRmVidHeapControl → minor = nvidiaCtlMinor) ∧
    ∃ size alignment, memRequest cmd reply = some (size, alignment) ∧ alignment ≠ 0 ∧ size ≠ 0

theorem add_ne_self {x y : UInt64} (h : y ≠ 0) : x + y ≠ x := by
  intro he
  exact h (by simpa using he)

theorem postIoctl_spares_iff {malloc : Bool} {os : Os} {minor cmd : UInt32} {reply : Args} {dev : DeviceProp}
    (hc : iocNr cmd ≠ nvEscRmFree) :
    (∀ p, postIoctl malloc os nvidiaDeviceMajor minor cmd reply dev = some p →
        p.dev.fbInfo = dev.fbInfo ∧ p.dev.allocMem = dev.allocMem) ↔
      dev.mu = true ∨ ¬ Charges malloc minor cmd reply := by
  by_cases hm : dev.mu = true
  · refine iff_of_true ?_ (Or.inl hm)
    intro p hp
    rw [postIoctl_held hm hp]
    exact ⟨rfl, rfl⟩
  have hm' : dev.mu = false := by simpa using hm
  obtain ⟨args', ho⟩ := postIoctl_out malloc os minor cmd reply hm'
  by_cases hch : Charges malloc minor cmd reply
  · refine iff_of_false ?_ (by simp [hm', hch])
    intro hkeep
    obtain ⟨rfl, hs, hmin, size, alignment, hreq, ha, hsize⟩ := hch
    obtain ⟨key, he⟩ := effect_memRequest minor dev.rmMemList hreq
    rw [if_pos ⟨hs, ha, hmin⟩] at he
    rw [he] at ho
    exact add_ne_self hsize (hkeep _ ho).2
  · refine iff_of_true ?_ (Or.inr hch)
    intro p hp
    rw [ho] at hp
    cases hp
    cases he : effect minor cmd reply dev.rmMemList with
    | none => exact ⟨rfl, rfl⟩
    | note entry => cases malloc <;> exact ⟨rfl, rfl⟩
    | charge entry =>
      obtain ⟨alignment, hreq, ha⟩ := memRequest_of_charge he
      obtain ⟨key, he'⟩ := effect_memRequest minor dev.rmMemList hreq
      rw [he] at he'
      split at he'
      · rename_i hgrant
        cases malloc with
        | false => exact ⟨rfl, rfl⟩
        | true =>
          have hzero : entry.size = 0 := by
            by_contra hne
            exact hch ⟨rfl, hgrant.1, hgrant.2.2, entry.size, alignment, hreq, ha, hne⟩
          simp [Effect.apply, DeviceProp.charge, hzero]
      · cases he'
    | freeHeap page => exact absurd (effect_freeHeap he).2 hc
    | freeDevice page => exact ⟨by simp [Effect.apply], by simp [Effect.apply]⟩

/-- A request for memory is neither rejected nor charged exactly when it blocks, or when
    it has no alignment or fits the free memory, and the reply grants nothing to
    charge. -/
theorem metering_iff {malloc : Bool} {os : Os} {minor cmd : UInt32} {args reply : Args} {dev : DeviceProp}
    {size alignment : UInt64} (hreq : memRequest cmd args = some (size, alignment)) :
    ((∀ o, preIoctl cmd args false dev = some o → o.success = false) ∧
      ∀ p, postIoctl malloc os nvidiaDeviceMajor minor cmd reply dev = some p →
        p.dev.fbInfo = dev.fbInfo ∧ p.dev.allocMem = dev.allocMem) ↔
      dev.mu = true ∨ (alignment = 0 ∨ ¬ dev.fbInfo.freeMem < roundUp size alignment) ∧
        ¬ Charges malloc minor cmd reply := by
  have hc : iocNr cmd ≠ nvEscRmFree := by
    obtain ⟨-, -, h1, h2, -⟩ := nvEsc_ne
    intro hc
    simp [memRequest, hc, h2, Ne.symm h1] at hreq
  rw [preIoctl_passes_iff hreq, postIoctl_spares_iff hc, or_and_left]

/-- A process is limited on device `d`, and asks for memory of a parent it knows to be of
    another device. -/
theorem foreign_metered {d : UInt32} {total : UInt64} {d0 dev : DeviceProp} (h0 : Starts (some (d, total)) d0)
    (h : (process d0).Reach dev) (malloc : Bool) (os : Os) (minor : UInt32) {cmd : UInt32} {args : Args}
    (reply : Args) {size alignment : UInt64} (hreq : memRequest cmd args = some (size, alignment)) :
    dev.minor = d ∧ ∀ entry ∈ dev.rmMemList, entry.object = parentOf cmd args → entry.deviceId ≠ d →
      (((∀ o, preIoctl cmd args false dev = some o → o.success = false) ∧
        ∀ p, postIoctl malloc os nvidiaDeviceMajor minor cmd reply dev = some p →
          p.dev.fbInfo = dev.fbInfo ∧ p.dev.allocMem = dev.allocMem) ↔
        dev.mu = true ∨ (alignment = 0 ∨ ¬ dev.fbInfo.freeMem < roundUp size alignment) ∧
          ¬ Charges malloc minor cmd reply) :=
  ⟨minor_kept h0 h, fun _ _ _ _ => metering_iff hreq⟩

def knowsOther : DeviceProp := firstProcess.note ⟨5, 1⟩

theorem knowsOther_reached : Starts (some (0, 100)) firstProcess ∧ (process firstProcess).Reach knowsOther := by
  have h1 : ioctl (.grant nvEscRmAlloc (.rmAlloc 1 1 5 .nv01Device0 ⟨1, ⟨0, 0, 0⟩⟩)) firstProcess
      = some ⟨0, _, knowsOther, _⟩ := rfl
  exact ⟨⟨fun _ => some ⟨0, 0, 0⟩, fun _ => .found, 1, rfl⟩, .step (.init rfl) ⟨_, h1, rfl⟩⟩

/-- 200 bytes on device 1 are rejected and 60 bytes on device 1 are charged. -/
theorem other_device_is_charged : Starts (some (0, 100)) firstProcess ∧ (process firstProcess).Reach knowsOther ∧
    ⟨parentOf nvEscRmVidHeapControl (.allocSize 1 5 7 200 1), 1⟩ ∈ knowsOther.rmMemList ∧
    (∃ o, preIoctl nvEscRmVidHeapControl (.allocSize 1 5 7 200 1) false knowsOther = some o ∧ o.success = true) ∧
    ∃ p, postIoctl true ⟨fun _ => none, fun _ => -1⟩ nvidiaDeviceMajor nvidiaCtlMinor nvEscRmVidHeapControl
        (.allocSize 1 5 7 60 1) knowsOther = some p ∧
      p.dev.fbInfo.freeMem = 40 ∧ p.dev.allocMem = 60 :=
  ⟨knowsOther_reached.1, knowsOther_reached.2, List.mem_singleton.mpr rfl, ⟨_, rfl, by decide⟩,
    _, rfl, by decide, by decide⟩

theorem foreign_metered_run : ∃ o p,
    preIoctl nvEscRmVidHeapControl (.allocSize 1 5 7 200 0) false knowsOther = some o ∧ o.success = false ∧
    postIoctl true ⟨fun _ => none, fun _ => -1⟩ nvidiaDeviceMajor nvidiaCtlMinor nvEscRmVidHeapControl
      (.allocSize 1 5 7 200 0) knowsOther = some p ∧ p.dev.fbInfo = knowsOther.fbInfo := by
  have hreq : memRequest nvEscRmVidHeapControl (.allocSize 1 5 7 200 0) = some (200, 0) := by decide
  have hno : ¬ Charges true nvidiaCtlMinor nvEscRmVidHeapControl (.allocSize 1 5 7 200 0) := by
    intro hch
    obtain ⟨-, -, -, size, alignment, hgot, ha, -⟩ := hch
    rw [hreq] at hgot
    cases hgot
    exact ha rfl
  have h := foreign_metered knowsOther_reached.1 knowsOther_reached.2 true ⟨fun _ => none, fun _ => -1⟩
    nvidiaCtlMinor (.allocSize 1 5 7 200 0) hreq
  obtain ⟨hpre, hpost⟩ := (h.2 ⟨5, 1⟩ (List.mem_singleton.mpr rfl) (by decide) (by decide)).mpr
    (Or.inr ⟨Or.inl rfl, hno⟩)
  exact ⟨_, _, rfl, hpre _ rfl, rfl, (hpost _ rfl).1⟩

end NvResourceController.Ioctl
