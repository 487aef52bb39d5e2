/-
  NvResourceController.Ioctl.Effect — what one hooked call can do to the books of the
  process: its two lists, `alloc_mem` and the device's ledger.

  A kernel reply asks for one of five effects (`effect`), decided by the reply and
  `rm_mem_list` alone:
  - nothing;
  - charge a record: put it at the head of `heap_mem_list` and move its size from the
    free memory to the allocated;
  - note a device handle at the head of `rm_mem_list`;
  - drop the entry the search for a handle ends at from `heap_mem_list`, crediting its
    size;
  - drop the entry the search ends at from `rm_mem_list`.

  - `preIoctl_cases`: the stage before the kernel changes no books, and rejects exactly
    what `Rejects` says.
  - `postIoctl_out`: with the mutex free, the stage after the kernel applies the
    reply's effect, and returns `postRet`; `postIoctl_held`: with the mutex held it changes nothing, if it
    returns at all.
  - `ioctl_foreign`: outside the limit, or on a descriptor of no NVIDIA device, the
    caller gets the kernel's answer; `ioctl_device`: otherwise a hooked call that
    returns never reached the kernel and left the books alone, or reached it once, with
    the caller's command and buffer.
-/

import NvResourceController.Ioctl.Hook

namespace NvResourceController.Ioctl

open ListCursor MaskRound

/-! ## The mutex -/

theorem lock_free {dev : DeviceProp} (h : dev.mu = false) : lock dev = some { dev with mu := true } := by
  simp [lock, h]

theorem lock_held {dev : DeviceProp} (h : dev.mu = true) : lock dev = none := by
  simp [lock, h]

theorem lock_some {dev d : DeviceProp} (h : lock dev = some d) : dev.mu = false ∧ d = { dev with mu := true } := by
  unfold lock at h
  split at h
  · cases h
  · rename_i hm
    exact ⟨by simpa using hm, (Option.some.inj h).symm⟩

theorem unlock_locked {dev : DeviceProp} (h : dev.mu = false) : unlock { dev with mu := true } = dev := by
  cases dev
  cases h
  rfl

/-! ## The stage before the kernel -/

/-- The memory a request asks for, as size and alignment. -/
def memRequest (cmd : UInt32) (args : Args) : Option (UInt64 × UInt64) :=
  if iocNr cmd = nvEscRmVidHeapControl then
    if args.nvos32.function = .allocSize then some (args.nvos32.allocSize.size, args.nvos32.allocSize.alignment)
    else none
  else if iocNr cmd = nvEscRmAlloc then
    if args.nvos21.hClass = .nv01MemoryLocalUser then
      some (args.nvos21.pAllocParms.memory.size, args.nvos21.pAllocParms.memory.alignment)
    else none
  else none

/-- The request is for memory, with an alignment, and does not fit the free memory when
    rounded up. -/
def Rejects (cmd : UInt32) (args : Args) (dev : DeviceProp) : Prop :=
  ∃ size alignment, memRequest cmd args = some (size, alignment) ∧ alignment ≠ 0 ∧
    dev.fbInfo.freeMem < roundUp size alignment

theorem rejects_iff {cmd : UInt32} {args : Args} {dev : DeviceProp} {size alignment : UInt64}
    (hreq : memRequest cmd args = some (size, alignment)) :
    Rejects cmd args dev ↔ alignment ≠ 0 ∧ dev.fbInfo.freeMem < roundUp size alignment := by
  constructor
  · intro hrej
    obtain ⟨size', alignment', he, hne, hlt⟩ := hrej
    rw [hreq] at he
    cases he
    exact ⟨hne, hlt⟩
  · intro h
    exact ⟨size, alignment, hreq, h.1, h.2⟩

theorem not_rejects {cmd : UInt32} {args : Args} (hreq : memRequest cmd args = none) (dev : DeviceProp) :
    ¬ Rejects cmd args dev := by
  intro hrej
  obtain ⟨size, alignment, he, -⟩ := hrej
  rw [hreq] at he
  cases he

/-- What the pre stage promises of its result. -/
structure PreSpec (cmd : UInt32) (args : Args) (dev : DeviceProp) (o : PreOut) : Prop where
  retZero : o.ret = 0
  devSame : o.dev = dev
  pass : o.success = false → o.args = args ∧ ¬ Rejects cmd args dev
  reject : o.success = true → Rejects cmd args dev

theorem not_lt_zero (x : UInt64) : ¬ x < 0 := by
  intro h
  rw [UInt64.lt_iff_toNat_lt] at h
  exact absurd h (Nat.not_lt_zero _)

theorem preVidHeapAlloc_cases {cmd : UInt32} {args : Args} {dev : DeviceProp} {o : PreOut}
    (hc : iocNr cmd = nvEscRmVidHeapControl) (h : preVidHeapAlloc args dev = some o) : PreSpec cmd args dev o := by
  unfold preVidHeapAlloc at h
  dsimp only at h
  split at h
  · rename_i hf
    have hreq : memRequest cmd args = some (args.nvos32.allocSize.size, args.nvos32.allocSize.alignment) := by
      simp [memRequest, hc, hf]
    split at h
    · rename_i ha
      obtain ⟨d, hd, rfl⟩ := Option.map_eq_some_iff.mp h
      obtain ⟨hmu, rfl⟩ := lock_some hd
      split
      · rename_i hlt
        exact ⟨rfl, unlock_locked hmu, by simp, fun _ => (rejects_iff hreq).mpr ⟨ha, hlt⟩⟩
      · rename_i hlt
        exact ⟨rfl, unlock_locked hmu, fun _ => ⟨rfl, fun hrej => hlt ((rejects_iff hreq).mp hrej).2⟩, by simp⟩
    · rename_i ha
      cases h
      exact ⟨rfl, rfl, fun _ => ⟨rfl, fun hrej => ha ((rejects_iff hreq).mp hrej).1⟩, by simp⟩
  · rename_i hf
    have hreq : memRequest cmd args = none := by simp [memRequest, hc, hf]
    obtain ⟨d, hd, rfl⟩ := Option.map_eq_some_iff.mp h
    obtain ⟨hmu, rfl⟩ := lock_some hd
    rw [if_neg (not_lt_zero _)]
    exact ⟨rfl, unlock_locked hmu, fun _ => ⟨rfl, not_rejects hreq dev⟩, by simp⟩
  · rename_i hf
    have hreq : memRequest cmd args = none := by simp [memRequest, hc, hf]
    cases h
    exact ⟨rfl, rfl, fun _ => ⟨rfl, not_rejects hreq dev⟩, by simp⟩

theorem preRmAlloc_cases {cmd : UInt32} {args : Args} {dev : DeviceProp} {o : PreOut}
    (hc : iocNr cmd = nvEscRmAlloc) (h : preRmAlloc args dev = some o) : PreSpec cmd args dev o := by
  have hne : nvEscRmAlloc ≠ nvEscRmVidHeapControl := by decide
  unfold preRmAlloc at h
  dsimp only at h
  split at h
  · rename_i hf
    have hreq : memRequest cmd args
        = some (args.nvos21.pAllocParms.memory.size, args.nvos21.pAllocParms.memory.alignment) := by
      simp [memRequest, hc, hf, hne]
    split at h
    · rename_i ha
      obtain ⟨d, hd, rfl⟩ := Option.map_eq_some_iff.mp h
      obtain ⟨hmu, rfl⟩ := lock_some hd
      split
      · rename_i hlt
        exact ⟨rfl, unlock_locked hmu, by simp, fun _ => (rejects_iff hreq).mpr ⟨ha, hlt⟩⟩
      · rename_i hlt
        exact ⟨rfl, unlock_locked hmu, fun _ => ⟨rfl, fun hrej => hlt ((rejects_iff hreq).mp hrej).2⟩, by simp⟩
    · rename_i ha
      cases h
      exact ⟨rfl, rfl, fun _ => ⟨rfl, fun hrej => ha ((rejects_iff hreq).mp hrej).1⟩, by simp⟩
  · rename_i hf
    have hnot : ¬ args.nvos21.hClass = .nv01MemoryLocalUser := hf
    have hreq : memRequest cmd args = none := by simp [memRequest, hc, hne, hnot]
    cases h
    exact ⟨rfl, rfl, fun _ => ⟨rfl, not_rejects hreq dev⟩, by simp⟩

/-- The stage before the kernel changes no books and rejects what `Rejects` says. -/
theorem preIoctl_cases {cmd : UInt32} {args : Args} {dev : DeviceProp} {o : PreOut}
    (h : preIoctl cmd args false dev = some o) : PreSpec cmd args dev o := by
  unfold preIoctl at h
  dsimp only at h
  split at h
  · exact preVidHeapAlloc_cases ‹_› h
  · rename_i h1
    split at h
    · exact preRmAlloc_cases ‹_› h
    · rename_i h2
      have hreq : memRequest cmd args = none := by simp [memRequest, h1, h2]
      cases h
      exact ⟨rfl, rfl, fun _ => ⟨rfl, not_rejects hreq dev⟩, by simp⟩

theorem fits_of_not_rejects {cmd : UInt32} {args : Args} {dev : DeviceProp} {size alignment : UInt64}
    (h : ¬ Rejects cmd args dev) (hreq : memRequest cmd args = some (size, alignment)) (ha : alignment ≠ 0)
    (hs : size.toNat + alignment.toNat - 1 < 2 ^ 64) : size.toNat ≤ dev.fbInfo.freeMem.toNat := by
  have hfit : ¬ dev.fbInfo.freeMem < roundUp size alignment := fun hlt => h ((rejects_iff hreq).mpr ⟨ha, hlt⟩)
  rw [UInt64.lt_iff_toNat_lt] at hfit
  have := le_roundUp ha hs
  omega

/-! ## Effects -/

inductive Effect where
  | none
  | charge (entry : DeviceMem)
  | note (entry : RmMem)
  | freeHeap (page : UInt32)
  | freeDevice (page : UInt32)
  deriving DecidableEq, Repr

def DeviceProp.charge (dev : DeviceProp) (entry : DeviceMem) : DeviceProp :=
  { dev with heapMemList := entry :: dev.heapMemList, allocMem := dev.allocMem + entry.size,
             fbInfo := { dev.fbInfo with freeMem := dev.fbInfo.freeMem - entry.size } }

def DeviceProp.note (dev : DeviceProp) (entry : RmMem) : DeviceProp :=
  { dev with rmMemList := entry :: dev.rmMemList }

/-- Without memory for a record a charge is lost and the mutex stays held; a note is
    lost. -/
def Effect.apply (malloc : Bool) (dev : DeviceProp) : Effect → DeviceProp
  | .none => dev
  | .charge entry => if malloc then dev.charge entry else { dev with mu := true }
  | .note entry => if malloc then dev.note entry else dev
  | .freeHeap page => freeHeapPage page dev
  | .freeDevice page => freeDevicePage page dev

/-- The effect files a record, for which the handler calls `malloc`. -/
def Effect.allocates : Effect → Bool
  | .charge _ | .note _ => true
  | _ => false

/-- What the handler returns. -/
def Effect.ret (malloc : Bool) (e : Effect) : Int32 :=
  if malloc = false ∧ e.allocates = true then -enomem else 0

def rmAllocEffect (rmMemList : List RmMem) (pApi : NVOS21Parameters) : Effect :=
  match pApi.hClass with
  | .nv01Device0 => .note ⟨pApi.hObjectNew, pApi.pAllocParms.deviceId.toUInt32⟩
  | .nv20Subdevice0 =>
    let deviceId := findDeviceId pApi.hObjectParent rmMemList
    if deviceId = -1 then .none else .note ⟨pApi.hObjectNew, deviceId.toUInt32⟩
  | .nv01MemoryLocalUser =>
    if pApi.status = .ok ∧ pApi.pAllocParms.memory.alignment ≠ 0 then
      .charge ⟨pApi.pAllocParms.memory.owner, pApi.pAllocParms.memory.size⟩
    else .none
  | .other _ => .none

def vidHeapEffect (pApi : NVOS32Parameters) : Effect :=
  if pApi.function = .allocSize ∧ pApi.status = .ok ∧ pApi.allocSize.alignment ≠ 0 then
    .charge ⟨pApi.allocSize.hMemory, pApi.allocSize.size⟩
  else .none

def rmFreeEffect (pApi : NVOS00Parameters) : Effect :=
  if pApi.status ≠ .ok ∨ pApi.hObjectOld = pApi.hRoot then .none
  else if pApi.hRoot = pApi.hObjectParent then .freeDevice pApi.hObjectOld
  else .freeHeap pApi.hObjectOld

/-- What a reply asks of the books. -/
def effect (minor cmd : UInt32) (reply : Args) (rmMemList : List RmMem) : Effect :=
  if iocNr cmd = nvEscRmVidHeapControl then
    if minor = nvidiaCtlMinor then vidHeapEffect reply.nvos32 else .none
  else if iocNr cmd = nvEscRmControl then .none
  else if iocNr cmd = nvEscRmFree then
    if minor = nvidiaCtlMinor then rmFreeEffect reply.nvos00 else .none
  else if iocNr cmd = nvEscRmAlloc then rmAllocEffect rmMemList reply.nvos21
  else .none

/-- The commands whose handlers take no minor but the control device's. -/
def ControlOnly (cmd : UInt32) : Prop :=
  iocNr cmd = nvEscRmVidHeapControl ∨ iocNr cmd = nvEscRmControl ∨ iocNr cmd = nvEscRmFree

instance (cmd : UInt32) : Decidable (ControlOnly cmd) := inferInstanceAs (Decidable (_ ∨ _ ∨ _))

/-- What the stage after the kernel returns. -/
def postRet (malloc : Bool) (minor cmd : UInt32) (reply : Args) (rmMemList : List RmMem) : Int32 :=
  if minor ≠ nvidiaCtlMinor ∧ ControlOnly cmd then -einval else (effect minor cmd reply rmMemList).ret malloc

/-! ### No effect touches what it is not about -/

@[simp] theorem charge_mu (dev : DeviceProp) (e : DeviceMem) : (dev.charge e).mu = dev.mu := rfl
@[simp] theorem charge_memLimited (dev : DeviceProp) (e : DeviceMem) : (dev.charge e).memLimited = dev.memLimited := rfl
@[simp] theorem charge_heap (dev : DeviceProp) (e : DeviceMem) :
    (dev.charge e).heapMemList = e :: dev.heapMemList := rfl
@[simp] theorem charge_rm (dev : DeviceProp) (e : DeviceMem) : (dev.charge e).rmMemList = dev.rmMemList := rfl
@[simp] theorem charge_alloc (dev : DeviceProp) (e : DeviceMem) :
    (dev.charge e).allocMem = dev.allocMem + e.size := rfl
@[simp] theorem charge_free (dev : DeviceProp) (e : DeviceMem) :
    (dev.charge e).fbInfo.freeMem = dev.fbInfo.freeMem - e.size := rfl
@[simp] theorem charge_total (dev : DeviceProp) (e : DeviceMem) :
    (dev.charge e).fbInfo.totalMem = dev.fbInfo.totalMem := rfl
@[simp] theorem note_mu (dev : DeviceProp) (e : RmMem) : (dev.note e).mu = dev.mu := rfl
@[simp] theorem note_memLimited (dev : DeviceProp) (e : RmMem) : (dev.note e).memLimited = dev.memLimited := rfl
@[simp] theorem note_heap (dev : DeviceProp) (e : RmMem) : (dev.note e).heapMemList = dev.heapMemList := rfl
@[simp] theorem note_rm (dev : DeviceProp) (e : RmMem) : (dev.note e).rmMemList = e :: dev.rmMemList := rfl
@[simp] theorem note_alloc (dev : DeviceProp) (e : RmMem) : (dev.note e).allocMem = dev.allocMem := rfl
@[simp] theorem note_fbInfo (dev : DeviceProp) (e : RmMem) : (dev.note e).fbInfo = dev.fbInfo := rfl

theorem freeDevicePage_eq (page : UInt32) (dev : DeviceProp) :
    freeDevicePage page dev = { dev with rmMemList := scanDel (·.object == page) dev.rmMemList } := by
  unfold freeDevicePage scanDel
  cases scan (·.object == page) dev.rmMemList <;> rfl

theorem freeHeapPage_nil {page : UInt32} {dev : DeviceProp} (h : dev.heapMemList = []) :
    freeHeapPage page dev = dev := by
  simp [freeHeapPage, h]

theorem freeDevicePage_nil {page : UInt32} {dev : DeviceProp} (h : dev.rmMemList = []) :
    freeDevicePage page dev = dev := by
  simp [freeDevicePage, h]

@[simp] theorem freeDevicePage_mu (page : UInt32) (dev : DeviceProp) : (freeDevicePage page dev).mu = dev.mu := by
  rw [freeDevicePage_eq]
@[simp] theorem freeDevicePage_memLimited (page : UInt32) (dev : DeviceProp) :
    (freeDevicePage page dev).memLimited = dev.memLimited := by rw [freeDevicePage_eq]
@[simp] theorem freeDevicePage_heap (page : UInt32) (dev : DeviceProp) :
    (freeDevicePage page dev).heapMemList = dev.heapMemList := by rw [freeDevicePage_eq]
@[simp] theorem freeDevicePage_alloc (page : UInt32) (dev : DeviceProp) :
    (freeDevicePage page dev).allocMem = dev.allocMem := by rw [freeDevicePage_eq]
@[simp] theorem freeDevicePage_fbInfo (page : UInt32) (dev : DeviceProp) :
    (freeDevicePage page dev).fbInfo = dev.fbInfo := by rw [freeDevicePage_eq]
@[simp] theorem freeDevicePage_rm (page : UInt32) (dev : DeviceProp) :
    (freeDevicePage page dev).rmMemList = scanDel (·.object == page) dev.rmMemList := by rw [freeDevicePage_eq]

@[simp] theorem freeHeapPage_mu (page : UInt32) (dev : DeviceProp) : (freeHeapPage page dev).mu = dev.mu := by
  unfold freeHeapPage; split <;> rfl
@[simp] theorem freeHeapPage_memLimited (page : UInt32) (dev : DeviceProp) :
    (freeHeapPage page dev).memLimited = dev.memLimited := by unfold freeHeapPage; split <;> rfl
@[simp] theorem freeHeapPage_rm (page : UInt32) (dev : DeviceProp) :
    (freeHeapPage page dev).rmMemList = dev.rmMemList := by unfold freeHeapPage; split <;> rfl
@[simp] theorem freeHeapPage_heap (page : UInt32) (dev : DeviceProp) :
    (freeHeapPage page dev).heapMemList = scanDel (·.object == page) dev.heapMemList := by
  unfold freeHeapPage scanDel
  cases scan (·.object == page) dev.heapMemList <;> rfl
@[simp] theorem freeHeapPage_total (page : UInt32) (dev : DeviceProp) :
    (freeHeapPage page dev).fbInfo.totalMem = dev.fbInfo.totalMem := by unfold freeHeapPage; split <;> rfl

theorem apply_memLimited (malloc : Bool) (dev : DeviceProp) (e : Effect) :
    (e.apply malloc dev).memLimited = dev.memLimited := by
  cases e <;> simp only [Effect.apply] <;> (try split) <;> simp

theorem apply_total (malloc : Bool) (dev : DeviceProp) (e : Effect) :
    (e.apply malloc dev).fbInfo.totalMem = dev.fbInfo.totalMem := by
  cases e <;> simp only [Effect.apply] <;> (try split) <;> simp

/-- Only a lost charge leaves the mutex held. -/
theorem apply_mu_malloc (dev : DeviceProp) (e : Effect) : (e.apply true dev).mu = dev.mu := by
  cases e <;> simp [Effect.apply]

/-- An effect that is not about memory. -/
def Effect.Quiet (e : Effect) : Prop := e = .none ∨ ∃ entry, e = .note entry

theorem Effect.Quiet.apply {e : Effect} (h : e.Quiet) (malloc : Bool) (dev : DeviceProp) :
    (e.apply malloc dev).heapMemList = dev.heapMemList ∧ (e.apply malloc dev).fbInfo = dev.fbInfo ∧
      (e.apply malloc dev).mu = dev.mu ∧ (e.apply malloc dev).allocMem = dev.allocMem := by
  rcases h with rfl | ⟨entry, rfl⟩
  · exact ⟨rfl, rfl, rfl, rfl⟩
  · cases malloc <;> exact ⟨rfl, rfl, rfl, rfl⟩

/-! ## The stage after the kernel -/

theorem postMemoryRmAlloc_free {malloc : Bool} {pApi : NVOS21Parameters} {dev : DeviceProp} (hm : dev.mu = false)
    (hc : pApi.hClass = .nv01MemoryLocalUser) :
    postMemoryRmAlloc malloc pApi dev = some ((rmAllocEffect dev.rmMemList pApi).ret malloc,
      (rmAllocEffect dev.rmMemList pApi).apply malloc dev) := by
  by_cases hs : pApi.status = .ok
  · by_cases ha : pApi.pAllocParms.memory.alignment = 0
    · simp [postMemoryRmAlloc, rmAllocEffect, Effect.apply, Effect.ret, Effect.allocates, hc, hs, ha]
    · cases malloc
      · simp [postMemoryRmAlloc, rmAllocEffect, Effect.apply, Effect.ret, Effect.allocates, hc, hs, ha, lock_free hm]
      · simp [postMemoryRmAlloc, rmAllocEffect, Effect.apply, Effect.ret, DeviceProp.charge, unlock, hc, hs, ha,
          lock_free hm, hm]
  · simp [postMemoryRmAlloc, rmAllocEffect, Effect.apply, Effect.ret, Effect.allocates, hc, hs]

theorem postRmAlloc_free (malloc : Bool) (args : Args) {dev : DeviceProp} (hm : dev.mu = false) :
    postRmAlloc malloc args dev = some ((rmAllocEffect dev.rmMemList args.nvos21).ret malloc,
      (rmAllocEffect dev.rmMemList args.nvos21).apply malloc dev) := by
  cases hc : args.nvos21.hClass with
  | nv01Device0 =>
    cases malloc
    · simp [postRmAlloc, hc, postDeviceRmAlloc, rmAllocEffect, Effect.apply, Effect.ret, Effect.allocates,
        lock_free hm, unlock_locked hm]
    · simp [postRmAlloc, hc, postDeviceRmAlloc, rmAllocEffect, Effect.apply, Effect.ret, DeviceProp.note, unlock,
        lock_free hm, hm]
  | nv20Subdevice0 =>
    by_cases hd : findDeviceId args.nvos21.hObjectParent dev.rmMemList = -1
    · simp [postRmAlloc, hc, postCtrlRmAlloc, rmAllocEffect, Effect.apply, Effect.ret, Effect.allocates,
        lock_free hm, hd, unlock_locked hm]
    · cases malloc
      · simp [postRmAlloc, hc, postCtrlRmAlloc, rmAllocEffect, Effect.apply, Effect.ret, Effect.allocates,
          lock_free hm, hd, unlock_locked hm]
      · simp [postRmAlloc, hc, postCtrlRmAlloc, rmAllocEffect, Effect.apply, Effect.ret, DeviceProp.note, unlock,
          lock_free hm, hd, hm]
  | nv01MemoryLocalUser => simpa [postRmAlloc, hc] using postMemoryRmAlloc_free hm hc
  | other n => simp [postRmAlloc, hc, rmAllocEffect, Effect.apply, Effect.ret, Effect.allocates]

theorem postRmVidHeapControl_free (malloc : Bool) (minor : UInt32) (args : Args) {dev : DeviceProp}
    (hm : dev.mu = false) :
    ∃ args', postRmVidHeapControl malloc minor args dev = some
      ⟨if minor = nvidiaCtlMinor then (vidHeapEffect args.nvos32).ret malloc else -einval, args',
        (if minor = nvidiaCtlMinor then vidHeapEffect args.nvos32 else .none).apply malloc dev⟩ := by
  by_cases hn : minor = nvidiaCtlMinor
  · cases hf : args.nvos32.function with
    | allocSize =>
      by_cases hs : args.nvos32.status = .ok
      · by_cases ha : args.nvos32.allocSize.alignment = 0
        · exact ⟨args, by simp [postRmVidHeapControl, hn, hf, postVidHeapAlloc, hs, ha, vidHeapEffect,
            Effect.apply, Effect.ret, Effect.allocates]⟩
        · cases malloc
          · exact ⟨args, by simp [postRmVidHeapControl, hn, hf, postVidHeapAlloc, hs, ha, vidHeapEffect,
              Effect.apply, Effect.ret, Effect.allocates, lock_free hm]⟩
          · exact ⟨_, by simp [postRmVidHeapControl, hn, hf, postVidHeapAlloc, hs, ha, vidHeapEffect,
              Effect.apply, Effect.ret, lock_free hm, DeviceProp.charge, unlock, hm]; rfl⟩
      · exact ⟨args, by simp [postRmVidHeapControl, hn, hf, postVidHeapAlloc, hs, vidHeapEffect, Effect.apply,
          Effect.ret, Effect.allocates]⟩
    | info => exact ⟨args, by simp [postRmVidHeapControl, hn, hf, vidHeapEffect, Effect.apply, Effect.ret,
        Effect.allocates]⟩
    | other n => exact ⟨args, by simp [postRmVidHeapControl, hn, hf, vidHeapEffect, Effect.apply, Effect.ret,
        Effect.allocates]⟩
  · exact ⟨args, by simp [postRmVidHeapControl, hn, Effect.apply]⟩

theorem fbGetInfo_free (os : Os) (handle : UInt32) (params : CtrlFbGetInfoParams) {dev : DeviceProp}
    (hm : dev.mu = false) : ∃ params', fbGetInfo os handle params dev = some (params', dev) := by
  by_cases hd : findDeviceId handle dev.rmMemList = -1
  · exact ⟨params, by simp [fbGetInfo, lock_free hm, hd, unlock_locked hm]⟩
  · exact ⟨_, by simp [fbGetInfo, lock_free hm, hd, unlock_locked hm]; rfl⟩

theorem postRmControl_free (os : Os) (minor : UInt32) (args : Args) {dev : DeviceProp} (hm : dev.mu = false) :
    ∃ args', postRmControl os minor args dev
      = some ⟨if minor = nvidiaCtlMinor then 0 else -einval, args', dev⟩ := by
  by_cases hn : minor = nvidiaCtlMinor
  · by_cases hs : args.nvos54.status = .ok
    · obtain ⟨params, hp⟩ := fbGetInfo_free os args.nvos54.hObject args.nvos54.params hm
      cases hf : args.nvos54.cmd with
      | fbGetInfo => exact ⟨_, by simp [postRmControl, hn, hs, hf, postRmControlFbGetInfo, hp]; rfl⟩
      | fbGetInfoV2 => exact ⟨_, by simp [postRmControl, hn, hs, hf, postRmControlFbGetInfoV2, hp]; rfl⟩
      | other n => exact ⟨args, by simp [postRmControl, hn, hs, hf]⟩
    · exact ⟨args, by simp [postRmControl, hn, hs]⟩
  · exact ⟨args, by simp [postRmControl, hn]⟩

theorem freeHeapPage_locked (page : UInt32) {dev : DeviceProp} (hm : dev.mu = false) :
    unlock (freeHeapPage page { dev with mu := true }) = freeHeapPage page dev := by
  cases dev
  cases hm
  unfold freeHeapPage
  dsimp only
  split <;> rfl

theorem freeDevicePage_locked (page : UInt32) {dev : DeviceProp} (hm : dev.mu = false) :
    unlock (freeDevicePage page { dev with mu := true }) = freeDevicePage page dev := by
  cases dev
  cases hm
  unfold freeDevicePage
  dsimp only
  split <;> rfl

theorem postRmFree_free (malloc : Bool) (minor : UInt32) (args : Args) {dev : DeviceProp} (hm : dev.mu = false) :
    postRmFree minor args dev = some (if minor = nvidiaCtlMinor then 0 else -einval,
      (if minor = nvidiaCtlMinor then rmFreeEffect args.nvos00 else .none).apply malloc dev) := by
  by_cases hn : minor = nvidiaCtlMinor
  · by_cases hs : args.nvos00.status = .ok
    · by_cases hr : args.nvos00.hObjectOld = args.nvos00.hRoot
      · simp [postRmFree, rmFreeEffect, Effect.apply, hn, hs, hr]
      · by_cases hp : args.nvos00.hRoot = args.nvos00.hObjectParent
        · simp only [postRmFree, rmFreeEffect, hn, hs, hr, lock_free hm, Effect.apply, Option.map_some, if_pos hp,
            ne_eq, not_true_eq_false, if_false, or_self, if_true, freeDevicePage_locked _ hm]
        · simp only [postRmFree, rmFreeEffect, hn, hs, hr, lock_free hm, Effect.apply, Option.map_some, if_neg hp,
            ne_eq, not_true_eq_false, if_false, or_self, if_true, freeHeapPage_locked _ hm]
    · simp [postRmFree, rmFreeEffect, Effect.apply, hn, hs]
  · simp [postRmFree, Effect.apply, hn]

theorem rmFreeEffect_ret (malloc : Bool) (pApi : NVOS00Parameters) : (rmFreeEffect pApi).ret malloc = 0 := by
  have h : (rmFreeEffect pApi).allocates = false := by
    unfold rmFreeEffect
    split
    · rfl
    · split <;> rfl
  simp [Effect.ret, h]

/-- With the mutex free, the stage after the kernel returns, and applies the reply's
    effect. -/
theorem postIoctl_out (malloc : Bool) (os : Os) (minor cmd : UInt32) (reply : Args) {dev : DeviceProp}
    (hm : dev.mu = false) :
    ∃ args', postIoctl malloc os nvidiaDeviceMajor minor cmd reply dev
      = some ⟨postRet malloc minor cmd reply dev.rmMemList, args',
          (effect minor cmd reply dev.rmMemList).apply malloc dev⟩ := by
  unfold postIoctl postRet effect
  rw [if_neg (by simp)]
  dsimp only
  split
  · rename_i h1
    obtain ⟨args', h⟩ := postRmVidHeapControl_free malloc minor reply hm
    refine ⟨args', ?_⟩
    rw [h]
    by_cases hn : minor = nvidiaCtlMinor <;> simp [hn, ControlOnly, h1]
  split
  · rename_i h1 h2
    obtain ⟨args', h⟩ := postRmControl_free os minor reply hm
    refine ⟨args', ?_⟩
    rw [h]
    by_cases hn : minor = nvidiaCtlMinor <;> simp [hn, ControlOnly, h2, Effect.ret, Effect.allocates, Effect.apply]
  split
  · rename_i h1 h2 h3
    refine ⟨reply, ?_⟩
    rw [postRmFree_free malloc minor reply hm]
    by_cases hn : minor = nvidiaCtlMinor <;> simp [hn, ControlOnly, h3, rmFreeEffect_ret]
  · rename_i h1 h2 h3
    have hno : ¬ (minor ≠ nvidiaCtlMinor ∧ ControlOnly cmd) := by simp [ControlOnly, h1, h2, h3]
    simp only [if_neg hno]
    split
    · exact ⟨reply, by rw [postRmAlloc_free malloc reply hm]; rfl⟩
    · exact ⟨reply, by simp [Effect.ret, Effect.allocates, Effect.apply]⟩

theorem postIoctl_dev (malloc : Bool) (os : Os) (minor cmd : UInt32) (reply : Args) {dev : DeviceProp}
    (hm : dev.mu = false) :
    ∃ ret args', postIoctl malloc os nvidiaDeviceMajor minor cmd reply dev
      = some ⟨ret, args', (effect minor cmd reply dev.rmMemList).apply malloc dev⟩ :=
  ⟨_, postIoctl_out malloc os minor cmd reply hm⟩

/-! ### With the mutex held

What returns has got past no lock. -/

theorem postRmAlloc_held {malloc : Bool} {args : Args} {dev : DeviceProp} {r : Int32 × DeviceProp}
    (hm : dev.mu = true) (h : postRmAlloc malloc args dev = some r) : r = (0, dev) := by
  have hlock := lock_held hm
  unfold postRmAlloc at h
  dsimp only at h
  split at h
  · simp [postDeviceRmAlloc, hlock] at h
  · simp [postCtrlRmAlloc, hlock] at h
  · unfold postMemoryRmAlloc at h
    dsimp only at h
    split at h
    · exact (Option.some.inj h).symm
    split at h
    · exact (Option.some.inj h).symm
    · simp [hlock] at h
  · exact (Option.some.inj h).symm

theorem postRmVidHeapControl_held {malloc : Bool} {minor : UInt32} {args : Args} {dev : DeviceProp} {o : PostOut}
    (hm : dev.mu = true) (h : postRmVidHeapControl malloc minor args dev = some o) :
    o = ⟨if minor = nvidiaCtlMinor then 0 else -einval, args, dev⟩ := by
  unfold postRmVidHeapControl at h
  split at h
  · rename_i hn
    rw [if_neg hn]
    exact (Option.some.inj h).symm
  · rename_i hn
    rw [if_pos (by simpa using hn)]
    split at h
    · unfold postVidHeapAlloc at h
      dsimp only at h
      split at h
      · exact (Option.some.inj h).symm
      split at h
      · exact (Option.some.inj h).symm
      · simp [lock_held hm] at h
    · exact (Option.some.inj h).symm

theorem postRmControl_held {os : Os} {minor : UInt32} {args : Args} {dev : DeviceProp} {o : PostOut}
    (hm : dev.mu = true) (h : postRmControl os minor args dev = some o) :
    o = ⟨if minor = nvidiaCtlMinor then 0 else -einval, args, dev⟩ := by
  have hget (params : CtrlFbGetInfoParams) (handle : UInt32) : fbGetInfo os handle params dev = none := by
    simp [fbGetInfo, lock_held hm]
  unfold postRmControl at h
  dsimp only at h
  split at h
  · rename_i hn
    rw [if_neg hn]
    exact (Option.some.inj h).symm
  · rename_i hn
    rw [if_pos (by simpa using hn)]
    split at h
    · exact (Option.some.inj h).symm
    split at h
    · simp [postRmControlFbGetInfo, hget] at h
    · simp [postRmControlFbGetInfoV2, hget] at h
    · exact (Option.some.inj h).symm

theorem postRmFree_held {minor : UInt32} {args : Args} {dev : DeviceProp} {r : Int32 × DeviceProp}
    (hm : dev.mu = true) (h : postRmFree minor args dev = some r) :
    r = (if minor = nvidiaCtlMinor then 0 else -einval, dev) := by
  unfold postRmFree at h
  dsimp only at h
  split at h
  · rename_i hn
    rw [if_neg hn]
    exact (Option.some.inj h).symm
  · rename_i hn
    rw [if_pos (by simpa using hn)]
    split at h
    · exact (Option.some.inj h).symm
    split at h
    · exact (Option.some.inj h).symm
    · simp [lock_held hm] at h

theorem postIoctl_held_out {malloc : Bool} {os : Os} {major minor cmd : UInt32} {reply : Args} {dev : DeviceProp}
    {o : PostOut} (hm : dev.mu = true) (h : postIoctl malloc os major minor cmd reply dev = some o) :
    o = ⟨if major = nvidiaDeviceMajor ∧ minor ≠ nvidiaCtlMinor ∧ ControlOnly cmd then -einval else 0, reply, dev⟩ := by
  unfold postIoctl at h
  dsimp only at h
  split at h
  · rename_i hmaj
    cases h
    simp [hmaj]
  rename_i hmaj
  obtain rfl : major = nvidiaDeviceMajor := by simpa using hmaj
  split at h
  · rename_i h1
    rw [postRmVidHeapControl_held hm h]
    by_cases hn : minor = nvidiaCtlMinor <;> simp [hn, ControlOnly, h1]
  split at h
  · rename_i h2
    rw [postRmControl_held hm h]
    by_cases hn : minor = nvidiaCtlMinor <;> simp [hn, ControlOnly, h2]
  split at h
  · rename_i h3
    obtain ⟨r, hr, rfl⟩ := Option.map_eq_some_iff.mp h
    rw [postRmFree_held hm hr]
    by_cases hn : minor = nvidiaCtlMinor <;> simp [hn, ControlOnly, h3]
  · rename_i h1 h2 h3
    have hno : ¬ ControlOnly cmd := by simp [ControlOnly, h1, h2, h3]
    split at h
    · obtain ⟨r, hr, rfl⟩ := Option.map_eq_some_iff.mp h
      rw [postRmAlloc_held hm hr]
      simp [hno]
    · cases h
      simp [hno]

theorem postIoctl_held {malloc : Bool} {os : Os} {major minor cmd : UInt32} {reply : Args} {dev : DeviceProp}
    {o : PostOut} (hm : dev.mu = true) (h : postIoctl malloc os major minor cmd reply dev = some o) : o.dev = dev := by
  rw [postIoctl_held_out hm h]

/-! ## The hooked call -/

def nvidiactl : Option Stat := some ⟨true, nvidiaDeviceMajor, nvidiaCtlMinor⟩

/-- The kernel's answer to the call, if it is asked. -/
def Call.reply (c : Call) : Int32 × Args := c.kernel c.cmd c.args

/-- What a call on a descriptor with these numbers did once it reached the kernel. -/
def Answered (c : Call) (major minor : UInt32) (dev : DeviceProp) (o : Outcome) : Prop :=
  o.calls = [(c.cmd, c.args)] ∧
    ((c.reply.1 ≠ 0 ∧ o.dev = dev ∧ o.ret = c.reply.1 ∧ o.args = c.reply.2) ∨
      (c.reply.1 = 0 ∧ ∃ p, postIoctl c.malloc c.os major minor c.cmd.toUInt32 c.reply.2 dev = some p ∧
        o.dev = p.dev ∧ o.ret = p.ret ∧ o.args = p.args))

theorem redirect_cases {c : Call} {major minor : UInt32} {dev : DeviceProp} {o : Outcome}
    (hl : dev.memLimited = true) (h : redirect c major minor c.args dev = some o) : Answered c major minor dev o := by
  unfold redirect at h
  dsimp only at h
  split at h
  · rename_i hr
    obtain ⟨p, hp, rfl⟩ := Option.map_eq_some_iff.mp h
    exact ⟨rfl, Or.inr ⟨hr.2, p, hp, rfl, rfl, rfl⟩⟩
  · rename_i hr
    cases h
    exact ⟨rfl, Or.inl ⟨fun e => hr ⟨hl, e⟩, rfl, rfl, rfl⟩⟩

/-- The minor of the NVIDIA character device the descriptor is of, if it is of one. -/
def Call.device (c : Call) : Option UInt32 :=
  match c.stat with
  | some st => if st.isChr = true ∧ st.major = nvidiaDeviceMajor then some st.minor else none
  | none => none

theorem getDeviceNumber_device {c : Call} {minor : UInt32} (hd : c.device = some minor) :
    getDeviceNumber c.stat 0 0 = (0, nvidiaDeviceMajor, minor) := by
  unfold Call.device at hd
  split at hd
  · rename_i st hst
    split at hd
    · rename_i h
      cases hd
      simp [getDeviceNumber, hst, h.1, h.2]
    · cases hd
  · cases hd

theorem getDeviceNumber_foreign {c : Call} (hd : c.device = none) :
    (getDeviceNumber c.stat 0 0).2.1 ≠ nvidiaDeviceMajor := by
  have h0 : (0 : UInt32) ≠ nvidiaDeviceMajor := by decide
  unfold Call.device at hd
  split at hd
  · rename_i st hst
    split at hd
    · cases hd
    · rename_i h
      by_cases hc : st.isChr = true
      · simpa [getDeviceNumber, hst, hc] using fun e => h ⟨hc, e⟩
      · simpa [getDeviceNumber, hst, hc] using h0
  · rename_i hst
    simpa [getDeviceNumber, hst] using h0

theorem redirect_foreign {c : Call} {major minor : UInt32} {dev : DeviceProp}
    (h : dev.memLimited = false ∨ major ≠ nvidiaDeviceMajor) :
    redirect c major minor c.args dev = some ⟨c.reply.1, c.reply.2, dev, [(c.cmd, c.args)]⟩ := by
  unfold redirect
  dsimp only
  split
  · rename_i hl
    rcases h with h | h
    · rw [hl.1] at h
      cases h
    · rw [postIoctl, if_pos h, Option.map_some]
      exact congrArg some (by rw [Outcome.mk.injEq]; exact ⟨hl.2.symm, rfl, rfl, rfl⟩)
  · rfl

theorem ioctl_foreign {c : Call} {dev : DeviceProp} (h : dev.memLimited = false ∨ c.device = none) :
    ioctl c dev = some ⟨c.reply.1, c.reply.2, dev, [(c.cmd, c.args)]⟩ := by
  unfold ioctl
  dsimp only
  split
  · rename_i hl
    have hd : c.device = none := h.resolve_left (by simp [hl])
    have hmaj := getDeviceNumber_foreign hd
    rw [if_pos hmaj, ite_self]
    exact redirect_foreign (.inr hmaj)
  · exact redirect_foreign (.inl (by simpa using ‹¬dev.memLimited = true›))

/-- A limited call on an NVIDIA device that returns was rejected before the kernel, or
    answered by it. -/
theorem ioctl_device {c : Call} {dev : DeviceProp} {o : Outcome} {minor : UInt32} (hd : c.device = some minor)
    (hl : dev.memLimited = true) (h : ioctl c dev = some o) :
    (∃ p, preIoctl c.cmd.toUInt32 c.args false dev = some p ∧ p.success = true ∧ o = ⟨0, p.args, dev, []⟩) ∨
      (¬ Rejects c.cmd.toUInt32 c.args dev ∧ Answered c nvidiaDeviceMajor minor dev o) := by
  simp only [ioctl, hl, getDeviceNumber_device hd, if_true, ne_eq, not_true_eq_false, if_false] at h
  obtain ⟨p, hp, ho⟩ := Option.bind_eq_some_iff.mp h
  have hspec := preIoctl_cases hp
  split at ho
  · rename_i hstop
    cases ho
    rcases hstop with hstop | hstop
    · exact absurd hspec.retZero hstop
    · exact Or.inl ⟨p, hp, hstop, by rw [hspec.retZero, hspec.devSame]⟩
  · rename_i hgo
    obtain ⟨hargs, hfit⟩ := hspec.pass (by simpa using fun e => hgo (Or.inr e))
    rw [hargs, hspec.devSame] at ho
    exact Or.inr ⟨hfit, redirect_cases hl ho⟩

theorem ioctl_cases {c : Call} {dev : DeviceProp} {o : Outcome} (hs : c.stat = nvidiactl)
    (hl : dev.memLimited = true) (h : ioctl c dev = some o) :
    (o.calls = [] ∧ o.dev = dev ∧ o.ret = 0 ∧ Rejects c.cmd.toUInt32 c.args dev) ∨
      (¬ Rejects c.cmd.toUInt32 c.args dev ∧ Answered c nvidiaDeviceMajor nvidiaCtlMinor dev o) := by
  have hd : c.device = some nvidiaCtlMinor := by simp [Call.device, hs, nvidiactl]
  rcases ioctl_device hd hl h with ⟨p, hp, hstop, rfl⟩ | h
  · exact Or.inl ⟨rfl, rfl, rfl, (preIoctl_cases hp).reject hstop⟩
  · exact Or.inr h

end NvResourceController.Ioctl
