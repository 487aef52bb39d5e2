/-
  NvResourceController.Ioctl.Kernel — the resource manager's side of a call: the objects
  its replies report created and freed, and the effect each report has on the books.

  The kernel is outside the repository. Here are only the meaning of a reply the hook
  sees (status `NV_OK`, the fields it reads) and, for the theorems that speak of live
  objects, the list of them, newest first. A theorem states what it assumes of the
  kernel beyond that.

  - `effect_memory`: the post stage files a granted memory object under `recordKey`,
    which is the object's handle for `NVOS32_FUNCTION_ALLOC_SIZE` and the `owner` field
    of the request for `NV01_MEMORY_LOCAL_USER`; not at all when the alignment is 0.
  - `effect_device`, `effect_subdevice`, `effect_freed`: the other reports;
    `created_of_charge`: nothing else is charged.
  - `answered`: the process and its objects, through calls the kernel has answered;
    `answered_step`: with the mutex free a step applies the reply's effect.
-/

import NvResourceController.Lib.Transition
import NvResourceController.Ioctl.Effect

namespace NvResourceController.Ioctl

/-! ## Objects -/

inductive Kind where
  | device (deviceId : Int32)
  | subdevice
  | memory (size alignment : UInt64)
  | other
  deriving DecidableEq, Repr

/-- An object of the resource manager: its client, its parent, its handle. -/
structure Object where
  root : UInt32
  parent : UInt32
  handle : UInt32
  kind : Kind
  deriving DecidableEq, Repr

def Object.size (o : Object) : UInt64 :=
  match o.kind with
  | .memory size _ => size
  | _ => 0

def Object.alignment (o : Object) : UInt64 :=
  match o.kind with
  | .memory _ alignment => alignment
  | _ => 0

def Object.isMemory (o : Object) : Bool :=
  match o.kind with
  | .memory _ _ => true
  | _ => false

theorem kind_of_isMemory {o : Object} (h : o.isMemory = true) : o.kind = .memory o.size o.alignment := by
  unfold Object.isMemory at h
  split at h
  · rename_i size alignment hk
    simp [Object.size, Object.alignment, hk]
  · cases h

theorem kind_of_not_isMemory {o : Object} (h : o.isMemory ≠ true) (size alignment : UInt64) :
    o.kind ≠ .memory size alignment := by
  intro hk
  exact h (by simp [Object.isMemory, hk])

def Object.isDevice (o : Object) : Bool :=
  match o.kind with
  | .device _ => true
  | _ => false

theorem kind_of_isDevice {o : Object} (h : o.isDevice = true) : ∃ id, o.kind = .device id := by
  unfold Object.isDevice at h
  split at h
  · rename_i id hk
    exact ⟨id, hk⟩
  · cases h

theorem isDevice_of_kind {o : Object} {id : Int32} (h : o.kind = .device id) : o.isDevice = true := by
  simp [Object.isDevice, h]

def NVOS21Parameters.kind (pApi : NVOS21Parameters) : Kind :=
  match pApi.hClass with
  | .nv01Device0 => .device pApi.pAllocParms.deviceId
  | .nv20Subdevice0 => .subdevice
  | .nv01MemoryLocalUser => .memory pApi.pAllocParms.memory.size pApi.pAllocParms.memory.alignment
  | .other _ => .other

/-- The object a reply reports created. -/
def created (cmd : UInt32) (reply : Args) : Option Object :=
  if iocNr cmd = nvEscRmVidHeapControl then
    let pApi := reply.nvos32
    if pApi.function = .allocSize ∧ pApi.status = .ok then
      some ⟨pApi.hRoot, pApi.hObjectParent, pApi.allocSize.hMemory,
        .memory pApi.allocSize.size pApi.allocSize.alignment⟩
    else none
  else if iocNr cmd = nvEscRmAlloc then
    let pApi := reply.nvos21
    if pApi.status = .ok then some ⟨pApi.hRoot, pApi.hObjectParent, pApi.hObjectNew, pApi.kind⟩ else none
  else none

/-- The free a reply reports done. -/
def freed (cmd : UInt32) (reply : Args) : Option NVOS00Parameters :=
  if iocNr cmd = nvEscRmFree ∧ reply.nvos00.status = .ok then some reply.nvos00 else none

/-- What the post stage files a memory object under. -/
def recordKey (cmd : UInt32) (reply : Args) : UInt32 :=
  if iocNr cmd = nvEscRmVidHeapControl then reply.nvos32.allocSize.hMemory
  else reply.nvos21.pAllocParms.memory.owner

theorem nvEsc_ne : nvEscRmAlloc ≠ nvEscRmVidHeapControl ∧ nvEscRmAlloc ≠ nvEscRmControl ∧
    nvEscRmAlloc ≠ nvEscRmFree ∧ nvEscRmFree ≠ nvEscRmVidHeapControl ∧ nvEscRmFree ≠ nvEscRmControl := by
  decide

/-- A reply that reports an object is one of the two allocating commands'. -/
theorem created_cases {cmd : UInt32} {reply : Args} {o : Object} (h : created cmd reply = some o) :
    (iocNr cmd = nvEscRmVidHeapControl ∧ reply.nvos32.function = .allocSize ∧ reply.nvos32.status = .ok ∧
        o = ⟨reply.nvos32.hRoot, reply.nvos32.hObjectParent, reply.nvos32.allocSize.hMemory,
          .memory reply.nvos32.allocSize.size reply.nvos32.allocSize.alignment⟩) ∨
      (iocNr cmd = nvEscRmAlloc ∧ reply.nvos21.status = .ok ∧
        o = ⟨reply.nvos21.hRoot, reply.nvos21.hObjectParent, reply.nvos21.hObjectNew, reply.nvos21.kind⟩) := by
  unfold created at h
  dsimp only at h
  split at h
  · rename_i hc
    split at h
    · rename_i hf
      exact Or.inl ⟨hc, hf.1, hf.2, (Option.some.inj h).symm⟩
    · cases h
  · split at h
    · rename_i hc
      split at h
      · rename_i hs
        exact Or.inr ⟨hc, hs, (Option.some.inj h).symm⟩
      · cases h
    · cases h

theorem freed_some {cmd : UInt32} {reply : Args} {f : NVOS00Parameters} (h : freed cmd reply = some f) :
    iocNr cmd = nvEscRmFree ∧ f.status = .ok ∧ f = reply.nvos00 := by
  unfold freed at h
  split at h
  · rename_i hc
    cases h
    exact ⟨hc.1, hc.2, rfl⟩
  · cases h

theorem created_of_freed {cmd : UInt32} {reply : Args} {f : NVOS00Parameters} (h : freed cmd reply = some f) :
    created cmd reply = none := by
  obtain ⟨hc, -, -⟩ := freed_some h
  obtain ⟨-, -, h1, h2, -⟩ := nvEsc_ne
  simp [created, hc, h2, Ne.symm h1]

/-! ## Their effects -/

theorem kind_memory {pApi : NVOS21Parameters} {size alignment : UInt64} (h : pApi.kind = .memory size alignment) :
    pApi.hClass = .nv01MemoryLocalUser ∧ size = pApi.pAllocParms.memory.size ∧
      alignment = pApi.pAllocParms.memory.alignment := by
  unfold NVOS21Parameters.kind at h
  split at h
  · cases h
  · cases h
  · rename_i hc
    cases h
    exact ⟨hc, rfl, rfl⟩
  · cases h

/-- A granted memory object is charged under its record key, unless its alignment is 0. -/
theorem effect_memory {cmd : UInt32} {reply : Args} {o : Object} {size alignment : UInt64} (rm : List RmMem)
    (h : created cmd reply = some o) (hk : o.kind = .memory size alignment) :
    effect nvidiaCtlMinor cmd reply rm
      = if alignment = 0 then .none else .charge ⟨recordKey cmd reply, size⟩ := by
  rcases created_cases h with ⟨hc, hf, hs, rfl⟩ | ⟨hc, hs, rfl⟩
  · cases hk
    simp only [effect, hc, if_true, vidHeapEffect, hf, hs, true_and, recordKey]
    split <;> simp_all
  · obtain ⟨hcl, rfl, rfl⟩ := kind_memory hk
    obtain ⟨h1, h2, h3, -, -⟩ := nvEsc_ne
    simp only [effect, hc, h1, h2, h3, if_false, if_true, rmAllocEffect, hcl, hs, true_and, recordKey]
    split <;> simp_all

/-- Where the alignment was given, the request asked for what was granted. -/
theorem memRequest_memory {cmd : UInt32} {reply : Args} {o : Object} {size alignment : UInt64}
    (h : created cmd reply = some o) (hk : o.kind = .memory size alignment) :
    memRequest cmd reply = some (size, alignment) := by
  rcases created_cases h with ⟨hc, hf, hs, rfl⟩ | ⟨hc, hs, rfl⟩
  · cases hk
    simp [memRequest, hc, hf]
  · obtain ⟨hcl, rfl, rfl⟩ := kind_memory hk
    simp [memRequest, hc, hcl, nvEsc_ne.1]

theorem kind_of_memRequest {cmd : UInt32} {reply : Args} {o : Object} {size alignment : UInt64}
    (h : created cmd reply = some o) (hreq : memRequest cmd reply = some (size, alignment)) :
    o.kind = .memory size alignment := by
  rcases created_cases h with ⟨hc, hf, hs, rfl⟩ | ⟨hc, hs, rfl⟩
  · simp only [memRequest, hc, hf, if_true, Option.some.injEq, Prod.mk.injEq] at hreq
    rw [hreq.1, hreq.2]
  · simp only [memRequest, hc, nvEsc_ne.1, if_false, if_true, Option.ite_none_right_eq_some, Option.some.injEq,
      Prod.mk.injEq] at hreq
    obtain ⟨hcl, rfl, rfl⟩ := hreq
    simp [NVOS21Parameters.kind, hcl]

theorem freed_of_memRequest {cmd : UInt32} {reply : Args} {r : UInt64 × UInt64} (h : memRequest cmd reply = some r) :
    freed cmd reply = none := by
  obtain ⟨-, -, h1, h2, -⟩ := nvEsc_ne
  by_contra hf
  obtain ⟨f, hf⟩ := Option.ne_none_iff_exists'.mp hf
  obtain ⟨hc, -, -⟩ := freed_some hf
  simp [memRequest, hc, h2, Ne.symm h1] at h

theorem effect_rmAlloc {cmd : UInt32} (minor : UInt32) (reply : Args) (rm : List RmMem)
    (hc : iocNr cmd = nvEscRmAlloc) : effect minor cmd reply rm = rmAllocEffect rm reply.nvos21 := by
  obtain ⟨h1, h2, h3, -, -⟩ := nvEsc_ne
  simp [effect, hc, h1, h2, h3]

/-- Of an object that is not memory, the kind decides. -/
theorem effect_kind {cmd : UInt32} {reply : Args} {o : Object} (rm : List RmMem) (h : created cmd reply = some o)
    (hk : ∀ size alignment, o.kind ≠ .memory size alignment) :
    effect nvidiaCtlMinor cmd reply rm = match o.kind with
      | .device deviceId => .note ⟨o.handle, deviceId.toUInt32⟩
      | .subdevice =>
        if findDeviceId o.parent rm = -1 then .none else .note ⟨o.handle, (findDeviceId o.parent rm).toUInt32⟩
      | _ => .none := by
  rcases created_cases h with ⟨hc, hf, hs, rfl⟩ | ⟨hc, hs, rfl⟩
  · exact absurd rfl (hk _ _)
  · rw [effect_rmAlloc _ _ _ hc, rmAllocEffect]
    unfold NVOS21Parameters.kind at hk ⊢
    cases hcl : reply.nvos21.hClass with
    | nv01Device0 => rfl
    | nv20Subdevice0 => rfl
    | nv01MemoryLocalUser =>
      rw [hcl] at hk
      exact absurd rfl (hk _ _)
    | other c => rfl

theorem effect_device {cmd : UInt32} {reply : Args} {o : Object} {deviceId : Int32} (rm : List RmMem)
    (h : created cmd reply = some o) (hk : o.kind = .device deviceId) :
    effect nvidiaCtlMinor cmd reply rm = .note ⟨o.handle, deviceId.toUInt32⟩ := by
  rw [effect_kind rm h (by rw [hk]; nofun), hk]

theorem effect_subdevice {cmd : UInt32} {reply : Args} {o : Object} (rm : List RmMem)
    (h : created cmd reply = some o) (hk : o.kind = .subdevice) :
    effect nvidiaCtlMinor cmd reply rm
      = if findDeviceId o.parent rm = -1 then .none
        else .note ⟨o.handle, (findDeviceId o.parent rm).toUInt32⟩ := by
  rw [effect_kind rm h (by rw [hk]; nofun), hk]

theorem effect_other {cmd : UInt32} {reply : Args} {o : Object} (rm : List RmMem)
    (h : created cmd reply = some o) (hk : o.kind = .other) : effect nvidiaCtlMinor cmd reply rm = .none := by
  rw [effect_kind rm h (by rw [hk]; nofun), hk]

/-- A successful free drops an entry, of the list its parent field picks, except for a
    client. -/
theorem effect_freed {cmd : UInt32} {reply : Args} {f : NVOS00Parameters} (rm : List RmMem)
    (h : freed cmd reply = some f) :
    effect nvidiaCtlMinor cmd reply rm
      = if f.hObjectOld = f.hRoot then .none
        else if f.hRoot = f.hObjectParent then .freeDevice f.hObjectOld else .freeHeap f.hObjectOld := by
  obtain ⟨hc, hs, rfl⟩ := freed_some h
  obtain ⟨-, -, -, h1, h2⟩ := nvEsc_ne
  simp [effect, hc, h1, h2, rmFreeEffect, hs]

theorem effect_quiet {cmd : UInt32} {reply : Args} {o : Object} (rm : List RmMem) (h : created cmd reply = some o)
    (hk : ∀ size alignment, o.kind ≠ .memory size alignment) : (effect nvidiaCtlMinor cmd reply rm).Quiet := by
  cases hkind : o.kind with
  | device deviceId =>
    rw [effect_device rm h hkind]
    exact Or.inr ⟨_, rfl⟩
  | subdevice =>
    rw [effect_subdevice rm h hkind]
    split
    · exact Or.inl rfl
    · exact Or.inr ⟨_, rfl⟩
  | memory size alignment => exact absurd hkind (hk size alignment)
  | other =>
    rw [effect_other rm h hkind]
    exact Or.inl rfl

theorem effect_unreported {cmd : UInt32} {reply : Args} (rm : List RmMem) (hc : created cmd reply = none)
    (hf : freed cmd reply = none) : (effect nvidiaCtlMinor cmd reply rm).Quiet := by
  obtain ⟨h1, h2, h3, h4, h5⟩ := nvEsc_ne
  unfold effect
  split
  · rename_i h
    refine Or.inl ?_
    simp only [created, h, if_true, ite_eq_right_iff, reduceCtorEq, imp_false, not_and] at hc
    rw [if_pos rfl, vidHeapEffect, if_neg (fun hv => hc hv.1 hv.2.1)]
  split
  · exact Or.inl rfl
  split
  · rename_i h
    have hs : reply.nvos00.status ≠ .ok := by simpa [freed, h] using hf
    exact Or.inl (by simp [rmFreeEffect, hs])
  split
  · rename_i h
    have hs : reply.nvos21.status ≠ .ok := by simpa [created, h, h1] using hc
    unfold rmAllocEffect
    split
    · exact Or.inr ⟨_, rfl⟩
    · dsimp only
      split
      · exact Or.inl rfl
      · exact Or.inr ⟨_, rfl⟩
    · exact Or.inl (by simp [hs])
    · exact Or.inl rfl
  · exact Or.inl rfl

theorem created_of_charge {minor cmd : UInt32} {reply : Args} {rm : List RmMem} {entry : DeviceMem}
    (h : effect minor cmd reply rm = .charge entry) :
    ∃ o, created cmd reply = some o ∧ o.kind = .memory entry.size o.alignment ∧ o.alignment ≠ 0 := by
  obtain ⟨h1, -⟩ := nvEsc_ne
  unfold effect at h
  split at h
  · rename_i hc
    split at h
    · unfold vidHeapEffect at h
      split at h
      · rename_i hv
        cases h
        let o : Object := ⟨reply.nvos32.hRoot, reply.nvos32.hObjectParent, reply.nvos32.allocSize.hMemory,
          .memory reply.nvos32.allocSize.size reply.nvos32.allocSize.alignment⟩
        exact ⟨o, by simp [o, created, hc, hv.1, hv.2.1], rfl, hv.2.2⟩
      · cases h
    · cases h
  split at h
  · cases h
  split at h
  · split at h
    · unfold rmFreeEffect at h
      split at h
      · cases h
      · split at h <;> cases h
    · cases h
  split at h
  · rename_i hc
    unfold rmAllocEffect at h
    split at h
    · cases h
    · dsimp only at h
      split at h <;> cases h
    · rename_i hcl
      split at h
      · rename_i hs
        cases h
        let o : Object := ⟨reply.nvos21.hRoot, reply.nvos21.hObjectParent, reply.nvos21.hObjectNew,
          .memory reply.nvos21.pAllocParms.memory.size reply.nvos21.pAllocParms.memory.alignment⟩
        exact ⟨o, by simp [o, created, hc, h1, hs.1, NVOS21Parameters.kind, hcl], rfl, hs.2⟩
      · cases h
    · cases h
  · cases h

/-! ## Runs of answered calls -/

/-- A call on the control device that the kernel has answered with 0, as the post stage
    gets it; and, if that was a free, which objects went. -/
structure Answer where
  cmd : UInt32
  reply : Args
  malloc : Bool
  os : Os
  gone : Object → Bool

def Answer.post (a : Answer) (dev : DeviceProp) : Option PostOut :=
  postIoctl a.malloc a.os nvidiaDeviceMajor nvidiaCtlMinor a.cmd a.reply dev

def Answer.created (a : Answer) : Option Object := Ioctl.created a.cmd a.reply

def Answer.freed (a : Answer) : Option NVOS00Parameters := Ioctl.freed a.cmd a.reply

def Answer.key (a : Answer) : UInt32 := recordKey a.cmd a.reply

/-- The live objects after the call, newest first. -/
def Answer.objects (a : Answer) (live : List Object) : List Object :=
  match a.created with
  | some o => o :: live
  | none => if a.freed.isSome then live.filter (!a.gone ·) else live

/-- The books of the process and the objects it has. -/
structure State where
  dev : DeviceProp
  live : List Object
  deriving DecidableEq, Repr

/-- A process whose calls the kernel answers, one after the other. -/
def answered (s0 : State) : System State Answer where
  init s := s = s0
  step s a s' := ∃ o, a.post s.dev = some o ∧ s' = ⟨o.dev, a.objects s.live⟩

theorem objects_created {a : Answer} {o : Object} (h : a.created = some o) (live : List Object) :
    a.objects live = o :: live := by
  simp [Answer.objects, h]

theorem objects_freed {a : Answer} {f : NVOS00Parameters} (h : a.freed = some f) (live : List Object) :
    a.objects live = live.filter (!a.gone ·) := by
  have hc : a.created = none := created_of_freed h
  simp [Answer.objects, h, hc]

theorem answered_step {s0 s s' : State} {a : Answer} (hm : s.dev.mu = false) (h : (answered s0).step s a s') :
    s' = ⟨(effect nvidiaCtlMinor a.cmd a.reply s.dev.rmMemList).apply a.malloc s.dev, a.objects s.live⟩ := by
  obtain ⟨o, ho, rfl⟩ := h
  obtain ⟨ret, args', he⟩ := postIoctl_dev a.malloc a.os nvidiaCtlMinor a.cmd a.reply hm
  rw [Answer.post, he] at ho
  cases ho
  rfl

theorem answered_returns (s0 : State) {s : State} (a : Answer) (hm : s.dev.mu = false) :
    ∃ s', (answered s0).step s a s' := by
  obtain ⟨ret, args', he⟩ := postIoctl_dev a.malloc a.os nvidiaCtlMinor a.cmd a.reply hm
  exact ⟨_, _, he, rfl⟩

theorem step_memory {s0 s s' : State} {a : Answer} {o : Object} {size alignment : UInt64} (hm : s.dev.mu = false)
    (hmal : a.malloc = true) (hc : a.created = some o) (hk : o.kind = .memory size alignment) (ha : alignment ≠ 0)
    (h : (answered s0).step s a s') : s' = ⟨s.dev.charge ⟨a.key, size⟩, o :: s.live⟩ := by
  rw [answered_step hm h, effect_memory _ hc hk, if_neg ha, objects_created hc, hmal]
  rfl

theorem step_freed {s0 s s' : State} {a : Answer} {f : NVOS00Parameters} (hm : s.dev.mu = false)
    (hf : a.freed = some f) (h : (answered s0).step s a s') :
    s' = ⟨if f.hObjectOld = f.hRoot then s.dev
          else if f.hRoot = f.hObjectParent then freeDevicePage f.hObjectOld s.dev
          else freeHeapPage f.hObjectOld s.dev, s.live.filter (!a.gone ·)⟩ := by
  rw [answered_step hm h, effect_freed _ hf, objects_freed hf]
  split
  · rfl
  · split <;> rfl

/-! ## Requests and replies -/

def AllocParms.zero : AllocParms := ⟨0, ⟨0, 0, 0⟩⟩

/-- A buffer of zeroes. -/
def Args.zero : Args where
  nvos32 := ⟨0, 0, .other 0, .ok, 0, 0, ⟨0, 0, 0⟩⟩
  nvos21 := ⟨0, 0, 0, .other 0, .zero, .ok⟩
  nvos54 := ⟨0, .other 0, ⟨0, []⟩, .ok⟩
  nvos00 := ⟨0, 0, 0, .ok⟩

/-- `NVOS32_FUNCTION_ALLOC_SIZE`, granted. -/
def Args.allocSize (root parent handle : UInt32) (size alignment : UInt64) : Args :=
  { Args.zero with nvos32 := ⟨root, parent, .allocSize, .ok, 0, 0, ⟨handle, size, alignment⟩⟩ }

def Args.rmAlloc (root parent new : UInt32) (hClass : HClass) (parms : AllocParms) : Args :=
  { Args.zero with nvos21 := ⟨root, parent, new, hClass, parms, .ok⟩ }

def Args.rmFree (root parent old : UInt32) : Args :=
  { Args.zero with nvos00 := ⟨root, parent, old, .ok⟩ }

/-- The kernel's answer `args` to the command of number `nr`. -/
def Answer.grant (nr : UInt32) (args : Args) (gone : Object → Bool) : Answer :=
  ⟨nr, args, true, ⟨fun _ => none, fun _ => -1⟩, gone⟩

/-- A call on the control device to which the kernel answers by granting what the
    buffer says. -/
def Call.grant (nr : UInt32) (args : Args) : Call where
  stat := nvidiactl
  cmd := nr.toUInt64
  args := args
  kernel := fun _ a => (0, a)
  malloc := true
  os := ⟨fun _ => none, fun _ => -1⟩

end NvResourceController.Ioctl
