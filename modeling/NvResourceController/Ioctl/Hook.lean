/-
  NvResourceController.Ioctl.Hook — the hooked `ioctl` (`src/dlfcn.c`) with its
  stages before and after the kernel's (`src/ioctl_hook.c`), and the memory part of
  `_init_device_prop`.

  A function that can block on the mutex returns `none` when it does. What is outside
  the hook is an argument: the reply of the kernel's `ioctl`, whether `malloc`
  succeeds (no call allocates twice), the system calls of `__get_fb_info`, `fstat`.
  `goto finish` is the end of a branch. Arguments a handler never reads are left out,
  and so is logging.
-/

import NvResourceController.Lib.Cursor
import NvResourceController.Lib.MaskRound
import NvResourceController.Ioctl.Types

namespace NvResourceController.Ioctl

open ListCursor MaskRound

/-- `pthread_mutex_lock(&gpu_device.mu)`: blocks on a held mutex. -/
def lock (dev : DeviceProp) : Option DeviceProp :=
  if dev.mu then none else some { dev with mu := true }

def unlock (dev : DeviceProp) : DeviceProp := { dev with mu := false }

/-! ## Before the kernel -/

/-- What the pre stage leaves: `*success` tells the caller not to call the kernel. -/
structure PreOut where
  ret : Int32
  success : Bool
  args : Args
  dev : DeviceProp
  deriving DecidableEq, Repr

def preVidHeapAlloc (args : Args) (dev : DeviceProp) : Option PreOut :=
  let pApi := args.nvos32
  match pApi.function with
  | .allocSize =>
    if pApi.allocSize.alignment ≠ 0 then
      let alignSize := roundUp pApi.allocSize.size pApi.allocSize.alignment
      (lock dev).map fun dev =>
        if dev.fbInfo.freeMem < alignSize then
          ⟨0, true,
            { args with nvos32 := { pApi with status := .errNoMemory, total := dev.fbInfo.totalMem,
                                              free := dev.fbInfo.freeMem } },
            unlock dev⟩
        else ⟨0, false, args, unlock dev⟩
    else some ⟨0, false, args, dev⟩
  | .info =>
    -- `align_size` still has its initial value
    let alignSize := 0
    (lock dev).map fun dev =>
      if dev.fbInfo.freeMem < alignSize then
        ⟨0, false,
          { args with nvos32 := { pApi with status := .errNoMemory, total := dev.fbInfo.totalMem,
                                            free := dev.fbInfo.freeMem } },
          unlock dev⟩
      else ⟨0, false, args, unlock dev⟩
  | .other _ => some ⟨0, false, args, dev⟩

def preRmAlloc (args : Args) (dev : DeviceProp) : Option PreOut :=
  let pApi := args.nvos21
  match pApi.hClass with
  | .nv01MemoryLocalUser =>
    let params := pApi.pAllocParms.memory
    if params.alignment ≠ 0 then
      let alignSize := roundUp params.size params.alignment
      (lock dev).map fun dev =>
        if dev.fbInfo.freeMem < alignSize then
          ⟨0, true, { args with nvos21 := { pApi with status := .errNoMemory } }, unlock dev⟩
        else ⟨0, false, args, unlock dev⟩
    else some ⟨0, false, args, dev⟩
  | _ => some ⟨0, false, args, dev⟩

/-- `success` is the caller's, and only the two handlers write it. -/
def preIoctl (cmd : UInt32) (args : Args) (success : Bool) (dev : DeviceProp) : Option PreOut :=
  let argCmd := iocNr cmd
  if argCmd = nvEscRmVidHeapControl then preVidHeapAlloc args dev
  else if argCmd = nvEscRmAlloc then preRmAlloc args dev
  else some ⟨0, success, args, dev⟩

/-! ## After the kernel: `NV_ESC_RM_ALLOC` -/

def postDeviceRmAlloc (malloc : Bool) (pApi : NVOS21Parameters) (dev : DeviceProp) : Option (Int32 × DeviceProp) :=
  let deviceId := pApi.pAllocParms.deviceId
  (lock dev).map fun dev =>
    if malloc then
      let entry : RmMem := ⟨pApi.hObjectNew, deviceId.toUInt32⟩
      (0, unlock { dev with rmMemList := entry :: dev.rmMemList })
    else (-enomem, unlock dev)

/-- The search for a handle's device id in `rm_mem_list`; -1 when it finds none. -/
def findDeviceId (handle : UInt32) (rmMemList : List RmMem) : Int32 :=
  match rmMemList.find? (·.object == handle) with
  | some entry => entry.deviceId.toInt32
  | none => -1

def postCtrlRmAlloc (malloc : Bool) (pApi : NVOS21Parameters) (dev : DeviceProp) : Option (Int32 × DeviceProp) :=
  (lock dev).map fun dev =>
    let deviceId := findDeviceId pApi.hObjectParent dev.rmMemList
    if deviceId = -1 then (0, unlock dev)
    else if malloc then
      let entry : RmMem := ⟨pApi.hObjectNew, deviceId.toUInt32⟩
      (0, unlock { dev with rmMemList := entry :: dev.rmMemList })
    else (-enomem, unlock dev)

def postMemoryRmAlloc (malloc : Bool) (pApi : NVOS21Parameters) (dev : DeviceProp) : Option (Int32 × DeviceProp) :=
  if pApi.status ≠ .ok then some (0, dev)
  else
    let params := pApi.pAllocParms.memory
    if params.alignment = 0 then some (0, dev)
    else
      (lock dev).map fun dev =>
        if malloc then
          let entry : DeviceMem := ⟨params.owner, params.size⟩
          let dev := { dev with heapMemList := entry :: dev.heapMemList }
          let dev := { dev with fbInfo := { dev.fbInfo with freeMem := dev.fbInfo.freeMem - entry.size } }
          let dev := { dev with allocMem := dev.allocMem + entry.size }
          (0, unlock dev)
        -- the mutex stays held
        else (-enomem, dev)

def postRmAlloc (malloc : Bool) (args : Args) (dev : DeviceProp) : Option (Int32 × DeviceProp) :=
  let pApi := args.nvos21
  match pApi.hClass with
  | .nv01Device0 => postDeviceRmAlloc malloc pApi dev
  | .nv20Subdevice0 => postCtrlRmAlloc malloc pApi dev
  | .nv01MemoryLocalUser => postMemoryRmAlloc malloc pApi dev
  | .other _ => some (0, dev)

/-! ## After the kernel: `NV_ESC_RM_VID_HEAP_CONTROL` -/

structure PostOut where
  ret : Int32
  args : Args
  dev : DeviceProp
  deriving DecidableEq, Repr

def postVidHeapAlloc (malloc : Bool) (args : Args) (dev : DeviceProp) : Option PostOut :=
  let pApi := args.nvos32
  if pApi.status ≠ .ok then some ⟨0, args, dev⟩
  else if pApi.allocSize.alignment = 0 then some ⟨0, args, dev⟩
  else
    (lock dev).map fun dev =>
      if malloc then
        let entry : DeviceMem := ⟨pApi.allocSize.hMemory, pApi.allocSize.size⟩
        let dev := { dev with heapMemList := entry :: dev.heapMemList }
        let dev := { dev with fbInfo := { dev.fbInfo with freeMem := dev.fbInfo.freeMem - entry.size } }
        let dev := { dev with allocMem := dev.allocMem + entry.size }
        let pApi := { pApi with total := dev.fbInfo.totalMem, free := dev.fbInfo.freeMem }
        ⟨0, { args with nvos32 := pApi }, unlock dev⟩
      -- the mutex stays held
      else ⟨-enomem, args, dev⟩

def postRmVidHeapControl (malloc : Bool) (minor : UInt32) (args : Args) (dev : DeviceProp) : Option PostOut :=
  if minor ≠ nvidiaCtlMinor then some ⟨-einval, args, dev⟩
  else match args.nvos32.function with
    | .allocSize => postVidHeapAlloc malloc args dev
    | _ => some ⟨0, args, dev⟩

/-! ## After the kernel: `NV_ESC_RM_CONTROL` -/

/-- `__get_fb_info`: total and free memory of a device in KiB; 0 and -1 when unknown. -/
def getFbInfo (os : Os) (deviceId : Int32) : UInt64 × UInt64 :=
  match os.fbSegment deviceId.toUInt32 with
  | none => (0, -1)
  | some fbInfo =>
    if fbInfo.pid = 0 then (0, -1)
    else (fbInfo.totalMem >>> 10, if os.readlink fbInfo.pid = 0 then fbInfo.freeMem >>> 10 else -1)

def rewriteFbInfo (totalMem freeMem : UInt64) (info : CtrlFbInfo) : CtrlFbInfo :=
  match info.index with
  | .totalRamSize | .heapSize => { info with data := if totalMem > 0 then totalMem.toUInt32 else info.data }
  | .heapFree =>
    { info with data := if freeMem ≠ -1 then freeMem.toUInt32
                        else if totalMem > 0 then totalMem.toUInt32 else info.data }
  | .other _ => info

/-- The loop over the first `fbInfoListSize` entries. -/
def rewriteFbInfoList (totalMem freeMem : UInt64) : Nat → List CtrlFbInfo → List CtrlFbInfo
  | n + 1, info :: rest => rewriteFbInfo totalMem freeMem info :: rewriteFbInfoList totalMem freeMem n rest
  | _, rest => rest

/-- The body the two `FB_GET_INFO` handlers share. -/
def fbGetInfo (os : Os) (handle : UInt32) (params : CtrlFbGetInfoParams) (dev : DeviceProp) :
    Option (CtrlFbGetInfoParams × DeviceProp) :=
  (lock dev).map fun dev =>
    let deviceId := findDeviceId handle dev.rmMemList
    let dev := unlock dev
    if deviceId = -1 then (params, dev)
    else
      let (totalMem, freeMem) := getFbInfo os deviceId
      ({ params with fbInfoList := rewriteFbInfoList totalMem freeMem params.fbInfoListSize.toNat params.fbInfoList },
        dev)

def postRmControlFbGetInfo := fbGetInfo

def postRmControlFbGetInfoV2 := fbGetInfo

def postRmControl (os : Os) (minor : UInt32) (args : Args) (dev : DeviceProp) : Option PostOut :=
  let pApi := args.nvos54
  if minor ≠ nvidiaCtlMinor then some ⟨-einval, args, dev⟩
  else if pApi.status ≠ .ok then some ⟨0, args, dev⟩
  else match pApi.cmd with
    | .fbGetInfo =>
      (postRmControlFbGetInfo os pApi.hObject pApi.params dev).map fun (params, dev) =>
        ⟨0, { args with nvos54 := { pApi with params := params } }, dev⟩
    | .fbGetInfoV2 =>
      (postRmControlFbGetInfoV2 os pApi.hObject pApi.params dev).map fun (params, dev) =>
        ⟨0, { args with nvos54 := { pApi with params := params } }, dev⟩
    | .other _ => some ⟨0, args, dev⟩

/-! ## After the kernel: `NV_ESC_RM_FREE` -/

/-- `entry` is where the search left it: at the first match, at the last entry when
    nothing matched, unset when the list is empty. -/
def freeDevicePage (page : UInt32) (dev : DeviceProp) : DeviceProp :=
  match scan (·.object == page) dev.rmMemList with
  | some entry => { dev with rmMemList := entry.del }
  | none => dev

def freeHeapPage (page : UInt32) (dev : DeviceProp) : DeviceProp :=
  match scan (·.object == page) dev.heapMemList with
  | some entry =>
    let dev := { dev with fbInfo := { dev.fbInfo with freeMem := dev.fbInfo.freeMem + entry.entry.size } }
    let dev := { dev with allocMem := dev.allocMem - entry.entry.size }
    { dev with heapMemList := entry.del }
  | none => dev

def postRmFree (minor : UInt32) (args : Args) (dev : DeviceProp) : Option (Int32 × DeviceProp) :=
  let pApi := args.nvos00
  if minor ≠ nvidiaCtlMinor then some (-einval, dev)
  else if pApi.status ≠ .ok then some (0, dev)
  else if pApi.hObjectOld = pApi.hRoot then some (0, dev)
  else
    (lock dev).map fun dev =>
      if pApi.hRoot = pApi.hObjectParent then (0, unlock (freeDevicePage pApi.hObjectOld dev))
      else (0, unlock (freeHeapPage pApi.hObjectOld dev))

/-! ## The hooked call -/

def postIoctl (malloc : Bool) (os : Os) (major minor cmd : UInt32) (args : Args) (dev : DeviceProp) : Option PostOut :=
  if major ≠ nvidiaDeviceMajor then some ⟨0, args, dev⟩
  else
    let argCmd := iocNr cmd
    if argCmd = nvEscRmVidHeapControl then postRmVidHeapControl malloc minor args dev
    else if argCmd = nvEscRmControl then postRmControl os minor args dev
    else if argCmd = nvEscRmFree then (postRmFree minor args dev).map fun (ret, dev) => ⟨ret, args, dev⟩
    else if argCmd = nvEscRmAlloc then (postRmAlloc malloc args dev).map fun (ret, dev) => ⟨ret, args, dev⟩
    else some ⟨0, args, dev⟩

/-- `get_device_number`: the result, and the two numbers it was given or found. -/
def getDeviceNumber (stat : Option Stat) (major minor : UInt32) : Int32 × UInt32 × UInt32 :=
  match stat with
  | none => (-1, major, minor)
  | some st => if st.isChr then (0, st.major, st.minor) else (-1, 0, 0)

/-- One call: what the application passes and what the system answers. -/
structure Call where
  /-- `fstat` of the descriptor. -/
  stat : Option Stat
  cmd : UInt64
  args : Args
  /-- The kernel's `ioctl`. -/
  kernel : UInt64 → Args → Int32 × Args
  malloc : Bool
  os : Os

structure Outcome where
  ret : Int32
  args : Args
  dev : DeviceProp
  calls : List (UInt64 × Args)
  deriving DecidableEq, Repr

/-- From the label `redirect` on. -/
def redirect (c : Call) (major minor : UInt32) (args : Args) (dev : DeviceProp) : Option Outcome :=
  let (ret, reply) := c.kernel c.cmd args
  if dev.memLimited ∧ ret = 0 then
    (postIoctl c.malloc c.os major minor c.cmd.toUInt32 reply dev).map fun o =>
      ⟨o.ret, o.args, o.dev, [(c.cmd, args)]⟩
  else some ⟨ret, reply, dev, [(c.cmd, args)]⟩

def ioctl (c : Call) (dev : DeviceProp) : Option Outcome :=
  if dev.memLimited then
    let (ret, major, minor) := getDeviceNumber c.stat 0 0
    if ret ≠ 0 then redirect c major minor c.args dev
    else if major ≠ nvidiaDeviceMajor then redirect c major minor c.args dev
    else
      (preIoctl c.cmd.toUInt32 c.args false dev).bind fun o =>
        if o.ret ≠ 0 ∨ o.success then some ⟨o.ret, o.args, o.dev, []⟩
        else redirect c major minor o.args o.dev
  else redirect c 0 0 c.args dev

/-! ## Start-up -/

/-- `lstat` of `/proc/<pid>/exe`. -/
inductive Lstat where
  | found
  | failed (errno : Int32)
  deriving DecidableEq, Repr

def enoent : Int32 := 2

/-- The ledger is taken over when no process owns it or its owner is gone. -/
def initFbInfo (lstat : Int32 → Lstat) (pid : Int32) (totalMem : UInt64) (fbInfo : FbInfo) : FbInfo :=
  let needInit : Bool :=
    if fbInfo.pid = 0 then true
    else match lstat fbInfo.pid with
      | .found => false
      | .failed errno => errno = enoent
  if needInit then ⟨pid, totalMem, totalMem⟩ else fbInfo

/-- `gpu_device` before start-up; `fb_info` points nowhere yet. -/
def gpuDevice : DeviceProp := ⟨false, nvidiaCtlMinor, ⟨0, 0, 0⟩, 0, false, [], []⟩

/-- `_init_device_prop` up to the core limit, from what `get_mem_limit` parsed and what
    `create_shm_addr` mapped for the device; `none` when the process exits. -/
def initMemLimit (memLimit : Option (UInt32 × UInt64)) (segment : UInt32 → Option FbInfo) (lstat : Int32 → Lstat)
    (pid : Int32) (dev : DeviceProp) : Option DeviceProp :=
  match memLimit with
  | none => some dev
  | some (minor, totalMem) =>
    (segment minor).map fun fbInfo =>
      { dev with minor := minor, memLimited := true, fbInfo := initFbInfo lstat pid totalMem fbInfo,
                 rmMemList := [], heapMemList := [] }

end NvResourceController.Ioctl
