/-
  NvResourceController.Ioctl.Memory — the code of `src/ioctl_hook.c` between
  `pthread_mutex_lock` and the end of each handler, statement by statement, over the
  entries and links of `include/list.h` in memory.

  `gpu_device` is its scalars, the ledger and one heap with the two list heads; the
  heap's entries are the `device_mem_t` and `rm_mem_t` that `malloc` gave. A statement
  makes one access: `x -= y` is a load of `x`, a load of `y` and a store. What only the
  calling thread sees (`*arg`, `*success`, `ret`, `device_id` and the pointer
  variables) is its `Frame`.

  A handler either takes the lock or returns without it; `preStage` and `postStage`
  say which, in the order of the source's tests.
-/

import NvResourceController.Lib.LinkedList
import NvResourceController.Ioctl.Hook

namespace NvResourceController.Ioctl

open Command LinkedList MaskRound

/-! ## State -/

/-- The lists of `device_prop_t`. -/
inductive ListHead where
  | heapMemList
  | rmMemList
  deriving DecidableEq

/-- What `malloc` gave. -/
inductive Entry where
  | deviceMem (mem : DeviceMem)
  | rmMem (mem : RmMem)
  deriving DecidableEq

def Entry.isDeviceMem : Entry → Prop
  | .deviceMem _ => True
  | .rmMem _ => False

def Entry.isRmMem : Entry → Prop
  | .deviceMem _ => False
  | .rmMem _ => True

/-- What the code takes for a `device_mem_t` is one. -/
def Entry.onDeviceMem {β : Type} (f : DeviceMem → β) : Entry → Option β
  | .deviceMem mem => some (f mem)
  | .rmMem _ => none

def Entry.onRmMem {β : Type} (f : RmMem → β) : Entry → Option β
  | .deviceMem _ => none
  | .rmMem mem => some (f mem)

/-- `gpu_device`. -/
structure DeviceMemory where
  mu : Bool
  minor : UInt32
  fbInfo : FbInfo
  allocMem : UInt64
  memLimited : Bool
  heap : Memory ListHead ℕ Entry

/-- What a handler's own variables hold; `value` and `size` are what it has loaded of
    an assignment's two sides. -/
structure Frame where
  regs : Regs ListHead ℕ
  args : Args
  success : Bool
  ret : Int32
  deviceId : Int32
  value : UInt64
  size : UInt64

abbrev Config := DeviceMemory × Frame

/-- The lists and the pointer variables. -/
def lists : Part Config (State ListHead ℕ Entry) where
  get s := (s.1.heap, s.2.regs)
  put s t := ({ s.1 with heap := t.1 }, { s.2 with regs := t.2 })
  get_put _ _ := rfl
  put_get _ := rfl
  put_put _ _ _ := rfl

/-! ## Statements -/

def set (f : DeviceMemory → Frame → Config) : Cmd Config := .exec fun s => some (f s.1 s.2)

def unlockMu : Cmd Config := set fun dev x => ({ dev with mu := false }, x)

def setArgs (f : DeviceMemory → Args → Args) : Cmd Config := set fun dev x => (dev, { x with args := f dev x.args })

def retNoMemory : Cmd Config := set fun dev x => (dev, { x with ret := -enomem })

def setSuccess : Cmd Config := set fun dev x => (dev, { x with success := true })

/-- `entry->f = y`, with what `y` is of the handler's variables. -/
def setMem (f : Frame → DeviceMem → DeviceMem) : Cmd Config := .exec fun s =>
  (setField (Entry.onDeviceMem fun mem => .deviceMem (f s.2 mem)) (lists.get s)).map (lists.put s)

def setRm (f : Frame → RmMem → RmMem) : Cmd Config := .exec fun s =>
  (setField (Entry.onRmMem fun mem => .rmMem (f s.2 mem)) (lists.get s)).map (lists.put s)

def noEntry (s : Config) : Option Bool := some s.2.regs.entry.isNone

def someEntry (s : Config) : Option Bool := some s.2.regs.entry.isSome

def loadSize : Cmd Config := .exec fun s =>
  ((field (lists.get s)).bind (Entry.onDeviceMem DeviceMem.size)).map fun size => (s.1, { s.2 with size := size })

/-- Stores `free_mem`, once its old value and the size are loaded. -/
def storeFreeMem (op : UInt64 → UInt64 → UInt64) : Cmd Config :=
  set fun dev x => ({ dev with fbInfo := ⟨dev.fbInfo.pid, dev.fbInfo.totalMem, op x.value x.size⟩ }, x)

/-- `gpu_device.fb_info->free_mem = op(free_mem, entry->size)`. -/
def assignFreeMem (op : UInt64 → UInt64 → UInt64) : Cmd Config := .block [
  set fun dev x => (dev, { x with value := dev.fbInfo.freeMem }),
  loadSize,
  storeFreeMem op]

/-- `gpu_device.alloc_mem = op(alloc_mem, entry->size)`. -/
def assignAllocMem (op : UInt64 → UInt64 → UInt64) : Cmd Config := .block [
  set fun dev x => (dev, { x with value := dev.allocMem }),
  loadSize,
  set fun dev x => ({ dev with allocMem := op x.value x.size }, x)]

/-- `list_for_each` over `rm_mem_list`, up to the entry of the handle. -/
def searchRm (handle : UInt32) (found : Cmd Config) : Cmd Config :=
  search lists .rmMemList (Entry.onRmMem (·.object == handle)) found

/-- `list_for_each` over `heap_mem_list`, up to the entry of the handle. -/
def searchHeap (handle : UInt32) (found : Cmd Config) : Cmd Config :=
  search lists .heapMemList (Entry.onDeviceMem (·.object == handle)) found

/-- `device_id = entry->device_id; break;`. -/
def takeDeviceId : Cmd Config := .block [
  .exec fun s => ((field (lists.get s)).bind (Entry.onRmMem RmMem.deviceId)).map fun deviceId =>
    (s.1, { s.2 with deviceId := deviceId.toInt32 }),
  .brk]

def mallocRm (malloc : Bool) : Cmd Config := lists.zoom (.act (LinkedList.malloc malloc Entry.isRmMem))

def mallocMem (malloc : Bool) : Cmd Config := lists.zoom (.act (LinkedList.malloc malloc Entry.isDeviceMem))

/-- An `rm_mem_t` filed at the head of `rm_mem_list`. -/
def fileRm (malloc : Bool) (object deviceId : Frame → RmMem → RmMem) : Cmd Config := .block [
  mallocRm malloc,
  .ite noEntry retNoMemory (.block [
    setRm object,
    setRm deviceId,
    lists.zoom (listAdd .rmMemList)])]

/-- A `device_mem_t` filed at the head of `heap_mem_list` and charged, then `rest`. -/
def fileMem (malloc : Bool) (object size : Frame → DeviceMem → DeviceMem) (rest : List (Cmd Config)) : Cmd Config :=
  .block [
    mallocMem malloc,
    -- `goto finish` is past the unlock
    .ite noEntry retNoMemory (.block ([
      setMem object,
      setMem size,
      lists.zoom (listAdd .heapMemList),
      assignFreeMem (· - ·),
      assignAllocMem (· + ·)] ++ rest))]

/-! ## Handlers -/

/-- How a handler goes on: it returns without the lock, or runs its section and makes
    of what the section left its result and what is in `*arg`. -/
inductive Stage where
  | unlocked (ret : Int32)
  | locked (body : Cmd Config) (result : Frame → Int32 × Args)

def Frame.result (x : Frame) : Int32 × Args := (x.ret, x.args)

def preVidHeapAllocStage (args : Args) : Stage :=
  let pApi := args.nvos32
  let refuse : List (Cmd Config) := [
    setArgs fun _ args => { args with nvos32 := { args.nvos32 with status := .errNoMemory } },
    setArgs fun dev args => { args with nvos32 := { args.nvos32 with total := dev.fbInfo.totalMem } },
    setArgs fun dev args => { args with nvos32 := { args.nvos32 with free := dev.fbInfo.freeMem } }]
  match pApi.function with
  | .allocSize =>
    if pApi.allocSize.alignment ≠ 0 then
      let alignSize := roundUp pApi.allocSize.size pApi.allocSize.alignment
      .locked (.block [
        .when (fun s => some (s.1.fbInfo.freeMem < alignSize))
          (.block (refuse ++ [setSuccess])),
        unlockMu]) Frame.result
    else .unlocked 0
  | .info =>
    let alignSize := 0
    .locked (.block [.when (fun s => some (s.1.fbInfo.freeMem < alignSize)) (.block refuse), unlockMu]) Frame.result
  | .other _ => .unlocked 0

def preRmAllocStage (args : Args) : Stage :=
  let pApi := args.nvos21
  match pApi.hClass with
  | .nv01MemoryLocalUser =>
    let params := pApi.pAllocParms.memory
    if params.alignment ≠ 0 then
      let alignSize := roundUp params.size params.alignment
      .locked (.block [
        .when (fun s => some (s.1.fbInfo.freeMem < alignSize)) (.block [
          setArgs fun _ args => { args with nvos21 := { args.nvos21 with status := .errNoMemory } },
          setSuccess]),
        unlockMu]) Frame.result
    else .unlocked 0
  | _ => .unlocked 0

def preStage (cmd : UInt32) (args : Args) : Stage :=
  let argCmd := iocNr cmd
  if argCmd = nvEscRmVidHeapControl then preVidHeapAllocStage args
  else if argCmd = nvEscRmAlloc then preRmAllocStage args
  else .unlocked 0

def postDeviceRmAllocStage (malloc : Bool) (pApi : NVOS21Parameters) : Stage :=
  let deviceId := pApi.pAllocParms.deviceId
  .locked (.block [
    fileRm malloc (fun _ mem => { mem with object := pApi.hObjectNew })
      (fun _ mem => { mem with deviceId := deviceId.toUInt32 }),
    unlockMu]) Frame.result

def postCtrlRmAllocStage (malloc : Bool) (pApi : NVOS21Parameters) : Stage :=
  .locked (.block [
    searchRm pApi.hObjectParent takeDeviceId,
    .ite (fun s => some (s.2.deviceId == -1)) .skip
      (fileRm malloc (fun _ mem => { mem with object := pApi.hObjectNew })
        (fun x mem => { mem with deviceId := x.deviceId.toUInt32 })),
    unlockMu]) Frame.result

def postMemoryRmAllocStage (malloc : Bool) (pApi : NVOS21Parameters) : Stage :=
  if pApi.status ≠ .ok then .unlocked 0
  else
    let params := pApi.pAllocParms.memory
    if params.alignment = 0 then .unlocked 0
    else
      .locked (fileMem malloc (fun _ mem => { mem with object := params.owner })
        (fun _ mem => { mem with size := params.size }) [unlockMu]) Frame.result

def postRmAllocStage (malloc : Bool) (args : Args) : Stage :=
  let pApi := args.nvos21
  match pApi.hClass with
  | .nv01Device0 => postDeviceRmAllocStage malloc pApi
  | .nv20Subdevice0 => postCtrlRmAllocStage malloc pApi
  | .nv01MemoryLocalUser => postMemoryRmAllocStage malloc pApi
  | .other _ => .unlocked 0

def postVidHeapAllocStage (malloc : Bool) (args : Args) : Stage :=
  let pApi := args.nvos32
  if pApi.status ≠ .ok then .unlocked 0
  else if pApi.allocSize.alignment = 0 then .unlocked 0
  else
    .locked (fileMem malloc (fun _ mem => { mem with object := pApi.allocSize.hMemory })
      (fun _ mem => { mem with size := pApi.allocSize.size }) [
        setArgs fun dev args => { args with nvos32 := { args.nvos32 with total := dev.fbInfo.totalMem } },
        setArgs fun dev args => { args with nvos32 := { args.nvos32 with free := dev.fbInfo.freeMem } },
        unlockMu]) Frame.result

def postRmVidHeapControlStage (malloc : Bool) (minor : UInt32) (args : Args) : Stage :=
  if minor ≠ nvidiaCtlMinor then .unlocked (-einval)
  else match args.nvos32.function with
    | .allocSize => postVidHeapAllocStage malloc args
    | _ => .unlocked 0

/-- The body the two `FB_GET_INFO` handlers share. -/
def fbGetInfoStage (os : Os) (handle : UInt32) (params : CtrlFbGetInfoParams)
    (answer : Args → CtrlFbGetInfoParams → Args) : Stage :=
  .locked (.block [searchRm handle takeDeviceId, unlockMu]) fun x =>
    if x.deviceId = -1 then (x.ret, x.args)
    else
      let (totalMem, freeMem) := getFbInfo os x.deviceId
      (x.ret, answer x.args { params with
        fbInfoList := rewriteFbInfoList totalMem freeMem params.fbInfoListSize.toNat params.fbInfoList })

def postRmControlStage (os : Os) (minor : UInt32) (args : Args) : Stage :=
  let pApi := args.nvos54
  let answer : Args → CtrlFbGetInfoParams → Args := fun args params =>
    { args with nvos54 := { args.nvos54 with params := params } }
  if minor ≠ nvidiaCtlMinor then .unlocked (-einval)
  else if pApi.status ≠ .ok then .unlocked 0
  else match pApi.cmd with
    | .fbGetInfo => fbGetInfoStage os pApi.hObject pApi.params answer
    | .fbGetInfoV2 => fbGetInfoStage os pApi.hObject pApi.params answer
    | .other _ => .unlocked 0

/-- `list_del(&entry->node); free(entry); entry = NULL;`. -/
def dropEntry : List (Cmd Config) := [lists.zoom listDel, lists.zoom (.exec free)]

def freeDevicePageCode (page : UInt32) : Cmd Config := .block [
  searchRm page .brk,
  .when someEntry (.block dropEntry)]

def freeHeapPageCode (page : UInt32) : Cmd Config := .block [
  searchHeap page .brk,
  .when someEntry (.block ([assignFreeMem (· + ·), assignAllocMem (· - ·)] ++ dropEntry))]

def postRmFreeStage (minor : UInt32) (args : Args) : Stage :=
  let pApi := args.nvos00
  if minor ≠ nvidiaCtlMinor then .unlocked (-einval)
  else if pApi.status ≠ .ok then .unlocked 0
  else if pApi.hObjectOld = pApi.hRoot then .unlocked 0
  else
    .locked (.block [
      if pApi.hRoot = pApi.hObjectParent then freeDevicePageCode pApi.hObjectOld
      else freeHeapPageCode pApi.hObjectOld,
      unlockMu]) Frame.result

def postStage (malloc : Bool) (os : Os) (major minor cmd : UInt32) (args : Args) : Stage :=
  if major ≠ nvidiaDeviceMajor then .unlocked 0
  else
    let argCmd := iocNr cmd
    if argCmd = nvEscRmVidHeapControl then postRmVidHeapControlStage malloc minor args
    else if argCmd = nvEscRmControl then postRmControlStage os minor args
    else if argCmd = nvEscRmFree then postRmFreeStage minor args
    else if argCmd = nvEscRmAlloc then postRmAllocStage malloc args
    else .unlocked 0

end NvResourceController.Ioctl
