/-
  NvResourceController.Ioctl.Types — the data of the ioctl hook: the state of one
  hooked process (`include/hook.h`: `device_mem_t`, `rm_mem_t`, `fb_info_t`,
  `device_prop_t`) and the parameter structures of the resource manager through which
  `src/ioctl_hook.c` reads and writes a request's buffer.

  A list threaded through `struct list_head` is the list of its entries, head first. A
  size is a `size_t` (`UInt64`), a handle an `NvHandle` (`UInt32`). The headers of the
  NVIDIA kernel modules are fetched by the build, so an enumeration of theirs has a
  constructor for each value the hook tells apart and `other` for the rest; a parameter
  structure has the fields the hook reads or writes, and `hRoot`.
-/

namespace NvResourceController.Ioctl

/-- `device_mem_t`: one memory object charged to the process. -/
structure DeviceMem where
  object : UInt32
  size : UInt64
  deriving DecidableEq, Repr

/-- `rm_mem_t`: one device or subdevice handle and the device it belongs to. -/
structure RmMem where
  object : UInt32
  deviceId : UInt32
  deriving DecidableEq, Repr

/-- `fb_info_t`: the ledger of one device, in shared memory. -/
structure FbInfo where
  pid : Int32
  totalMem : UInt64
  freeMem : UInt64
  deriving DecidableEq, Repr

/-- `device_prop_t`, what the memory limit uses of it. -/
structure DeviceProp where
  /-- The mutex is held. -/
  mu : Bool
  minor : UInt32
  /-- What `fb_info` points to: the segment every process of the device maps. -/
  fbInfo : FbInfo
  allocMem : UInt64
  memLimited : Bool
  heapMemList : List DeviceMem
  rmMemList : List RmMem
  deriving DecidableEq, Repr

/-! ## Requests -/

inductive NvStatus where
  | ok
  | errNoMemory
  | other (code : UInt32)
  deriving DecidableEq, Repr

/-- `NVOS32_FUNCTION_*`. -/
inductive HeapFunction where
  | allocSize
  | info
  | other (function : UInt32)
  deriving DecidableEq, Repr

/-- `NVOS32_PARAMETERS.data.AllocSize`. -/
structure AllocSize where
  hMemory : UInt32
  size : UInt64
  alignment : UInt64
  deriving DecidableEq, Repr

structure NVOS32Parameters where
  hRoot : UInt32
  hObjectParent : UInt32
  function : HeapFunction
  status : NvStatus
  total : UInt64
  free : UInt64
  allocSize : AllocSize
  deriving DecidableEq, Repr

/-- The object classes of `g_allclasses.h`. -/
inductive HClass where
  | nv01Device0
  | nv20Subdevice0
  | nv01MemoryLocalUser
  | other (hClass : UInt32)
  deriving DecidableEq, Repr

structure NvMemoryAllocationParams where
  owner : UInt32
  size : UInt64
  alignment : UInt64
  deriving DecidableEq, Repr

/-- What `pAllocParms` points to, under the two casts the hook makes of it:
    `*(int *)pAllocParms` and `NV_MEMORY_ALLOCATION_PARAMS *`. -/
structure AllocParms where
  deviceId : Int32
  memory : NvMemoryAllocationParams
  deriving DecidableEq, Repr

structure NVOS21Parameters where
  hRoot : UInt32
  hObjectParent : UInt32
  hObjectNew : UInt32
  hClass : HClass
  pAllocParms : AllocParms
  status : NvStatus
  deriving DecidableEq, Repr

/-- `NV2080_CTRL_FB_INFO_INDEX_*`. -/
inductive FbInfoIndex where
  | totalRamSize
  | heapSize
  | heapFree
  | other (index : UInt32)
  deriving DecidableEq, Repr

structure CtrlFbInfo where
  index : FbInfoIndex
  data : UInt32
  deriving DecidableEq, Repr

/-- `NV2080_CTRL_FB_GET_INFO_PARAMS`, whose list is the caller's, and
    `NV2080_CTRL_FB_GET_INFO_V2_PARAMS`, whose list is part of the structure. -/
structure CtrlFbGetInfoParams where
  fbInfoListSize : UInt32
  fbInfoList : List CtrlFbInfo
  deriving DecidableEq, Repr

/-- `NVOS54_PARAMETERS.cmd`. -/
inductive CtrlCmd where
  | fbGetInfo
  | fbGetInfoV2
  | other (cmd : UInt32)
  deriving DecidableEq, Repr

structure NVOS54Parameters where
  hObject : UInt32
  cmd : CtrlCmd
  params : CtrlFbGetInfoParams
  status : NvStatus
  deriving DecidableEq, Repr

structure NVOS00Parameters where
  hRoot : UInt32
  hObjectParent : UInt32
  hObjectOld : UInt32
  status : NvStatus
  deriving DecidableEq, Repr

/-- The buffer of a request, under each cast a handler makes of it. The command of the
    call picks the cast; no call uses two. -/
structure Args where
  nvos32 : NVOS32Parameters
  nvos21 : NVOS21Parameters
  nvos54 : NVOS54Parameters
  nvos00 : NVOS00Parameters
  deriving DecidableEq, Repr

/-- What `fstat` says of a descriptor. -/
structure Stat where
  /-- `(st_mode & S_IFMT) == S_IFCHR`. -/
  isChr : Bool
  major : UInt32
  minor : UInt32
  deriving DecidableEq, Repr

/-- The system calls of `__get_fb_info`: the segment `create_shm_addr` maps for a device
    id, if it can, and what `readlink` returns for `/proc/<pid>/exe`. -/
structure Os where
  fbSegment : UInt32 → Option FbInfo
  readlink : Int32 → Int32

/-! ## Constants -/

def nvidiaDeviceMajor : UInt32 := 195

def nvidiaCtlMinor : UInt32 := 0xFF

def enomem : Int32 := 12

def einval : Int32 := 22

/-- `_IOC_NR`: a command's number is its low byte. -/
def iocNr (cmd : UInt32) : UInt32 := cmd &&& 0xFF

def nvEscRmFree : UInt32 := 0x29

def nvEscRmControl : UInt32 := 0x2a

def nvEscRmAlloc : UInt32 := 0x2b

def nvEscRmVidHeapControl : UInt32 := 0x4a

end NvResourceController.Ioctl
