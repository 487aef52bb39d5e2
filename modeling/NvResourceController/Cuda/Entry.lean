/-
  NvResourceController.Cuda.Entry — the table of hooked CUDA functions
  (`include/cuda_entry.h`, `src/cuda_hook.c`) and the lookups that hand the hooks out: the hooked
  `dlsym` (`src/dlfcn.c`) and the two hooked `cuGetProcAddress`.

  `F` is whatever a function pointer outside this table can be; a pointer that can be
  `NULL` is an `Option`. The dynamic linker's own functions are an argument (`Linker`),
  and so is what the driver's `cuGetProcAddress` answers. A function that can exit the
  process returns `none`, or `exits`, when it does. Logging is left out, and so is
  `symbolStatus`, which only the driver writes.
-/

import Mathlib.Logic.Function.Basic

namespace NvResourceController.Cuda

/-! ## The table -/

inductive EntryEnum where
  | cuGetProcAddress
  | cuGetProcAddressV2
  | cuLaunchKernel
  | cuLaunchKernelEx
  | cuLaunchKernelPtsz
  | cuLaunchKernelExPtsz
  deriving DecidableEq, Repr

def EntryEnum.name : EntryEnum → String
  | cuGetProcAddress => "cuGetProcAddress"
  | cuGetProcAddressV2 => "cuGetProcAddress_v2"
  | cuLaunchKernel => "cuLaunchKernel"
  | cuLaunchKernelEx => "cuLaunchKernelEx"
  | cuLaunchKernelPtsz => "cuLaunchKernel_ptsz"
  | cuLaunchKernelExPtsz => "cuLaunchKernelEx_ptsz"

/-- `cuda_hook_funcs_data`: an entry per name, in the order of the enumeration. -/
def cudaHookFuncsData : List EntryEnum :=
  [.cuGetProcAddress, .cuGetProcAddressV2, .cuLaunchKernel, .cuLaunchKernelEx, .cuLaunchKernelPtsz,
    .cuLaunchKernelExPtsz]

/-- A pointer an application can hold: `HOOK_NAME(e)`, the `hook_pfn` of entry `e`, or a
    function outside the table. -/
inductive Ptr (F : Type) where
  | hook (e : EntryEnum)
  | real (f : F)
  deriving DecidableEq, Repr

/-- `real_pfn` of every entry. -/
abbrev Table (F : Type) : Type := EntryEnum → Option F

def findEntry (symbol : String) : Option EntryEnum := cudaHookFuncsData.find? (·.name == symbol)

variable {F : Type}

/-! ## `cuGetProcAddress` -/

structure Request where
  symbol : String
  cudaVersion : Int32
  flags : UInt64
  deriving DecidableEq, Repr

/-- What a `cuGetProcAddress` returns, and what it leaves in `*pfn`. -/
structure Found (P : Type) where
  ret : Int32
  pfn : Option P
  deriving DecidableEq, Repr

/-- The body the two hooks share; `none` is `BUG_ON`. -/
def getProcAddress (self : EntryEnum) (driver : F → Request → Found F) (request : Request) (table : Table F) :
    Option (Found (Ptr F) × Table F) :=
  (table self).map fun entry =>
    let found := driver entry request
    if found.ret ≠ 0 then (⟨found.ret, found.pfn.map .real⟩, table)
    else match findEntry request.symbol with
      | some e =>
        let table := if (table e).isNone then Function.update table e found.pfn else table
        (⟨found.ret, some (.hook e)⟩, table)
      | none => (⟨found.ret, found.pfn.map .real⟩, table)

def hookCuGetProcAddress := @getProcAddress F .cuGetProcAddress

def hookCuGetProcAddressV2 := @getProcAddress F .cuGetProcAddressV2

/-! ## `dlsym` -/

def rtldNext : UInt64 := -1

def libraryName : String := "libcuda_hook.so"

/-- `struct link_map`, without its links. -/
structure LinkMap where
  lAddr : UInt64
  lName : String
  deriving DecidableEq, Repr

structure Linker (F : Type) where
  /-- The file name `dladdr` finds for `get_next_symbol`, if it finds one. -/
  dladdr : Option String
  /-- With `RTLD_NOLOAD | RTLD_LAZY`. -/
  dlopen : String → Option UInt64
  /-- The maps from a handle on, along `l_next`. -/
  linkMap : UInt64 → List LinkMap
  dlsym : UInt64 → String → Option F

/-- The loop of `get_next_symbol`; `none` is `LOGGER(FATAL, ..)`. -/
def nextSymbol (linker : Linker F) (caller : UInt64) (symbol : String) : Nat → List LinkMap → Option (Option F)
  | _, [] => some none
  | index, map :: rest =>
    if caller < map.lAddr then nextSymbol linker caller symbol index rest
    -- the first map at or below the caller is the caller's
    else if index < 1 then nextSymbol linker caller symbol (index + 1) rest
    else match linker.dlopen map.lName with
      | none => none
      | some tempMap =>
        match linker.dlsym tempMap symbol with
        | some handle => some (some handle)
        | none => nextSymbol linker caller symbol index rest

def getNextSymbol (linker : Linker F) (addr : UInt64) (symbol : String) : Option (Option F) :=
  let selfPath := linker.dladdr.getD libraryName
  match linker.dlopen selfPath with
  | none => none
  | some self => nextSymbol linker addr symbol 0 (linker.linkMap self)

/-- The hooked `dlsym`, called from `returnAddr`; `none` when the process exits. -/
def dlsym (linker : Linker F) (returnAddr handle : UInt64) (symbol : String) (table : Table F) :
    Option (Option (Ptr F) × Table F) :=
  if handle = rtldNext then
    (getNextSymbol linker returnAddr symbol).map fun entrypoint => (entrypoint.map .real, table)
  else
    match findEntry symbol, linker.dlsym handle symbol with
    | some e, some entrypoint => some (some (.hook e), Function.update table e (some entrypoint))
    | _, entrypoint => some (entrypoint.map .real, table)

/-! ## The launches -/

inductive Launched (F : Type) where
  /-- Refused by the rate limit. -/
  | returns (ret : Int32)
  | calls (real : F)
  | exits
  deriving DecidableEq, Repr

/-- The body the four launch hooks share, after `rate_limit` returned `ret`. -/
def hookLaunch (self : EntryEnum) (ret : Int32) (table : Table F) : Launched F :=
  if ret ≠ 0 then .returns ret
  else match table self with
    | some entry => .calls entry
    | none => .exits

def hookCuLaunchKernel := @hookLaunch F .cuLaunchKernel

def hookCuLaunchKernelPtsz := @hookLaunch F .cuLaunchKernelPtsz

def hookCuLaunchKernelEx := @hookLaunch F .cuLaunchKernelEx

def hookCuLaunchKernelExPtsz := @hookLaunch F .cuLaunchKernelExPtsz

/-! ## Small facts -/

@[simp] theorem findEntry_name (e : EntryEnum) : findEntry e.name = some e := by
  cases e <;> decide

theorem name_of_findEntry {symbol : String} {e : EntryEnum} (h : findEntry symbol = some e) : e.name = symbol := by
  simpa using List.find?_some h

end NvResourceController.Cuda
