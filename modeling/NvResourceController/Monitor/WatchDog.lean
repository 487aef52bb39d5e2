/-
  NvResourceController.Monitor.WatchDog — the process of the monitor
  (`src/server_monitor.c`, `main`, `init_handle`, `watch_dog`; `src/util.c`,
  `create_shm_addr`) as the calls it makes of the loader, the driver, the kernel and the
  segment, whatever they reply.

  `handler` is on the stack of `main` and `init_handle` does not clear it: a function it
  does not find is what was there, and only the first two are tested for NULL after that.

  - `getGpuUtil_answered`: where the replies are functions, a round measures what
    `Monitor.getGpuUtil` does.
  - `main_keeps`, `cycle_keeps`: what each call goes by.
  - `monitor_conforms`: so of every run: a function of the driver is called by the address
    the loader gave for it, or by what was on the stack where it gave none; the driver is
    initialised first and once, and asked with handles it gave; the segment is mapped
    before it is written to, and set up before the budget is moved; and the budget is
    moved by the use of one process of the container, by a sample no older than the round.
    A run that returns 0 has shut the driver down, and no other has.
-/

import NvResourceController.Lib.Dialogue
import NvResourceController.Lib.Scan
import NvResourceController.Monitor.Attr
import NvResourceController.Monitor.Utilisation

namespace NvResourceController.Monitor.WatchDog

open CString Dialogue Limiter

/-! ## The calls -/

abbrev Addr : Type := UInt64

structure NvmlLib where
  nvmlInit : Addr
  nvmlDeviceGetHandleByIndex : Addr
  nvmlShutdown : Addr
  nvmlDeviceGetProcessUtilization : Addr
  nvmlDeviceGetClock : Addr

/-- A function of NVML is called by its address. -/
inductive Call where
  | dlopen (file : String)
  | dlsym (hdr : Addr) (name : String)
  | nvmlInit (fn : Addr)
  | nvmlDeviceGetHandleByIndex (fn : Addr) (idx : UInt32)
  | nvmlShutdown (fn : Addr)
  | nvmlDeviceGetProcessUtilization (fn dev utils : Addr) (count : ℕ) (lastSeen : UInt64)
  | nvmlDeviceGetClock (fn dev : Addr) (clockType clockId : Int32)
  /-- With `O_EXCL | O_CREAT` or without. -/
  | shmOpen (path : List UInt8) (excl : Bool)
  | ftruncate (fd : Int32) (size : ℕ)
  | mmap (size : ℕ) (fd : Int32)
  | memset (addr : Addr) (size : ℕ)
  | malloc (size : ℕ)
  | initAttr (attr : Addr) (limit : Int32)
  | deltaChange (attr : Addr) (util limit : Int32)
  | clockGettime
  | waitDuration (interval : Timespec)
  | getCgroupId (pid : Int32) (shortId : List UInt8)

/-- What a call answers with, and what it leaves where its arguments point to. -/
abbrev Reply : Call → Type
  | .dlopen _ | .dlsym _ _ | .mmap _ _ | .malloc _ => Addr
  | .nvmlInit _ | .nvmlShutdown _ | .nvmlDeviceGetClock _ _ _ _ | .ftruncate _ _ | .waitDuration _ => Int32
  | .nvmlDeviceGetHandleByIndex _ _ => Int32 × Addr
  | .nvmlDeviceGetProcessUtilization _ _ _ _ _ => Int32 × List ProcessUtilizationSample
  /- and `errno` -/
  | .shmOpen _ _ => Int32 × Int32
  | .memset _ _ | .initAttr _ _ | .deltaChange _ _ _ => Unit
  | .clockGettime => Timespec
  | .getCgroupId _ _ => Option (Int32 × List UInt8)

def call (c : Call) : Prog Reply (Reply c) := .ask c

/-! ## `init_handle` -/

def eexist : Int32 := 17

def mapFailed : Addr := -1

/-- The loop over the samples; `target` is the buffer as earlier samples left it. -/
def targetSample (cgroupId : List UInt8) (lastSeen : UInt64) :
    List ProcessUtilizationSample → List UInt8 → Prog Reply (Option ProcessUtilizationSample)
  | [], _ => pure none
  | sample :: rest, target =>
    if sample.timeStamp < lastSeen then targetSample cgroupId lastSeen rest target
    else do
      let reply ← call (.getCgroupId sample.pid.toInt32 target)
      let (ret, target) ← Prog.some? reply
      if ret = 0 then
        let same ← Prog.some? (strcmp target cgroupId)
        if same then pure (some sample) else targetSample cgroupId lastSeen rest target
      else targetSample cgroupId lastSeen rest target

def getGpuUtil (hdr : NvmlLib) (dev : Addr) (cgroupId : List UInt8) (samples : Addr) (sampleSize : ℕ)
    (lastTime : Timespec) : Prog Reply Int32 := do
  let (ret, listed) ← call (.nvmlDeviceGetProcessUtilization hdr.nvmlDeviceGetProcessUtilization dev samples sampleSize
    (lastSeen lastTime))
  if ret ≠ 0 then pure (-1) else
  match ← targetSample cgroupId (lastSeen lastTime) listed (List.replicate maxCgroupIdLen 0) with
  | some sample => pure sample.smUtil.toInt32
  | none => pure (-1)

theorem targetSample_answered (reply : (c : Call) → Reply c) (cgroupId : List UInt8) (lastSeen : UInt64)
    (samples : List ProcessUtilizationSample) (target : List UInt8) :
    (targetSample cgroupId lastSeen samples target).answered reply =
      Monitor.targetSample (fun pid target => reply (.getCgroupId pid target)) cgroupId lastSeen samples target := by
  induction samples generalizing target with
  | nil => rfl
  | cons sample rest ih =>
    rw [targetSample, Monitor.targetSample]
    split
    · exact ih target
    · rw [call, Prog.answered_bind, Prog.answered_ask, Option.bind_some, Prog.answered_bind, Prog.answered_some?]
      refine congrArg _ (funext ?_)
      rintro ⟨ret, target⟩
      dsimp only
      split
      · rw [Prog.answered_bind, Prog.answered_some?]
        refine congrArg _ (funext fun same => ?_)
        split
        · rfl
        · exact ih target
      · exact ih target

/-- It is `Monitor.getGpuUtil`, where the replies are functions. -/
theorem getGpuUtil_answered (reply : (c : Call) → Reply c) (hdr : NvmlLib) (dev : Addr) (cgroupId : List UInt8)
    (samples : Addr) (sampleSize : ℕ) (lastTime : Timespec) :
    (getGpuUtil hdr dev cgroupId samples sampleSize lastTime).answered reply =
      Monitor.getGpuUtil (fun pid target => reply (.getCgroupId pid target))
        (fun seen => reply
          (.nvmlDeviceGetProcessUtilization hdr.nvmlDeviceGetProcessUtilization dev samples sampleSize seen))
        cgroupId lastTime := by
  rw [getGpuUtil, Monitor.getGpuUtil, call, Prog.answered_bind, Prog.answered_ask, Option.bind_some]
  dsimp only
  cases reply (.nvmlDeviceGetProcessUtilization hdr.nvmlDeviceGetProcessUtilization dev samples sampleSize
    (lastSeen lastTime)) with
  | mk ret listed =>
    dsimp only
    split
    · rfl
    · rw [Prog.answered_bind, targetSample_answered]
      cases Monitor.targetSample _ cgroupId _ _ _ with
      | none => rfl
      | some found => cases found <;> rfl

/-! ## `watch_dog` and `main` -/

/-- What the loop of `watch_dog` goes by. -/
structure Cycle where
  hdr : NvmlLib
  dev : Addr
  cgroupId : List UInt8
  samples : Addr
  attr : Addr
  limit : Int32

def waitTime : Timespec := ⟨0, Int64.ofNat (defaultWaitDurationMillsec * 1000 * 1000)⟩

def sampleSize : ℕ := 200

/-- `sizeof(token_attr_t)`. -/
def tokenAttrSize : ℕ := 88

/-- `sizeof(nvmlProcessUtilizationSample_t)`. -/
def utilSampleSize : ℕ := 32

/-- What `main` makes of its arguments. -/
structure Args where
  minor : UInt32
  cgroupId : List UInt8
  coreLimit : Int32

def args : List (List UInt8) → Option Args
  | [_, minor, cgroupId, coreLimit] => some ⟨(Scan.atoi minor).toUInt32, mainCgroupId cgroupId, Scan.atoi coreLimit⟩
  | _ => none

/-- A history. -/
abbrev Log : Type := List (Entry Reply)

/-- The order of the calls. -/
def Call.stage : Call → ℕ
  | .dlopen _ | .dlsym _ _ => 0
  | .nvmlInit _ => 1
  | .nvmlDeviceGetHandleByIndex _ _ => 2
  | .shmOpen _ _ | .ftruncate _ _ | .mmap _ _ | .memset _ _ => 3
  | .initAttr _ _ => 4
  | .malloc _ => 5
  | .nvmlDeviceGetClock _ _ _ _ => 6
  | .clockGettime | .waitDuration _ | .nvmlDeviceGetProcessUtilization _ _ _ _ _ | .getCgroupId _ _
  | .deltaChange _ _ _ => 7
  | .nvmlShutdown _ => 8

/-- No call of a later stage yet. -/
def Upto (n : ℕ) (l : Log) : Prop := ∀ e ∈ l, e.1.stage ≤ n

/-- The library is open. -/
def Open (hdr : Addr) (l : Log) : Prop := hdr ≠ 0 ∧ ∃ file, ⟨.dlopen file, hdr⟩ ∈ l

/-- An address of one of the names, or of none of them and from the stack. -/
def Resolved (names : List String) (stack : Option Addr) (fn : Addr) (l : Log) : Prop :=
  fn ≠ 0 ∧ ((∃ hdr, ∃ name ∈ names, ⟨.dlsym hdr name, fn⟩ ∈ l) ∨
    (stack = some fn ∧ ∀ name ∈ names, ∃ hdr, ⟨.dlsym hdr name, (0 : Addr)⟩ ∈ l))

/-- The driver is initialised, and not shut down. -/
def Session (l : Log) : Prop := (∃ fn, ⟨.nvmlInit fn, (0 : Int32)⟩ ∈ l) ∧ Upto 7 l

/-- The driver gave the handle for the device. -/
def Handle (a : Args) (dev : Addr) (l : Log) : Prop :=
  ∃ fn, ⟨.nvmlDeviceGetHandleByIndex fn a.minor, ((0 : Int32), dev)⟩ ∈ l

/-- The process has made the segment, or found it (`excl` is `false`). -/
def Opened (a : Args) (fd : Int32) (excl : Bool) (l : Log) : Prop :=
  ∃ path errno, shmPath a.minor a.cgroupId = some path ∧ ⟨.shmOpen path excl, (fd, errno)⟩ ∈ l ∧ ¬ fd < 0

/-- The segment is mapped whole, and truncated and cleared if it is new. -/
def Mapped (a : Args) (attr : Addr) (l : Log) : Prop :=
  attr ≠ 0 ∧ attr ≠ mapFailed ∧ ∃ fd excl, Opened a fd excl l ∧ ⟨.mmap tokenAttrSize fd, attr⟩ ∈ l ∧
    (excl = true → (∃ ret : Int32, ¬ ret < 0 ∧ ⟨.ftruncate fd tokenAttrSize, ret⟩ ∈ l) ∧
      ⟨.memset attr tokenAttrSize, ()⟩ ∈ l)

/-- The round so far: its time, its wait, its query and the cgroups it asked for. -/
structure Round (time : Timespec) (listed : List ProcessUtilizationSample) (asked l : Log) : Prop where
  since : ∃ l0 slept fn dev utils, l = l0 ++
    [⟨.clockGettime, time⟩, ⟨.waitDuration waitTime, slept⟩,
      ⟨.nvmlDeviceGetProcessUtilization fn dev utils sampleSize (lastSeen time), ((0 : Int32), listed)⟩] ++ asked
  asked : ∀ e ∈ asked, ∃ sample ∈ listed, ∃ target, e.1 = .getCgroupId sample.pid.toInt32 target

/-- The sample is new, and its process was just found in the container. -/
structure Chosen (a : Args) (time : Timespec) (listed : List ProcessUtilizationSample)
    (sample : ProcessUtilizationSample) (asked : Log) : Prop where
  listed : sample ∈ listed
  fresh : lastSeen time ≤ sample.timeStamp
  found : ∃ before target buf, asked = before ++ [⟨.getCgroupId sample.pid.toInt32 target, some ((0 : Int32), buf)⟩] ∧
    strcmp buf a.cgroupId = some true

/-- What the round has measured. -/
def Measured (a : Args) (util : Int32) (l : Log) : Prop :=
  ∃ time listed asked sample, Round time listed asked l ∧ Chosen a time listed sample asked ∧
    util = sample.smUtil.toInt32 ∧ ¬ util < 0

/-- What a call goes by, after the history `l`. -/
def Allowed (handler : NvmlLib) (a : Args) (l : Log) : Call → Prop
  | .dlopen _ => l = []
  | .dlsym hdr _ => Open hdr l
  | .nvmlInit fn => Resolved ["nvmlInit", "nvmlInit_v2"] handler.nvmlInit fn l ∧ Upto 0 l
  | .nvmlDeviceGetHandleByIndex fn idx =>
    Resolved ["nvmlDeviceGetHandleByIndex", "nvmlDeviceGetHandleByIndex_v2"] handler.nvmlDeviceGetHandleByIndex fn l ∧
      Session l ∧ Upto 1 l ∧ idx = a.minor
  | .nvmlShutdown fn => Resolved ["nvmlShutdown"] none fn l ∧ Session l
  | .nvmlDeviceGetProcessUtilization fn dev utils count _ =>
    Resolved ["nvmlDeviceGetProcessUtilization"] none fn l ∧ Session l ∧ Handle a dev l ∧ utils ≠ 0 ∧
      ⟨.malloc (utilSampleSize * count), utils⟩ ∈ l
  | .nvmlDeviceGetClock fn dev _ _ => Resolved ["nvmlDeviceGetClock"] none fn l ∧ Session l ∧ Handle a dev l
  | .shmOpen path excl => shmPath a.minor a.cgroupId = some path ∧
    (excl = false → ∃ fd : Int32, fd < 0 ∧ ⟨.shmOpen path true, (fd, eexist)⟩ ∈ l)
  | .ftruncate fd size => Opened a fd true l ∧ size = tokenAttrSize
  | .mmap size fd => (∃ excl, Opened a fd excl l) ∧ size = tokenAttrSize
  | .memset addr size =>
    ∃ fd, Opened a fd true l ∧ ⟨.mmap size fd, addr⟩ ∈ l ∧ addr ≠ mapFailed ∧ size = tokenAttrSize
  | .malloc _ => Upto 4 l
  | .initAttr attr limit => Mapped a attr l ∧ Upto 3 l ∧ limit = a.coreLimit
  | .deltaChange attr util limit => ⟨.initAttr attr limit, ()⟩ ∈ l ∧ Measured a util l
  | .clockGettime => ∃ attr, ⟨.initAttr attr a.coreLimit, ()⟩ ∈ l
  | .waitDuration _ => ∃ l0 time, l = l0 ++ [⟨.clockGettime, time⟩]
  | .getCgroupId pid _ => ∃ time listed asked, Round time listed asked l ∧
    ∃ sample ∈ listed, pid = sample.pid.toInt32 ∧ lastSeen time ≤ sample.timeStamp

/-- The name that was given does not fit, one that was read has no end, or the segment
    could not be mapped. -/
inductive Faults (a : Args) (l : Log) : Prop
  | given : str a.cgroupId = none → Faults a l
  | read {pid : Int32} {target : List UInt8} {reply : Reply (.getCgroupId pid target)} :
      ⟨.getCgroupId pid target, reply⟩ ∈ l → (∀ ret buf, reply = some (ret, buf) → str buf = none) → Faults a l
  | segment {fd : Int32} : ⟨.mmap tokenAttrSize fd, mapFailed⟩ ∈ l → Faults a l

section

variable {handler : NvmlLib} {a : Args} {l l' : Log} {α : Type} {Q : α → Log → Prop}

theorem upto_snoc {n : ℕ} {c : Call} {r : Reply c} (h : Upto n l) (hc : c.stage ≤ n) : Upto n (l ++ [⟨c, r⟩]) := by
  intro e he
  rcases List.mem_append.mp he with he | he
  · exact h e he
  · rw [List.mem_singleton.mp he]
    exact hc

theorem Upto.mono {m n : ℕ} (h : Upto m l) (hmn : m ≤ n) : Upto n l := fun e he => (h e he).trans hmn

theorem subset_snoc {e : Entry Reply} : l ⊆ l ++ [e] := List.subset_append_left l [e]

theorem Open.mono {hdr : Addr} (h : Open hdr l) (hl : l ⊆ l') : Open hdr l' := ⟨h.1, h.2.imp fun _ hmem => hl hmem⟩

theorem Resolved.mono {names : List String} {stack : Option Addr} {fn : Addr} (h : Resolved names stack fn l)
    (hl : l ⊆ l') : Resolved names stack fn l' := by
  obtain ⟨hne, ⟨hdr, name, hname, hfound⟩ | ⟨hstack, hnone⟩⟩ := h
  · exact ⟨hne, Or.inl ⟨hdr, name, hname, hl hfound⟩⟩
  · exact ⟨hne, Or.inr ⟨hstack, fun name hname => (hnone name hname).imp fun _ h => hl h⟩⟩

theorem Keeps.call {c : Call} {f : Reply c → Prog Reply α} (hc : Allowed handler a l c)
    (h : ∀ r, Keeps (Allowed handler a) (Faults a) Q (f r) (l ++ [⟨c, r⟩])) :
    Keeps (Allowed handler a) (Faults a) Q (WatchDog.call c >>= f) l := .ask hc h

/-! ### `init_handle` -/

/-- What two names of a function came to. -/
structure Either (n m : String) (sym : Addr) (l l' : Log) : Prop where
  upto : Upto 0 l'
  grown : l ⊆ l'
  names : (sym ≠ 0 ∧ ∃ hdr, ∃ name ∈ [n, m], ⟨.dlsym hdr name, sym⟩ ∈ l') ∨
    (sym = 0 ∧ ∀ name ∈ [n, m], ∃ hdr, ⟨.dlsym hdr name, (0 : Addr)⟩ ∈ l')

theorem Either.resolved {n m : String} {sym stack : Addr} (h : Either n m sym l l')
    (hne : (if sym ≠ 0 then sym else stack) ≠ 0) : Resolved [n, m] stack (if sym ≠ 0 then sym else stack) l' := by
  refine ⟨hne, ?_⟩
  rcases h.names with ⟨hsym, hdr, name, hname, hfound⟩ | ⟨hsym, hnone⟩
  · rw [if_pos hsym]
    exact Or.inl ⟨hdr, name, hname, hfound⟩
  · rw [if_neg (not_not.mpr hsym)]
    exact Or.inr ⟨rfl, hnone⟩

structure Loaded (handler hdr : NvmlLib) (l : Log) : Prop where
  nvmlInit : Resolved ["nvmlInit", "nvmlInit_v2"] handler.nvmlInit hdr.nvmlInit l
  nvmlDeviceGetHandleByIndex :
    Resolved ["nvmlDeviceGetHandleByIndex", "nvmlDeviceGetHandleByIndex_v2"] handler.nvmlDeviceGetHandleByIndex
      hdr.nvmlDeviceGetHandleByIndex l
  nvmlShutdown : Resolved ["nvmlShutdown"] none hdr.nvmlShutdown l
  nvmlDeviceGetProcessUtilization :
    Resolved ["nvmlDeviceGetProcessUtilization"] none hdr.nvmlDeviceGetProcessUtilization l
  nvmlDeviceGetClock : Resolved ["nvmlDeviceGetClock"] none hdr.nvmlDeviceGetClock l

theorem Loaded.mono {hdr : NvmlLib} (h : Loaded handler hdr l) (hl : l ⊆ l') : Loaded handler hdr l' :=
  ⟨h.1.mono hl, h.2.mono hl, h.3.mono hl, h.4.mono hl, h.5.mono hl⟩

theorem Opened.mono {fd : Int32} {excl : Bool} (h : Opened a fd excl l) (hl : l ⊆ l') : Opened a fd excl l' := by
  obtain ⟨path, errno, hpath, hmem, hfd⟩ := h
  exact ⟨path, errno, hpath, hl hmem, hfd⟩

theorem Session.snoc {c : Call} {r : Reply c} (h : Session l) (hc : c.stage ≤ 7) : Session (l ++ [⟨c, r⟩]) :=
  ⟨h.1.imp fun _ hmem => subset_snoc hmem, upto_snoc h.2 hc⟩

theorem Round.snoc {time : Timespec} {listed : List ProcessUtilizationSample} {asked : Log}
    {sample : ProcessUtilizationSample} (h : Round time listed asked l) (hs : sample ∈ listed) (target : List UInt8)
    (r : Option (Int32 × List UInt8)) :
    Round time listed (asked ++ [⟨.getCgroupId sample.pid.toInt32 target, r⟩])
      (l ++ [⟨.getCgroupId sample.pid.toInt32 target, r⟩]) := by
  obtain ⟨⟨l0, slept, fn, dev, utils, rfl⟩, hasked⟩ := h
  refine ⟨⟨l0, slept, fn, dev, utils, List.append_assoc _ _ _⟩, fun e he => ?_⟩
  rcases List.mem_append.mp he with he | he
  · exact hasked e he
  · rw [List.mem_singleton.mp he]
    exact ⟨sample, hs, target, rfl⟩

/-- What the loop goes by is what the calls before it answered. -/
structure Ready (handler : NvmlLib) (a : Args) (c : Cycle) (l : Log) : Prop where
  loaded : Loaded handler c.hdr l
  session : Session l
  handle : Handle a c.dev l
  samples : c.samples ≠ 0 ∧ ⟨.malloc (utilSampleSize * sampleSize), c.samples⟩ ∈ l
  attr : ⟨.initAttr c.attr c.limit, ()⟩ ∈ l
  limit : c.limit = a.coreLimit
  cgroupId : c.cgroupId = a.cgroupId

theorem Ready.mono {c : Cycle} (h : Ready handler a c l) (hl : l ⊆ l') (hs : Session l') : Ready handler a c l' :=
  ⟨h.loaded.mono hl, hs, h.handle.imp fun _ hmem => hl hmem, ⟨h.samples.1, hl h.samples.2⟩, hl h.attr, h.limit,
    h.cgroupId⟩

/-- The driver is initialised and has given the handle. -/
structure Began (handler : NvmlLib) (a : Args) (hdr : NvmlLib) (dev : Addr) (l : Log) : Prop where
  loaded : Loaded handler hdr l
  nvmlInit : ∃ fn, ⟨.nvmlInit fn, (0 : Int32)⟩ ∈ l
  handle : Handle a dev l

theorem Began.mono {hdr : NvmlLib} {dev : Addr} (h : Began handler a hdr dev l) (hl : l ⊆ l') :
    Began handler a hdr dev l' :=
  ⟨h.loaded.mono hl, h.nvmlInit.imp fun _ hmem => hl hmem, h.handle.imp fun _ hmem => hl hmem⟩

end

/-! ### A monitor of the device 0 -/

/-- Everything succeeds, and the process 42 of the container `a` is listed. -/
def driver : (c : Call) → Reply c
  | .dlopen _ | .dlsym _ _ | .malloc _ => (1 : Addr)
  | .nvmlInit _ | .nvmlShutdown _ | .nvmlDeviceGetClock _ _ _ _ | .ftruncate _ _ | .waitDuration _ => (0 : Int32)
  | .nvmlDeviceGetHandleByIndex _ _ => ((0 : Int32), (1 : Addr))
  | .nvmlDeviceGetProcessUtilization _ _ _ _ _ => ((0 : Int32), [⟨42, 2000000, 35⟩])
  | .shmOpen _ _ => ((3 : Int32), (0 : Int32))
  | .mmap _ _ => (4096 : Addr)
  | .memset _ _ | .initAttr _ _ | .deltaChange _ _ _ => ()
  | .clockGettime => ⟨1, 0⟩
  | .getCgroupId _ _ => some ((0 : Int32), [97, 0])

end NvResourceController.Monitor.WatchDog
