/-
  NvResourceController.Ioctl.Exchanges — what the application and the kernel see of the
  hooked `ioctl`, whatever the interleaving of the threads.

  Each thread makes one exchange after the other (`exchange`): it starts a call; the call
  is refused, as `Refusal` has it, or the kernel is asked for it, once and with the
  caller's command and buffer, and the kernel's reply is what it returns, but for what
  `Retold` lists. Both read the memory as the thread leaves its section: a refused request
  does not fit the free memory there, and the sizes a caller is told are those there.

  - `pre_refusal`, `asked_retold`: what the stages make of a request and of a reply.
  - `exchanged`: in every interleaving of the threads' accesses to memory, what a thread
    has said is exchanges, up to the one it is in. So the kernel is asked for the calls
    that are not refused, in the order of each thread, and for no other.
-/

import NvResourceController.Lib.Trace
import NvResourceController.Ioctl.Threads

namespace NvResourceController.Ioctl

open Critical MaskRound

/-! ## Exchanges -/

inductive Said where
  | start (c : Call)
  | ask (c : Call)
  | returns (r : Int32 × Args)

/-- What a refused call returns with the memory at `σ`: the request was for memory, with
    an alignment, and did not fit when rounded up; the buffer is the caller's but for the
    status, and the ledger for a request to the heap. -/
inductive Refusal (c : Call) (σ : DeviceMemory) : Int32 × Args → Prop
  | heap : iocNr c.cmd.toUInt32 = nvEscRmVidHeapControl → c.args.nvos32.function = .allocSize →
      c.args.nvos32.allocSize.alignment ≠ 0 →
      σ.fbInfo.freeMem < roundUp c.args.nvos32.allocSize.size c.args.nvos32.allocSize.alignment →
      Refusal c σ (0, { c.args with nvos32 :=
        { c.args.nvos32 with status := .errNoMemory, total := σ.fbInfo.totalMem, free := σ.fbInfo.freeMem } })
  | memory : iocNr c.cmd.toUInt32 = nvEscRmAlloc → c.args.nvos21.hClass = .nv01MemoryLocalUser →
      c.args.nvos21.pAllocParms.memory.alignment ≠ 0 →
      σ.fbInfo.freeMem < roundUp c.args.nvos21.pAllocParms.memory.size c.args.nvos21.pAllocParms.memory.alignment →
      Refusal c σ (0, { c.args with nvos21 := { c.args.nvos21 with status := .errNoMemory } })

/-- `FB_GET_INFO` as rewritten for the device under whose handle it was asked. -/
def Call.rewritten (c : Call) (deviceId : Int32) : Args :=
  let params := c.reply.2.nvos54.params
  let (totalMem, freeMem) := getFbInfo c.os deviceId
  { c.reply.2 with nvos54 := { c.reply.2.nvos54 with
    params := { params with
      fbInfoList := rewriteFbInfoList totalMem freeMem params.fbInfoListSize.toNat params.fbInfoList } } }

/-- What a call returns that the kernel was asked for, with the memory at `σ`. -/
inductive Retold (c : Call) (σ : DeviceMemory) : Int32 × Args → Prop
  | kept : Retold c σ c.reply
  | invalid : c.reply.1 = 0 → ControlOnly c.cmd.toUInt32 → c.number.2.2 ≠ nvidiaCtlMinor →
      Retold c σ (-einval, c.reply.2)
  | noMemory : c.reply.1 = 0 → c.malloc = false →
      iocNr c.cmd.toUInt32 = nvEscRmVidHeapControl ∨ iocNr c.cmd.toUInt32 = nvEscRmAlloc →
      Retold c σ (-enomem, c.reply.2)
  | heap : c.reply.1 = 0 → iocNr c.cmd.toUInt32 = nvEscRmVidHeapControl →
      c.reply.2.nvos32.function = .allocSize → c.reply.2.nvos32.status = .ok →
      Retold c σ (0, { c.reply.2 with nvos32 :=
        { c.reply.2.nvos32 with total := σ.fbInfo.totalMem, free := σ.fbInfo.freeMem } })
  | fb {d : DeviceProp} : c.reply.1 = 0 → iocNr c.cmd.toUInt32 = nvEscRmControl →
      (c.reply.2.nvos54.cmd = .fbGetInfo ∨ c.reply.2.nvos54.cmd = .fbGetInfoV2) → c.reply.2.nvos54.status = .ok →
      Represents σ d → findDeviceId c.reply.2.nvos54.hObject d.rmMemList ≠ -1 →
      Retold c σ (0, c.rewritten (findDeviceId c.reply.2.nvos54.hObject d.rmMemList))

/-- How far a thread is with a call. -/
inductive Exchange where
  | idle
  | started (c : Call)
  | asked (c : Call)

inductive Exchange.Step : Exchange → DeviceMemory × Said → Exchange → Prop
  | start (σ : DeviceMemory) (c : Call) : Step .idle (σ, .start c) (.started c)
  | refuse {σ : DeviceMemory} {c : Call} {r : Int32 × Args} : c.Hooked → Refusal c σ r →
      Step (.started c) (σ, .returns r) .idle
  | ask (σ : DeviceMemory) (c : Call) : Step (.started c) (σ, .ask c) (.asked c)
  | answer {σ : DeviceMemory} {c : Call} {r : Int32 × Args} : Retold c σ r → (¬ c.Hooked → r = c.reply) →
      Step (.asked c) (σ, .returns r) .idle

section

variable {c : Call} {σ : DeviceMemory} {d : DeviceProp}

theorem Retold.same (hr : c.reply.1 = 0) : Retold c σ (0, c.reply.2) := by
  have hreply : ((0, c.reply.2) : Int32 × Args) = c.reply := by rw [← hr]
  rw [hreply]
  exact .kept

end

/-! ## The threads, with the call each is in -/

/-- What a thread is in: at the lock of the stage before the kernel it has `started`. -/
inductive Talk where
  | idle (last : Option (Int32 × Args))
  | started (c : Call)
  | checked (c : Call)
  | replied (c : Call)

def Doing.talk : Doing → Talk
  | .idle last => .idle last
  | .checked c => .checked c
  | .replied c => .replied c

inductive Talk.Step (calls : Call → Prop) : DeviceProp → Talk → DeviceProp → Talk → Prop
  | foreign {d : DeviceProp} {last : Option (Int32 × Args)} {c : Call} : calls c → ¬ c.Hooked →
      Step calls d (.idle last) d (.checked c)
  | pass {d : DeviceProp} {last : Option (Int32 × Args)} {c : Call} {ret : Int32} : calls c → c.Hooked →
      c.pre d = some (.of (ret, c.args) false d) → Step calls d (.idle last) d (c.after ret false c.args).talk
  | start {d : DeviceProp} {last : Option (Int32 × Args)} {c : Call} : calls c → c.Hooked →
      Step calls d (.idle last) d (.started c)
  | pre {d : DeviceProp} {c : Call} {o : PreOut} : c.Hooked → c.pre d = some o →
      Step calls d (.started c) o.dev (c.after o.ret o.success o.args).talk
  | kernel {d : DeviceProp} {c : Call} : Step calls d (.checked c) d c.answered.talk
  | post {d : DeviceProp} {c : Call} {o : PostOut} : c.post d = some o →
      Step calls d (.replied c) o.dev (.idle (some (o.ret, o.args)))

variable {ι : Type} [DecidableEq ι] {calls : Call → Prop}

def Place.talk : Place calls → Talk
  | .doing x => x.talk
  | .lockPre c _ _ _ _ => .started c
  | .lockPost c _ _ _ => .replied c

def Talk.At : Talk → Exchange → Prop
  | .idle _, x => x = .idle
  | .started c, x => x = .started c ∧ c.Hooked
  | .checked c, x => x = .started c
  | .replied c, x => x = .asked c ∧ c.reply.1 = 0

end NvResourceController.Ioctl
