/-
  NvResourceController.Limiter.TokenPost — the core limit of one process: the thread
  `token_post` (`src/ioctl_hook.c`), which posts tokens as the shared attribute
  (`include/hook.h`) tells it, and the threads of the application, which take one in
  `rate_limit` (`src/cuda_hook.c`) before each launch.

  Each access to shared memory is a step of its own, and so is each call on the
  semaphore; what a thread does on its own variables is part of the step before or
  after. The monitor and other clients of the attribute may write to it at any time, and
  the application may look up symbols at any time. An array is a function of the index;
  the counters wrap around.
-/

import NvResourceController.Cuda.Lookup
import Mathlib.Algebra.GroupWithZero.Nat
import Mathlib.Data.Int.Notation

namespace NvResourceController.Limiter

open Cuda

/-! ## The attribute -/

structure Timespec where
  tvSec : Int64
  tvNsec : Int64
  deriving DecidableEq, Repr

structure TokenParam where
  addPerCycle : Int32
  coreLimit : Int32
  modTimes : Int32
  avgLaunchs : Int32 → Int32
  launchIdx : Int32
  launchTimes : UInt32

/-- `token_attr_t`, in shared memory. -/
structure TokenAttr where
  changed : Int32
  inited : Int32
  waitTime : Timespec
  params : TokenParam
  /-- The count of the semaphore. -/
  ready : ℕ

def launchSamples : Int32 := 10

/-! ## Semaphores -/

def semValueMax : ℕ := 2 ^ 31 - 1

/-- `sem_init`, whose value is an `unsigned int`. -/
def semInit (value : Int32) : Option ℕ :=
  if value.toUInt32.toNat ≤ semValueMax then some value.toUInt32.toNat else none

/-- `sem_post`: whether it succeeded, and the count. -/
def semPost (count : ℕ) : Bool × ℕ := if count < semValueMax then (true, count + 1) else (false, count)

/-! ## `token_post` -/

/-- What the thread does next. -/
inductive Pc where
  | load
  | copyWait
  | copyAdd
  | clear
  | reset
  | sleep
  | post
  | sample
  | index
  | publish
  | next
  deriving DecidableEq, Repr

structure TokenPost where
  pc : Pc
  interval : Timespec
  i : Int32
  /-- `params.add_per_cycle`, of which the initial value is arbitrary. -/
  addPerCycle : Int32
  loop : Int32
  launchTimes : Int32 → Int32
  /-- The value of `launch_idx` the average is stored by. -/
  launchIdx : Int32

/-- The loop over the samples: the sum of the positive ones, and their number. -/
def sumLaunch (launchTimes : Int32 → Int32) : List Int32 → Int32 × Int32
  | [] => (0, 0)
  | i :: rest =>
    let (sum, j) := sumLaunch launchTimes rest
    if launchTimes i > 0 then (sum + launchTimes i, j + 1) else (sum, j)

def avgLaunch (launchTimes : Int32 → Int32) : Int32 :=
  let (sum, j) := sumLaunch launchTimes [0, 1, 2, 3, 4, 5, 6, 7, 8, 9]
  let sum := sum / (j + 1)
  if sum ≠ 0 then sum else 1

/-! ## The threads of the application -/

def LaunchEntry : Type := { e : EntryEnum // e.isLookup = false }

/-- Where a thread is in a hooked launch. -/
inductive Phase where
  | idle
  /-- At `sem_wait`. -/
  | waiting (e : LaunchEntry)
  /-- `sem_wait` returned `ret`, not interrupted. -/
  | woken (e : LaunchEntry) (ret : Int32)
  /-- `rate_limit` returned `ret`. -/
  | limited (e : LaunchEntry) (ret : Int32)

/-! ## The process -/

variable {F : Type}

/-- A limited process, once `_init_device_prop` is done. -/
structure Client (F : Type) where
  coreLimited : Bool
  /-- The count of the semaphore `tokens`. -/
  tokens : ℕ
  /-- What `attr` points to. -/
  attr : TokenAttr
  post : TokenPost
  threads : ℕ → Phase
  table : Table F
  /-- A `BUG_ON` ended the process. -/
  exited : Bool

/-- The steps of `token_post`, in the order of its loop; those of thread `t`; and what
    others do. -/
inductive Event (F : Type) where
  | load
  | copyWait
  | copyAdd
  | clear
  | reset
  | sleep
  | post (ok : Bool)
  /-- The end of the posting loop, with its bound. -/
  | posted (budget : Int32)
  | sample (value : UInt32)
  | index
  | publish
  | next
  | enter (t : ℕ) (e : LaunchEntry)
  | wait (t : ℕ)
  | interrupted (t : ℕ)
  | failed (t : ℕ)
  | count (t : ℕ)
  | call (t : ℕ) (real : F)
  | refuse (t : ℕ) (ret : Int32)
  | exit (t : ℕ)
  | lookup (table : Table F)
  | shared (attr : TokenAttr)

def Client.phase (s : Client F) (t : ℕ) (p : Phase) : Client F :=
  { s with threads := Function.update s.threads t p }

inductive Step : Client F → Event F → Client F → Prop
  | load (s : Client F) : s.post.pc = .load →
      Step s .load { s with post := { s.post with
        pc := if s.attr.changed ≠ 0 then .copyWait else .reset
        loop := s.post.loop + 1 } }
  | copyWait (s : Client F) : s.post.pc = .copyWait →
      Step s .copyWait { s with post := { s.post with
        pc := .copyAdd
        interval := { s.post.interval with tvNsec := s.attr.waitTime.tvNsec } } }
  | copyAdd (s : Client F) : s.post.pc = .copyAdd →
      Step s .copyAdd { s with post := { s.post with pc := .clear, addPerCycle := s.attr.params.addPerCycle } }
  | clear (s : Client F) : s.post.pc = .clear →
      Step s .clear { s with post := { s.post with pc := .reset }, attr := { s.attr with changed := 0 } }
  | reset (s : Client F) : s.post.pc = .reset →
      Step s .reset { s with
        post := { s.post with pc := .sleep }
        attr := { s.attr with params := { s.attr.params with launchTimes := 0 } } }
  /-- `wait_duration` touches nothing shared; then `i = 0`. -/
  | sleep (s : Client F) : s.post.pc = .sleep → Step s .sleep { s with post := { s.post with pc := .post, i := 0 } }
  | post (s : Client F) : s.post.pc = .post → s.post.i < s.post.addPerCycle →
      Step s (.post (semPost s.tokens).1) { s with
        tokens := (semPost s.tokens).2
        post := { s.post with i := s.post.i + 1 } }
  | posted (s : Client F) : s.post.pc = .post → ¬ s.post.i < s.post.addPerCycle →
      Step s (.posted s.post.addPerCycle) { s with post := { s.post with pc := .sample } }
  | sample (s : Client F) : s.post.pc = .sample →
      Step s (.sample s.attr.params.launchTimes) { s with post := { s.post with
        pc := .index
        launchTimes := Function.update s.post.launchTimes (s.post.loop % launchSamples)
          s.attr.params.launchTimes.toInt32 } }
  | index (s : Client F) : s.post.pc = .index →
      Step s .index { s with post := { s.post with pc := .publish, launchIdx := s.attr.params.launchIdx } }
  | publish (s : Client F) : s.post.pc = .publish →
      Step s .publish { s with
        post := { s.post with pc := .next }
        attr := { s.attr with params := { s.attr.params with
          avgLaunchs := Function.update s.attr.params.avgLaunchs (s.post.launchIdx % 2)
            (avgLaunch s.post.launchTimes) } } }
  | next (s : Client F) : s.post.pc = .next →
      Step s .next { s with
        post := { s.post with pc := .load }
        attr := { s.attr with params := { s.attr.params with launchIdx := s.attr.params.launchIdx + 1 } } }
  /-- A thread calls a hook; without the limit `rate_limit` returns 0 at once. -/
  | enter (s : Client F) (t : ℕ) (e : LaunchEntry) : s.threads t = .idle →
      Step s (.enter t e) (s.phase t (if s.coreLimited then .waiting e else .limited e 0))
  | wait (s : Client F) (t : ℕ) (e : LaunchEntry) : s.threads t = .waiting e → 0 < s.tokens →
      Step s (.wait t) { s.phase t (.woken e 0) with tokens := s.tokens - 1 }
  /-- `sem_wait` is tried again. -/
  | interrupted (s : Client F) (t : ℕ) (e : LaunchEntry) : s.threads t = .waiting e → Step s (.interrupted t) s
  | failed (s : Client F) (t : ℕ) (e : LaunchEntry) : s.threads t = .waiting e →
      Step s (.failed t) (s.phase t (.woken e (-1)))
  /-- The launch is counted whether `sem_wait` failed or not. -/
  | count (s : Client F) (t : ℕ) (e : LaunchEntry) (ret : Int32) : s.threads t = .woken e ret →
      Step s (.count t) { s.phase t (.limited e (if ret = -1 then 999 else ret)) with
        attr := { s.attr with params := { s.attr.params with launchTimes := s.attr.params.launchTimes + 1 } } }
  | call (s : Client F) (t : ℕ) (e : LaunchEntry) (ret : Int32) (f : F) : s.threads t = .limited e ret →
      (Ptr.hook e.val).launch ret s.table = .calls f → Step s (.call t f) (s.phase t .idle)
  | refuse (s : Client F) (t : ℕ) (e : LaunchEntry) (ret r : Int32) : s.threads t = .limited e ret →
      (Ptr.hook e.val).launch ret s.table = .returns r → Step s (.refuse t r) (s.phase t .idle)
  | exit (s : Client F) (t : ℕ) (e : LaunchEntry) (ret : Int32) : s.threads t = .limited e ret →
      (Ptr.hook e.val).launch ret s.table = .exits → Step s (.exit t) { s with exited := true }
  | lookup (s : Client F) (table : Table F) : Step s (.lookup table) { s with table := table }
  | shared (s : Client F) (attr : TokenAttr) : Step s (.shared attr) { s with attr := attr }

structure TokenPost.Starts (p : TokenPost) : Prop where
  pc : p.pc = .load
  interval : p.interval = ⟨0, 0⟩
  loop : p.loop = 0
  launchTimes : ∀ i, p.launchTimes i = 0

structure Client.Starts (s : Client F) : Prop where
  /-- `sem_init` of `tokens`. -/
  tokens : semInit s.attr.params.coreLimit = some s.tokens
  post : s.post.Starts
  threads : ∀ t, s.threads t = .idle
  running : s.exited = false

def client (F : Type) : System (Client F) (Event F) where
  init s := s.Starts
  step s e s' := s.exited = false ∧ Step s e s'

/-! ## Small facts -/

@[simp] theorem phase_self (s : Client F) (t : ℕ) (p : Phase) : (s.phase t p).threads t = p := by
  simp [Client.phase]

@[simp] theorem phase_post (s : Client F) (t : ℕ) (p : Phase) : (s.phase t p).post = s.post := rfl

theorem semInit_some {value : Int32} {count : ℕ} (h : semInit value = some count) : (count : ℤ) = value.toInt := by
  unfold semInit semValueMax at h
  split at h
  · rename_i hv
    cases h
    have : value.toInt = value.toBitVec.toInt := rfl
    rw [this, BitVec.toInt_eq_toNat_of_lt]
    · rfl
    · have hn : value.toUInt32.toNat = value.toBitVec.toNat := rfl
      omega
  · cases h

end NvResourceController.Limiter
