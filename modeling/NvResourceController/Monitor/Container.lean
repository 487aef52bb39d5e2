/-
  NvResourceController.Monitor.Container — the core limit of one container: the monitor
  (`src/server_monitor.c`) and any number of processes (`src/ioctl_hook.c`) on one
  `token_attr_t` in shared memory.

  The monitor attaches and runs `init_attr`, then `delta_change` again and again; between
  two calls it may be restarted with another limit. A process attaches, waits for the
  attribute and starts its thread `token_post`. Each access to the segment is a step of
  its own, and the steps of all come in any order. `create_shm_addr` (`src/util.c`)
  clears a segment it made after others can have opened it.

  - `client_cases`: what a step of a running process is to the others.
  - `released_step`: nobody is past the wait before the attribute is initialised.
-/

import NvResourceController.Lib.Transition
import NvResourceController.Limiter.TokenPost
import NvResourceController.Monitor.Attr

namespace NvResourceController.Monitor

open Limiter

variable {ι F : Type}

/-! ## The monitor -/

/-- What `init_attr` does next. -/
inductive InitPc where
  | testInited
  | coreLimit
  | modTimes
  | addPerCycle
  | avg0
  | avg1
  | launchIdx
  | waitSec
  | waitNsec
  | inited
  | post
  | testLimit
  | newLimit
  | newModTimes
  | scale
  | storeScaled (newCycle : Int32)
  | changed
  deriving DecidableEq, Repr

/-- What `delta_change` does next, with what it has read. -/
inductive DeltaPc where
  | changed
  | idx
  | cur (idx : Int32)
  | last (idx curAvgLaunchs : Int32)
  | old (curAvgLaunchs lastAvgLaunchs : Int32)
  | count (curAvgLaunchs lastAvgLaunchs oldCycle : Int32)
  | store (newCycle : Int32)
  | announce
  deriving DecidableEq, Repr

inductive Server where
  /-- Before `create_shm_addr`. -/
  | attach
  /-- It made the segment, and is to clear it. -/
  | zero
  | init (pc : InitPc)
  /-- Between two calls. -/
  | idle
  | delta (util : Int32) (pc : DeltaPc)
  deriving DecidableEq, Repr

def initStep (limit : Int32) (attr : TokenAttr) : InitPc → TokenAttr × Server
  | .testInited => (attr, .init (if attr.inited = 0 then .coreLimit else .testLimit))
  | .coreLimit => ({ attr with params := { attr.params with coreLimit := limit } }, .init .modTimes)
  | .modTimes => ({ attr with params := { attr.params with modTimes := 0 } }, .init .addPerCycle)
  | .addPerCycle => ({ attr with params := { attr.params with addPerCycle := 1 } }, .init .avg0)
  | .avg0 =>
    ({ attr with params := { attr.params with avgLaunchs := Function.update attr.params.avgLaunchs 0 0 } }, .init .avg1)
  | .avg1 =>
    ({ attr with params := { attr.params with avgLaunchs := Function.update attr.params.avgLaunchs 1 0 } },
      .init .launchIdx)
  | .launchIdx => ({ attr with params := { attr.params with launchIdx := 0 } }, .init .waitSec)
  | .waitSec => ({ attr with waitTime := { attr.waitTime with tvSec := 0 } }, .init .waitNsec)
  | .waitNsec =>
    ({ attr with waitTime := { attr.waitTime with tvNsec := Int64.ofNat (defaultWaitDurationMillsec * 1000 * 1000) } },
      .init .inited)
  | .inited => ({ attr with inited := 1 }, .init .post)
  | .post => ({ attr with ready := (semPost attr.ready).2 }, .init .testLimit)
  | .testLimit => (attr, .init (if attr.params.coreLimit ≠ limit then .newLimit else .changed))
  | .newLimit => ({ attr with params := { attr.params with coreLimit := limit } }, .init .newModTimes)
  | .newModTimes => ({ attr with params := { attr.params with modTimes := 0 } }, .init .scale)
  | .scale =>
    (attr, .init (.storeScaled
      (Int32.ofInt (scaledCycle wrap attr.params.addPerCycle.toInt attr.params.coreLimit.toInt limit.toInt))))
  | .storeScaled newCycle => ({ attr with params := { attr.params with addPerCycle := newCycle } }, .init .changed)
  | .changed => ({ attr with changed := 1 }, .idle)

def deltaStep (limit util : Int32) (attr : TokenAttr) : DeltaPc → TokenAttr × Server
  | .changed => (attr, if attr.changed ≠ 0 then .idle else .delta util .idx)
  | .idx => (attr, .delta util (.cur attr.params.launchIdx))
  | .cur idx => (attr, .delta util (.last idx (attr.params.avgLaunchs (idx % 2))))
  | .last idx cur => (attr, .delta util (.old cur (attr.params.avgLaunchs ((idx + 1) % 2))))
  | .old cur last => (attr, .delta util (.count cur last attr.params.addPerCycle))
  | .count cur last old =>
    let modTimes := attr.params.modTimes + 1
    ({ attr with params := { attr.params with modTimes := modTimes } },
      if modTimes.toInt ≤ sampleTicks then
        if old.toInt ≤ minSampleUtil then .delta util (.store (old + 1)) else .idle
      else if modTimes.toInt % sampleTicks = 0 then
        .delta util (.store (Int32.ofInt (newCycle wrap util.toInt limit.toInt old.toInt cur.toInt last.toInt)))
      else .idle)
  | .store newCycle => ({ attr with params := { attr.params with addPerCycle := newCycle } }, .delta util .announce)
  | .announce => ({ attr with changed := 1 }, .idle)

/-! ## The processes -/

/-- What `_init_device_prop` does next, from `create_shm_addr` on. -/
inductive StartPc where
  | attach
  /-- It made the segment, and is to clear it. -/
  | zero
  | semInit
  | test
  | wait
  | tokens
  deriving DecidableEq, Repr

inductive Proc (F : Type) where
  | starting (pc : StartPc)
  /-- Its thread runs; `copied` is the number of budgets there had been when the thread
      last read one. -/
  | running (client : Client F) (copied : Option ℕ)
  | ended

structure Container (ι F : Type) where
  /-- The segment exists. -/
  mapped : Bool
  /-- The limit the monitor was started with. -/
  limit : Int32
  server : Server
  attr : TokenAttr
  clients : ι → Proc F
  /-- How many budgets were stored. -/
  stores : ℕ

def zeroedAttr : TokenAttr := ⟨0, 0, ⟨0, 0⟩, ⟨0, 0, 0, fun _ => 0, 0, 0⟩, 0⟩

inductive Event (ι F : Type) where
  | server
  | restart (limit : Int32)
  | measure (util : Int32)
  | start (i : ι)
  | interrupted (i : ι)
  | failed (i : ι)
  | create (i : ι) (client : Client F)
  | noTokens (i : ι)
  | client (i : ι) (e : Limiter.Event F)

/-- Whether the step stores a budget of its own; for a new limit `init_attr` stores the
    one that was there. -/
def InitPc.stores : InitPc → ℕ
  | .addPerCycle => 1
  | _ => 0

def DeltaPc.stores : DeltaPc → ℕ
  | .store _ => 1
  | _ => 0

def copiedAfter (stores : ℕ) (copied : Option ℕ) : Limiter.Event F → Option ℕ
  | .copyAdd => some stores
  | _ => copied

theorem copiedAfter_other {stores : ℕ} {copied : Option ℕ} {e : Limiter.Event F} (h : e ≠ .copyAdd) :
    copiedAfter stores copied e = copied := by
  unfold copiedAfter
  split
  · exact absurd rfl h
  · rfl

/-- Others write to the attribute by steps of their own. -/
def IsOwn : Limiter.Event F → Prop
  | .shared _ => False
  | _ => True

variable [DecidableEq ι]

def Container.put (s : Container ι F) (i : ι) (p : Proc F) : Container ι F :=
  { s with clients := Function.update s.clients i p }

inductive Step : Container ι F → Event ι F → Container ι F → Prop
  | attachServer (s : Container ι F) : s.server = .attach →
      Step s .server { s with mapped := true, server := if s.mapped then .init .testInited else .zero }
  | zeroServer (s : Container ι F) : s.server = .zero →
      Step s .server { s with attr := zeroedAttr, server := .init .testInited }
  | init (s : Container ι F) (pc : InitPc) : s.server = .init pc →
      Step s .server { s with
        attr := (initStep s.limit s.attr pc).1
        server := (initStep s.limit s.attr pc).2
        stores := s.stores + pc.stores }
  | delta (s : Container ι F) (util : Int32) (pc : DeltaPc) : s.server = .delta util pc →
      Step s .server { s with
        attr := (deltaStep s.limit util s.attr pc).1
        server := (deltaStep s.limit util s.attr pc).2
        stores := s.stores + pc.stores }
  | restart (s : Container ι F) (limit : Int32) : s.server = .idle → 0 < limit →
      Step s (.restart limit) { s with limit := limit, server := .init .testInited }
  | measure (s : Container ι F) (util : Int32) : s.server = .idle →
      Step s (.measure util) { s with server := .delta util .changed }
  | attach (s : Container ι F) (i : ι) : s.clients i = .starting .attach →
      Step s (.start i) { s.put i (.starting (if s.mapped then .semInit else .zero)) with mapped := true }
  | zero (s : Container ι F) (i : ι) : s.clients i = .starting .zero →
      Step s (.start i) { s.put i (.starting .semInit) with attr := zeroedAttr }
  | semInit (s : Container ι F) (i : ι) : s.clients i = .starting .semInit →
      Step s (.start i) { s.put i (.starting .test) with attr := { s.attr with ready := 0 } }
  | test (s : Container ι F) (i : ι) : s.clients i = .starting .test →
      Step s (.start i) (s.put i (.starting (if s.attr.inited = 0 then .wait else .tokens)))
  | wait (s : Container ι F) (i : ι) : s.clients i = .starting .wait → 0 < s.attr.ready →
      Step s (.start i) { s.put i (.starting .tokens) with attr := { s.attr with ready := s.attr.ready - 1 } }
  /-- `sem_wait` is tried again. -/
  | interrupted (s : Container ι F) (i : ι) : s.clients i = .starting .wait → Step s (.interrupted i) s
  | failed (s : Container ι F) (i : ι) : s.clients i = .starting .wait → Step s (.failed i) (s.put i .ended)
  | create (s : Container ι F) (i : ι) (client : Client F) : s.clients i = .starting .tokens →
      client.attr = s.attr → client.coreLimited = true → client.Starts →
      Step s (.create i client) (s.put i (.running client none))
  | noTokens (s : Container ι F) (i : ι) : s.clients i = .starting .tokens →
      Limiter.semInit s.attr.params.coreLimit = none → Step s (.noTokens i) (s.put i .ended)
  | client (s : Container ι F) (i : ι) (c c' : Client F) (copied : Option ℕ) (e : Limiter.Event F) :
      s.clients i = .running c copied → c.exited = false → IsOwn e → Limiter.Step { c with attr := s.attr } e c' →
      Step s (.client i e) { s.put i (.running c' (copiedAfter s.stores copied e)) with attr := c'.attr }

/-- Before the monitor and any process: `mapped` tells whether there is a cleared segment
    already. -/
structure Container.Fresh (s : Container ι F) : Prop where
  attr : s.attr = zeroedAttr
  server : s.server = .attach
  clients : ∀ i, s.clients i = .starting .attach
  stores : s.stores = 0

/-- A container, from a segment that exists (`mapped`) or not. -/
def container (ι F : Type) [DecidableEq ι] (mapped : Bool) : System (Container ι F) (Event ι F) where
  init s := s.Fresh ∧ s.mapped = mapped
  step := Step

/-! ## Small facts -/

@[simp] theorem put_mapped (s : Container ι F) (i : ι) (p : Proc F) : (s.put i p).mapped = s.mapped := rfl
@[simp] theorem put_limit (s : Container ι F) (i : ι) (p : Proc F) : (s.put i p).limit = s.limit := rfl
@[simp] theorem put_server (s : Container ι F) (i : ι) (p : Proc F) : (s.put i p).server = s.server := rfl
@[simp] theorem put_attr (s : Container ι F) (i : ι) (p : Proc F) : (s.put i p).attr = s.attr := rfl
@[simp] theorem put_stores (s : Container ι F) (i : ι) (p : Proc F) : (s.put i p).stores = s.stores := rfl
@[simp] theorem put_self (s : Container ι F) (i : ι) (p : Proc F) : (s.put i p).clients i = p := by
  simp [Container.put]

theorem put_other {i j : ι} (h : j ≠ i) (s : Container ι F) (p : Proc F) : (s.put i p).clients j = s.clients j := by
  simp [Container.put, h]

theorem put_clients {P : Proc F → Prop} {s : Container ι F} {i : ι} {p : Proc F} (hp : P p)
    (h : ∀ j, P (s.clients j)) (j : ι) : P ((s.put i p).clients j) := by
  by_cases hj : j = i
  · subst hj
    rw [put_self]
    exact hp
  · rw [put_other hj]
    exact h j

/-! ## The steps of a process -/

/-- The thread has seen the flag, and has not lowered it since. -/
def Copies (pc : Pc) : Prop := pc = .copyWait ∨ pc = .copyAdd ∨ pc = .clear

instance : DecidablePred Copies := fun _ => inferInstanceAs (Decidable (_ ∨ _ ∨ _))

/-- What of the attribute a budget is made of, is the same. -/
structure SameBudget (attr attr' : TokenAttr) : Prop where
  inited : attr'.inited = attr.inited
  waitTime : attr'.waitTime = attr.waitTime
  addPerCycle : attr'.params.addPerCycle = attr.params.addPerCycle
  coreLimit : attr'.params.coreLimit = attr.params.coreLimit

theorem SameBudget.refl (attr : TokenAttr) : SameBudget attr attr := ⟨rfl, rfl, rfl, rfl⟩

/-- What the thread has read of the attribute, and where it is in reading it, is the same. -/
structure Quiet (c c' : Client F) : Prop where
  pc : c'.post.pc = c.post.pc ∨ c.post.pc ≠ .load ∧ ¬ Copies c.post.pc ∧ ¬ Copies c'.post.pc
  interval : c'.post.interval = c.post.interval
  addPerCycle : c'.post.addPerCycle = c.post.addPerCycle
  budget : SameBudget c.attr c'.attr
  changed : c'.attr.changed = c.attr.changed
  ready : c'.attr.ready = c.attr.ready

/-- What a step of a running process is to the others. -/
inductive Acts (c : Client F) : Limiter.Event F → Client F → Prop
  | saw : c.post.pc = .load → c.attr.changed ≠ 0 →
      Acts c .load { c with post := { c.post with pc := .copyWait, loop := c.post.loop + 1 } }
  | passed : c.post.pc = .load → c.attr.changed = 0 →
      Acts c .load { c with post := { c.post with pc := .reset, loop := c.post.loop + 1 } }
  | copiedWait : c.post.pc = .copyWait →
      Acts c .copyWait { c with post := { c.post with
        pc := .copyAdd
        interval := { c.post.interval with tvNsec := c.attr.waitTime.tvNsec } } }
  | copiedAdd : c.post.pc = .copyAdd →
      Acts c .copyAdd { c with post := { c.post with pc := .clear, addPerCycle := c.attr.params.addPerCycle } }
  | cleared : c.post.pc = .clear →
      Acts c .clear { c with post := { c.post with pc := .reset }, attr := { c.attr with changed := 0 } }
  | other (e : Limiter.Event F) (c' : Client F) : e ≠ .load → e ≠ .copyAdd → e ≠ .clear → Quiet c c' → Acts c e c'

theorem Quiet.thread {c c' : Client F} (hpc : c.post.pc ≠ .load ∧ ¬ Copies c.post.pc ∧ ¬ Copies c'.post.pc)
    (hinterval : c'.post.interval = c.post.interval) (hadd : c'.post.addPerCycle = c.post.addPerCycle)
    (hbudget : SameBudget c.attr c'.attr) (hchanged : c'.attr.changed = c.attr.changed)
    (hready : c'.attr.ready = c.attr.ready) : Quiet c c' := ⟨Or.inr hpc, hinterval, hadd, hbudget, hchanged, hready⟩

theorem Quiet.application {c c' : Client F} (hpost : c'.post = c.post) (hattr : c'.attr = c.attr) : Quiet c c' := by
  refine ⟨Or.inl (by rw [hpost]), by rw [hpost], by rw [hpost], ?_, by rw [hattr], by rw [hattr]⟩
  rw [hattr]
  exact SameBudget.refl _

theorem client_cases {c c' : Client F} {e : Limiter.Event F} (h : Limiter.Step c e c') (hown : IsOwn e) :
    Acts c e c' := by
  cases h with
  | load hpc =>
    by_cases hchanged : c.attr.changed = 0
    · rw [if_neg (not_not.mpr hchanged)]
      exact .passed hpc hchanged
    · rw [if_pos hchanged]
      exact .saw hpc hchanged
  | copyWait hpc => exact .copiedWait hpc
  | copyAdd hpc => exact .copiedAdd hpc
  | clear hpc => exact .cleared hpc
  | reset hpc =>
    exact .other _ _ nofun nofun nofun
      (Quiet.thread (by simp [Copies, hpc]) rfl rfl ⟨rfl, rfl, rfl, rfl⟩ rfl rfl)
  | sleep hpc =>
    exact .other _ _ nofun nofun nofun (Quiet.thread (by simp [Copies, hpc]) rfl rfl (SameBudget.refl _) rfl rfl)
  | post hpc =>
    exact .other _ _ nofun nofun nofun (Quiet.thread (by simp [Copies, hpc]) rfl rfl (SameBudget.refl _) rfl rfl)
  | posted hpc =>
    exact .other _ _ nofun nofun nofun (Quiet.thread (by simp [Copies, hpc]) rfl rfl (SameBudget.refl _) rfl rfl)
  | sample hpc =>
    exact .other _ _ nofun nofun nofun (Quiet.thread (by simp [Copies, hpc]) rfl rfl (SameBudget.refl _) rfl rfl)
  | index hpc =>
    exact .other _ _ nofun nofun nofun (Quiet.thread (by simp [Copies, hpc]) rfl rfl (SameBudget.refl _) rfl rfl)
  | publish hpc =>
    exact .other _ _ nofun nofun nofun
      (Quiet.thread (by simp [Copies, hpc]) rfl rfl ⟨rfl, rfl, rfl, rfl⟩ rfl rfl)
  | next hpc =>
    exact .other _ _ nofun nofun nofun
      (Quiet.thread (by simp [Copies, hpc]) rfl rfl ⟨rfl, rfl, rfl, rfl⟩ rfl rfl)
  | count t e ret ht =>
    exact .other _ _ nofun nofun nofun ⟨Or.inl rfl, rfl, rfl, ⟨rfl, rfl, rfl, rfl⟩, rfl, rfl⟩
  | enter t e ht => exact .other _ _ nofun nofun nofun (Quiet.application rfl rfl)
  | wait t e ht hc => exact .other _ _ nofun nofun nofun (Quiet.application rfl rfl)
  | interrupted t e ht => exact .other _ _ nofun nofun nofun (Quiet.application rfl rfl)
  | failed t e ht => exact .other _ _ nofun nofun nofun (Quiet.application rfl rfl)
  | call t e ret f ht hl => exact .other _ _ nofun nofun nofun (Quiet.application rfl rfl)
  | refuse t e ret r ht hl => exact .other _ _ nofun nofun nofun (Quiet.application rfl rfl)
  | exit t e ret ht hl => exact .other _ _ nofun nofun nofun (Quiet.application rfl rfl)
  | lookup table => exact .other _ _ nofun nofun nofun (Quiet.application rfl rfl)
  | shared attr => exact absurd hown id

/-! ## Before the attribute is set up -/

/-- The interval of a running process is copied when the budget is. -/
structure ClientStage (c : Client F) (copied : Option ℕ) : Prop where
  sec : c.post.interval.tvSec = 0
  interval : c.post.pc = .copyAdd ∨ c.post.pc = .clear ∨ copied.isSome → c.post.interval = ⟨0, 100000000⟩

/-- Nobody is past the test before the attribute is set up. -/
def ProcStage (attr : TokenAttr) : Proc F → Prop
  | .starting .tokens => attr.inited ≠ 0
  | .running c copied => attr.inited ≠ 0 ∧ ClientStage c copied
  | _ => True

theorem ProcStage.mono {attr attr' : TokenAttr} {p : Proc F} (h : ProcStage attr p)
    (hinited : attr.inited ≠ 0 → attr'.inited ≠ 0) : ProcStage attr' p := by
  cases p with
  | starting pc =>
    cases pc with
    | tokens => exact hinited h
    | _ => trivial
  | running c copied => exact ⟨hinited h.1, h.2⟩
  | ended => trivial

theorem starts_stage {c : Client F} (h : c.Starts) : ClientStage c none := by
  refine ⟨by rw [h.post.interval], fun h' => ?_⟩
  simp [h.post.pc] at h'

theorem ClientStage.quiet {c c' : Client F} {copied : Option ℕ} (h : ClientStage c copied) (hq : Quiet c c') :
    ClientStage c' copied := by
  have hpc : c'.post.pc = .copyAdd ∨ c'.post.pc = .clear → c'.post.pc = c.post.pc := fun hcopies =>
    hq.pc.resolve_right fun hout => hout.2.2 (Or.inr hcopies)
  refine ⟨by rw [hq.interval]; exact h.sec, fun h' => ?_⟩
  rw [hq.interval]
  refine h.interval ?_
  rcases h' with h' | h' | h'
  · exact Or.inl (by rw [← hpc (Or.inl h'), h'])
  · exact Or.inr (Or.inl (by rw [← hpc (Or.inr h'), h']))
  · exact Or.inr (Or.inr h')

theorem clientStep_stage {c c' : Client F} {copied : Option ℕ} {e : Limiter.Event F} (stores : ℕ)
    (h : ClientStage c copied) (hwait : c.attr.waitTime = ⟨0, 100000000⟩) (ha : Acts c e c') :
    ClientStage c' (copiedAfter stores copied e) := by
  cases ha with
  | saw hpc hraised => exact ⟨h.sec, by simpa [copiedAfter] using fun h' => h.interval (Or.inr (Or.inr h'))⟩
  | passed hpc hlow => exact ⟨h.sec, by simpa [copiedAfter] using fun h' => h.interval (Or.inr (Or.inr h'))⟩
  | copiedWait hpc =>
    have hinterval : ({ c.post.interval with tvNsec := c.attr.waitTime.tvNsec } : Timespec) = ⟨0, 100000000⟩ := by
      rw [hwait]
      dsimp only
      rw [h.sec]
    exact ⟨h.sec, fun _ => hinterval⟩
  | copiedAdd hpc =>
    have hinterval := h.interval (Or.inl hpc)
    exact ⟨h.sec, fun _ => hinterval⟩
  | cleared hpc =>
    have hinterval := h.interval (Or.inr (Or.inl hpc))
    exact ⟨h.sec, fun _ => hinterval⟩
  | other e c' hload hadd hclear hq =>
    rw [copiedAfter_other hadd]
    exact h.quiet hq

/-- Nobody is past the wait before the attribute is marked as initialised. -/
structure Released (s : Container ι F) : Prop where
  ready : 0 < s.attr.ready → s.attr.inited ≠ 0
  clients : ∀ i, ProcStage s.attr (s.clients i)

theorem initStep_inited {limit : Int32} {attr : TokenAttr} (pc : InitPc) (h : attr.inited ≠ 0) :
    (initStep limit attr pc).1.inited ≠ 0 := by
  cases pc with
  | inited => exact (by decide : (1 : Int32) ≠ 0)
  | _ => exact h

theorem initStep_ready {limit : Int32} {attr : TokenAttr} {pc : InitPc} (hpost : pc = .post → attr.inited ≠ 0)
    (h : 0 < attr.ready → attr.inited ≠ 0) (hpos : 0 < (initStep limit attr pc).1.ready) :
    (initStep limit attr pc).1.inited ≠ 0 := by
  cases pc with
  | post => exact hpost rfl
  | inited => exact (by decide : (1 : Int32) ≠ 0)
  | _ => exact h hpos

theorem deltaStep_inited (limit util : Int32) (attr : TokenAttr) (pc : DeltaPc) :
    (deltaStep limit util attr pc).1.inited = attr.inited ∧ (deltaStep limit util attr pc).1.ready = attr.ready := by
  cases pc <;> exact ⟨rfl, rfl⟩

theorem Acts.budget {c c' : Client F} {e : Limiter.Event F} (h : Acts c e c') : SameBudget c.attr c'.attr := by
  cases h with
  | other e c' _ _ _ hq => exact hq.budget
  | _ => exact ⟨rfl, rfl, rfl, rfl⟩

theorem Acts.ready {c c' : Client F} {e : Limiter.Event F} (h : Acts c e c') : c'.attr.ready = c.attr.ready := by
  cases h with
  | other e c' _ _ _ hq => exact hq.ready
  | _ => rfl

theorem Released.put {s : Container ι F} (hi : Released s) (i : ι) {p : Proc F} (attr : TokenAttr)
    (hinited : attr.inited = s.attr.inited) (hready : 0 < attr.ready → s.attr.inited ≠ 0)
    (hp : ProcStage attr p) : Released { s.put i p with attr := attr } where
  ready h := by
    rw [hinited]
    exact hready h
  clients := put_clients (P := ProcStage attr) hp fun j => (hi.clients j).mono fun h => by
    rw [hinited]
    exact h

omit [DecidableEq ι] in
theorem Released.cleared {s : Container ι F} (hi : Released s) (hinited : s.attr.inited = 0) (i : ι) :
    ProcStage zeroedAttr (s.clients i) := (hi.clients i).mono fun h => absurd hinited h

theorem released_step {s s' : Container ι F} {e : Event ι F} (hi : Released s)
    (hwait : s.attr.inited ≠ 0 → s.attr.waitTime = ⟨0, 100000000⟩)
    (hpost : s.server = .init .post → s.attr.inited ≠ 0)
    (hzero : (s.server = .zero ∨ ∃ i, e = .start i ∧ s.clients i = .starting .zero) → s.attr.inited = 0)
    (h : Step s e s') : Released s' := by
  cases h with
  | attachServer hserver => exact ⟨hi.ready, hi.clients⟩
  | zeroServer hserver =>
    exact ⟨fun h => absurd h (Nat.lt_irrefl 0), hi.cleared (hzero (Or.inl hserver))⟩
  | init pc hserver =>
    exact ⟨initStep_ready (fun h => hpost (by rw [hserver, h])) hi.ready,
      fun i => (hi.clients i).mono (initStep_inited pc)⟩
  | delta util pc hserver =>
    obtain ⟨hinited, hready⟩ := deltaStep_inited s.limit util s.attr pc
    refine ⟨?_, fun i => (hi.clients i).mono ?_⟩
    · intro h
      rw [hready] at h
      rw [hinited]
      exact hi.ready h
    · intro h
      rw [hinited]
      exact h
  | restart limit hserver hlimit => exact ⟨hi.ready, hi.clients⟩
  | measure util hserver => exact ⟨hi.ready, hi.clients⟩
  | attach i hp =>
    have hput := hi.put i (p := .starting (if s.mapped then .semInit else .zero)) s.attr rfl hi.ready
      (by split <;> trivial)
    exact ⟨hput.ready, hput.clients⟩
  | zero i hp =>
    exact ⟨fun h => absurd h (Nat.lt_irrefl 0), put_clients (P := ProcStage zeroedAttr) trivial
      (hi.cleared (hzero (Or.inr ⟨i, rfl, hp⟩)))⟩
  | semInit i hp => exact hi.put i _ rfl (fun h => absurd h (Nat.lt_irrefl 0)) trivial
  | test i hp =>
    refine hi.put i _ rfl hi.ready ?_
    split
    · trivial
    · assumption
  | wait i hp hpos => exact hi.put i _ rfl (fun _ => hi.ready hpos) (hi.ready hpos)
  | interrupted i hp => exact hi
  | failed i hp => exact hi.put i _ rfl hi.ready trivial
  | create i client hp hattr hlimited hstarts =>
    have hinited := hi.clients i
    rw [hp] at hinited
    exact hi.put i _ rfl hi.ready ⟨hinited, starts_stage hstarts⟩
  | noTokens i hp hnone => exact hi.put i _ rfl hi.ready trivial
  | client i c c' copied e hp hrun hown hstep =>
    have hclient := hi.clients i
    rw [hp] at hclient
    obtain ⟨hinited, hclient⟩ := hclient
    have hacts := client_cases hstep hown
    refine hi.put i _ hacts.budget.inited (fun h => hi.ready ?_) ⟨?_, ?_⟩
    · rw [hacts.ready] at h
      exact h
    · rw [hacts.budget.inited]
      exact hinited
    · have hstage : ClientStage { c with attr := s.attr } copied := ⟨hclient.sec, hclient.interval⟩
      exact clientStep_stage _ hstage (hwait hinited) hacts

omit [DecidableEq ι] in
theorem Container.Fresh.released {s : Container ι F} (h : s.Fresh) : Released s := by
  refine ⟨?_, ?_⟩
  · intro hpos
    rw [h.attr] at hpos
    exact absurd hpos (Nat.lt_irrefl 0)
  · intro i
    rw [h.clients i]
    trivial

/-! ## A limit of 10 -/

def limitTen (server : Server) (attr : TokenAttr) (clients : ι → Proc F) (stores : ℕ) : Container ι F :=
  ⟨true, 10, server, attr, clients, stores⟩

/-- What `init_attr` makes of a cleared attribute, before it raises the flag. -/
def postedAttr : TokenAttr :=
  ⟨0, 1, ⟨0, 100000000⟩, ⟨1, 10, 0, Function.update (Function.update (fun _ => 0) 0 0) 1 0, 0, 0⟩, 1⟩

def announcedAttr : TokenAttr := { postedAttr with changed := 1 }

/-- A thread that starts, with 0 on its stack. -/
def joined (attr : TokenAttr) : Client Unit :=
  ⟨true, 10, attr, ⟨.load, ⟨0, 0⟩, 0, 0, 0, fun _ => 0, 0⟩, fun _ => .idle, fun _ => none, false⟩

theorem joined_starts {attr : TokenAttr} (h : attr.params.coreLimit = 10) : (joined attr).Starts := by
  refine ⟨?_, ⟨rfl, rfl, rfl, fun _ => rfl⟩, fun _ => rfl, rfl⟩
  show semInit attr.params.coreLimit = some 10
  rw [h]
  rfl

/-- The monitor attaches or runs `init_attr`, and no `float` is involved. -/
def Server.Sets : Server → Prop
  | .attach => True
  | .init pc => pc ≠ .scale
  | _ => False

section

variable {ok : Container ι F → Event ι F → Prop} {mapped : Bool}

theorem reach_step {s s' : Container ι F} (e : Event ι F) (h : ((container ι F mapped).restrict ok).Reach s)
    (hok : ok s e) (hstep : Step s e s') : ((container ι F mapped).restrict ok).Reach s' := h.step ⟨hok, hstep⟩

theorem reach_fresh : ((container ι F true).restrict ok).Reach
    (limitTen .attach zeroedAttr (fun _ => .starting .attach) 0) :=
  .init ⟨⟨rfl, rfl, fun _ => rfl, rfl⟩, rfl⟩

theorem reach_init {s : Container ι F} (pc : InitPc) (hok : ∀ s : Container ι F, s.server.Sets → ok s .server)
    (h : ((container ι F mapped).restrict ok).Reach s) (hserver : s.server = .init pc) (hpc : pc ≠ .scale) :
    ((container ι F mapped).restrict ok).Reach { s with
      attr := (initStep s.limit s.attr pc).1
      server := (initStep s.limit s.attr pc).2
      stores := s.stores + pc.stores } :=
  h.step ⟨hok s (by rw [hserver]; exact hpc), .init s pc hserver⟩

/-- `init_attr` up to `sem_post`, by itself. -/
theorem reach_posted {clients : ι → Proc F} (hok : ∀ s : Container ι F, s.server.Sets → ok s .server)
    (h : ((container ι F mapped).restrict ok).Reach (limitTen .attach zeroedAttr clients 0)) :
    ((container ι F mapped).restrict ok).Reach (limitTen (.init .testLimit) postedAttr clients 1) := by
  have h := reach_step .server h (hok _ trivial) (.attachServer _ rfl)
  have h := reach_init .testInited hok h rfl (by decide)
  have h := reach_init .coreLimit hok h rfl (by decide)
  have h := reach_init .modTimes hok h rfl (by decide)
  have h := reach_init .addPerCycle hok h rfl (by decide)
  have h := reach_init .avg0 hok h rfl (by decide)
  have h := reach_init .avg1 hok h rfl (by decide)
  have h := reach_init .launchIdx hok h rfl (by decide)
  have h := reach_init .waitSec hok h rfl (by decide)
  have h := reach_init .waitNsec hok h rfl (by decide)
  have h := reach_init .inited hok h rfl (by decide)
  have h := reach_init .post hok h rfl (by decide)
  exact h

theorem reach_announced {clients : ι → Proc F} {ready : ℕ}
    (hok : ∀ s : Container ι F, s.server.Sets → ok s .server)
    (h : ((container ι F mapped).restrict ok).Reach
      (limitTen (.init .testLimit) { postedAttr with ready := ready } clients 1)) :
    ((container ι F mapped).restrict ok).Reach (limitTen .idle { announcedAttr with ready := ready } clients 1) := by
  have h := reach_init .testLimit hok h rfl (by decide)
  have h := reach_init .changed hok h rfl (by decide)
  exact h

theorem reach_joined {ok : Container Unit Unit → Event Unit Unit → Prop} {clients : Unit → Proc Unit}
    (hstart : ∀ s, ok s (.start ())) (hcreate : ∀ s c, ok s (.create () c)) (hp : clients () = .starting .attach)
    (h : ((container Unit Unit true).restrict ok).Reach (limitTen .idle announcedAttr clients 1)) :
    ((container Unit Unit true).restrict ok).Reach (limitTen .idle { announcedAttr with ready := 0 }
      (Function.update clients () (.running (joined { announcedAttr with ready := 0 }) none)) 1) := by
  have h := reach_step (.start ()) h (hstart _) (.attach _ _ hp)
  have h := reach_step (.start ()) h (hstart _) (.semInit _ _ rfl)
  have h := reach_step (.start ()) h (hstart _) (.test _ _ rfl)
  have h := reach_step (.create () (joined { announcedAttr with ready := 0 })) h (hcreate _ _)
    (.create _ _ _ rfl rfl rfl (joined_starts rfl))
  simpa only [Container.put, limitTen, Function.update_idem] using h

end

end NvResourceController.Monitor
