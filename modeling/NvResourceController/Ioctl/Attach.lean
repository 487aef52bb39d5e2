/-
  NvResourceController.Ioctl.Attach — processes that start at the same time on the ledger
  of one device: `create_shm_addr` (`src/util.c`) and the part of `_init_device_prop`
  (`src/ioctl_hook.c`) that sets `fb_info` up.

  Only the exclusive `shm_open` decides who is first. The segment is sized, cleared and
  set up in steps of their own, and the steps of all come in any order. To touch a
  segment that is not sized ends a process. Nobody else exits.

  - `alone`: one start with no other leaves what `initFbInfo` says.
  - `starts_safe`: nobody touches the segment before it is sized or resets the ledger
    after a charge of another, in a run where no process tests the pid while one is
    about to size the segment, nor charges while one has the ledger yet to set up.
  - `always_safe_iff`: and from no state do all runs keep to the one and not to the other.
-/

import NvResourceController.Ioctl.Ledger

namespace NvResourceController.Ioctl

open System

/-! ## One process -/

/-- The shared memory object of the ledger. -/
structure Segment where
  present : Bool
  sized : Bool
  fb : FbInfo
  deriving DecidableEq, Repr

/-- What `_init_device_prop` does next, from `create_shm_addr` on. -/
inductive StartPc where
  /-- `shm_open` with `O_EXCL`. -/
  | create
  | reopen
  | truncate
  | mmap (first : Bool)
  | memset
  /-- The test of `fb_info->pid`. -/
  | test
  | totalMem
  | freeMem
  | pid
  | ready
  /-- A bus error. -/
  | fault
  deriving DecidableEq, Repr

/-- `need_init`. -/
def needInit (lstat : Int32 → Lstat) (fb : FbInfo) : Bool :=
  if fb.pid = 0 then true
  else match lstat fb.pid with
    | .found => false
    | .failed errno => errno = enoent

def touch (seg : Segment) (fb : FbInfo) (pc : StartPc) : Segment × StartPc :=
  if seg.sized then ({ seg with fb := fb }, pc) else (seg, .fault)

def startStep (lstat : Int32 → Lstat) (pid : Int32) (total : UInt64) (seg : Segment) : StartPc → Segment × StartPc
  | .create => if seg.present then (seg, .reopen) else (⟨true, false, ⟨0, 0, 0⟩⟩, .truncate)
  | .reopen => (seg, .mmap false)
  | .truncate => ({ seg with sized := true }, .mmap true)
  | .mmap first => (seg, if first then .memset else .test)
  | .memset => touch seg ⟨0, 0, 0⟩ .test
  | .test => touch seg seg.fb (if needInit lstat seg.fb then .totalMem else .ready)
  | .totalMem => touch seg { seg.fb with totalMem := total } .freeMem
  | .freeMem => touch seg { seg.fb with freeMem := total } .pid
  | .pid => touch seg { seg.fb with pid := pid } .ready
  | .ready => (seg, .ready)
  | .fault => (seg, .fault)

def StartPc.running : StartPc → Bool
  | .ready | .fault => false
  | _ => true

/-- The step reads or writes the segment. -/
def StartPc.touches : StartPc → Bool
  | .memset | .test | .totalMem | .freeMem | .pid => true
  | _ => false

/-- The step sets a field of the ledger to what a start gives it. -/
def StartPc.resets : StartPc → Bool
  | .memset | .totalMem | .freeMem | .pid => true
  | _ => false

/-! ## All of them -/

/-- Processes that are alive, each with its limit. -/
structure Starters (ι : Type) where
  pid : ι → Int32
  total : ι → UInt64
  lstat : Int32 → Lstat
  alive : ∀ i, pid i ≠ 0 ∧ lstat (pid i) = .found

structure Startup (ι : Type) where
  seg : Segment
  pc : ι → StartPc
  /-- It has charged an allocation. -/
  charged : ι → Bool

inductive StartEvent (ι : Type) where
  | next (i : ι)
  | charge (i : ι) (size : UInt64)

variable {ι : Type} [DecidableEq ι]

def Startup.put (s : Startup ι) (i : ι) (seg : Segment) (pc : StartPc) : Startup ι :=
  { s with seg := seg, pc := Function.update s.pc i pc }

/-- The next step of a process. -/
def Startup.next (x : Starters ι) (s : Startup ι) (i : ι) : Startup ι :=
  let (seg, pc) := startStep x.lstat (x.pid i) (x.total i) s.seg (s.pc i)
  s.put i seg pc

def Startup.charge (s : Startup ι) (i : ι) (size : UInt64) : Startup ι :=
  { s with
    seg := { s.seg with fb := { s.seg.fb with freeMem := s.seg.fb.freeMem - size } }
    charged := Function.update s.charged i true }

def Startup.step (x : Starters ι) (s : Startup ι) : StartEvent ι → Startup ι → Prop
  | .next i, s' => (s.pc i).running = true ∧ s' = s.next x i
  | .charge i size, s' => s.pc i = .ready ∧ s' = s.charge i size

/-- Nobody has started. A segment that exists was sized by those who left it. -/
structure Startup.Fresh (s : Startup ι) : Prop where
  seg : s.seg.present = s.seg.sized
  pc : ∀ i, s.pc i = .create
  charged : ∀ i, s.charged i = false

def startup (x : Starters ι) : System (Startup ι) (StartEvent ι) where
  init := Startup.Fresh
  step := Startup.step x

/-! ## What a step does -/

theorem touch_sized {seg : Segment} (h : seg.sized = true) (fb : FbInfo) (pc : StartPc) :
    touch seg fb pc = ({ seg with fb := fb }, pc) := if_pos h

/-- What a process knows of the segment. -/
def StartPc.Stage (seg : Segment) : StartPc → Prop
  | .create => True
  | .reopen | .mmap false | .test | .fault => seg.present = true
  | .truncate => seg.present = true ∧ seg.sized = false
  | .mmap true | .memset | .totalMem | .freeMem | .pid | .ready => seg.present = true ∧ seg.sized = true

/-- What a step is to the others. -/
structure Moved (seg : Segment) (pc : StartPc) (seg' : Segment) (pc' : StartPc) : Prop where
  present : seg.present = true → seg'.present = true
  created : seg'.present = true → seg.present = true ∨ pc' = .truncate
  first : pc' = .truncate → seg.present = false
  sized : pc ≠ .truncate → seg'.sized = seg.sized
  truncated : pc = .truncate → seg'.sized = true
  stage : pc'.Stage seg'

theorem touch_moved {seg : Segment} {pc pc' : StartPc} (hsized : seg.sized = true → seg.present = true)
    (hpresent : seg.present = true) (hpc : pc ≠ .truncate) (hpc' : pc' ≠ .truncate) (fb : FbInfo)
    (hstage : seg.present = true → seg.sized = true → pc'.Stage { seg with fb := fb }) :
    Moved seg pc (touch seg fb pc').1 (touch seg fb pc').2 := by
  unfold touch
  split
  · rename_i h
    exact ⟨id, Or.inl, fun h => absurd h hpc', fun _ => rfl, fun h => absurd h hpc, hstage (hsized h) h⟩
  · exact ⟨id, Or.inl, nofun, fun _ => rfl, fun h => absurd h hpc, hpresent⟩

theorem startStep_moved (lstat : Int32 → Lstat) (pid : Int32) (total : UInt64) {seg : Segment} {pc : StartPc}
    (hsized : seg.sized = true → seg.present = true) (h : pc.Stage seg) :
    Moved seg pc (startStep lstat pid total seg pc).1 (startStep lstat pid total seg pc).2 := by
  cases pc with
  | create =>
    rw [startStep]
    split
    · rename_i hp
      exact ⟨id, Or.inl, nofun, fun _ => rfl, nofun, hp⟩
    · rename_i hp
      have hunsized : seg.sized = false := by
        rw [← Bool.not_eq_true]
        exact fun h => hp (hsized h)
      exact ⟨fun _ => rfl, fun _ => Or.inr rfl, fun _ => by simpa using hp, fun _ => hunsized.symm, nofun, rfl, rfl⟩
  | reopen => exact ⟨id, Or.inl, nofun, fun _ => rfl, nofun, h⟩
  | truncate => exact ⟨id, Or.inl, nofun, fun h => absurd rfl h, fun _ => rfl, h.1, rfl⟩
  | mmap first =>
    cases first with
    | false => exact ⟨id, Or.inl, nofun, fun _ => rfl, nofun, h⟩
    | true => exact ⟨id, Or.inl, nofun, fun _ => rfl, nofun, h⟩
  | memset => exact touch_moved hsized h.1 (by decide) (by decide) _ fun hp _ => hp
  | test =>
    refine touch_moved hsized h (by decide) ?_ _ fun hp hs => ?_
    · split <;> decide
    · split <;> exact ⟨hp, hs⟩
  | totalMem => exact touch_moved hsized h.1 (by decide) (by decide) _ fun hp hs => ⟨hp, hs⟩
  | freeMem => exact touch_moved hsized h.1 (by decide) (by decide) _ fun hp hs => ⟨hp, hs⟩
  | pid => exact touch_moved hsized h.1 (by decide) (by decide) _ fun hp hs => ⟨hp, hs⟩
  | ready => exact ⟨id, Or.inl, nofun, fun _ => rfl, nofun, h⟩
  | fault => exact ⟨id, Or.inl, nofun, fun _ => rfl, nofun, h⟩

theorem next_seg (x : Starters ι) (s : Startup ι) (i : ι) :
    (s.next x i).seg = (startStep x.lstat (x.pid i) (x.total i) s.seg (s.pc i)).1 := rfl

theorem next_self (x : Starters ι) (s : Startup ι) (i : ι) :
    (s.next x i).pc i = (startStep x.lstat (x.pid i) (x.total i) s.seg (s.pc i)).2 := Function.update_self ..

theorem next_other {i j : ι} (h : j ≠ i) (x : Starters ι) (s : Startup ι) : (s.next x i).pc j = s.pc j :=
  Function.update_of_ne h ..

theorem next_charged (x : Starters ι) (s : Startup ι) (i : ι) : (s.next x i).charged = s.charged := rfl

/-! ## Any order -/

/-- The segment and the processes, in any order of steps. -/
structure Startup.Inv (s : Startup ι) : Prop where
  stage : ∀ i, (s.pc i).Stage s.seg
  sized : s.seg.sized = true → s.seg.present = true
  creator : s.seg.present = true → s.seg.sized = true ∨ ∃ i, s.pc i = .truncate
  one : ∀ i j, s.pc i = .truncate → s.pc j = .truncate → i = j
  charged : ∀ i, s.charged i = true → s.pc i = .ready

/-- What a process knows stays true, but for the one that is to size the segment. -/
theorem StartPc.Stage.mono {seg seg' : Segment} {pc : StartPc} (h : pc.Stage seg)
    (hpresent : seg.present = true → seg'.present = true)
    (hsized : seg'.sized = seg.sized ∨ (seg'.sized = true ∧ pc ≠ .truncate)) : pc.Stage seg' := by
  have hkept : seg.sized = true → seg'.sized = true := by
    intro hs
    rcases hsized with h | h
    · rw [h, hs]
    · exact h.1
  cases pc with
  | create => trivial
  | truncate => exact ⟨hpresent h.1, (hsized.resolve_right fun h => h.2 rfl).trans h.2⟩
  | mmap first =>
    cases first with
    | false => exact hpresent h
    | true => exact ⟨hpresent h.1, hkept h.2⟩
  | reopen => exact hpresent h
  | test => exact hpresent h
  | fault => exact hpresent h
  | memset => exact ⟨hpresent h.1, hkept h.2⟩
  | totalMem => exact ⟨hpresent h.1, hkept h.2⟩
  | freeMem => exact ⟨hpresent h.1, hkept h.2⟩
  | pid => exact ⟨hpresent h.1, hkept h.2⟩
  | ready => exact ⟨hpresent h.1, hkept h.2⟩

omit [DecidableEq ι] in
theorem Startup.Fresh.inv {s : Startup ι} (h : s.Fresh) : s.Inv where
  stage i := by
    rw [h.pc i]
    trivial
  sized hs := h.seg.trans hs
  creator hp := Or.inl (h.seg.symm.trans hp)
  one i j hi := by
    rw [h.pc i] at hi
    cases hi
  charged i hc := by
    rw [h.charged i] at hc
    cases hc

theorem inv_next {x : Starters ι} {s : Startup ι} (hi : s.Inv) {i : ι} (hrun : (s.pc i).running = true) :
    (s.next x i).Inv := by
  have hm := startStep_moved x.lstat (x.pid i) (x.total i) hi.sized (hi.stage i)
  rw [← next_seg, ← next_self] at hm
  -- nobody else is about to size the segment
  have hsized : ∀ j, j ≠ i → (s.next x i).seg.sized = s.seg.sized ∨
      ((s.next x i).seg.sized = true ∧ s.pc j ≠ .truncate) := by
    intro j hj
    by_cases ht : s.pc i = .truncate
    · exact Or.inr ⟨hm.truncated ht, fun h => hj (hi.one j i h ht)⟩
    · exact Or.inl (hm.sized ht)
  have hnew : ∀ j, j ≠ i → (s.next x i).pc i = .truncate → s.pc j ≠ .truncate := by
    intro j _ hnext htrunc
    have := hi.stage j
    rw [htrunc] at this
    exact absurd this.1 (by rw [hm.first hnext]; decide)
  refine ⟨?_, ?_, ?_, ?_, ?_⟩
  · intro j
    by_cases hj : j = i
    · rw [hj]
      exact hm.stage
    · rw [next_other hj]
      exact (hi.stage j).mono hm.present (hsized j hj)
  · intro hs
    by_cases ht : s.pc i = .truncate
    · have := hi.stage i
      rw [ht] at this
      exact hm.present this.1
    · rw [hm.sized ht] at hs
      exact hm.present (hi.sized hs)
  · intro hp
    rcases hm.created hp with hp | hnext
    · rcases hi.creator hp with hs | ⟨j, hj⟩
      · by_cases ht : s.pc i = .truncate
        · exact Or.inl (hm.truncated ht)
        · exact Or.inl ((hm.sized ht).trans hs)
      · by_cases hji : j = i
        · exact Or.inl (hm.truncated (hji ▸ hj))
        · exact Or.inr ⟨j, (next_other hji x s).trans hj⟩
    · exact Or.inr ⟨i, hnext⟩
  · intro j k hj hk
    by_cases hji : j = i
    · by_cases hki : k = i
      · rw [hji, hki]
      · rw [next_other hki] at hk
        exact absurd hk (hnew k hki (hji ▸ hj))
    · rw [next_other hji] at hj
      by_cases hki : k = i
      · exact absurd hj (hnew j hji (hki ▸ hk))
      · rw [next_other hki] at hk
        exact hi.one j k hj hk
  · intro j hc
    have hready := hi.charged j hc
    have hji : j ≠ i := by
      intro h
      rw [← h, hready] at hrun
      cases hrun
    rw [next_other hji]
    exact hready

theorem inv_charge {s : Startup ι} (hi : s.Inv) {i : ι} (hready : s.pc i = .ready) (size : UInt64) :
    (s.charge i size).Inv where
  stage j := (hi.stage j).mono id (Or.inl rfl)
  sized := hi.sized
  creator := hi.creator
  one := hi.one
  charged j hc := by
    by_cases hj : j = i
    · rw [hj]
      exact hready
    · exact hi.charged j ((Function.update_of_ne hj ..).symm.trans hc)

theorem inv_step {x : Starters ι} {s s' : Startup ι} {e : StartEvent ι} (hi : s.Inv) (h : s.step x e s') : s'.Inv := by
  cases e with
  | next i =>
    obtain ⟨hrun, rfl⟩ := h
    exact inv_next hi hrun
  | charge i size =>
    obtain ⟨hready, rfl⟩ := h
    exact inv_charge hi hready size

theorem reach_inv {x : Starters ι} {s : Startup ι} (h : (startup x).Reach s) : s.Inv :=
  Reach.inv (I := Startup.Inv) (fun _ h => Startup.Fresh.inv h) (fun _ _ _ hi hs => inv_step hi hs) h

/-! ## In time -/

def Startup.Touches (s : Startup ι) : StartEvent ι → Prop
  | .next i => (s.pc i).touches = true
  | .charge _ _ => True

/-- A step touches the segment only when it is sized, and resets the ledger only when no
    other process has charged. -/
structure Safe (s : Startup ι) (e : StartEvent ι) : Prop where
  sized : s.Touches e → s.seg.sized = true
  kept : ∀ i j, e = .next i → (s.pc i).resets = true → s.charged j = true → j = i

/-- The process has the ledger yet to set up, or will if nothing is written before it
    looks. -/
def StartPc.pending (need : Bool) : StartPc → Bool
  | .truncate | .mmap true | .memset | .totalMem | .freeMem | .pid => true
  | .create | .reopen | .mmap false | .test => need
  | .ready | .fault => false

def Startup.Pending (x : Starters ι) (s : Startup ι) (i : ι) : Prop :=
  (s.pc i).pending (needInit x.lstat s.seg.fb) = true

instance (x : Starters ι) (s : Startup ι) (i : ι) : Decidable (s.Pending x i) :=
  inferInstanceAs (Decidable (_ = true))

/-- No pid is tested while a process is about to size the segment, and nothing is charged
    while one has the ledger yet to set up. -/
def Timely (x : Starters ι) (s : Startup ι) : StartEvent ι → Prop
  | .next i => s.pc i = .test → ∀ j, s.pc j ≠ .truncate
  | .charge _ _ => ∀ j, ¬ s.Pending x j

omit [DecidableEq ι] in
theorem Startup.Pending.of_pid {x : Starters ι} {s s' : Startup ι} {i : ι} (hpc : s'.pc i = s.pc i)
    (hpid : s'.seg.fb.pid = s.seg.fb.pid) (h : s'.Pending x i) : s.Pending x i := by
  have hneed : needInit x.lstat s'.seg.fb = needInit x.lstat s.seg.fb := by rw [needInit, needInit, hpid]
  rw [Startup.Pending, hpc, hneed] at h
  exact h

/-- A step of a process that has nothing to set up: it leaves the ledger, and has nothing
    to set up after it. -/
theorem settled_next {x : Starters ι} {s : Startup ι} {i : ι} (hp : s.seg.present = true)
    (h : ¬ s.Pending x i) : (s.next x i).seg.fb = s.seg.fb ∧ ¬ (s.next x i).Pending x i := by
  rw [Startup.Pending] at h
  rw [Startup.Pending, next_self, next_seg]
  cases hpc : s.pc i with
  | create =>
    rw [hpc] at h
    rw [startStep, if_pos hp]
    exact ⟨rfl, h⟩
  | reopen =>
    rw [hpc] at h
    exact ⟨rfl, h⟩
  | mmap first =>
    rw [hpc] at h
    cases first with
    | false => exact ⟨rfl, h⟩
    | true => exact absurd rfl h
  | test =>
    rw [hpc] at h
    have hneed : ¬ needInit x.lstat s.seg.fb = true := h
    rw [startStep, if_neg hneed, touch]
    split <;> exact ⟨rfl, nofun⟩
  | ready => exact ⟨rfl, nofun⟩
  | fault => exact ⟨rfl, nofun⟩
  | _ =>
    rw [hpc] at h
    exact absurd rfl h

/-- Once a process has charged, none has the ledger yet to set up. -/
def Startup.Settled (x : Starters ι) (s : Startup ι) : Prop := ∀ i, s.charged i = true → ∀ j, ¬ s.Pending x j

theorem settled_step {x : Starters ι} {s s' : Startup ι} {e : StartEvent ι} (hi : s.Inv) (hsettled : s.Settled x)
    (htimely : Timely x s e) (h : s.step x e s') : s'.Settled x := by
  cases e with
  | next i =>
    obtain ⟨hrun, rfl⟩ := h
    intro k hk j
    rw [next_charged] at hk
    have hnone := hsettled k hk
    have hstage := hi.stage k
    rw [hi.charged k hk] at hstage
    obtain ⟨hfb, hown⟩ := settled_next hstage.1 (hnone i)
    by_cases hj : j = i
    · rw [hj]
      exact hown
    · exact fun hpending => hnone j (hpending.of_pid (next_other hj x s) (by rw [hfb]))
  | charge i size =>
    obtain ⟨hready, rfl⟩ := h
    exact fun _ _ j hpending => htimely j (hpending.of_pid rfl rfl)

theorem timely_inv {x : Starters ι} {s : Startup ι} (h : ((startup x).restrict (Timely x)).Reach s) :
    s.Inv ∧ s.Settled x := by
  refine Reach.inv (I := fun s => s.Inv ∧ s.Settled x) ?_ ?_ h
  · intro s hfresh
    refine ⟨hfresh.inv, ?_⟩
    intro i hc
    rw [hfresh.charged i] at hc
    cases hc
  · intro s e s' hi hstep
    obtain ⟨htimely, hstep⟩ := hstep
    exact ⟨inv_step hi.1 hstep, settled_step hi.1 hi.2 htimely hstep⟩

omit [DecidableEq ι] in
theorem pending_of_resets {x : Starters ι} {s : Startup ι} {i : ι} (h : (s.pc i).resets = true) : s.Pending x i := by
  rw [Startup.Pending]
  cases hpc : s.pc i with
  | memset => rfl
  | totalMem => rfl
  | freeMem => rfl
  | pid => rfl
  | _ =>
    rw [hpc] at h
    cases h

theorem sized_of_timely {x : Starters ι} {s s' : Startup ι} {e : StartEvent ι} (hi : s.Inv) (htimely : Timely x s e)
    (h : s.step x e s') (ht : s.Touches e) : s.seg.sized = true := by
  cases e with
  | charge i size =>
    have hstage := hi.stage i
    rw [h.1] at hstage
    exact hstage.2
  | next i =>
    have hstage := hi.stage i
    change (s.pc i).touches = true at ht
    cases hpc : s.pc i with
    | test =>
      rw [hpc] at hstage
      -- it was there, so it is sized or somebody is about to
      rcases hi.creator hstage with hs | ⟨j, hj⟩
      · exact hs
      · exact absurd hj (htimely hpc j)
    | memset =>
      rw [hpc] at hstage
      exact hstage.2
    | totalMem =>
      rw [hpc] at hstage
      exact hstage.2
    | freeMem =>
      rw [hpc] at hstage
      exact hstage.2
    | pid =>
      rw [hpc] at hstage
      exact hstage.2
    | _ =>
      rw [hpc] at ht
      cases ht

theorem Startup.Inv.safe {x : Starters ι} {s s' : Startup ι} {e : StartEvent ι} (hi : s.Inv)
    (hsettled : s.Settled x) (htimely : Timely x s e) (h : s.step x e s') : Safe s e := by
  refine ⟨sized_of_timely hi htimely h, ?_⟩
  intro i j _ hresets hcharged
  exact absurd (pending_of_resets hresets) (hsettled j hcharged i)

/-- In every run all of whose steps are timely, of any number of processes, every step is
    safe. -/
theorem starts_safe {x : Starters ι} {s s' : Startup ι} {e : StartEvent ι}
    (h : ((startup x).restrict (Timely x)).Reach s) (hstep : ((startup x).restrict (Timely x)).step s e s') :
    Safe s e := by
  obtain ⟨hi, hsettled⟩ := timely_inv h
  exact hi.safe hsettled hstep.1 hstep.2

/-! ## One after the other -/

/-- What the segment is to a start that no other runs beside. -/
def Segment.after (x : Starters ι) (i : ι) (seg : Segment) : Segment :=
  ⟨true, true, initFbInfo x.lstat (x.pid i) (x.total i) (if seg.present then seg.fb else ⟨0, 0, 0⟩)⟩

/-- The steps of one process get it and the segment here. -/
def ByItself (x : Starters ι) (s : Startup ι) (i : ι) (seg : Segment) (pc : StartPc) : Prop :=
  ∃ es, (startup x).Run s es (s.put i seg pc)

theorem put_pc (s : Startup ι) (i : ι) (seg : Segment) (pc : StartPc) : (s.put i seg pc).pc i = pc :=
  Function.update_self ..

theorem ByItself.start (x : Starters ι) (s : Startup ι) (i : ι) : ByItself x s i s.seg (s.pc i) := by
  refine ⟨[], ?_⟩
  rw [Startup.put, Function.update_eq_self]
  exact .nil s

theorem ByItself.next {x : Starters ι} {s : Startup ι} {i : ι} {seg seg' : Segment} {pc pc' : StartPc}
    (h : ByItself x s i seg pc) (hrun : pc.running = true)
    (hstep : startStep x.lstat (x.pid i) (x.total i) seg pc = (seg', pc')) : ByItself x s i seg' pc' := by
  obtain ⟨es, h⟩ := h
  have hnext : (startup x).step (s.put i seg pc) (.next i) (s.put i seg' pc') := by
    refine ⟨?_, ?_⟩
    · rw [put_pc]
      exact hrun
    · have hseg : (s.put i seg pc).seg = seg := rfl
      rw [Startup.next, put_pc, hseg, hstep]
      simp only [Startup.put, Function.update_idem]
  exact ⟨_, h.snoc hnext⟩

theorem initFbInfo_eq (lstat : Int32 → Lstat) (pid : Int32) (total : UInt64) (fb : FbInfo) :
    initFbInfo lstat pid total fb = if needInit lstat fb then ⟨pid, total, total⟩ else fb := rfl

theorem ByItself.sets_up {x : Starters ι} {s : Startup ι} {i : ι} {present : Bool} {fb : FbInfo}
    (h : ByItself x s i ⟨present, true, fb⟩ .test) :
    ByItself x s i ⟨present, true, initFbInfo x.lstat (x.pid i) (x.total i) fb⟩ .ready := by
  have h := h.next rfl rfl
  rw [initFbInfo_eq]
  by_cases hn : needInit x.lstat fb = true
  · rw [if_pos hn] at h ⊢
    have h := h.next rfl rfl
    have h := h.next rfl rfl
    exact h.next rfl rfl
  · rw [if_neg hn] at h ⊢
    exact h

/-- One start with no other leaves the ledger as `initFbInfo` says, in a segment that was
    there, or in a cleared one. -/
theorem alone {x : Starters ι} {s : Startup ι} {i : ι} (hpc : s.pc i = .create)
    (hseg : s.seg.present = s.seg.sized) : ByItself x s i (s.seg.after x i) .ready := by
  have h := ByItself.start x s i
  rw [hpc] at h
  cases hs : s.seg with
  | mk present sized fb =>
    rw [hs] at h hseg
    change present = sized at hseg
    subst hseg
    cases present with
    | true =>
      have h := (h.next rfl rfl).next rfl rfl
      exact (h.next rfl rfl).sets_up
    | false =>
      have h := ((h.next rfl rfl).next rfl rfl).next rfl rfl
      exact (h.next rfl rfl).sets_up

omit [DecidableEq ι] in
theorem after_live {x : Starters ι} {i : ι} {seg : Segment} (hpresent : seg.present = true) (hsized : seg.sized = true)
    {j : ι} (hpid : seg.fb.pid = x.pid j) : seg.after x i = seg := by
  have hneed : needInit x.lstat seg.fb = false := by
    rw [needInit, hpid, if_neg (x.alive j).1, (x.alive j).2]
  rw [Segment.after, if_pos hpresent, initFbInfo_eq, hneed]
  cases seg
  cases hpresent
  cases hsized
  rfl

/-! ## Not in time -/

/-- The rest of a run has an unsafe step. -/
def Doomed (x : Starters ι) (s : Startup ι) : Prop :=
  ∃ es t e t', (startup x).Run s es t ∧ (startup x).step t e t' ∧ ¬ Safe t e

theorem ByItself.doomed {x : Starters ι} {s : Startup ι} {i j : ι} {seg : Segment} {pc : StartPc}
    (h : ByItself x s j seg pc) (hresets : pc.resets = true) (hcharged : s.charged i = true) (hij : i ≠ j) :
    Doomed x s := by
  obtain ⟨es, h⟩ := h
  refine ⟨es, _, .next j, _, h, ⟨?_, rfl⟩, ?_⟩
  · rw [put_pc]
    cases pc <;> first | rfl | cases hresets
  · intro hsafe
    refine hij (hsafe.kept j i rfl ?_ hcharged)
    rw [put_pc]
    exact hresets

theorem pending_doomed {x : Starters ι} {s : Startup ι} {i j : ι} (hi : s.Inv) (hcharged : s.charged i = true)
    (hpending : s.Pending x j) : Doomed x s := by
  have hready := hi.charged i hcharged
  have hstage := hi.stage i
  rw [hready] at hstage
  obtain ⟨hpresent, hsized⟩ := hstage
  have hij : i ≠ j := by
    intro h
    rw [Startup.Pending, ← h, hready] at hpending
    cases hpending
  have h := ByItself.start x s j
  rw [Startup.Pending] at hpending
  -- it goes on by itself until it resets
  have htest : ByItself x s j s.seg .test → needInit x.lstat s.seg.fb = true → Doomed x s := by
    intro h hneed
    have h := h.next rfl (touch_sized hsized _ _)
    rw [if_pos hneed] at h
    exact h.doomed rfl hcharged hij
  cases hpc : s.pc j with
  | create =>
    rw [hpc] at h hpending
    have h := (h.next rfl (if_pos hpresent)).next rfl rfl
    exact htest (h.next rfl rfl) hpending
  | reopen =>
    rw [hpc] at h hpending
    exact htest ((h.next rfl rfl).next rfl rfl) hpending
  | mmap first =>
    rw [hpc] at h hpending
    cases first with
    | false => exact htest (h.next rfl rfl) hpending
    | true => exact (h.next rfl rfl).doomed rfl hcharged hij
  | test =>
    rw [hpc] at h hpending
    exact htest h hpending
  | truncate =>
    rw [hpc] at h
    exact ((h.next rfl rfl).next rfl rfl).doomed rfl hcharged hij
  | ready =>
    rw [hpc] at hpending
    cases hpending
  | fault =>
    rw [hpc] at hpending
    cases hpending
  | _ => exact h.doomed (by rw [hpc]; rfl) hcharged hij

theorem timely_of_safe {x : Starters ι} {s s' : Startup ι} {e : StartEvent ι} (hi : s.Inv)
    (hsafe : ∀ es t e t', (startup x).Run s es t → (startup x).step t e t' → Safe t e) (h : s.step x e s') :
    Timely x s e := by
  cases e with
  | next i =>
    intro htest j hj
    have hsized := (hsafe [] s (.next i) s' (.nil s) h).sized (by rw [Startup.Touches, htest]; rfl)
    have hstage := hi.stage j
    rw [hj] at hstage
    rw [hstage.2] at hsized
    cases hsized
  | charge i size =>
    intro j hj
    have hcharged : s'.charged i = true := by
      rw [h.2]
      exact Function.update_self ..
    have hpending : s'.Pending x j := by
      rw [h.2]
      exact hj
    obtain ⟨es, t, e, t', hrun, hstep, hunsafe⟩ := pending_doomed (inv_step hi h) hcharged hpending
    have hfirst : (startup x).step s (.charge i size) s' := h
    exact hunsafe (hsafe _ t e t' (.cons hfirst hrun) hstep)

theorem run_timely {x : Starters ι} {s t : Startup ι} {es : List (StartEvent ι)} (h : (startup x).Run s es t)
    (htimely : ∀ es t e t', (startup x).Run s es t → (startup x).step t e t' → Timely x t e) :
    ((startup x).restrict (Timely x)).Run s es t := by
  induction h with
  | nil s => exact .nil s
  | @cons s t u e es hstep _ ih =>
    have hfirst := htimely [] s e t (.nil s) hstep
    refine .cons ⟨hfirst, hstep⟩ (ih ?_)
    intro es t' e' t'' hrun hstep'
    exact htimely _ t' e' t'' (.cons hstep hrun) hstep'

/-- From every state of a timely run: all that can come is safe exactly if it is timely. -/
theorem always_safe_iff {x : Starters ι} {s : Startup ι} (h : ((startup x).restrict (Timely x)).Reach s) :
    (∀ es t e t', (startup x).Run s es t → (startup x).step t e t' → Safe t e) ↔
      ∀ es t e t', (startup x).Run s es t → (startup x).step t e t' → Timely x t e := by
  constructor
  · intro hsafe es t e t' hrun hstep
    have ht := reach_inv (h.of_restrict.run hrun)
    refine timely_of_safe ht ?_ hstep
    intro es' t₂ e₂ t₂' hrun' hstep'
    exact hsafe _ t₂ e₂ t₂' (hrun.append hrun') hstep'
  · intro htimely es t e t' hrun hstep
    obtain ⟨hi, hsettled⟩ := timely_inv (h.run (run_timely hrun htimely))
    exact hi.safe hsettled (htimely es t e t' hrun hstep) hstep

/-! ## Two processes -/

def twoStarters : Starters Bool where
  pid i := if i then 2 else 1
  total _ := 100
  lstat pid := if pid = 1 ∨ pid = 2 then .found else .failed enoent
  alive i := by cases i <;> decide

def noSegment : Startup Bool := ⟨⟨false, false, ⟨0, 0, 0⟩⟩, fun _ => .create, fun _ => false⟩

theorem noSegment_fresh : noSegment.Fresh := ⟨rfl, fun _ => rfl, fun _ => rfl⟩

section

variable {ok : Startup Bool → StartEvent Bool → Prop} {s : Startup Bool}

theorem reach_next (h : ((startup twoStarters).restrict ok).Reach s) (i : Bool) (hok : ok s (.next i))
    (hrun : (s.pc i).running = true) : ((startup twoStarters).restrict ok).Reach (s.next twoStarters i) :=
  h.step ⟨hok, hrun, rfl⟩

theorem reach_charge (h : ((startup twoStarters).restrict ok).Reach s) (i : Bool) (size : UInt64)
    (hok : ok s (.charge i size)) (hready : s.pc i = .ready) :
    ((startup twoStarters).restrict ok).Reach (s.charge i size) :=
  h.step ⟨hok, hready, rfl⟩

end

/-- One process is ready and has charged 60 when the other tests the pid. -/
theorem starts_safe_inTurn : ∃ s : Startup Bool, s.charged false = true ∧ s.seg.fb = ⟨1, 100, 40⟩ ∧
    s.pc true = .test ∧ Safe s (.next true) := by
  have h : ((startup twoStarters).restrict (Timely twoStarters)).Reach noSegment := .init noSegment_fresh
  have h := reach_next h false nofun rfl
  have h := reach_next h false nofun rfl
  have h := reach_next h false nofun rfl
  have h := reach_next h false nofun rfl
  have h := reach_next h false (fun _ j => by cases j <;> decide) rfl
  have h := reach_next h false nofun rfl
  have h := reach_next h false nofun rfl
  have h := reach_next h false nofun rfl
  have h := reach_charge h false 60 (fun j => by cases j <;> decide) rfl
  have h := reach_next h true nofun rfl
  have h := reach_next h true nofun rfl
  have h := reach_next h true nofun rfl
  exact ⟨_, rfl, rfl, rfl, starts_safe h ⟨fun _ j => by cases j <;> decide, rfl, rfl⟩⟩

/-- A process tests the pid before the other has sized the segment; and a process sets
    the ledger up and charges 60 before the one that made the segment clears it. -/
theorem start_races : ∃ s t, (startup twoStarters).Reach s ∧ s.pc true = .test ∧ s.seg.sized = false ∧
    ¬ Safe s (.next true) ∧ (startup twoStarters).Reach t ∧ t.charged true = true ∧ t.seg.fb = ⟨2, 100, 40⟩ ∧
    (t.next twoStarters false).seg.fb = ⟨0, 0, 0⟩ ∧ ¬ Safe t (.next false) := by
  have h : ((startup twoStarters).restrict fun _ _ => True).Reach noSegment := .init noSegment_fresh
  have h := reach_next h false trivial rfl
  have h := reach_next h true trivial rfl
  have h := reach_next h true trivial rfl
  have h := reach_next h true trivial rfl
  have hs := h
  have h := reach_next h false trivial rfl
  have h := reach_next h true trivial rfl
  have h := reach_next h true trivial rfl
  have h := reach_next h true trivial rfl
  have h := reach_next h true trivial rfl
  have h := reach_charge h true 60 trivial rfl
  have h := reach_next h false trivial rfl
  refine ⟨_, _, hs.of_restrict, rfl, rfl, ?_, h.of_restrict, rfl, rfl, rfl, ?_⟩
  · intro hsafe
    exact absurd (hsafe.sized rfl) (by decide)
  · intro hsafe
    exact absurd (hsafe.kept false true rfl rfl rfl) (by decide)

end NvResourceController.Ioctl
