/-
  NvResourceController.Ioctl.SharedLedger — the processes of a device, statement by
  statement: `gpu_device.mu` is each process's own, the ledger is one segment for all.

  A debit or credit of `free_mem` is a load and a store. Where another process stores
  in between, the store overwrites what that one wrote: `overwritten`.

  - `preStage_keeps`, `postStage_keeps`: every section, whatever the other processes do to
    the ledger meanwhile, puts into `alloc_mem` what it takes from what it loaded of
    `free_mem`.
  - `ledger_law`: with nobody inside, what is free, what the processes have allocated
    and what was overwritten make the limit.
  - `ledger_apart`: with the sections of different processes one after the other nothing
    is overwritten; `ledger_law_run`: with two that overlap, 60 of 100 bytes are.
-/

import NvResourceController.Lib.Interference
import NvResourceController.Ioctl.Threads
import Mathlib.Algebra.BigOperators.Group.Finset.Basic
import Mathlib.Algebra.BigOperators.Ring.Finset
import Mathlib.Data.Fintype.BigOperators

namespace NvResourceController.Ioctl

open Command Critical LinkedList Interference

/-! ## What a section does to the books -/

/-- `*gpu_device.fb_info`. -/
def fbSegment : Part DeviceMemory FbInfo where
  get dev := dev.fbInfo
  put dev fb := { dev with fbInfo := fb }
  get_put _ _ := rfl
  put_get _ := rfl
  put_put _ _ _ := rfl

/-- The statement is a store of `free_mem`. -/
def Stores (r : Config → Config → Prop) : Prop := ∃ op, (storeFreeMem op).head = some r

open Classical in
/-- What a store of `free_mem` finds there that was not there when the thread loaded it. -/
noncomputable def overwritten (r : Config → Config → Prop) (s : Config) : UInt64 :=
  if Stores r then s.1.fbInfo.freeMem - s.2.value else 0

/-- `owed`: what the section has taken from `free_mem` and not yet put into `alloc_mem`.
    `fresh`: no other process has changed `free_mem` since the section began, or since
    it last loaded it. -/
structure Books where
  owed : UInt64
  fresh : Bool

/-- What is free, allocated and owed changes by what the statement overwrites. -/
structure Keeps (r : Config → Config → Prop) (p q : Config × Books) : Prop where
  total : q.1.1.fbInfo.totalMem = p.1.1.fbInfo.totalMem
  sum : q.1.1.fbInfo.freeMem + (q.1.1.allocMem + q.2.owed) + overwritten r p.1
    = p.1.1.fbInfo.freeMem + (p.1.1.allocMem + p.2.owed)
  fresh : p.2.fresh = true → q.2.fresh = true ∧ overwritten r p.1 = 0

variable (calls : Call → Prop)

def bookkeeping : Discipline fbSegment (ioctlCode calls) Books where
  guar := Keeps
  disturb m fb fb' := ⟨m.owed, m.fresh && fb.freeMem == fb'.freeMem⟩
  fresh := ⟨0, true⟩
  rest m := m.owed = 0

/-! ### Assertions -/

/-- Inside, with nothing owed. -/
def Settled (p : Config × Books) : Prop := p.1.1.mu = true ∧ p.2.owed = 0

def entrySize (s : Config) : Option UInt64 := (field (lists.get s)).bind (Entry.onDeviceMem DeviceMem.size)

/-- `free_mem` is loaded. -/
def Loaded (p : Config × Books) : Prop := Settled p ∧ (p.2.fresh = true → p.1.2.value = p.1.1.fbInfo.freeMem)

def Sized (p : Config × Books) : Prop := Loaded p ∧ entrySize p.1 = some p.1.2.size

/-- `free_mem` is stored: `debt` of the entry's size is owed. -/
def Owing (debt : UInt64 → UInt64) (p : Config × Books) : Prop :=
  p.1.1.mu = true ∧ ∃ size, entrySize p.1 = some size ∧ p.2.owed = debt size

def OwingLoaded (debt : UInt64 → UInt64) (p : Config × Books) : Prop :=
  Owing debt p ∧ p.1.2.value = p.1.1.allocMem

def OwingSized (debt : UInt64 → UInt64) (p : Config × Books) : Prop :=
  OwingLoaded debt p ∧ entrySize p.1 = some p.1.2.size

variable {calls}

section
variable {debt : UInt64 → UInt64}

theorem stable_settled : (bookkeeping calls).rules.Stable Settled := by
  intro p q h hr
  obtain ⟨fb, rfl⟩ := hr
  exact h

theorem stable_loaded : (bookkeeping calls).rules.Stable Loaded := by
  intro p q h hr
  obtain ⟨fb, rfl⟩ := hr
  refine ⟨h.1, fun hf => ?_⟩
  obtain ⟨hfresh, hsame⟩ := Bool.and_eq_true_iff.mp hf
  exact (h.2 hfresh).trans (beq_iff_eq.mp hsame)

theorem stable_sized : (bookkeeping calls).rules.Stable Sized := by
  intro p q h hr
  refine ⟨stable_loaded p q h.1 hr, ?_⟩
  obtain ⟨fb, rfl⟩ := hr
  exact h.2

theorem stable_owing : (bookkeeping calls).rules.Stable (Owing debt) := by
  intro p q h hr
  obtain ⟨fb, rfl⟩ := hr
  exact h

theorem stable_owingLoaded : (bookkeeping calls).rules.Stable (OwingLoaded debt) := by
  intro p q h hr
  obtain ⟨fb, rfl⟩ := hr
  exact h

theorem stable_owingSized : (bookkeeping calls).rules.Stable (OwingSized debt) := by
  intro p q h hr
  obtain ⟨fb, rfl⟩ := hr
  exact h

end

/-! ### Statements -/

/-- A statement that leaves the ledger alone is no store of `free_mem`: that one, from
    somewhere, does not. -/
theorem not_stores {r : Config → Config → Prop} (h : ∀ s s', r s s' → s'.1.fbInfo = s.1.fbInfo) : ¬ Stores r := by
  rintro ⟨op, hop⟩
  cases hop
  have hfb := h (⟨true, 0, ⟨0, 0, op 0 0 + 1⟩, 0, true, initial ListHead ℕ Entry⟩, .start (sixty 7).args) _ rfl
  have hfree : op 0 0 = op 0 0 + 1 := congrArg FbInfo.freeMem hfb
  simp at hfree

theorem overwritten_store {r : Config → Config → Prop} (h : Stores r) (s : Config) :
    overwritten r s = s.1.fbInfo.freeMem - s.2.value := if_pos h

theorem overwritten_none {r : Config → Config → Prop} (h : ∀ s s', r s s' → s'.1.fbInfo = s.1.fbInfo) (s : Config) :
    overwritten r s = 0 := if_neg (not_stores h)

/-- A statement that leaves the mutex, the ledger and `alloc_mem` alone. -/
def Quiet (r : Config → Config → Prop) : Prop :=
  ∀ s s', r s s' → s'.1.mu = s.1.mu ∧ s'.1.fbInfo = s.1.fbInfo ∧ s'.1.allocMem = s.1.allocMem

theorem quiet_zoom {c : Cmd (LinkedList.State ListHead ℕ Entry)} (hc : c.Each fun _ => True) :
    (lists.zoom c).Each Quiet := by
  refine lists.zoom_each (fun r s s' h => ?_) hc
  obtain ⟨u, -, rfl⟩ := h
  exact ⟨rfl, rfl, rfl⟩

theorem quiet_set {f : DeviceMemory → Frame → Frame} : (set fun dev x => (dev, f dev x)).Each Quiet := by
  intro s s' h
  cases h
  exact ⟨rfl, rfl, rfl⟩

theorem quiet_setArgs {f : DeviceMemory → Args → Args} : (setArgs f).Each Quiet :=
  quiet_set (f := fun dev x => { x with args := f dev x.args })

theorem quiet_setSuccess : setSuccess.Each Quiet := quiet_set (f := fun _ x => { x with success := true })

theorem quiet_retNoMemory : retNoMemory.Each Quiet := quiet_set (f := fun _ x => { x with ret := -enomem })

theorem quiet_lists {f : Config → Option (LinkedList.State ListHead ℕ Entry)} :
    (Cmd.exec fun s => (f s).map (lists.put s)).Each Quiet := by
  intro s s' h
  obtain ⟨u, -, rfl⟩ := Option.map_eq_some_iff.mp h
  exact ⟨rfl, rfl, rfl⟩

theorem quiet_frame {α : Type} {f : Config → Option α} {g : Config → α → Frame} :
    (Cmd.exec fun s => (f s).map fun v => (s.1, g s v)).Each Quiet := by
  intro s s' h
  obtain ⟨u, -, rfl⟩ := Option.map_eq_some_iff.mp h
  exact ⟨rfl, rfl, rfl⟩

theorem quiet_search {h : ListHead} {test : Entry → Option Bool} {found : Cmd Config} (hf : found.Each Quiet) :
    (search lists h test found).Each Quiet := by
  have hbody : (Cmd.block [lists.zoom (.exec containerOf),
      .when (fun s => (field (lists.get s)).bind test) found,
      lists.zoom (.exec (loadNext Regs.iter fun r q => { r with iter := q }))]).Each Quiet :=
    ⟨rfl, quiet_zoom trivial, rfl, ⟨hf, trivial⟩, quiet_zoom trivial⟩
  exact ⟨rfl, quiet_zoom trivial, rfl, rfl, ⟨hbody, trivial⟩, hbody, trivial⟩

theorem quiet_fileRm {malloc : Bool} {object deviceId : Frame → RmMem → RmMem} :
    (fileRm malloc object deviceId).Each Quiet :=
  ⟨rfl, quiet_zoom trivial, quiet_retNoMemory, rfl, quiet_lists, rfl, quiet_lists,
    quiet_zoom ⟨rfl, trivial, rfl, trivial, rfl, trivial, rfl, trivial, trivial⟩⟩

theorem quiet_dropEntry : (Cmd.block dropEntry).Each Quiet :=
  ⟨rfl, quiet_zoom ⟨rfl, trivial, rfl, trivial, rfl, trivial, rfl, trivial, rfl, trivial, trivial⟩,
    quiet_zoom trivial⟩

theorem quiet_takeDeviceId : takeDeviceId.Each Quiet := ⟨rfl, quiet_frame, trivial⟩

/-! ### Sections -/

section
variable {c d : Cmd Config} {Q : Cmd.Exit → Config × Books → Prop}

/-- A statement that leaves the ledger alone and moves between `alloc_mem` and what is
    owed. -/
theorem keeps_private {r : Config → Config → Prop} {s s' : Config} {m m' : Books}
    (hr : ∀ s s', r s s' → s'.1.fbInfo = s.1.fbInfo) (h : r s s')
    (hmove : s'.1.allocMem + m'.owed = s.1.allocMem + m.owed) (hfresh : m.fresh = true → m'.fresh = true) :
    Keeps r (s, m) (s', m') := by
  have hfb := hr s s' h
  have hover := overwritten_none hr s
  refine ⟨by rw [hfb], ?_, fun hf => ⟨hfresh hf, hover⟩⟩
  show s'.1.fbInfo.freeMem + (s'.1.allocMem + m'.owed) + overwritten r s = _
  rw [hover, hfb, hmove, UInt64.add_zero]

theorem quiet_settled (h : c.Each Quiet) : Annotated (bookkeeping calls).rules Settled c fun _ => Settled := by
  refine .silent stable_settled (fun p hp => hp.1) (h.mono fun r hr p s' hp hstep => ?_)
  obtain ⟨hmu, -, halloc⟩ := hr _ _ hstep
  exact ⟨keeps_private (fun s s' hs => (hr s s' hs).2.1) hstep (by rw [halloc]) id, hmu.trans hp.1, hp.2⟩

theorem quiet_ends (h : c.Each Quiet) : Annotated (bookkeeping calls).rules Settled c (bookkeeping calls).ends :=
  (quiet_settled h).post fun _ _ hp => hp.2

theorem quiet_then (h : c.Each Quiet) (hc : c.exit = none) (hd : Annotated (bookkeeping calls).rules Settled d Q)
    (hq : ∀ p, Settled p → Q .broke p) : Annotated (bookkeeping calls).rules Settled (.seq c d) Q := by
  refine .seq hc ((quiet_settled h).post fun e p hp => ?_) hd
  cases e with
  | fell => exact hp
  | broke => exact hq p hp

theorem quiet_seq (h : c.Each Quiet) (hc : c.exit = none)
    (hd : Annotated (bookkeeping calls).rules Settled d (bookkeeping calls).ends) :
    Annotated (bookkeeping calls).rules Settled (.seq c d) (bookkeeping calls).ends :=
  quiet_then h hc hd fun _ hp => hp.2

theorem ite_settled {b : Config → Option Bool} (hc : Annotated (bookkeeping calls).rules Settled c Q)
    (hd : Annotated (bookkeeping calls).rules Settled d Q) :
    Annotated (bookkeeping calls).rules Settled (.ite b c d) Q :=
  .ite stable_settled (fun _ hp => ⟨hp.1, fun _ => hp, fun _ => hp⟩) hc hd

theorem unlock_settled : Annotated (bookkeeping calls).rules Settled unlockMu (bookkeeping calls).ends := by
  have hstable : (bookkeeping calls).rules.Stable fun p => p.2.owed = 0 := by
    intro p q h hr
    obtain ⟨fb, rfl⟩ := hr
    exact h
  refine .act stable_settled hstable (fun p hp => ⟨hp.1, fun s' hs => ⟨p.2, ?_, hp.2⟩⟩) fun _ hp => hp
  refine keeps_private (fun s s' h => ?_) hs ?_ id
  · cases h
    rfl
  · cases hs
    rfl

/-! ### Debits and credits -/

variable {debt : UInt64 → UInt64} {op : UInt64 → UInt64 → UInt64}

theorem load_keeps {α : Type} {f : Config → Option α} {g : Config → α → Frame} {s s' : Config} {m m' : Books}
    (h : (f s).map (fun v => (s.1, g s v)) = some s') (howed : m'.owed = m.owed)
    (hfresh : m.fresh = true → m'.fresh = true) :
    Keeps (fun s s' => (f s).map (fun v => (s.1, g s v)) = some s') (s, m) (s', m') := by
  refine keeps_private (fun s s' h => (quiet_frame s s' h).2.1) h ?_ hfresh
  rw [(quiet_frame s s' h).2.2, howed]

theorem assignFreeMem_owes (hop : ∀ a n, op a n + debt n = a) (hq : ∀ p, Owing debt p → Q .fell p) :
    Annotated (bookkeeping calls).rules Settled (assignFreeMem op) Q := by
  refine .act_seq (B := Loaded) stable_settled ?_ (.act_seq (B := Sized) stable_loaded ?_
    (.act (B := Owing debt) stable_sized stable_owing ?_ hq))
  · intro p hp
    refine ⟨hp.1, fun s' hs => ⟨⟨p.2.owed, true⟩, ?_, ?_⟩⟩
    · exact load_keeps (f := fun s => some s.1.fbInfo.freeMem) (g := fun s v => { s.2 with value := v }) hs rfl
        fun _ => rfl
    · cases hs
      exact ⟨hp, fun _ => rfl⟩
  · intro p hp
    refine ⟨hp.1.1, fun s' hs => ⟨p.2, ?_, ?_⟩⟩
    · exact load_keeps (g := fun s v => { s.2 with size := v }) hs rfl id
    · obtain ⟨size, hsize, rfl⟩ := Option.map_eq_some_iff.mp hs
      exact ⟨hp, hsize⟩
  · rintro ⟨⟨dev, x⟩, m⟩ ⟨⟨⟨hmu, howed⟩, hvalue⟩, hsize⟩
    refine ⟨hmu, fun s' hs => ?_⟩
    cases hs
    have hover := overwritten_store ⟨op, rfl⟩ (dev, x)
    refine ⟨⟨debt x.size, m.fresh⟩, ⟨rfl, ?_, fun hf => ⟨hf, ?_⟩⟩, hmu, x.size, hsize, rfl⟩
    · rw [howed, hover]
      show op x.value x.size + (dev.allocMem + debt x.size) + (dev.fbInfo.freeMem - x.value)
        = dev.fbInfo.freeMem + (dev.allocMem + 0)
      rw [eq_sub_of_add_eq (hop x.value x.size)]
      abel
    · rw [hover]
      show dev.fbInfo.freeMem - x.value = 0
      rw [hvalue hf]
      exact UInt64.sub_self _

theorem assignAllocMem_pays (hop : ∀ b n, op b n = b + debt n) (hq : ∀ p, Settled p → Q .fell p) :
    Annotated (bookkeeping calls).rules (Owing debt) (assignAllocMem op) Q := by
  refine .act_seq (B := OwingLoaded debt) stable_owing ?_ (.act_seq (B := OwingSized debt) stable_owingLoaded ?_
    (.act (B := Settled) stable_owingSized stable_settled ?_ hq))
  · intro p hp
    refine ⟨hp.1, fun s' hs => ⟨p.2, ?_, ?_⟩⟩
    · exact load_keeps (f := fun s => some s.1.allocMem) (g := fun s v => { s.2 with value := v }) hs rfl id
    · cases hs
      exact ⟨hp, rfl⟩
  · intro p hp
    refine ⟨hp.1.1, fun s' hs => ⟨p.2, ?_, ?_⟩⟩
    · exact load_keeps (g := fun s v => { s.2 with size := v }) hs rfl id
    · obtain ⟨size, hsize, rfl⟩ := Option.map_eq_some_iff.mp hs
      exact ⟨hp, hsize⟩
  · rintro ⟨⟨dev, x⟩, m⟩ ⟨⟨⟨hmu, size, hat, howed⟩, hvalue⟩, hsize⟩
    obtain rfl : size = x.size := Option.some.inj (hat.symm.trans hsize)
    refine ⟨hmu, fun s' hs => ⟨⟨0, m.fresh⟩, ?_, ?_⟩⟩
    · refine keeps_private (fun s s' h => ?_) hs ?_ id
      · cases h
        rfl
      · cases hs
        show op x.value x.size + 0 = dev.allocMem + m.owed
        rw [hop, howed, show x.value = dev.allocMem from hvalue, UInt64.add_zero]
    · cases hs
      exact ⟨hmu, rfl⟩

theorem assign_settled (debt : UInt64 → UInt64) {op₁ op₂ : UInt64 → UInt64 → UInt64}
    (h₁ : ∀ a n, op₁ a n + debt n = a) (h₂ : ∀ b n, op₂ b n = b + debt n)
    (hd : Annotated (bookkeeping calls).rules Settled d Q) :
    Annotated (bookkeeping calls).rules Settled (.seq (assignFreeMem op₁) (.seq (assignAllocMem op₂) d)) Q :=
  .seq rfl (assignFreeMem_owes h₁ fun _ hp => hp) (.seq rfl (assignAllocMem_pays h₂ fun _ hp => hp) hd)

/-! ### Handlers -/

/-- The stage's section, if it has one, keeps the books. -/
def Stage.KeepsBooks : Stage → Prop
  | .unlocked _ => True
  | .locked body _ => ∀ calls, Annotated (bookkeeping calls).rules Settled body (bookkeeping calls).ends

theorem fileMem_settled {malloc : Bool} {object size : Frame → DeviceMem → DeviceMem} {first : Cmd Config}
    {rest : List (Cmd Config)}
    (hrest : Annotated (bookkeeping calls).rules Settled (.block (first :: rest)) (bookkeeping calls).ends) :
    Annotated (bookkeeping calls).rules Settled (fileMem malloc object size (first :: rest))
      (bookkeeping calls).ends := by
  have hbooks : Annotated (bookkeeping calls).rules Settled
      (.seq (assignFreeMem (· - ·)) (.seq (assignAllocMem (· + ·)) (.block (first :: rest))))
      (bookkeeping calls).ends :=
    assign_settled id (fun a n => UInt64.sub_add_cancel a n) (fun b n => rfl) hrest
  refine quiet_seq (quiet_zoom trivial) rfl (ite_settled (quiet_ends quiet_retNoMemory) ?_)
  refine quiet_seq quiet_lists rfl (quiet_seq quiet_lists rfl (quiet_seq ?_ rfl hbooks))
  exact quiet_zoom ⟨rfl, trivial, rfl, trivial, rfl, trivial, rfl, trivial, trivial⟩

theorem freeHeapPage_settled {page : UInt32} :
    Annotated (bookkeeping calls).rules Settled (.seq (freeHeapPageCode page) unlockMu) (bookkeeping calls).ends := by
  have hdrop : Annotated (bookkeeping calls).rules Settled
      (.seq (assignFreeMem (· + ·)) (.seq (assignAllocMem (· - ·)) (.block dropEntry))) fun _ => Settled :=
    assign_settled (fun n => -n) (fun a n => by abel) (fun b n => UInt64.sub_eq_add_neg b n)
      (quiet_settled quiet_dropEntry)
  have hpage : Annotated (bookkeeping calls).rules Settled (freeHeapPageCode page) fun _ => Settled :=
    quiet_then (quiet_search trivial) rfl (ite_settled hdrop (.skip stable_settled fun _ hp => hp)) fun _ hp => hp
  refine .seq rfl (hpage.post fun e p hp => ?_) unlock_settled
  cases e with
  | fell => exact hp
  | broke => exact hp.2

theorem preStage_keeps (cmd : UInt32) (args : Args) : (preStage cmd args).KeepsBooks := by
  unfold preStage preVidHeapAllocStage preRmAllocStage
  dsimp only
  split
  · split
    · split
      · intro calls
        exact quiet_seq ⟨⟨rfl, quiet_setArgs, rfl, quiet_setArgs, rfl, quiet_setArgs, quiet_setSuccess⟩, trivial⟩ rfl
          unlock_settled
      · trivial
    · intro calls
      exact quiet_seq ⟨⟨rfl, quiet_setArgs, rfl, quiet_setArgs, quiet_setArgs⟩, trivial⟩ rfl unlock_settled
    · trivial
  · split
    · split
      · split
        · intro calls
          exact quiet_seq ⟨⟨rfl, quiet_setArgs, quiet_setSuccess⟩, trivial⟩ rfl unlock_settled
        · trivial
      · trivial
    · trivial

theorem postRmAllocStage_keeps (malloc : Bool) (args : Args) : (postRmAllocStage malloc args).KeepsBooks := by
  unfold postRmAllocStage
  dsimp only
  split
  · intro calls
    exact quiet_seq quiet_fileRm rfl unlock_settled
  · intro calls
    exact quiet_seq (quiet_search quiet_takeDeviceId) rfl (quiet_seq ⟨trivial, quiet_fileRm⟩ rfl unlock_settled)
  · unfold postMemoryRmAllocStage
    split
    · trivial
    · dsimp only
      split
      · trivial
      · intro calls
        exact fileMem_settled unlock_settled
  · trivial

theorem postVidHeapAllocStage_keeps (malloc : Bool) (args : Args) :
    (postVidHeapAllocStage malloc args).KeepsBooks := by
  unfold postVidHeapAllocStage
  dsimp only
  split
  · trivial
  · split
    · trivial
    · intro calls
      exact fileMem_settled (quiet_seq quiet_setArgs rfl (quiet_seq quiet_setArgs rfl unlock_settled))

theorem postRmControlStage_keeps (os : Os) (minor : UInt32) (args : Args) :
    (postRmControlStage os minor args).KeepsBooks := by
  have hsearch : ∀ handle params answer, (fbGetInfoStage os handle params answer).KeepsBooks :=
    fun _ _ _ _ => quiet_seq (quiet_search quiet_takeDeviceId) rfl unlock_settled
  unfold postRmControlStage
  dsimp only
  split
  · trivial
  · split
    · trivial
    · split
      · exact hsearch _ _ _
      · exact hsearch _ _ _
      · trivial

theorem postRmFreeStage_keeps (minor : UInt32) (args : Args) : (postRmFreeStage minor args).KeepsBooks := by
  unfold postRmFreeStage
  dsimp only
  split
  · trivial
  · split
    · trivial
    · split
      · trivial
      · intro calls
        split
        · refine quiet_seq ⟨rfl, quiet_search trivial, quiet_dropEntry, trivial⟩ rfl unlock_settled
        · exact freeHeapPage_settled

theorem postStage_keeps (malloc : Bool) (os : Os) (major minor cmd : UInt32) (args : Args) :
    (postStage malloc os major minor cmd args).KeepsBooks := by
  unfold postStage
  dsimp only
  split
  · trivial
  · split
    · unfold postRmVidHeapControlStage
      split
      · trivial
      · split
        · exact postVidHeapAllocStage_keeps malloc args
        · trivial
    · split
      · exact postRmControlStage_keeps os minor args
      · split
        · exact postRmFreeStage_keeps minor args
        · split
          · exact postRmAllocStage_keeps malloc args
          · trivial

end

/-! ## The processes of a device -/

section
variable {ι π : Type} [DecidableEq ι] [DecidableEq π]

/-- The threads `ι` of the processes `π`, on one segment. -/
abbrev Machines (ι π : Type) (calls : Call → Prop) := Groups ι π FbInfo DeviceMemory Frame (Place calls)

/-- The ledger is set up with the limit `total`, and the processes with it. -/
def Launched (total : UInt64) (fb : FbInfo) (own : π → DeviceMemory) : Prop :=
  fb.totalMem = total ∧ fb.freeMem = total ∧
    ∀ p, ∃ minor, own p = .of (initial ListHead ℕ Entry) ⟨false, minor, fb, 0, true, [], []⟩

/-- The threads of the processes on one segment; `proc` says whose each is. -/
def processThreads (calls : Call → Prop) (proc : ι → π) (total : UInt64) :
    System (Machines ι π calls) ι :=
  groups fbSegment proc (ioctlCode calls) (Launched total) (.doing (.idle none))

variable {calls : Call → Prop}

omit [DecidableEq ι] [DecidableEq π] in
/-- What the thread's next step overwrites. -/
noncomputable def overwrites (proc : ι → π) (s : Machines ι π calls) (t : ι) : UInt64 :=
  match s.thread t, s.head t with
  | .inside _ _ x, some r => overwritten r (s.view fbSegment (proc t), x)
  | _, _ => 0

theorem bookkeeping_sound : (bookkeeping calls).Sound where
  sections := by
    intro n c x dev henter hheld
    refine ⟨code_refines.starts henter, Settled, ?_, rfl, rfl⟩
    cases n with
    | doing y => cases henter
    | lockPre call last body result hl =>
      cases henter
      have hkeeps := preStage_keeps call.cmd.toUInt32 call.args
      rw [show preStage call.cmd.toUInt32 call.args = .locked c result from hl.2] at hkeeps
      exact hkeeps calls
    | lockPost call body result hl =>
      cases henter
      have hkeeps :=
        postStage_keeps call.malloc call.os call.number.2.1 call.number.2.2 call.cmd.toUInt32 call.reply.2
      rw [show postStage _ _ _ _ _ _ = .locked c result from hl] at hkeeps
      exact hkeeps calls
  rests _ _ h := h
  held _ _ := rfl

variable {proc : ι → π} {s s' : Machines ι π calls} {m m' : π → Books} {t : ι}

omit [DecidableEq ι] [DecidableEq π] in
/-- A step keeps what is free and what its process has allocated and owes, but for what
    it overwrites. -/
theorem moves_keep (h : (bookkeeping calls).Moves proc s m t s' m') :
    s'.shared.totalMem = s.shared.totalMem ∧
      s'.shared.freeMem + ((s'.own (proc t)).allocMem + (m' (proc t)).owed) + overwrites proc s t
        = s.shared.freeMem + ((s.own (proc t)).allocMem + (m (proc t)).owed) := by
  have hshared : ∀ s : Machines ι π calls, s.shared = (s.view fbSegment (proc t)).fbInfo :=
    fun _ => rfl
  have hown : ∀ s : Machines ι π calls,
      (s.own (proc t)).allocMem = (s.view fbSegment (proc t)).allocMem := fun _ => rfl
  rw [hshared s, hshared s', hown s, hown s']
  cases h with
  | quiet hhead hrun hview hm =>
    have hnone : overwrites proc s t = 0 := by simp [overwrites, hhead]
    rw [hnone, hview, hm]
    exact ⟨rfl, UInt64.add_zero _⟩
  | enter hout henter hno hview hrest hm =>
    have hnone : overwrites proc s t = 0 := by simp [overwrites, hout]
    have howed : (m (proc t)).owed = 0 := hrest
    rw [hnone, hview, hm, howed]
    exact ⟨rfl, UInt64.add_zero _⟩
  | @statement r x x' n c c' hhead hrun hx hx' hguar =>
    have hover : overwrites proc s t = overwritten r (s.view fbSegment (proc t), x) := by simp [overwrites, hhead, hx]
    rw [hover]
    exact ⟨hguar.total, hguar.sum⟩

/-! ### What is free, allocated and overwritten -/

variable [Fintype π] {total lost : UInt64}

/-- With the auxiliary values `m`, everything is accounted for. -/
structure Reckoned (proc : ι → π) (total : UInt64) (s : Machines ι π calls)
    (lost : UInt64) (m : π → Books) : Prop where
  manned : ∀ p, (bookkeeping calls).Manned proc s m p
  limit : s.shared.totalMem = total
  sum : s.shared.freeMem + ∑ p, ((s.own p).allocMem + (m p).owed) + lost = total

omit [DecidableEq ι] in
theorem sum_share (f : π → UInt64) (p : π) : ∃ rest, (∑ q, f q = f p + rest) ∧
    ∀ g : π → UInt64, (∀ q, q ≠ p → g q = f q) → ∑ q, g q = g p + rest := by
  refine ⟨_, Fintype.sum_eq_add_sum_compl p f, fun g hg => ?_⟩
  rw [Fintype.sum_eq_add_sum_compl p g]
  congr 1
  exact Finset.sum_congr rfl fun q hq => hg q (by simpa using hq)

theorem reckoned_init (h : (processThreads calls proc total).init s) : ∃ m, Reckoned proc total s 0 m := by
  obtain ⟨⟨htotal, hfree, hown⟩, hthread⟩ := h
  refine ⟨fun _ => ⟨0, true⟩, fun p => .inl ⟨rfl, fun t _ => ?_⟩, htotal, ?_⟩
  · rw [hthread]
    exact id
  · have hzero : ∀ p, (s.own p).allocMem + 0 = 0 := by
      intro p
      obtain ⟨minor, hp⟩ := hown p
      rw [hp]
      rfl
    simp only [hzero, Finset.sum_const_zero, hfree, UInt64.add_zero]

theorem reckoned_step (hr : Reckoned proc total s lost m) (hstep : (processThreads calls proc total).step s t s') :
    ∃ m', Reckoned proc total s' (lost + overwrites proc s t) m' ∧ (bookkeeping calls).Moves proc s m t s' m' ∧
      ∀ p, p ≠ proc t → m' p = (bookkeeping calls).disturb (m p) s.shared s'.shared := by
  obtain ⟨m', hmanned, hother, hmoves⟩ := bookkeeping_sound.step hr.manned hstep
  obtain ⟨hlimit, hkeep⟩ := moves_keep hmoves
  refine ⟨m', ⟨hmanned, hlimit.trans hr.limit, ?_⟩, hmoves, hother⟩
  obtain ⟨rest, hsum, hframe⟩ := sum_share (fun p => (s.own p).allocMem + (m p).owed) (proc t)
  have hsum' := hframe (fun p => (s'.own p).allocMem + (m' p).owed) fun p hp => by
    have howed : (m' p).owed = (m p).owed := by rw [hother p hp]; rfl
    obtain ⟨dev, k, -, rfl⟩ := hstep
    rw [howed, show (moved proc s fbSegment t dev k).own p = s.own p from Function.update_of_ne hp _ _]
  have hlaw := hr.sum
  rw [hsum] at hlaw
  rw [hsum']
  calc s'.shared.freeMem + ((s'.own (proc t)).allocMem + (m' (proc t)).owed + rest) + (lost + overwrites proc s t)
      = s'.shared.freeMem + ((s'.own (proc t)).allocMem + (m' (proc t)).owed) + overwrites proc s t
          + (rest + lost) := by abel
    _ = s.shared.freeMem + ((s.own (proc t)).allocMem + (m (proc t)).owed) + (rest + lost) := by rw [hkeep]
    _ = s.shared.freeMem + ((s.own (proc t)).allocMem + (m (proc t)).owed + rest) + lost := by abel
    _ = total := hlaw

omit [DecidableEq ι] [DecidableEq π] in
theorem reckoned_idle (hr : Reckoned proc total s lost m) (hno : ∀ t, ¬ (s.thread t).running) :
    s.shared.freeMem + ∑ p, (s.own p).allocMem + lost = total := by
  have howed : ∀ p, (m p).owed = 0 := by
    intro p
    rcases hr.manned p with ⟨hrest, -⟩ | ⟨t, -, hw, -⟩
    · exact hrest
    · exact absurd hw.running (hno t)
  have hsum := hr.sum
  simpa only [howed, UInt64.add_zero] using hsum

/-- The threads, with the bytes overwritten so far. -/
noncomputable def ledgerThreads (calls : Call → Prop) (proc : ι → π) (total : UInt64) :
    System (Machines ι π calls × UInt64) ι :=
  (processThreads calls proc total).tracking 0 fun lost s t => lost + overwrites proc s t

/-- Whatever the processes do: with nobody inside, what is free, what they have allocated
    and what was overwritten make the limit; so the ledger is right when what was
    overwritten adds up to nothing, and only then. -/
theorem ledger_law (h : (ledgerThreads calls proc total).Reach (s, lost)) (hno : ∀ t, ¬ (s.thread t).running) :
    s.shared.totalMem = total ∧ s.shared.freeMem + ∑ p, (s.own p).allocMem + lost = total ∧
      (s.shared.freeMem + ∑ p, (s.own p).allocMem = total ↔ lost = 0) := by
  have hinv : ∃ m, Reckoned proc total s lost m := by
    refine System.Reach.inv (I := fun q => ∃ m, Reckoned proc total q.1 q.2 m) ?_ ?_ h
    · rintro ⟨s, lost⟩ ⟨hinit, hlost⟩
      obtain rfl : lost = 0 := hlost
      exact reckoned_init hinit
    · rintro ⟨s, lost⟩ t ⟨s', lost'⟩ ⟨m, hr⟩ ⟨hstep, hlost⟩
      obtain rfl : lost' = lost + overwrites proc s t := hlost
      obtain ⟨m', hr', -⟩ := reckoned_step hr hstep
      exact ⟨m', hr'⟩
  obtain ⟨m, hr⟩ := hinv
  have hlaw := reckoned_idle hr hno
  refine ⟨hr.limit, hlaw, fun he => ?_, fun hl => ?_⟩
  · rw [he] at hlaw
    exact left_eq_add.mp hlaw.symm
  · rw [hl, UInt64.add_zero] at hlaw
    exact hlaw

/-! ### Sections of different processes one after the other -/

omit [DecidableEq ι] [DecidableEq π] [Fintype π] in
def AtLock (s : Machines ι π calls) (t : ι) : Prop :=
  ∃ n, s.thread t = .out n ∧ ((ioctlCode calls).enter n).isSome

/-- A thread takes its process's mutex only while no thread of another process is inside. -/
def Apart (proc : ι → π) (s : Machines ι π calls) (t : ι) : Prop :=
  AtLock s t → ∀ u, proc u ≠ proc t → ¬ (s.thread u).running

/-- Those inside are of one process, and have seen no change of the ledger. -/
structure Undisturbed (proc : ι → π) (s : Machines ι π calls) (m : π → Books) :
    Prop where
  one : ∀ t u, (s.thread t).running → (s.thread u).running → proc t = proc u
  fresh : ∀ t, (s.thread t).running → (m (proc t)).fresh = true

omit [DecidableEq ι] [DecidableEq π] [Fintype π] in
theorem overwrites_nothing (hmoves : (bookkeeping calls).Moves proc s m t s' m') (hu : Undisturbed proc s m) :
    overwrites proc s t = 0 := by
  cases hmoves with
  | quiet hhead => simp [overwrites, hhead]
  | enter hout => simp [overwrites, hout]
  | @statement r x x' n c c' hhead hrun hx hx' hguar =>
    have hover := (hguar.fresh (hu.fresh t hrun)).2
    simpa [overwrites, hhead, hx] using hover

omit [Fintype π] in
theorem undisturbed_step (hu : Undisturbed proc s m) (hapart : Apart proc s t)
    (hstep : (processThreads calls proc total).step s t s') (hmoves : (bookkeeping calls).Moves proc s m t s' m')
    (hother : ∀ p, p ≠ proc t → m' p = (bookkeeping calls).disturb (m p) s.shared s'.shared) :
    Undisturbed proc s' m' := by
  have hthread : ∀ u, u ≠ t → s'.thread u = s.thread u := by
    intro u hut
    obtain ⟨dev, k, -, rfl⟩ := hstep
    exact Function.update_of_ne hut _ _
  have hwas : ∀ u, u ≠ t → (s'.thread u).running → (s.thread u).running := by
    intro u hut hrun
    rwa [hthread u hut] at hrun
  cases hmoves with
  | quiet hhead hrun hview hm =>
    have hback : ∀ u, (s'.thread u).running → (s.thread u).running := by
      intro u hu'
      by_cases hut : u = t
      · subst hut
        exact hrun hu'
      · exact hwas u hut hu'
    refine ⟨fun u v h h' => hu.one u v (hback u h) (hback v h'), fun u h => ?_⟩
    have hfresh := hu.fresh u (hback u h)
    by_cases hp : proc u = proc t
    · rw [hp, hm, ← hp]
      exact hfresh
    · have hshared : s'.shared = s.shared := congrArg DeviceMemory.fbInfo hview
      rw [hother _ hp, hshared]
      simp [bookkeeping, hfresh]
  | @enter n hout henter hno hview hrest hm =>
    have halone : ∀ u, (s'.thread u).running → u = t := by
      intro u hu'
      by_contra hut
      have hrun := hwas u hut hu'
      by_cases hp : proc u = proc t
      · exact hno u hp hrun
      · exact hapart ⟨n, hout, henter⟩ u hp hrun
    refine ⟨fun u v h h' => by rw [halone u h, halone v h'], fun u h => ?_⟩
    rw [halone u h, hm]
    rfl
  | @statement r x x' n c c' hhead hrun hx hx' hguar =>
    have hsame : ∀ u, (s'.thread u).running → proc u = proc t := by
      intro u hu'
      by_cases hut : u = t
      · rw [hut]
      · exact hu.one u t (hwas u hut hu') hrun
    refine ⟨fun u v h h' => (hsame u h).trans (hsame v h').symm, fun u h => ?_⟩
    rw [hsame u h]
    exact (hguar.fresh (hu.fresh t hrun)).1

/-- Were the sections of different processes never to overlap, the ledger would be right:
    with nobody inside, what is free and what the processes have allocated make the limit. -/
theorem ledger_apart (h : ((processThreads calls proc total).restrict (Apart proc)).Reach s)
    (hno : ∀ t, ¬ (s.thread t).running) : s.shared.freeMem + ∑ p, (s.own p).allocMem = total := by
  have hinv : ∃ m, Reckoned proc total s 0 m ∧ Undisturbed proc s m := by
    refine System.Reach.inv (I := fun s => ∃ m, Reckoned proc total s 0 m ∧ Undisturbed proc s m) ?_ ?_ h
    · intro s hinit
      obtain ⟨m, hr⟩ := reckoned_init hinit
      have hout : ∀ t, ¬ (s.thread t).running := by
        intro t
        rw [hinit.2]
        exact id
      exact ⟨m, hr, fun t u ht => absurd ht (hout t), fun t ht => absurd ht (hout t)⟩
    · rintro s t s' ⟨m, hr, hu⟩ ⟨hapart, hstep⟩
      obtain ⟨m', hr', hmoves, hother⟩ := reckoned_step hr hstep
      rw [overwrites_nothing hmoves hu, UInt64.add_zero] at hr'
      exact ⟨m', hr', undisturbed_step hu hapart hstep hmoves hother⟩
  obtain ⟨m, hr, -⟩ := hinv
  have hlaw := reckoned_idle hr hno
  rwa [UInt64.add_zero] at hlaw

end

/-! ## Two processes, 60 of 100 bytes each -/

/-- The end of the section of a charge. -/
def answerCharge : List (Cmd Config) := [
  setArgs fun dev args => { args with nvos32 := { args.nvos32 with total := dev.fbInfo.totalMem } },
  setArgs fun dev args => { args with nvos32 := { args.nvos32 with free := dev.fbInfo.freeMem } },
  unlockMu]

/-- What is left of it when `free_mem` is to be stored. -/
def debitAndCharge : Cmd Config :=
  .seq (storeFreeMem (· - ·)) (.seq (assignAllocMem (· + ·)) (.block answerCharge))

theorem sixty_stage : (sixty 7).postStage = .locked (fileMem true (fun _ mem => { mem with object := 7 })
    (fun _ mem => { mem with size := 60 }) answerCharge) Frame.result := rfl

theorem sixty_loads (fb : FbInfo) (hfree : ¬ fb.freeMem < 60) : ∃ n heap regs args,
    Solo (ioctlCode fun _ => True) ⟨false, 0, fb, 0, true, initial ListHead ℕ Entry⟩ (.out (.doing (.idle none)))
      ⟨true, 0, fb, 0, true, heap⟩ (.inside n debitAndCharge ⟨regs, args, false, 0, -1, fb.freeMem, 60⟩) ∧
    ∀ fb x, x.regs = regs → entrySize (⟨true, 0, fb, 0, true, heap⟩, x) = some 60 := by
  have h : Solo (ioctlCode fun _ => True) ⟨false, 0, fb, 0, true, initial ListHead ℕ Entry⟩
      (.out (.doing (.idle none))) _ _ := .one (.outside (.lockPre (c := sixty 7) ⟨⟨trivial, rfl, rfl⟩, rfl⟩))
  have h := h.snoc (.enter rfl rfl)
  have h := h.snoc (.inside (.seq (.ite (v := false) (congrArg some (decide_eq_false hfree)))))
  have h := h.snoc (.inside (.act rfl))
  have h := h.snoc (.leave (e := .fell) rfl)
  have h := h.snoc (.outside .kernel)
  have h := h.snoc (.outside (.lockPost (c := sixty 7) sixty_stage))
  have h := h.snoc (.enter rfl rfl)
  have h := h.snoc (.inside (.seq (.act ⟨_, ⟨0, .deviceMem ⟨0, 0⟩, .null, .null, rfl, trivial, rfl⟩, rfl⟩)))
  have h := h.snoc (.inside (.ite (v := false) rfl))
  have h := h.snoc (.inside (.seq (.act rfl)))
  have h := h.snoc (.inside (.seq (.act rfl)))
  have h := h.snoc (.inside (.seq (.seq (.act ⟨_, rfl, rfl⟩))))
  have h := h.snoc (.inside (.seq (.seq (.act ⟨_, rfl, rfl⟩))))
  have h := h.snoc (.inside (.seq (.seq (.act ⟨_, rfl, rfl⟩))))
  have h := h.snoc (.inside (.seq (.seq (.act ⟨_, rfl, rfl⟩))))
  have h := h.snoc (.inside (.seq (.act ⟨_, rfl, rfl⟩)))
  have h := h.snoc (.inside (.seq (.seq (.act rfl))))
  have h := h.snoc (.inside (.seq (.seq (.act rfl))))
  refine ⟨_, _, _, _, h, ?_⟩
  intro fb x hx
  simp only [entrySize, field, lists, hx]
  rfl

theorem sixty_debits {n : Place fun _ => True} {heap : Memory ListHead ℕ Entry} {regs : Regs ListHead ℕ}
    (fb : FbInfo) (free : UInt64) (args : Args)
    (hsize : ∀ fb x, x.regs = regs → entrySize (⟨true, 0, fb, 0, true, heap⟩, x) = some 60) : ∃ x,
    Solo (ioctlCode fun _ => True) ⟨true, 0, fb, 0, true, heap⟩
      (.inside n debitAndCharge ⟨regs, args, false, 0, -1, free, 60⟩)
      ⟨false, 0, ⟨fb.pid, fb.totalMem, free - 60⟩, 60, true, heap⟩ (.out ((ioctlCode fun _ => True).leave n x)) := by
  have h : Solo (ioctlCode fun _ => True) ⟨true, 0, fb, 0, true, heap⟩
      (.inside n debitAndCharge ⟨regs, args, false, 0, -1, free, 60⟩) _ _ := .one (.inside (.seq (.act rfl)))
  have h := h.snoc (.inside (.seq (.seq (.act rfl))))
  have h := h.snoc (.inside (.seq (.seq (.act (congrArg (Option.map _) (hsize _ _ rfl))))))
  have h := h.snoc (.inside (.seq (.act rfl)))
  have h := h.snoc (.inside (.seq (.act rfl)))
  have h := h.snoc (.inside (.seq (.act rfl)))
  have h := h.snoc (.inside (.act rfl))
  exact ⟨_, h.snoc (.leave (e := .fell) rfl)⟩

def twoThreads (limit : UInt64) : Machines (Fin 2) (Fin 2) fun _ => True :=
  ⟨⟨1, limit, limit⟩, fun _ => .of (initial ListHead ℕ Entry) ⟨false, 0, ⟨1, limit, limit⟩, 0, true, [], []⟩,
    fun _ => .out (.doing (.idle none))⟩

theorem twoThreads_launched (limit : UInt64) : (processThreads (fun _ => True) id limit).init (twoThreads limit) :=
  ⟨⟨rfl, rfl, fun _ => ⟨0, rfl⟩⟩, rfl⟩

/-- Both load 100, then both store 40. -/
theorem ledger_law_run : ∃ (s : Machines (Fin 2) (Fin 2) fun _ => True) (lost : UInt64),
    (ledgerThreads (fun _ => True) id 100).Reach (s, lost) ∧ (∀ t, ¬ (s.thread t).running) ∧
      s.shared.freeMem = 40 ∧ ∑ p, (s.own p).allocMem = 120 ∧
      s.shared.freeMem + ∑ p, (s.own p).allocMem + lost = 100 ∧ lost ≠ 0 := by
  obtain ⟨n, heap, regs, args, hload, hsize⟩ := sixty_loads ⟨1, 100, 100⟩ (by decide)
  obtain ⟨x, hdebit⟩ := sixty_debits (n := n) ⟨1, 100, 100⟩ 100 args hsize
  obtain ⟨y, hdebit'⟩ := sixty_debits (n := n) ⟨1, 100, 40⟩ 100 args hsize
  have h : ((processThreads (fun _ => True) id 100).restrict fun _ (_ : Fin 2) => True).Reach (twoThreads 100) :=
    .init (twoThreads_launched 100)
  have h := reach_alone (t := 0) (fun _ _ => trivial) h hload
  have h := reach_alone (t := 1) (fun _ _ => trivial) h hload
  have h := reach_alone (t := 0) (fun _ _ => trivial) h hdebit
  have h := reach_alone (t := 1) (fun _ _ => trivial) h hdebit'
  have htracked : ∃ lost, (ledgerThreads (fun _ => True) id 100).Reach (_, lost) := h.of_restrict.tracked
  obtain ⟨lost, hlost⟩ := htracked
  obtain ⟨-, hlaw, hiff⟩ := ledger_law hlost (Fin.forall_fin_two.mpr ⟨id, id⟩)
  refine ⟨_, lost, hlost, Fin.forall_fin_two.mpr ⟨id, id⟩, rfl, rfl, hlaw, fun hl => ?_⟩
  have hne : (40 : UInt64) + 120 ≠ 100 := by decide
  exact hne (hiff.mpr hl)

/-- The one process charges 60 of 200 bytes, then the other does. -/
theorem ledger_apart_run : ∃ s : Machines (Fin 2) (Fin 2) fun _ => True,
    ((processThreads (fun _ => True) id 200).restrict (Apart id)).Reach s ∧ s.shared.freeMem = 80 ∧
      (s.own 0).allocMem = 60 ∧ (s.own 1).allocMem = 60 ∧ s.shared.freeMem + ∑ p, (s.own p).allocMem = 200 := by
  obtain ⟨n, heap, regs, args, hload, hsize⟩ := sixty_loads ⟨1, 200, 200⟩ (by decide)
  obtain ⟨x, hdebit⟩ := sixty_debits (n := n) ⟨1, 200, 200⟩ 200 args hsize
  obtain ⟨n', heap', regs', args', hload', hsize'⟩ := sixty_loads ⟨1, 200, 140⟩ (by decide)
  obtain ⟨x', hdebit'⟩ := sixty_debits (n := n') ⟨1, 200, 140⟩ 140 args' hsize'
  have hapart : ∀ (t : Fin 2) (s s' : Machines (Fin 2) (Fin 2) fun _ => True),
      (∀ u, u ≠ t → ¬ (s.thread u).running) → (∀ u, u ≠ t → s'.thread u = s.thread u) → Apart id s' t := by
    intro t s s' hout hsame _ u hu
    rw [hsame u hu]
    exact hout u hu
  have h : ((processThreads (fun _ => True) id 200).restrict (Apart id)).Reach (twoThreads 200) :=
    .init (twoThreads_launched 200)
  have h := reach_alone (t := 0) (fun s => hapart 0 _ s fun u _ => id) h hload
  have h := reach_alone (t := 0) (fun s => hapart 0 _ s (Fin.forall_fin_two.mpr ⟨fun h => absurd rfl h, fun _ => id⟩))
    h hdebit
  have h := reach_alone (t := 1) (fun s => hapart 1 _ s (Fin.forall_fin_two.mpr ⟨fun _ => id, fun h => absurd rfl h⟩))
    h hload'
  have h := reach_alone (t := 1) (fun s => hapart 1 _ s (Fin.forall_fin_two.mpr ⟨fun _ => id, fun h => absurd rfl h⟩))
    h hdebit'
  exact ⟨_, h, rfl, rfl, rfl, ledger_apart h (Fin.forall_fin_two.mpr ⟨id, id⟩)⟩

end NvResourceController.Ioctl
